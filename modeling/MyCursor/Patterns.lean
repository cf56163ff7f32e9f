import Mathlib.Computability.RegularExpressions

/-!
# Regular expressions of one character after another

Classes of characters, optional parts and repetitions over the regular
expressions of Mathlib, and what their languages are.
-/
namespace Patterns

variable {α : Type}

def oneOf (letters : List α) : RegularExpression α := letters.foldr (fun a rest => .char a + rest) 0
/-- `P?`. -/
def optional (P : RegularExpression α) : RegularExpression α := 1 + P
/-- `P+`. -/
def oneOrMore (P : RegularExpression α) : RegularExpression α := P * P.star

variable {text : List α}

theorem mem_char {a : α} : text ∈ (RegularExpression.char a).matches' ↔ text = [a] := Iff.rfl
theorem mem_oneOf {letters : List α} : text ∈ (oneOf letters).matches' ↔ ∃ a ∈ letters, text = [a] := by
  induction letters with
  | nil =>
    rw [oneOf,List.foldr_nil,RegularExpression.matches'_zero]
    exact ⟨False.elim,fun ⟨_,member,_⟩ => absurd member List.not_mem_nil⟩
  | cons a rest ih =>
    rw [oneOf,List.foldr_cons,RegularExpression.matches'_add,Language.mem_add,mem_char]
    simp only [List.mem_cons,or_and_right,exists_or,exists_eq_left]
    exact or_congr_right ih

variable {P : RegularExpression α}

theorem mem_optional : text ∈ (optional P).matches' ↔ text = [] ∨ text ∈ P.matches' := by
  rw [optional,RegularExpression.matches'_add,Language.mem_add,RegularExpression.matches'_epsilon,Language.mem_one]
theorem mem_mul {Q : RegularExpression α} : text ∈ (P * Q).matches' ↔ ∃ a ∈ P.matches', ∃ b ∈ Q.matches', a ++ b = text := by
  rw [RegularExpression.matches'_mul,Language.mem_mul]
theorem mem_add {Q : RegularExpression α} : text ∈ (P + Q).matches' ↔ text ∈ P.matches' ∨ text ∈ Q.matches' := by
  rw [RegularExpression.matches'_add,Language.mem_add]

theorem mem_star : text ∈ P.star.matches' ↔ ∃ parts : List (List α), text = parts.flatten ∧ ∀ part ∈ parts, part ∈ P.matches' := by
  rw [RegularExpression.matches'_star,Language.mem_kstar]
theorem star_nil (P : RegularExpression α) : [] ∈ P.star.matches' := mem_star.mpr ⟨[],rfl,fun _ member => absurd member List.not_mem_nil⟩
theorem star_append {first rest : List α} (isFirst : first ∈ P.matches') (isRest : rest ∈ P.star.matches') :
    first ++ rest ∈ P.star.matches' := by
  obtain ⟨parts,rfl,each⟩ := mem_star.mp isRest
  refine mem_star.mpr ⟨first :: parts,rfl,fun part member => ?_⟩
  rcases List.mem_cons.mp member with rfl | later
  · exact isFirst
  · exact each part later

theorem mem_star_oneOf {letters : List α} : text ∈ (oneOf letters).star.matches' ↔ ∀ a ∈ text, a ∈ letters := by
  constructor
  · intro member a isLetter
    obtain ⟨parts,rfl,each⟩ := mem_star.mp member
    obtain ⟨part,isPart,inPart⟩ := List.mem_flatten.mp isLetter
    obtain ⟨b,known,rfl⟩ := mem_oneOf.mp (each part isPart)
    rw [List.mem_singleton.mp inPart]
    exact known
  · intro all
    induction text with
    | nil => exact star_nil _
    | cons a rest ih =>
      exact star_append (show [a] ∈ _ from mem_oneOf.mpr ⟨a,all a List.mem_cons_self,rfl⟩)
        (ih fun b member => all b (List.mem_cons_of_mem _ member))
theorem mem_oneOrMore {letters : List α} : text ∈ (oneOrMore (oneOf letters)).matches' ↔
    ∃ a rest, text = a :: rest ∧ a ∈ letters ∧ ∀ b ∈ rest, b ∈ letters := by
  rw [oneOrMore,mem_mul]
  constructor
  · rintro ⟨first,isFirst,rest,isRest,rfl⟩
    obtain ⟨a,known,rfl⟩ := mem_oneOf.mp isFirst
    exact ⟨a,rest,rfl,known,mem_star_oneOf.mp isRest⟩
  · rintro ⟨a,rest,rfl,known,all⟩
    exact ⟨[a],mem_oneOf.mpr ⟨a,known,rfl⟩,rest,mem_star_oneOf.mpr all,rfl⟩

end Patterns

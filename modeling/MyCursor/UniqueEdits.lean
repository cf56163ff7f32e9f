import MyCursor.Approvals
import MyCursor.IntegerArguments

/-!
# Edits of one occurrence

A text that is to be edited once is looked for without overlaps. What follows is
where an occurrence can be missed, and what an edit changes where none is.
-/
namespace MyCursor.UniqueEdits
open Message Text ToolRequests ToolCards Approvals Fallible
open CheckpointCodec (insert)

def Occurs (old text : List Char) (position : Nat) : Prop := position < text.length ∧ old <+: text.drop position
instance (old text : List Char) (position : Nat) : Decidable (Occurs old text position) := inferInstanceAs (Decidable (_ ∧ _))

/-- The first occurrence, with what stands in front of it and behind it. -/
structure First (old text front back : List Char) : Prop where
  split : text = front ++ old ++ back
  first : ∀ position < front.length, ¬ Occurs old text position

/-- The text occurs once, overlaps counted, and this occurrence is replaced. -/
def Replaced (old new text result : List Char) : Prop :=
  old ≠ [] ∧ ∃ front back, text = front ++ old ++ back ∧ result = front ++ new ++ back ∧
    ∀ position, Occurs old text position ↔ position = front.length
/-- Every other occurrence overlaps the first one. -/
def Hidden (old text : List Char) : Prop :=
  old ≠ [] ∧ ∃ front back, First old text front back ∧ (∀ position, Occurs old text position → position < front.length + old.length) ∧
    ∃ position, front.length < position ∧ Occurs old text position
/-- From left to right, each occurrence behind the last one is replaced. -/
inductive Rewritten (old new : List Char) : List Char → List Char → Prop where
  | rest {text : List Char} : (∀ position, ¬ Occurs old text position) → Rewritten old new text text
  | next {text front back result : List Char} : First old text front back → Rewritten old new back result →
    Rewritten old new text (front ++ new ++ result)

section Search
variable {old new text : List Char}

theorem occurrences_skip (old text : List Char) (skipped : Nat) : occurrences old skipped text = occurrences old 0 (text.drop skipped) := by
  induction text generalizing skipped with
  | nil => cases skipped <;> rfl
  | cons c rest ih =>
    cases skipped with
    | zero => rfl
    | succ skipped => exact ih skipped
theorem replaceChars_skip (old new text : List Char) (most skipped : Nat) :
    replaceChars old new most skipped text = replaceChars old new most 0 (text.drop skipped) := by
  induction text generalizing skipped with
  | nil => cases skipped <;> cases most <;> rfl
  | cons c rest ih =>
    cases skipped with
    | zero => rfl
    | succ skipped =>
      rw [List.drop_succ_cons,← ih skipped]
      cases most <;> rfl

theorem replaceChars_none (old new text : List Char) : replaceChars old new 0 0 text = text := by
  cases text <;> rfl

theorem drop_old {c : Char} {rest back : List Char} (filled : old ≠ []) (split : c :: rest = old ++ back) :
    rest.drop (old.length - 1) = back := by
  obtain ⟨first,others,rfl⟩ := List.exists_cons_of_ne_nil filled
  obtain ⟨-,rfl⟩ := List.cons.inj split
  simp
theorem occurs_cons (c : Char) (rest : List Char) (position : Nat) : Occurs old (c :: rest) (position + 1) ↔ Occurs old rest position := by
  simp [Occurs]

theorem search (old new text : List Char) (filled : old ≠ []) : ((∀ position, ¬ Occurs old text position) ∧ occurrences old 0 text = 0 ∧
      ∀ most, replaceChars old new most 0 text = text) ∨
    ∃ front back, First old text front back ∧ occurrences old 0 text = occurrences old 0 back + 1 ∧
      ∀ most, replaceChars old new (most + 1) 0 text = front ++ new ++ replaceChars old new most 0 back := by
  induction text with
  | nil => exact .inl ⟨fun position occurs => absurd occurs.1 (Nat.not_lt_zero _),rfl,fun most => by cases most <;> rfl⟩
  | cons c rest ih =>
    by_cases here : old <+: c :: rest
    · obtain ⟨back,split⟩ := here
      have split := split.symm
      have behind := drop_old filled split
      refine .inr ⟨[],back,⟨split,fun position less => absurd less (Nat.not_lt_zero _)⟩,?_,fun most => ?_⟩
      · rw [occurrences,if_pos ⟨back,split.symm⟩,occurrences_skip,behind]
      · rw [replaceChars,if_pos ⟨back,split.symm⟩,replaceChars_skip,behind]
        rfl
    · have notHere : ¬ Occurs old (c :: rest) 0 := fun occurs => here occurs.2
      rcases ih with ⟨none_,count,kept⟩ | ⟨front,back,first,count,replaced⟩
      · refine .inl ⟨fun position => ?_,?_,fun most => ?_⟩
        · cases position with
          | zero => exact notHere
          | succ position => exact fun occurs => none_ position ((occurs_cons c rest position).mp occurs)
        · rw [occurrences,if_neg here,count]
        · cases most with
          | zero => rfl
          | succ most => rw [replaceChars,if_neg here,kept]
      · refine .inr ⟨c :: front,back,⟨congrArg (c :: ·) first.split,fun position less => ?_⟩,?_,fun most => ?_⟩
        · cases position with
          | zero => exact notHere
          | succ position =>
            exact fun occurs => first.first position (by simpa using less) ((occurs_cons c rest position).mp occurs)
        · rw [occurrences,if_neg here,count]
        · rw [replaceChars,if_neg here,replaced]
          rfl

variable {front back : List Char}

theorem First.occurs (first : First old text front back) (filled : old ≠ []) : Occurs old text front.length := by
  have positive := List.length_pos_iff.mpr filled
  rw [first.split,List.append_assoc]
  exact ⟨by simp only [List.length_append]; omega,by rw [List.drop_left]; exact List.prefix_append _ _⟩
theorem First.behind (first : First old text front back) (position : Nat) :
    Occurs old text (front.length + old.length + position) ↔ Occurs old back position := by
  have drops : text.drop (front.length + old.length + position) = back.drop position := by
    rw [first.split,← List.length_append,List.drop_append]
    simp
  rw [Occurs,Occurs,drops,first.split]
  simp only [List.length_append]
  exact and_congr_left fun _ => by omega

theorem First.unique {front' back' : List Char} (first : First old text front back) (filled : old ≠ [])
    (other : First old text front' back') :
    front = front' ∧ back = back' := by
  have length : front.length = front'.length := by
    have before : ¬ front.length < front'.length := fun less => other.first _ less (first.occurs filled)
    have after : ¬ front'.length < front.length := fun less => first.first _ less (other.occurs filled)
    omega
  have same := first.split.symm.trans other.split
  rw [List.append_assoc,List.append_assoc] at same
  obtain ⟨rfl,behind⟩ := List.append_inj same length
  exact ⟨rfl,List.append_cancel_left behind⟩

theorem count_zero (filled : old ≠ []) : occurrences old 0 text = 0 ↔ ∀ position, ¬ Occurs old text position := by
  rcases search old [] text filled with ⟨none_,count,-⟩ | ⟨front,back,first,count,-⟩
  · exact ⟨fun _ => none_,fun _ => count⟩
  · rw [count]
    exact ⟨nofun,fun none_ => absurd (first.occurs filled) (none_ _)⟩

theorem count_one (filled : old ≠ []) (first : First old text front back) (count : occurrences old 0 text = occurrences old 0 back + 1) :
    occurrences old 0 text = 1 ↔ ∀ position, Occurs old text position → position < front.length + old.length := by
  have none_ : occurrences old 0 text = 1 ↔ occurrences old 0 back = 0 := by omega
  rw [none_,count_zero filled]
  constructor
  · intro nothing position occurs
    by_contra later
    obtain ⟨more,rfl⟩ := Nat.exists_eq_add_of_le (not_lt.mp later)
    exact nothing more ((first.behind more).mp occurs)
  · intro near position occurs
    have less := near _ ((first.behind position).mpr occurs)
    omega

theorem Replaced.result {result : List Char} (replaced : Replaced old new text result) (first : First old text front back) :
    result = front ++ new ++ back := by
  obtain ⟨filled,front',back',split,rfl,only⟩ := replaced
  have length := (only _).mp (first.occurs filled)
  have same := split.symm.trans first.split
  rw [List.append_assoc,List.append_assoc] at same
  obtain ⟨rfl,behind⟩ := List.append_inj same length.symm
  rw [List.append_cancel_left behind]

theorem visible_once (filled : old ≠ []) (visible : ¬ Hidden old text) (result : List Char) :
    occurrences old 0 text = 1 ∧ result = replaceChars old new 1 0 text ↔ Replaced old new text result := by
  rcases search old new text filled with ⟨none_,count,-⟩ | ⟨front,back,first,count,replaced⟩
  · refine iff_of_false (fun once => by omega) ?_
    rintro ⟨-,front,back,split,-,only⟩
    exact none_ _ ((only _).mpr rfl)
  · rw [replaced 0,replaceChars_none,count_one filled first count]
    constructor
    · rintro ⟨near,rfl⟩
      refine ⟨filled,front,back,first.split,rfl,fun position => ⟨fun occurs => ?_,fun same => same ▸ first.occurs filled⟩⟩
      by_contra other
      have after : front.length < position := by
        have notBefore : ¬ position < front.length := fun less => first.first position less occurs
        omega
      exact visible ⟨filled,front,back,first,near,position,after,occurs⟩
    · intro isReplaced
      refine ⟨fun position occurs => ?_,isReplaced.result first⟩
      obtain ⟨-,front',back',split,-,only⟩ := isReplaced
      rw [(only position).mp occurs,← (only _).mp (first.occurs filled)]
      have positive := List.length_pos_iff.mpr filled
      omega
theorem hidden_once (hidden : Hidden old text) : occurrences old 0 text = 1 ∧ ∀ result, ¬ Replaced old new text result := by
  obtain ⟨filled,front,back,first,near,position,later,occurs⟩ := hidden
  constructor
  · rcases search old [] text filled with ⟨none_,-,-⟩ | ⟨front',back',first',count,-⟩
    · exact absurd occurs (none_ _)
    · obtain ⟨rfl,rfl⟩ := first.unique filled first'
      exact (count_one filled first count).mpr near
  · rintro result ⟨-,front',back',split,-,only⟩
    have here := (only _).mp (first.occurs filled)
    have there := (only _).mp occurs
    omega

theorem rewritten_iff (filled : old ≠ []) : ∀ {most : Nat} {text : List Char}, text.length ≤ most → ∀ result,
    result = replaceChars old new most 0 text ↔ Rewritten old new text result := by
  intro most
  induction most with
  | zero =>
    intro text short result
    obtain rfl := List.eq_nil_of_length_eq_zero (Nat.le_zero.mp short)
    constructor
    · rintro rfl
      exact .rest fun position occurs => absurd occurs.1 (Nat.not_lt_zero _)
    · rintro (_ | ⟨first,_⟩)
      · rfl
      · exact absurd (first.occurs filled).1 (Nat.not_lt_zero _)
  | succ most ih =>
    intro text short result
    rcases search old new text filled with ⟨none_,-,kept⟩ | ⟨front,back,first,-,replaced⟩
    · rw [kept]
      constructor
      · rintro rfl
        exact .rest none_
      · rintro (_ | ⟨first,_⟩)
        · rfl
        · exact absurd (first.occurs filled) (none_ _)
    · have shorter : back.length ≤ most := by
        have positive := List.length_pos_iff.mpr filled
        have length := congrArg List.length first.split
        simp only [List.length_append] at length
        omega
      rw [replaced]
      constructor
      · rintro rfl
        exact .next first ((ih shorter _).mp rfl)
      · rintro (none_ | ⟨other,rewritten⟩)
        · exact absurd (first.occurs filled) (none_ _)
        · obtain ⟨rfl,rfl⟩ := first.unique filled other
          rw [(ih shorter _).mpr rewritten]

end Search

section Files
variable [NotebookText] {name : String} {call : ToolCall} {content old new : String}

structure Edits (call : ToolCall) (old new : String) : Prop where
  old : newText call "old_string" = .ok old
  new : newText call "new_string" = .ok new

omit [NotebookText] in
theorem filled_iff (text : String) : text ≠ "" ↔ text.toList ≠ [] := by
  rw [Ne,Ne,String.toList_eq_nil_iff]

omit [NotebookText] in
theorem replace_string_ok (edits : Edits call old new) (before after : String) : replace_string call before = .ok after ↔
    old.toList ≠ [] ∧ if (boolArgument call "replace_all").getD false then
      match_count before old ≠ 0 ∧ after = replace before old new else match_count before old = 1 ∧ after = replacen before old new 1 := by
  rw [replace_string,edits.old,edits.new,← filled_iff]
  simp only [bind,Except.bind]
  by_cases empty : old = ""
  · simp [empty]
  · rw [if_neg empty]
    by_cases zero : match_count before old = 0
    · simp [zero]
    · cases (boolArgument call "replace_all").getD false <;> by_cases one : match_count before old = 1 <;>
        simp [zero,one,empty,eq_comm]

theorem after_read_ok (isEdit : normalized name = "strreplace") (after : String) :
    after_read name call (.Success (some (.Content content)) false) = .ok ⟨normalize_newlines content,after⟩ ↔
      replace_string call (normalize_newlines content) = .ok after := by
  have text : textRead name (.Success (some (.Content content)) false) = .ok (normalize_newlines content) := rfl
  have other : "strreplace" ≠ "write" := by decide
  simp only [after_read,text,editText,isEdit,if_neg other,if_true,bind,Except.bind]
  cases replace_string call (normalize_newlines content) <;> simp

omit [NotebookText] in
theorem once_iff (text : String) (made : String → String) {outcome : String → Prop} (isOutcome : ∀ after, outcome after ↔
      old.toList ≠ [] ∧ match_count text old = 1 ∧ after = made (replacen text old new 1)) :
    (∀ after, outcome after ↔ ∃ edited : String, Replaced old.toList new.toList text.toList edited.toList ∧ after = made edited) ↔
      ¬ Hidden old.toList text.toList := by
  constructor
  · intro exact hidden
    obtain ⟨once,never⟩ := @hidden_once _ new.toList _ hidden
    obtain ⟨edited,replaced,-⟩ := (exact _).mp ((isOutcome _).mpr ⟨hidden.1,once,rfl⟩)
    exact never _ replaced
  · intro visible after
    rw [isOutcome]
    constructor
    · rintro ⟨filled,once,rfl⟩
      exact ⟨_,(visible_once filled visible _).mp ⟨once,String.toList_ofList⟩,rfl⟩
    · rintro ⟨edited,replaced,rfl⟩
      obtain ⟨once,same⟩ := (visible_once replaced.1 visible _).mpr replaced
      refine ⟨replaced.1,once,congrArg made ?_⟩
      rw [replacen,← same,String.ofList_toList]

/-- The call edits a cell that is there and has a text. -/
structure OnCell (call : ToolCall) (before : String) (members : List (String × Value)) (cells : List Value) (index : Nat) (cell : Value)
    (source : String) : Prop where
  isNotebook : NotebookText.from_str before = .ok (.Object members)
  hasCells : Json.get (.Object members) "cells" = some (.Array cells)
  isIndex : (argument call "cell_idx").bind Json.as_u64 = some index
  existing : (boolArgument call "is_new_cell").getD false = false
  isCell : cells[index]? = some cell
  isSource : cellSource cell = .ok source

def editedNotebook (members : List (String × Value)) (cells : List Value) (index : Nat) (cell : Value) (edited : String) : Value :=
  .Object (insert members "cells" (.Array (cells.set index (withSource cell edited))))
def printed (notebook : Value) : String := NotebookText.to_string_pretty notebook ++ "\n"

/-- All but the source of one cell is as it was, and the lines of this are the edited text. -/
structure Local (members : List (String × Value)) (cells : List Value) (index : Nat) (cell : Value) (edited : String) (notebook : Value) :
    Prop where
  others : ∀ key, key ≠ "cells" → Json.get notebook key = Json.get (.Object members) key
  cells : ∃ after, Json.get notebook "cells" = some (.Array after) ∧ after.length = cells.length ∧
    (∀ other, other ≠ index → after[other]? = cells[other]?) ∧ ∃ changed, after[index]? = some changed ∧
      (∀ key, key ≠ "source" → Json.get changed key = Json.get cell key) ∧
      ∃ texts : List String, Json.get changed "source" = some (.Array (texts.map .String)) ∧ String.join texts = edited

variable {members : List (String × Value)} {cells : List Value} {index : Nat} {cell : Value} {source : String}

theorem notebook_read (isEdit : normalized name = "editnotebook") (edits : Edits call old new)
    (onCell : OnCell call (normalize_newlines content) members cells index cell source) (after : String) :
    after_read name call (.Success (some (.Content content)) false) = .ok ⟨normalize_newlines content,after⟩ ↔
      old.toList ≠ [] ∧ match_count source old = 1 ∧
        after = printed (editedNotebook members cells index cell (replacen source old new 1)) := by
  have text : textRead name (.Success (some (.Content content)) false) = .ok (normalize_newlines content) := rfl
  have notWrite : "editnotebook" ≠ "write" := by decide
  have notReplace : "editnotebook" ≠ "strreplace" := by decide
  have array : (Json.get (.Object members) "cells").bind Json.as_array = some cells := by
    rw [onCell.hasCells]
    rfl
  simp only [after_read,text,editText,isEdit,if_neg notWrite,if_neg notReplace,if_true,edit_notebook,onCell.isNotebook,array,onCell.isIndex,
    edits.new,editCells,onCell.existing,onCell.isCell,editCell,onCell.isSource,edits.old,← filled_iff,
    bind,Except.bind,Except.mapError,Bool.false_eq_true,if_false]
  by_cases empty : old = ""
  · simp [empty,Except.map]
  · by_cases zero : match_count source old = 0
    · simp [zero,empty,Except.map]
    · by_cases one : match_count source old = 1
      · simp [one,empty,Except.map,printed,editedNotebook,eq_comm]
      · simp [zero,one,empty,Except.map]

omit [NotebookText] in
theorem lines_join (text : List Char) : ∀ line : List Char, ((lines text line).map String.toList).flatten = line ++ text := by
  induction text with
  | nil => intro line; cases line <;> simp [lines]
  | cons c rest ih =>
    intro line
    rw [lines]
    split_ifs
    · simp [ih]
    · simp [ih]
omit [NotebookText] in
theorem get_insert_other (members : List (String × Value)) {name key : String} (value : Value) (other : key ≠ name) :
    Json.get (.Object (insert members name value)) key = Json.get (.Object members) key := by
  rw [CheckpointCodec.insert,Json.get,Json.get]
  split_ifs
  · have same : ((fun member : String × Value => decide (member.1 = key)) ∘ fun member => if member.1 = name then (name,
    value) else member) = fun member => decide (member.1 = key) := by
      funext member
      by_cases isName : member.1 = name
      · simp [isName,Ne.symm other]
      · simp [isName]
    rw [List.find?_map,same]
    cases found : members.find? fun member => decide (member.1 = key) with
    | none => rfl
    | some member =>
      have isKey : member.1 = key := of_decide_eq_true (List.find?_some found :)
      have differs : member.1 ≠ name := isKey ▸ other
      simp [differs]
  · rw [List.find?_append]
    simp [Ne.symm other]
omit [NotebookText] in
theorem edited_local {fields : List (String × Value)} (isCell : cells[index]? = some (.Object fields)) (edited : String) :
    Local members cells index (.Object fields) edited (editedNotebook members cells index (.Object fields) edited) := by
  have inside : index < cells.length := (List.getElem?_eq_some_iff.mp isCell).1
  refine ⟨fun key other => get_insert_other members _ other,_,IntegerArguments.get_insert _ _ _,List.length_set,fun other differs => ?_,
    withSource (.Object fields) edited,?_,fun key other => get_insert_other fields _ other,lines edited.toList [],?_,?_⟩
  · rw [List.getElem?_set_ne (Ne.symm differs)]
  · rw [List.getElem?_set_self inside]
  · exact IntegerArguments.get_insert _ _ _
  · rw [← String.toList_inj,String.toList_join]
    exact lines_join edited.toList []

end Files

def notebookText (source : String) : String :=
  "\x7b\n  \"cells\": [\n    \x7b\n      \"source\": [\n        \"" ++ source ++ "\"\n      ]\n    \x7d\n  ]\n\x7d"
def cellOf (source : String) : Value := .Object [("source",.Array [.String source])]
local instance : NotebookText where
  from_str text :=
    if text = notebookText "x = 1" then .ok (.Object [("cells",.Array [cellOf "x = 1"])]) else .error "expected value at line 1 column 1"
  to_string_pretty value := notebookText (if value = .Object [("cells",.Array [cellOf "x = 2"])] then "x = 2" else "x = 1")

def cellEdit : ToolCall :=
  ⟨0,"c","m","EditNotebook","",.Object [("target_notebook",.String "a.ipynb"),("cell_idx",.Number (.PosInt 0)),
    ("is_new_cell",.Bool false),("old_string",.String "1"),("new_string",.String "2")],none⟩
def overlapping : ToolCall := ⟨0,"c","m","StrReplace","",.Object [("old_string",.String "aa"),("new_string",.String "b")],none⟩
end MyCursor.UniqueEdits

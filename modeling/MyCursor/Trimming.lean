import Mathlib.Data.List.DropRight

/-!
# Trimmed lists

A list without the items at its ends that a predicate holds of.
-/
namespace Trimming

variable {α : Type} (p : α → Bool)

def trimmed (l : List α) : List α := (l.dropWhile p).rdropWhile p

variable {p} {l : List α}

theorem dropWhile_iff : l.dropWhile p = l ↔ ∀ a ∈ l.head?, p a = false := by
  cases l with
  | nil => simp
  | cons first rest =>
    rw [List.dropWhile_cons]
    by_cases dropped : p first = true
    · have shorter : rest.dropWhile p ≠ first :: rest := by
        intro same
        have bound := List.length_dropWhile_le p rest
        rw [same,List.length_cons] at bound
        omega
      simp [dropped,shorter]
    · simp [dropped]
theorem rdropWhile_iff : l.rdropWhile p = l ↔ ∀ a ∈ l.getLast?, p a = false := by
  rw [List.rdropWhile_eq_self_iff]
  constructor
  · intro last a isLast
    obtain ⟨start,rfl⟩ := List.getLast?_eq_some_iff.mp isLast
    simpa using last (by simp)
  · intro last nonempty
    simpa using last _ (List.getLast?_eq_some_getLast nonempty)

theorem trimmed_of_ends (first : ∀ a ∈ l.head?, p a = false) (last : ∀ a ∈ l.getLast?, p a = false) : trimmed p l = l := by
  rw [trimmed,dropWhile_iff.mpr first,rdropWhile_iff.mpr last]
theorem trimmed_first {a : α} (isHead : (trimmed p l).head? = some a) : p a = false := by
  obtain ⟨rest,same⟩ := List.rdropWhile_prefix p (l := l.dropWhile p)
  apply dropWhile_iff.mp (List.dropWhile_idempotent p l)
  rw [← same,List.head?_append,← trimmed,isHead]
  rfl
theorem trimmed_twice (l : List α) : trimmed p (trimmed p l) = trimmed p l :=
  trimmed_of_ends (fun _ => trimmed_first) (rdropWhile_iff.mp (List.rdropWhile_idempotent p _))

end Trimming

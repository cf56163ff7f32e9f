import Mathlib.Data.List.Basic
import Mathlib.Data.List.Chain

/-!
# Stretches of one role

Consecutive entries of one role are put together and empty entries are left
out: a loop that reads the entries from the front, and the same by recursion
from the back.
-/
namespace MyCursor.Stretches

structure Stretch (ρ α : Type) where
  role : ρ
  items : List α
deriving DecidableEq

variable {ρ α β : Type}

def Stretch.bind (f : α → List β) (stretch : Stretch ρ α) : Stretch ρ β := ⟨stretch.role,stretch.items.flatMap f⟩

variable [DecidableEq ρ]

def push (merged : List (Stretch ρ α)) (entry : Stretch ρ α) : List (Stretch ρ α) :=
  if entry.items.isEmpty then merged
  else
    match merged.getLast? with
    | some last =>
      if last.role = entry.role then merged.dropLast ++ [{ last with items := last.items ++ entry.items }]
      else merged ++ [entry]
    | none => merged ++ [entry]
def merge (entries : List (Stretch ρ α)) : List (Stretch ρ α) := entries.foldl push []

def glue (entry : Stretch ρ α) : List (Stretch ρ α) → List (Stretch ρ α)
  | [] => [entry]
  | next :: rest =>
    if next.role = entry.role then { entry with items := entry.items ++ next.items } :: rest else entry :: next :: rest
def grouped : List (Stretch ρ α) → List (Stretch ρ α)
  | [] => []
  | entry :: rest => if entry.items.isEmpty then grouped rest else glue entry (grouped rest)

theorem push_cons (first : Stretch ρ α) {merged : List (Stretch ρ α)} (some : merged ≠ []) (entry : Stretch ρ α) :
    push (first :: merged) entry = first :: push merged entry := by
  obtain ⟨next,rest,rfl⟩ := List.exists_cons_of_ne_nil some
  unfold push
  rw [List.getLast?_cons_cons]
  split_ifs
  · rfl
  · cases (next :: rest).getLast? with
    | none => rfl
    | some last =>
      dsimp only
      split_ifs
      · rfl
      · rfl
theorem push_glue (entry : Stretch ρ α) (merged : List (Stretch ρ α)) (later : Stretch ρ α) :
    push (glue entry merged) later = glue entry (push merged later) := by
  cases merged with
  | nil =>
    by_cases empty : later.items.isEmpty
    · simp [glue,push,empty]
    · by_cases same : later.role = entry.role
      · simp [glue,push,empty,same]
      · simp [glue,push,empty,same,Ne.symm same]
  | cons next rest =>
    by_cases alone : rest = []
    · subst alone
      by_cases empty : later.items.isEmpty
      · simp [push,empty]
      · by_cases same : next.role = entry.role <;> by_cases again : next.role = later.role
        · have shared : entry.role = later.role := same.symm.trans again
          simp [glue,push,empty,shared,again]
        · have other : entry.role ≠ later.role := fun shared => again (same.trans shared)
          simp [glue,push,empty,same,other]
        · have other : later.role ≠ entry.role := fun shared => same (again.trans shared)
          simp [glue,push,empty,again,other]
        · simp [glue,push,empty,same,again]
    · rw [push_cons next alone]
      by_cases same : next.role = entry.role
      · simp only [glue,same,if_true]
        exact push_cons _ alone later
      · simp only [glue,same,if_false]
        rw [push_cons entry (List.cons_ne_nil _ _),push_cons next alone]
theorem push_grouped (entries : List (Stretch ρ α)) (later : Stretch ρ α) :
    push (grouped entries) later = grouped (entries ++ [later]) := by
  induction entries with
  | nil =>
    by_cases empty : later.items.isEmpty
    · simp [grouped,push,empty]
    · simp [grouped,push,glue,empty]
  | cons entry rest ih =>
    rw [List.cons_append,grouped,grouped]
    split_ifs
    · exact ih
    · rw [push_glue,ih]
theorem merge_grouped (entries : List (Stretch ρ α)) : merge entries = grouped entries := by
  induction entries using List.reverseRecOn with
  | nil => rfl
  | append_singleton entries later ih =>
    rw [← push_grouped,← ih,merge,List.foldl_append]
    rfl

theorem glue_items (entry : Stretch ρ α) (merged : List (Stretch ρ α)) :
    (glue entry merged).flatMap Stretch.items = entry.items ++ merged.flatMap Stretch.items := by
  cases merged with
  | nil => simp [glue]
  | cons next rest =>
    rw [glue]
    split_ifs
    · simp
    · simp
theorem grouped_items (entries : List (Stretch ρ α)) : (grouped entries).flatMap Stretch.items = entries.flatMap Stretch.items := by
  induction entries with
  | nil => rfl
  | cons entry rest ih =>
    rw [grouped]
    split_ifs with empty
    · rw [ih,List.flatMap_cons,List.isEmpty_iff.mp empty,List.nil_append]
    · rw [glue_items,ih,List.flatMap_cons]

theorem grouped_filled (entries : List (Stretch ρ α)) : ∀ stretch ∈ grouped entries, stretch.items ≠ [] := by
  induction entries with
  | nil => simp [grouped]
  | cons entry rest ih =>
    rw [grouped]
    split_ifs with empty
    · exact ih
    · have filled : entry.items ≠ [] := by simpa using empty
      cases isRest : grouped rest with
      | nil => simpa [glue] using filled
      | cons next later =>
        rw [isRest] at ih
        rw [glue]
        split_ifs
        · intro stretch member
          rcases List.mem_cons.mp member with rfl | member
          · simp [filled]
          · exact ih stretch (List.mem_cons_of_mem _ member)
        · intro stretch member
          rcases List.mem_cons.mp member with rfl | member
          · exact filled
          · exact ih stretch member

theorem grouped_changes (entries : List (Stretch ρ α)) : (grouped entries).IsChain fun first next => first.role ≠ next.role := by
  induction entries with
  | nil => exact .nil
  | cons entry rest ih =>
    rw [grouped]
    split_ifs
    · exact ih
    · cases isRest : grouped rest with
      | nil => exact .singleton entry
      | cons next later =>
        rw [isRest] at ih
        rw [glue]
        split_ifs with same
        · cases later with
          | nil => exact .singleton _
          | cons third others =>
            rw [List.isChain_cons_cons] at ih ⊢
            exact ⟨fun shared => ih.1 (same.trans shared),ih.2⟩
        · rw [List.isChain_cons_cons]
          exact ⟨Ne.symm same,ih⟩

theorem glue_bind (f : α → List β) (entry : Stretch ρ α) (merged : List (Stretch ρ α)) :
    glue (entry.bind f) (merged.map (Stretch.bind f)) = (glue entry merged).map (Stretch.bind f) := by
  cases merged with
  | nil => rfl
  | cons next rest =>
    by_cases same : next.role = entry.role
    · simp [glue,Stretch.bind,same]
    · simp [glue,Stretch.bind,same]
/-- The stretches do not depend on what the items are replaced by, as long as
    none is replaced by nothing. -/
theorem grouped_bind {f : α → List β} {entries : List (Stretch ρ α)} (filled : ∀ entry ∈ entries, ∀ item ∈ entry.items, f item ≠ []) :
    grouped (entries.map (Stretch.bind f)) = (grouped entries).map (Stretch.bind f) := by
  induction entries with
  | nil => rfl
  | cons entry rest ih =>
    have isEmpty : (entry.bind f).items.isEmpty = entry.items.isEmpty := by
      cases isItems : entry.items with
      | nil => simp [Stretch.bind,isItems]
      | cons item items =>
        have given := filled entry List.mem_cons_self item (by simp [isItems])
        simp [Stretch.bind,isItems,given]
    rw [List.map_cons,grouped,grouped,isEmpty,ih fun other member => filled other (List.mem_cons_of_mem _ member)]
    split_ifs
    · rfl
    · exact glue_bind f entry (grouped rest)

end MyCursor.Stretches

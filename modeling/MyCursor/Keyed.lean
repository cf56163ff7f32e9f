import Mathlib.Data.List.Nodup
import Mathlib.Order.Basic
import Mathlib.Order.Lattice

/-!
# Maps as lists of entries

A map is a list of entries with distinct keys. Ordered maps keep the entries in
the order of their keys; maps that remember insertions keep a new key at the end.
What is found under a key is the same in both.
-/
namespace Keyed

variable {κ σ : Type} [DecidableEq κ]

def lookup (entries : List (κ × σ)) (key : κ) : Option σ := (entries.find? (·.1 = key)).map (·.2)
def insertOrdered [LT κ] [DecidableLT κ] (key : κ) (value : σ) : List (κ × σ) → List (κ × σ)
  | [] => [(key,value)]
  | first :: rest =>
    if key < first.1 then (key,value) :: first :: rest
    else if key = first.1 then (key,value) :: rest
    else first :: insertOrdered key value rest
def insertLast (key : κ) (value : σ) : List (κ × σ) → List (κ × σ)
  | [] => [(key,value)]
  | first :: rest => if key = first.1 then (key,value) :: rest else first :: insertLast key value rest

def Distinct (entries : List (κ × σ)) : Prop := (entries.map (·.1)).Nodup
def Ordered [LT κ] (entries : List (κ × σ)) : Prop := entries.Pairwise (·.1 < ·.1)

variable {entries : List (κ × σ)} {key : κ}

@[simp] theorem lookup_nil (key : κ) : lookup ([] : List (κ × σ)) key = none := rfl
theorem lookup_cons (first : κ × σ) (rest : List (κ × σ)) (key : κ) :
    lookup (first :: rest) key = if first.1 = key then some first.2 else lookup rest key := by
  unfold lookup
  by_cases same : first.1 = key <;> simp [same]

theorem lookup_insertOrdered [LT κ] [DecidableLT κ] (entries : List (κ × σ)) (key : κ) (value : σ) (other : κ) :
    lookup (insertOrdered key value entries) other = if other = key then some value else lookup entries other := by
  induction entries with
  | nil =>
    rw [insertOrdered,lookup_cons]
    by_cases same : other = key
    · simp [same]
    · simp [same,Ne.symm same]
  | cons first rest ih =>
    simp only [insertOrdered]
    by_cases same : other = key
    · subst same
      by_cases before : other < first.1
      · simp [before,lookup_cons]
      · by_cases here : other = first.1
        · rw [if_neg before,if_pos here,lookup_cons,if_pos rfl,if_pos rfl]
        · simp [before,here,lookup_cons,ih,Ne.symm here]
    · rw [if_neg same]
      split_ifs with before here
      · rw [lookup_cons,if_neg (Ne.symm same)]
      · rw [lookup_cons,lookup_cons,if_neg (Ne.symm same),if_neg (here ▸ Ne.symm same)]
      · rw [lookup_cons,lookup_cons,ih,if_neg same]
theorem lookup_insertLast (entries : List (κ × σ)) (key : κ) (value : σ) (other : κ) :
    lookup (insertLast key value entries) other = if other = key then some value else lookup entries other := by
  induction entries with
  | nil =>
    rw [insertLast,lookup_cons]
    by_cases same : other = key
    · simp [same]
    · simp [same,Ne.symm same]
  | cons first rest ih =>
    simp only [insertLast]
    split_ifs with here same same
    · simp [lookup_cons,same]
    · rw [lookup_cons,lookup_cons,if_neg (Ne.symm same),if_neg (here ▸ Ne.symm same)]
    · rw [lookup_cons,ih,if_pos same]
      rw [if_neg (fun isFirst => here (same ▸ isFirst.symm))]
    · rw [lookup_cons,lookup_cons,ih,if_neg same]

theorem lookup_mem {value : σ} (found : lookup entries key = some value) : (key,value) ∈ entries := by
  obtain ⟨entry,isEntry,rfl⟩ := Option.map_eq_some_iff.mp found
  have same : entry.1 = key := by simpa using List.find?_some isEntry
  rw [← same]
  exact List.mem_of_find?_eq_some isEntry
theorem mem_iff (distinct : Distinct entries) (key : κ) (value : σ) : (key,value) ∈ entries ↔ lookup entries key = some value := by
  refine ⟨fun member => ?_,lookup_mem⟩
  induction entries with
  | nil => cases member
  | cons first rest ih =>
    rw [Distinct,List.map_cons,List.nodup_cons] at distinct
    rw [lookup_cons]
    rcases List.mem_cons.mp member with rfl | later
    · simp
    · have different : first.1 ≠ key := fun same => distinct.1 (same ▸ List.mem_map_of_mem later)
      rw [if_neg different]
      exact ih distinct.2 later
theorem lookup_none : lookup entries key = none ↔ key ∉ entries.map (·.1) := by
  rw [lookup,Option.map_eq_none_iff,List.find?_eq_none,List.mem_map]
  constructor
  · rintro missing ⟨entry,member,same⟩
    exact missing entry member (by simpa using same)
  · intro missing entry member same
    exact missing ⟨entry,member,by simpa using same⟩

theorem Ordered.distinct {κ : Type} [Preorder κ] {entries : List (κ × σ)} (ordered : Ordered entries) : Distinct entries :=
  List.pairwise_map.mpr (ordered.imp fun less => ne_of_lt less)

theorem mem_insertOrdered [LT κ] [DecidableLT κ] {value : σ} {entry : κ × σ}
    (member : entry ∈ insertOrdered key value entries) : entry = (key,value) ∨ entry ∈ entries := by
  induction entries with
  | nil => exact .inl (List.mem_singleton.mp member)
  | cons first rest ih =>
    simp only [insertOrdered] at member
    split_ifs at member with before here
    · exact (List.mem_cons.mp member)
    · exact (List.mem_cons.mp member).imp_right (List.mem_cons_of_mem _)
    · rcases List.mem_cons.mp member with rfl | later
      · exact .inr List.mem_cons_self
      · exact (ih later).imp_right (List.mem_cons_of_mem _)
theorem Ordered.insert {κ : Type} [LinearOrder κ] {entries : List (κ × σ)} (ordered : Ordered entries) (key : κ) (value : σ) :
    Ordered (insertOrdered key value entries) := by
  induction entries with
  | nil => exact List.pairwise_singleton _ _
  | cons first rest ih =>
    obtain ⟨least,others⟩ := List.pairwise_cons.mp ordered
    simp only [insertOrdered]
    split_ifs with before here
    · refine List.pairwise_cons.mpr ⟨?_,ordered⟩
      intro entry member
      rcases List.mem_cons.mp member with rfl | later
      · exact before
      · exact before.trans (least entry later)
    · exact List.pairwise_cons.mpr ⟨here ▸ least,others⟩
    · refine List.pairwise_cons.mpr ⟨?_,ih others⟩
      intro entry member
      rcases mem_insertOrdered member with rfl | later
      · exact lt_of_le_of_ne (not_lt.mp before) (Ne.symm here)
      · exact least entry later

theorem mem_insertLast {value : σ} {entry : κ × σ}
    (member : entry ∈ insertLast key value entries) : entry = (key,value) ∨ entry ∈ entries := by
  induction entries with
  | nil => exact .inl (List.mem_singleton.mp member)
  | cons first rest ih =>
    simp only [insertLast] at member
    split_ifs at member with here
    · exact (List.mem_cons.mp member).imp_right (List.mem_cons_of_mem _)
    · rcases List.mem_cons.mp member with rfl | later
      · exact .inr List.mem_cons_self
      · exact (ih later).imp_right (List.mem_cons_of_mem _)
theorem Distinct.insert (distinct : Distinct entries) (key : κ) (value : σ) : Distinct (insertLast key value entries) := by
  induction entries with
  | nil => exact List.nodup_singleton _
  | cons first rest ih =>
    obtain ⟨apart,others⟩ := List.nodup_cons.mp distinct
    simp only [insertLast]
    split_ifs with here
    · exact List.nodup_cons.mpr ⟨here ▸ apart,others⟩
    · refine List.nodup_cons.mpr ⟨fun member => ?_,ih others⟩
      obtain ⟨entry,isEntry,same⟩ := List.mem_map.mp member
      rcases mem_insertLast isEntry with rfl | later
      · exact here same
      · exact apart (same ▸ List.mem_map_of_mem later)

section Rename
variable {κ' : Type} [DecidableEq κ'] {f : κ → κ'}

def rename (f : κ → κ') (entries : List (κ × σ)) : List (κ' × σ) := entries.map fun entry => (f entry.1,entry.2)

theorem lookup_rename (injective : Function.Injective f) (entries : List (κ × σ)) (key : κ) :
    lookup (rename f entries) (f key) = lookup entries key := by
  induction entries with
  | nil => rfl
  | cons entry rest ih =>
    rw [rename,List.map_cons,lookup_cons,lookup_cons]
    simp only [injective.eq_iff]
    rw [← ih]
    rfl
theorem insertLast_rename (injective : Function.Injective f) (key : κ) (value : σ) (entries : List (κ × σ)) :
    insertLast (f key) value (rename f entries) = rename f (insertLast key value entries) := by
  induction entries with
  | nil => rfl
  | cons entry rest ih =>
    simp only [rename,List.map_cons,insertLast,injective.eq_iff]
    split_ifs
    · rfl
    · exact congrArg (_ :: ·) ih

end Rename

theorem Distinct.perm {κ : Type} {entries other : List (κ × σ)} (perm : entries.Perm other) (distinct : Distinct other) :
    Distinct entries := by
  rw [Distinct] at distinct ⊢
  exact (perm.map (·.1)).nodup_iff.mpr distinct
theorem lookup_perm {other : List (κ × σ)} (perm : entries.Perm other) (distinct : Distinct other) (key : κ) :
    lookup entries key = lookup other key := by
  have distinct' : Distinct entries := distinct.perm perm
  refine Option.ext fun value => ?_
  rw [← mem_iff distinct',← mem_iff distinct,perm.mem_iff]
theorem insert_perm {κ : Type} [LinearOrder κ] {entries other : List (κ × σ)} (perm : entries.Perm other)
    (ordered : Ordered other) (key : κ) (value : σ) : (insertLast key value entries).Perm (insertOrdered key value other) := by
  have distinct : Distinct entries := ordered.distinct.perm perm
  have first := distinct.insert key value
  have second := (ordered.insert key value).distinct
  refine (List.perm_ext_iff_of_nodup first.of_map second.of_map).mpr fun entry => ?_
  rw [mem_iff first,mem_iff second,lookup_insertLast,lookup_insertOrdered,lookup_perm perm ordered.distinct]

end Keyed

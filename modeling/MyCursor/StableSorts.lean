import Mathlib.Data.List.Destutter
import Mathlib.Data.List.Sort
import Mathlib.Data.Prod.Lex

/-!
# Stable sorts and the removal of neighbours

A stable sort keeps the order of entries of one key, so it is the sort by the key
and the place. Where neighbours of one label are removed after it, the labels of
what stays differ exactly if the sort separates no two entries of one label.
-/
namespace StableSorts

section Sorts
variable {α κ : Type} [LinearOrder κ] (key : α → κ)

def place (entry : α × Nat) : κ ×ₗ Nat := toLex (key entry.1,entry.2)
def Before (left right : α × Nat) : Prop := place key left ≤ place key right
instance : DecidableRel (Before key) := fun _ _ => inferInstanceAs (Decidable (_ ≤ _))

def sorted (items : List α) : List (α × Nat) := items.zipIdx.insertionSort (Before key)
def sort_by (items : List α) : List α := (sorted key items).map (·.1)

theorem sorted_perm (items : List α) : (sorted key items).Perm items.zipIdx := List.perm_insertionSort _ _
theorem sort_perm (items : List α) : (sort_by key items).Perm items :=
  ((sorted_perm key items).map _).trans (List.Perm.of_eq (List.zipIdx_map_fst 0 items))

theorem sorted_lt (items : List α) : (sorted key items).Pairwise (place key · < place key ·) := by
  have total : Std.Total (Before key) := ⟨fun a b => le_total (place key a) (place key b)⟩
  have trans : IsTrans (α × Nat) (Before key) := ⟨fun _ _ _ => le_trans⟩
  have inOrder : (sorted key items).Pairwise (Before key) := @List.pairwise_insertionSort _ _ _ total trans _
  have numbers : ((sorted key items).map (·.2)).Nodup := by
    refine ((sorted_perm key items).map _).nodup_iff.mpr ?_
    rw [List.zipIdx_map_snd]
    exact List.nodup_range'
  refine (inOrder.and (List.pairwise_map.mp numbers)).imp fun both => lt_of_le_of_ne both.1 fun same => both.2 ?_
  exact (Prod.mk.inj (toLex.injective same)).2
theorem sort_le (items : List α) : (sort_by key items).Pairwise (key · ≤ key ·) := by
  refine List.pairwise_map.mpr ((sorted_lt key items).imp fun less => ?_)
  rcases Prod.Lex.lt_iff.mp less with lower | ⟨same,-⟩
  · exact lower.le
  · exact same.le

theorem sorted_three {items : List α} {a d b : α × Nat} : [a,d,b].Sublist (sorted key items) ↔
    (∀ entry ∈ [a,d,b], entry ∈ items.zipIdx) ∧ place key a < place key d ∧ place key d < place key b := by
  constructor
  · intro sub
    have inOrder := (sorted_lt key items).sublist sub
    simp only [List.pairwise_cons,List.mem_cons,List.not_mem_nil,or_false,forall_eq_or_imp,forall_eq] at inOrder
    exact ⟨fun entry isIn => (sorted_perm key items).mem_iff.mp (sub.subset isIn),inOrder.1.1,inOrder.2.1⟩
  · rintro ⟨members,first,second⟩
    have inOrder : [a,d,b].Pairwise (place key · < place key ·) := by simp [first,second,first.trans second]
    have distinct : [a,d,b].Nodup := inOrder.imp fun less same => less.ne (congrArg _ same)
    have anti : Std.Antisymm (place key · < place key ·) := ⟨fun _ _ less more => absurd less more.asymm⟩
    refine List.sublist_of_subperm_of_pairwise (List.subperm_of_subset distinct fun entry isIn => ?_) inOrder (sorted_lt key items)
    exact (sorted_perm key items).mem_iff.mpr (members entry isIn)

def Leads (items : List α) (entry : α) : Prop :=
  ∃ i, (entry,i) ∈ items.zipIdx ∧ ∀ other ∈ items.zipIdx, place key (entry,i) ≤ place key other

theorem head_sort (items : List α) (entry : α) : (sort_by key items).head? = some entry ↔ Leads key items entry := by
  have members := fun one => (sorted_perm key items).mem_iff (a := one)
  have inOrder := sorted_lt key items
  rw [sort_by,List.head?_map,Option.map_eq_some_iff]
  simp only [Leads,← members]
  generalize sorted key items = entries at inOrder ⊢
  cases entries with
  | nil => simp
  | cons first rest =>
    have least : ∀ other ∈ rest, _ := fun _ => List.rel_of_pairwise_cons inOrder
    constructor
    · rintro ⟨_,⟨⟩,rfl⟩
      exact ⟨first.2,List.mem_cons_self,List.forall_mem_cons.mpr ⟨le_rfl,fun other isIn => (least _ isIn).le⟩⟩
    · rintro ⟨i,isIn,isLeast⟩
      rcases List.mem_cons.mp isIn with same | later
      · exact ⟨first,rfl,congrArg Prod.fst same.symm⟩
      · exact absurd (least _ later) (isLeast first List.mem_cons_self).not_gt

theorem mem_take_ordered {items : List α} (inOrder : items.Pairwise (key · < key ·)) (entry : α) : ∀ count,
    entry ∈ items.take count ↔ entry ∈ items ∧ items.countP (key · < key entry) < count := by
  induction items with
  | nil => simp
  | cons first rest ih =>
    intro count
    obtain ⟨least,later⟩ := List.pairwise_cons.mp inOrder
    cases count with
    | zero => simp
    | succ count =>
      rw [List.take_succ_cons,List.mem_cons,List.mem_cons,ih later,List.countP_cons]
      by_cases same : entry = first
      · subst same
        have none_ : rest.countP (key · < key entry) = 0 := List.countP_eq_zero.mpr fun one isIn => by simpa using (least one isIn).le
        simp [none_]
      · refine (or_iff_right same).trans ((and_congr_right fun isIn => ?_).trans (and_congr_left' (or_iff_right same).symm))
        simp [least entry isIn]
theorem mem_take_sort {items : List α} (distinct : (items.map key).Nodup) (entry : α) (count : Nat) :
    entry ∈ (sort_by key items).take count ↔ entry ∈ items ∧ items.countP (key · < key entry) < count := by
  have perm := sort_perm key items
  have inOrder : (sort_by key items).Pairwise (key · < key ·) :=
    ((sort_le key items).and (List.pairwise_map.mp ((perm.map key).nodup_iff.mpr distinct))).imp fun both => lt_of_le_of_ne both.1 both.2
  rw [mem_take_ordered key inOrder,perm.mem_iff,perm.countP_eq]

end Sorts

section Neighbours
variable {γ : Type}

def Together (labels : List γ) : Prop := ∀ a d, [a,d,a].Sublist labels → d = a

theorem together_cons (first : γ) (labels : List γ) :
    Together (first :: labels) ↔ Together labels ∧ ∀ d, [d,first].Sublist labels → d = first := by
  constructor
  · exact fun all => ⟨fun a d sub => all a d (sub.cons first),fun d sub => all first d (sub.cons_cons first)⟩
  · rintro ⟨later,here⟩ a d sub
    cases sub with
    | cons _ sub => exact later a d sub
    | cons_cons _ sub => exact here d sub

variable [DecidableEq γ]

theorem mem_destutter (labels : List γ) : ∀ first value : γ,
    value ∈ labels.destutter' (· ≠ ·) first ↔ value ∈ first :: labels := by
  induction labels with
  | nil => exact fun _ _ => Iff.rfl
  | cons next rest ih =>
    intro first value
    by_cases same : first = next
    · subst same
      rw [List.destutter'_cons_neg _ (not_not.mpr rfl),ih]
      simp
    · rw [List.destutter'_cons_pos _ same,List.mem_cons,ih,← List.mem_cons]
theorem destutter_nodup (labels : List γ) : ∀ first : γ,(labels.destutter' (· ≠ ·) first).Nodup ↔ Together (first :: labels) := by
  induction labels with
  | nil =>
    refine fun first => iff_of_true (List.nodup_singleton _) fun a d sub => ?_
    have short := sub.length_le
    simp at short
  | cons next rest ih =>
    intro first
    by_cases same : first = next
    · subst same
      rw [List.destutter'_cons_neg _ (not_not.mpr rfl),ih,together_cons first (first :: rest)]
      refine (and_iff_left_of_imp fun together d sub => ?_).symm
      cases sub with
      | cons _ sub => exact ((together_cons first rest).mp together).2 d sub
      | cons_cons _ _ => rfl
    · rw [List.destutter'_cons_pos _ same,List.nodup_cons,mem_destutter,ih,together_cons first,and_comm]
      refine and_congr_right fun _ => ⟨fun fresh d sub => ?_,fun here isIn => ?_⟩
      · exact absurd (sub.subset (by simp)) fresh
      · rcases List.mem_cons.mp isIn with rfl | later
        · exact same rfl
        · exact same (here next ((List.singleton_sublist.mpr later).cons_cons next)).symm

end Neighbours

section Separated
variable {α κ γ : Type} [LinearOrder κ] (key : α → κ) (label : α → γ)

/-- The sort puts no entry of another label between two of one label. -/
def Unseparated (items : List α) : Prop := ∀ a d b, (∀ entry ∈ [a,d,b], entry ∈ items.zipIdx) →
  place key a < place key d → place key d < place key b → label a.1 = label b.1 → label d.1 = label a.1

theorem together_iff (items : List α) : Together ((sort_by key items).map label) ↔ Unseparated key label items := by
  rw [sort_by,List.map_map]
  constructor
  · intro together a d b members first second same
    have three := ((sorted_three key).mpr ⟨members,first,second⟩).map (label ∘ (·.1))
    refine together (label a.1) (label d.1) ?_
    rw [List.map_cons,List.map_cons,List.map_singleton,Function.comp_apply,Function.comp_apply,Function.comp_apply,← same] at three
    exact three
  · intro apart x y sub
    obtain ⟨three,isSub,isThree⟩ := List.sublist_map_iff.mp sub
    obtain ⟨a,others,rfl,isA,isOthers⟩ := List.map_eq_cons_iff.mp isThree.symm
    obtain ⟨d,last,rfl,rfl,isLast⟩ := List.map_eq_cons_iff.mp isOthers
    obtain ⟨b,none_,rfl,isB,isNone⟩ := List.map_eq_cons_iff.mp isLast
    obtain rfl := List.map_eq_nil_iff.mp isNone
    obtain ⟨members,first,second⟩ := (sorted_three key).mp isSub
    exact (apart a d b members first second (isA.trans isB.symm)).trans isA

theorem unseparated_keys (different : ∀ a b, label a ≠ label b → key a ≠ key b) (items : List α) : Unseparated key label items ↔
    ∀ a d b, (∀ entry ∈ [a,d,b], entry ∈ items) → label a = label b → key a < key d → key d < key b → label d = label a := by
  constructor
  · intro apart a d b members same first second
    have placed : ∀ entry ∈ [a,d,b], ∃ i, (entry,i) ∈ items.zipIdx := fun entry isIn =>
      (List.mem_iff_getElem?.mp (members entry isIn)).imp fun _ => List.mk_mem_zipIdx_iff_getElem?.mpr
    simp only [List.forall_mem_cons,List.not_mem_nil,false_imp_iff,implies_true,and_true] at placed
    obtain ⟨⟨i,isA⟩,⟨j,isD⟩,k,isB⟩ := placed
    exact apart (a,i) (d,j) (b,k) (by simp [isA,isD,isB]) (Prod.Lex.lt_iff.mpr (.inl first)) (Prod.Lex.lt_iff.mpr (.inl second)) same
  · intro apart a d b members first second same
    by_contra other
    have before : key a.1 < key d.1 := (Prod.Lex.lt_iff.mp first).resolve_right fun tie => different _ _ other tie.1.symm
    have behind : key d.1 < key b.1 := (Prod.Lex.lt_iff.mp second).resolve_right fun tie => different _ _ (same ▸ other) tie.1
    refine other (apart a.1 d.1 b.1 (fun entry isIn => ?_) same before behind)
    obtain ⟨pair,isPair,rfl⟩ := List.mem_map.mp (show entry ∈ [a,d,b].map (·.1) from isIn)
    exact List.fst_mem_of_mem_zipIdx (members pair isPair)

variable [DecidableEq γ]

def dedup_by_key (items : List α) : List α := items.destutter (label · ≠ label ·)

theorem dedup_sublist (items : List α) : (dedup_by_key label items).Sublist items := List.destutter_sublist _ _
theorem dedup_head (items : List α) : (dedup_by_key label items).head? = items.head? := by
  cases items with
  | nil => rfl
  | cons first rest =>
    show (rest.destutter' (label · ≠ label ·) first).head? = some first
    induction rest with
    | nil => rfl
    | cons next rest ih =>
      rw [List.destutter'_cons]
      split_ifs
      · rfl
      · exact ih
theorem dedup_labels (items : List α) : (dedup_by_key label items).map label = (items.map label).destutter (· ≠ ·) :=
  List.map_destutter fun _ _ _ _ => Iff.rfl
theorem mem_dedup (items : List α) (value : γ) : value ∈ (dedup_by_key label items).map label ↔ value ∈ items.map label := by
  rw [dedup_labels]
  cases items with
  | nil => exact Iff.rfl
  | cons first rest => exact mem_destutter _ _ _

theorem unseparated_iff (items : List α) : ((dedup_by_key label (sort_by key items)).map label).Nodup ↔ Unseparated key label items := by
  rw [dedup_labels,← together_iff]
  cases sort_by key items with
  | nil => exact iff_of_true List.nodup_nil fun _ _ sub => absurd sub.length_le (by simp)
  | cons first rest => exact destutter_nodup _ _

end Separated

end StableSorts

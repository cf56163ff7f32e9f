import MyCursor.SearchIndex
import MyCursor.Text
import Mathlib.Algebra.BigOperators.Group.List.Basic
import Mathlib.Algebra.Order.BigOperators.Group.List
import Mathlib.Data.List.Sort
import Mathlib.Data.Prod.Lex
import Mathlib.Data.String.Basic
import Mathlib.Algebra.Order.Field.Rat
import Mathlib.Tactic.NormNum
import Mathlib.Tactic.Positivity

/-!
# The final ranking of a search

`search/rerank.rs`, with exact scores: the best chunk of every file gets a bonus, and
later chunks of a file count less. Hash maps are iterated in any order.
-/
namespace MyCursor.Rerank
open Keyed SearchIndex Text

def ends_with (text part : String) : Bool := decide (part.toList <:+ text.toList)

def is_symbol_query (query : String) : Bool :=
  let value := trim query
  !value.toList.any is_whitespace && (contains value "::" || contains value "->" || contains value "." || starts_with value "_" ||
    value.toList.any fun c => c = '_' || ('A' ≤ c && c ≤ 'Z'))

def path_penalty (path : String) : ℚ :=
  let value := to_ascii_lowercase (String.ofList (path.toList.map fun c => if c = '\\' then '/' else c))
  let parts := (value.toList.splitOn '/').map String.ofList
  let test := parts.any (· ∈ ["test","tests","__tests__","spec","testing"]) || contains value ".test." || contains value ".spec." ||
    ends_with value "_test.rs" || ends_with value "_test.go"
  let old := parts.any (· ∈ ["compat","_compat","legacy","example","examples"])
  (if test then 3 / 10 else 1) * (if old then 3 / 10 else 1) * (if ends_with value ".d.ts" then 7 / 10 else 1) *
    (if ends_with value "/__init__.py" || ends_with value "/package-info.java" then 1 / 2 else 1)

/-- The `regex` crate: what the definitions of a symbol match, if the pattern is valid. -/
class Definitions where
  pattern : String → Option (String → Bool)
/-- The orders in which the maps of scores, of sums and of best chunks are iterated. -/
class Iteration where
  scores : List (Nat × ℚ) → List (Nat × ℚ)
  sums : List (String × ℚ) → List (String × ℚ)
  best : List (String × Nat) → List (String × Nat)
  scores_perm : ∀ entries, (scores entries).Perm entries
  sums_perm : ∀ entries, (sums entries).Perm entries
  best_perm : ∀ entries, (best entries).Perm entries

section Chunks
variable (chunks : List Chunk)

def file (index : Nat) : String := ((chunks[index]?).map (·.file_path)).getD ""
def line (index : Nat) : Nat := ((chunks[index]?).map (·.start_line)).getD 0

structure Scores where
  entries : List (Nat × ℚ)
  distinct : Distinct entries
  inside : ∀ entry ∈ entries, entry.1 < chunks.length

def add {κ : Type} [DecidableEq κ] (key : κ) (value : ℚ) (entries : List (κ × ℚ)) : List (κ × ℚ) :=
  insertLast key ((lookup entries key).getD 0 + value) entries
def scoreOf (entries : List (Nat × ℚ)) (index : Nat) : ℚ := (lookup entries index).getD 0
def better (entries : List (Nat × ℚ)) (best : List (String × Nat)) (entry : Nat × ℚ) : List (String × Nat) :=
  match lookup best (file chunks entry.1) with
  | none => insertLast (file chunks entry.1) entry.1 best
  | some current => if scoreOf entries current < entry.2 then insertLast (file chunks entry.1) entry.1 best else best

def greatest (values : List ℚ) : ℚ := values.foldl max 0
def EPSILON : ℚ := 1 / 2 ^ 23

/-- The order of the results: by score, then by path, line and index. -/
def rankKey (entry : Nat × ℚ) : ℚ ×ₗ String ×ₗ Nat ×ₗ Nat :=
  toLex (-entry.2,toLex (file chunks entry.1,toLex (line chunks entry.1,entry.1)))
def Ahead (left right : Nat × ℚ) : Prop := rankKey chunks left ≤ rankKey chunks right
instance : DecidableRel (Ahead chunks) := fun _ _ => inferInstanceAs (Decidable (_ ≤ _))

def saturate (per_file : List (String × Nat)) : List (Nat × ℚ) → List (Nat × ℚ)
  | [] => []
  | (index,score) :: rest =>
    let count := (lookup per_file (file chunks index)).getD 0
    (index,if 0 < count then score * (1 / 2) ^ count else score) :: saturate (insertLast (file chunks index) (count + 1) per_file) rest

def symbolOf (query : String) : String :=
  let parts := (query.toList.splitOnP fun c => c = ':' || c = '.' || c = '>').reverse
  trim (((parts.find? (!·.isEmpty)).map String.ofList).getD query)

section Orders
variable [Iteration]

def file_sum (entries : List (Nat × ℚ)) : List (String × ℚ) :=
  (Iteration.scores entries).foldl (fun sums entry => add (file chunks entry.1) entry.2 sums) []
def best (entries : List (Nat × ℚ)) : List (String × Nat) := (Iteration.scores entries).foldl (better chunks entries) []

def boosted (entries : List (Nat × ℚ)) : List (Nat × ℚ) :=
  let most := greatest ((Iteration.scores entries).map (·.2))
  let max_sum := max (greatest ((Iteration.sums (file_sum chunks entries)).map (·.2))) EPSILON
  (Iteration.best (best chunks entries)).foldl
    (fun scores pick => add pick.2 (most * (1 / 5) * (lookup (file_sum chunks entries) pick.1).getD 0 / max_sum) scores) entries

def matched [Definitions] (query : String) (most : ℚ) (entries : List (Nat × ℚ)) : List (Nat × ℚ) :=
  if is_symbol_query query then
    match Definitions.pattern (symbolOf query) with
    | some is_match => entries.map fun entry =>
      if is_match (((chunks[entry.1]?).map (·.content)).getD "") then (entry.1,entry.2 + most * 3) else entry
    | none => entries
  else entries

def rerank [Definitions] (scores : Scores chunks) (query : String) (top_k : Nat) : List (Nat × ℚ) :=
  if scores.entries.isEmpty then []
  else
    let most := greatest ((Iteration.scores scores.entries).map (·.2))
    let ranked := ((Iteration.scores (matched chunks query most (boosted chunks scores.entries))).map fun entry =>
      (entry.1,entry.2 * path_penalty (file chunks entry.1))).insertionSort (Ahead chunks)
    ((saturate chunks [] ranked).insertionSort (Ahead chunks)).take top_k

end Orders
end Chunks

theorem greatest_perm {values other : List ℚ} (perm : values.Perm other) : greatest values = greatest other :=
  perm.foldl_eq' (fun a _ b _ c => max_right_comm c a b) 0
theorem greatest_ge (values : List ℚ) : 0 ≤ greatest values ∧ ∀ value ∈ values, value ≤ greatest values := by
  have run : ∀ (values : List ℚ) (start : ℚ), start ≤ values.foldl max start ∧ ∀ value ∈ values, value ≤ values.foldl max start := by
    intro values
    induction values with
    | nil => exact fun start => ⟨le_rfl,nofun⟩
    | cons first rest ih =>
      intro start
      obtain ⟨least,others⟩ := ih (max start first)
      exact ⟨(le_max_left _ _).trans least,List.forall_mem_cons.mpr ⟨(le_max_right _ _).trans least,others⟩⟩
  exact run values 0

theorem perm_of_lookup {κ σ : Type} [DecidableEq κ] {entries other : List (κ × σ)} (distinct : Distinct entries)
    (distinct' : Distinct other)
    (same : ∀ key, lookup entries key = lookup other key) : entries.Perm other := by
  refine (List.perm_ext_iff_of_nodup distinct.of_map distinct'.of_map).mpr fun entry => ?_
  rw [mem_iff distinct,mem_iff distinct',same]

section Loops
variable {chunks : List Chunk} {entries : List (Nat × ℚ)}

def sumOf (chunks : List Chunk) (entries : List (Nat × ℚ)) (path : String) : ℚ := ((entries.filter (file chunks ·.1 = path)).map (·.2)).sum

theorem sums_run (todo : List (Nat × ℚ)) : ∀ (sums : List (String × ℚ)) (path : String),
    lookup (todo.foldl (fun sums entry => add (file chunks entry.1) entry.2 sums) sums) path =
      if path ∈ todo.map (file chunks ·.1) then some ((lookup sums path).getD 0 + sumOf chunks todo path) else lookup sums path := by
  induction todo with
  | nil => exact fun _ _ => rfl
  | cons entry rest ih =>
    intro sums path
    rw [List.foldl_cons,ih,add,lookup_insertLast,sumOf,sumOf]
    by_cases here : path = file chunks entry.1
    · subst here
      simp only [if_true,List.map_cons,List.mem_cons,true_or,List.filter_cons,decide_true,Option.getD_some,List.sum_cons,add_assoc]
      split_ifs with later
      · rfl
      · have none_ : rest.filter (fun other => decide (file chunks other.1 = file chunks entry.1)) = [] :=
          List.filter_eq_nil_iff.mpr fun other isIn same => later (List.mem_map.mpr ⟨other,isIn,of_decide_eq_true same⟩)
        rw [none_,List.map_nil,List.sum_nil,add_zero]
    · simp only [List.map_cons,List.mem_cons,here,false_or,if_false,List.filter_cons,decide_eq_true_eq,if_neg (Ne.symm here)]
theorem sums_distinct (todo : List (Nat × ℚ)) : ∀ {sums : List (String × ℚ)}, Distinct sums →
    Distinct (todo.foldl (fun sums entry => add (file chunks entry.1) entry.2 sums) sums) := by
  induction todo with
  | nil => exact id
  | cons entry rest ih => exact fun distinct => ih (distinct.insert _ _)

theorem file_sum_lookup [order : Iteration] (path : String) : lookup (file_sum chunks entries) path =
    if path ∈ entries.map (file chunks ·.1) then some (sumOf chunks entries path) else none := by
  have perm := Iteration.scores_perm entries
  have sum : sumOf chunks (Iteration.scores entries) path = sumOf chunks entries path := ((perm.filter _).map _).sum_eq
  rw [file_sum,sums_run,lookup_nil,Option.getD_none,zero_add,sum]
  exact if_congr (perm.map _).mem_iff rfl rfl

structure Taken (chunks : List Chunk) (done : List (Nat × ℚ)) (best : List (String × Nat)) : Prop where
  distinct : Distinct best
  missing : ∀ path, lookup best path = none → ∀ entry ∈ done, file chunks entry.1 ≠ path
  found : ∀ path index, lookup best path = some index → file chunks index = path ∧
    ∃ score, (index,score) ∈ done ∧ ∀ other ∈ done, file chunks other.1 = path → other.2 ≤ score

variable {entry : Nat × ℚ}

theorem scoreOf_mem (distinct : Distinct entries) (isIn : entry ∈ entries) : scoreOf entries entry.1 = entry.2 := by
  rw [scoreOf,(mem_iff distinct entry.1 entry.2).mp isIn,Option.getD_some]

theorem Taken.better (distinct : Distinct entries) {done : List (Nat × ℚ)} {best : List (String × Nat)} (taken : Taken chunks done best)
    (sub : ∀ other ∈ done, other ∈ entries) : Taken chunks (done ++ [entry]) (better chunks entries best entry) := by
  -- The entry takes the place of its file where all that came before of the file is less.
  have takes : (∀ other ∈ done, file chunks other.1 = file chunks entry.1 → other.2 ≤ entry.2) →
      Taken chunks (done ++ [entry]) (insertLast (file chunks entry.1) entry.1 best) := by
    intro less
    refine ⟨taken.distinct.insert _ _,fun path none_ other isOther => ?_,fun path index isFound => ?_⟩
    · rw [lookup_insertLast] at none_
      split_ifs at none_ with here
      rcases List.mem_append.mp isOther with before | last
      · exact taken.missing path none_ other before
      · exact List.mem_singleton.mp last ▸ Ne.symm here
    · rw [lookup_insertLast] at isFound
      split_ifs at isFound with here
      · cases isFound
        refine ⟨here.symm,entry.2,List.mem_append_right _ (List.mem_singleton_self entry),fun other isOther same => ?_⟩
        rcases List.mem_append.mp isOther with before | last
        · exact less other before (same.trans here)
        · rw [List.mem_singleton.mp last]
      · obtain ⟨same,score,member,most⟩ := taken.found path index isFound
        refine ⟨same,score,List.mem_append_left _ member,fun other isOther ofPath => ?_⟩
        rcases List.mem_append.mp isOther with before | last
        · exact most other before ofPath
        · rw [List.mem_singleton.mp last] at ofPath
          exact absurd ofPath.symm here
  rw [Rerank.better]
  cases current : lookup best (file chunks entry.1) with
  | none => exact takes fun other before same => absurd same (taken.missing _ current other before)
  | some index =>
    obtain ⟨same,score,member,most⟩ := taken.found _ _ current
    have isScore : scoreOf entries index = score := scoreOf_mem distinct (sub _ member)
    simp only [isScore]
    by_cases more : score < entry.2
    · rw [if_pos more]
      exact takes fun other before same => (most other before same).trans more.le
    · rw [if_neg more]
      refine ⟨taken.distinct,fun path none_ other isOther ofPath => ?_,fun path index' isFound => ?_⟩
      · rcases List.mem_append.mp isOther with before | last
        · exact taken.missing path none_ other before ofPath
        · rw [List.mem_singleton.mp last] at ofPath
          rw [← ofPath,current] at none_
          cases none_
      · obtain ⟨same',score',member',most'⟩ := taken.found path index' isFound
        refine ⟨same',score',List.mem_append_left _ member',fun other isOther ofPath => ?_⟩
        rcases List.mem_append.mp isOther with before | last
        · exact most' other before ofPath
        · rw [List.mem_singleton.mp last] at ofPath ⊢
          exact (not_lt.mp more).trans (most' _ member (same.trans ofPath))

theorem better_run (distinct : Distinct entries) (todo : List (Nat × ℚ)) : ∀ {done : List (Nat × ℚ)} {best : List (String × Nat)},
    Taken chunks done best → (∀ other ∈ done ++ todo, other ∈ entries) →
    Taken chunks (done ++ todo) (todo.foldl (better chunks entries) best) := by
  induction todo with
  | nil =>
    intro done best taken _
    rw [List.append_nil]
    exact taken
  | cons entry rest ih =>
    intro done best taken sub
    rw [List.append_cons] at sub ⊢
    exact ih (taken.better distinct fun other isIn => sub other (by simp [isIn])) sub
theorem best_taken [order : Iteration] (distinct : Distinct entries) : Taken chunks entries (best chunks entries) := by
  have perm := Iteration.scores_perm entries
  have nothing : Taken chunks [] [] := ⟨List.nodup_nil,fun _ _ => nofun,nofun⟩
  obtain ⟨apart,missing,found⟩ := better_run distinct (Iteration.scores entries) nothing fun other isIn => perm.mem_iff.mp isIn
  refine ⟨apart,fun path none_ entry isIn => missing path none_ entry (perm.mem_iff.mpr isIn),fun path index isFound => ?_⟩
  obtain ⟨same,score,member,most⟩ := found path index isFound
  exact ⟨same,score,perm.mem_iff.mp member,fun other isIn => most other (perm.mem_iff.mpr isIn)⟩

theorem better_stays (distinct : Distinct entries) (isIn : entry ∈ entries) (todo : List (Nat × ℚ))
    (most : ∀ other ∈ todo, file chunks other.1 = file chunks entry.1 → other.2 ≤ entry.2) : ∀ {best : List (String × Nat)},
    lookup best (file chunks entry.1) = some entry.1 →
    lookup (todo.foldl (better chunks entries) best) (file chunks entry.1) = some entry.1 := by
  induction todo with
  | nil => exact id
  | cons other rest ih =>
    intro best isBest
    obtain ⟨first,later⟩ := List.forall_mem_cons.mp most
    refine ih later ?_
    have differs : file chunks entry.1 ≠ file chunks other.1 →
        lookup (insertLast (file chunks other.1) other.1 best) (file chunks entry.1) = some entry.1 := fun differ => by
      rw [lookup_insertLast,if_neg differ,isBest]
    rw [better]
    cases current : lookup best (file chunks other.1) with
    | none =>
      refine differs fun same => ?_
      rw [← same,isBest] at current
      cases current
    | some index =>
      simp only
      split_ifs with more
      · refine differs fun same => ?_
        rw [← same,isBest] at current
        cases current
        rw [scoreOf_mem distinct isIn] at more
        exact absurd (first same.symm) (not_le.mpr more)
      · exact isBest

end Loops

section Bonus
variable {chunks : List Chunk} {entries : List (Nat × ℚ)}

def gain (value : String → ℚ) (picks : List (String × Nat)) (index : Nat) :
    ℚ := ((picks.filter (·.2 = index)).map fun pick => value pick.1).sum

theorem add_here (distinct : Distinct entries) {index : Nat} (isIn : index ∈ entries.map (·.1)) (value : ℚ) :
    add index value entries = entries.map fun entry => (entry.1,entry.2 + if index = entry.1 then value else 0) := by
  rw [add]
  induction entries with
  | nil => cases isIn
  | cons entry rest ih =>
    obtain ⟨first,later⟩ := List.nodup_cons.mp distinct
    rw [lookup_cons,insertLast,List.map_cons]
    by_cases here : entry.1 = index
    · subst here
      have others : rest.map (fun other => (other.1,other.2 + if entry.1 = other.1 then value else 0)) = rest := by
        refine (List.map_congr_left fun other isOther => ?_).trans (List.map_id _)
        have differ : entry.1 ≠ other.1 := fun same => first (List.mem_map.mpr ⟨other,isOther,same.symm⟩)
        rw [if_neg differ,add_zero]
        rfl
      rw [if_pos rfl,if_pos rfl,if_pos rfl,others,Option.getD_some]
    · have there : index ∈ rest.map (·.1) := (List.mem_cons.mp isIn).resolve_left (Ne.symm here)
      rw [if_neg here,if_neg (Ne.symm here),if_neg (Ne.symm here),add_zero,ih later there]

theorem boosted_run (value : String → ℚ) (picks : List (String × Nat)) : ∀ {entries : List (Nat × ℚ)}, Distinct entries →
    (∀ pick ∈ picks, pick.2 ∈ entries.map (·.1)) → picks.foldl (fun scores pick => add pick.2 (value pick.1) scores) entries =
      entries.map fun entry => (entry.1,entry.2 + gain value picks entry.1) := by
  induction picks with
  | nil =>
    intro entries _ _
    simp [gain]
  | cons pick rest ih =>
    intro entries distinct inside
    obtain ⟨first,later⟩ := List.forall_mem_cons.mp inside
    have keys : (entries.map fun entry => (entry.1,
      entry.2 + if pick.2 = entry.1 then value pick.1 else 0)).map (·.1) = entries.map (·.1) := by
      rw [List.map_map]
      rfl
    rw [List.foldl_cons,add_here distinct first,ih (by rw [Distinct,keys]; exact distinct) (by rw [keys]; exact later),List.map_map]
    refine List.map_congr_left fun entry _ => Prod.ext rfl ?_
    simp only [Function.comp_apply,gain,List.filter_cons,decide_eq_true_eq]
    split_ifs with here
    · rw [List.map_cons,List.sum_cons,add_assoc]
    · rw [add_zero]

theorem gain_perm {value : String → ℚ} {picks other : List (String × Nat)} (perm : picks.Perm other) (index : Nat) :
    gain value picks index = gain value other index := ((perm.filter _).map _).sum_eq

def plainSums (chunks : List Chunk) (entries : List (Nat × ℚ)) : List (String × ℚ) :=
  entries.foldl (fun sums entry => add (file chunks entry.1) entry.2 sums) []
theorem file_sum_perm [Iteration] : (file_sum chunks entries).Perm (plainSums chunks entries) := by
  refine perm_of_lookup (sums_distinct _ List.nodup_nil) (sums_distinct _ List.nodup_nil) fun path => ?_
  rw [file_sum_lookup,plainSums,sums_run,lookup_nil,Option.getD_none,zero_add]

def bonus (chunks : List Chunk) (entries : List (Nat × ℚ)) (path : String) : ℚ :=
  greatest (entries.map (·.2)) * (1 / 5) * (lookup (plainSums chunks entries) path).getD 0 /
    max (greatest ((plainSums chunks entries).map (·.2))) EPSILON

theorem boosted_eq [Iteration] (distinct : Distinct entries) : boosted chunks entries =
    entries.map fun entry => (entry.1,entry.2 + gain (bonus chunks entries) (best chunks entries) entry.1) := by
  have taken : Taken chunks entries (best chunks entries) := best_taken distinct
  have perm := Iteration.best_perm (best chunks entries)
  have most : greatest ((Iteration.scores entries).map (·.2)) = greatest (entries.map (·.2)) :=
    greatest_perm ((Iteration.scores_perm entries).map _)
  have sums : greatest ((Iteration.sums (file_sum chunks entries)).map (·.2)) = greatest ((plainSums chunks entries).map (·.2)) :=
    greatest_perm (((Iteration.sums_perm _).trans file_sum_perm).map _)
  have found : ∀ path, lookup (file_sum chunks entries) path = lookup (plainSums chunks entries) path :=
    lookup_perm file_sum_perm (sums_distinct _ List.nodup_nil)
  have inside : ∀ pick ∈ Iteration.best (best chunks entries), pick.2 ∈ entries.map (·.1) := by
    intro pick isPick
    obtain ⟨-,score,member,-⟩ := taken.found pick.1 pick.2 ((mem_iff taken.distinct _ _).mp (perm.mem_iff.mp isPick))
    exact List.mem_map_of_mem member
  have run := boosted_run (bonus chunks entries) (Iteration.best (best chunks entries)) distinct inside
  simp only [boosted,most,sums,found]
  refine run.trans (List.map_congr_left fun entry _ => ?_)
  rw [gain_perm perm]

/-- A file has one chunk of the greatest score. -/
def SingleBest (chunks : List Chunk) (entries : List (Nat × ℚ)) : Prop :=
  ∀ a ∈ entries, ∀ b ∈ entries, file chunks a.1 = file chunks b.1 → a.2 = b.2 →
    (∀ other ∈ entries, file chunks other.1 = file chunks a.1 → other.2 ≤ a.2) → a.1 = b.1

theorem Taken.unique {best other : List (String × Nat)} (taken : Taken chunks entries best) (taken' : Taken chunks entries other)
    (single : SingleBest chunks entries) (path : String) : lookup best path = lookup other path := by
  cases isFound : lookup best path with
  | none =>
    cases isFound' : lookup other path with
    | none => rfl
    | some index =>
      obtain ⟨same,score,member,-⟩ := taken'.found path index isFound'
      exact absurd same (taken.missing path isFound _ member)
  | some index =>
    obtain ⟨same,score,member,most⟩ := taken.found path index isFound
    cases isFound' : lookup other path with
    | none => exact absurd same (taken'.missing path isFound' _ member)
    | some index' =>
      obtain ⟨same',score',member',most'⟩ := taken'.found path index' isFound'
      have equal : score = score' := le_antisymm (most' _ member same) (most _ member' same')
      refine congrArg some (single _ member _ member' (same.trans same'.symm) equal fun entry isIn ofFile => ?_)
      exact most entry isIn (ofFile.trans same)

end Bonus

section Results
variable {chunks : List Chunk}

theorem rankKey_injective : Function.Injective (rankKey chunks) := by
  intro a b same
  obtain ⟨score,others⟩ := Prod.mk.inj (toLex.injective same)
  obtain ⟨-,others⟩ := Prod.mk.inj (toLex.injective others)
  obtain ⟨-,index⟩ := Prod.mk.inj (toLex.injective others)
  exact Prod.ext index (neg_injective score)
theorem score_ahead {left right : Nat × ℚ} (ahead : Ahead chunks left right) : right.2 ≤ left.2 := by
  rcases Prod.Lex.le_iff.mp ahead with less | ⟨same,-⟩
  · exact (neg_lt_neg_iff.mp less).le
  · exact (neg_injective same).ge
theorem ahead_total : Std.Total (Ahead chunks) := ⟨fun a b => le_total (rankKey chunks a) (rankKey chunks b)⟩
theorem ahead_trans : IsTrans (Nat × ℚ) (Ahead chunks) := ⟨fun _ _ _ => le_trans⟩
theorem sorted (entries : List (Nat × ℚ)) : (entries.insertionSort (Ahead chunks)).Pairwise (Ahead chunks) :=
  @List.pairwise_insertionSort _ _ _ ahead_total ahead_trans entries
theorem sort_perm {entries other : List (Nat × ℚ)} (perm : entries.Perm other) :
    entries.insertionSort (Ahead chunks) = other.insertionSort (Ahead chunks) :=
  List.Perm.eq_of_pairwise (fun _ _ _ _ before after => rankKey_injective (le_antisymm before after)) (sorted _) (sorted _)
    (((List.perm_insertionSort _ _).trans perm).trans (List.perm_insertionSort _ _).symm)

theorem rerank_same [Definitions] (scores : Scores chunks) (query : String) (top_k : Nat) (order other : Iteration)
    (same : @boosted chunks order scores.entries = @boosted chunks other scores.entries) :
    @rerank chunks order _ scores query top_k = @rerank chunks other _ scores query top_k := by
  have most : ∀ order : Iteration, greatest ((order.scores scores.entries).map (·.2)) = greatest (scores.entries.map (·.2)) :=
    fun order => greatest_perm ((order.scores_perm _).map _)
  simp only [rerank,most,same]
  split_ifs
  · rfl
  · rw [sort_perm (((order.scores_perm _).trans (other.scores_perm _).symm).map _)]

theorem rerank_free [Definitions] (scores : Scores chunks) (single : SingleBest chunks scores.entries) (query : String) (top_k : Nat)
    (order other : Iteration) : @rerank chunks order _ scores query top_k = @rerank chunks other _ scores query top_k := by
  have taken := @best_taken chunks _ order scores.distinct
  have taken' := @best_taken chunks _ other scores.distinct
  have perm := perm_of_lookup taken.distinct taken'.distinct (taken.unique taken' single)
  refine rerank_same scores query top_k order other ?_
  rw [@boosted_eq _ _ order scores.distinct,@boosted_eq _ _ other scores.distinct]
  exact List.map_congr_left fun entry _ => by rw [gain_perm perm]

end Results

section Ties
variable {chunks : List Chunk} {entries : List (Nat × ℚ)}

@[reducible] def firstOf (entry : Nat × ℚ) : Iteration where
  scores entries := if entry ∈ entries then entry :: entries.erase entry else entries
  sums := id
  best := id
  scores_perm entries := by
    split_ifs with isIn
    · exact (List.perm_cons_erase isIn).symm
    · rfl
  sums_perm _ := .rfl
  best_perm _ := .rfl

theorem firstOf_best (distinct : Distinct entries) {a : Nat × ℚ} (isIn : a ∈ entries)
    (most : ∀ other ∈ entries, file chunks other.1 = file chunks a.1 → other.2 ≤ a.2) :
    lookup (@best chunks (firstOf a) entries) (file chunks a.1) = some a.1 := by
  have order : (firstOf a).scores entries = a :: entries.erase a := if_pos isIn
  have first : lookup (better chunks entries [] a) (file chunks a.1) = some a.1 := by
    simp [better,lookup_insertLast]
  rw [best,order]
  exact better_stays distinct isIn _ (fun other isOther => most other (List.mem_of_mem_erase isOther)) first

theorem Taken.gain_zero {best : List (String × Nat)} (taken : Taken chunks entries best) (value : String → ℚ) {index : Nat}
    (other : lookup best (file chunks index) ≠ some index) : gain value best index = 0 := by
  have none_ : best.filter (·.2 = index) = [] := List.filter_eq_nil_iff.mpr fun pick isPick same => by
    have same := of_decide_eq_true same
    have isFound := (mem_iff taken.distinct pick.1 pick.2).mp isPick
    rw [same] at isFound
    exact other ((taken.found _ _ isFound).1 ▸ isFound)
  rw [gain,none_]
  rfl
theorem gain_ge {value : String → ℚ} (positive : ∀ path, 0 ≤ value path) {best : List (String × Nat)} {index : Nat} {path : String}
    (isPick : (path,index) ∈ best) : value path ≤ gain value best index := by
  refine List.single_le_sum (fun x isX => ?_) _ (List.mem_map.mpr ⟨(path,index),List.mem_filter.mpr ⟨isPick,decide_eq_true rfl⟩,rfl⟩)
  obtain ⟨pick,-,rfl⟩ := List.mem_map.mp isX
  exact positive pick.1

theorem bonus_positive (positive : ∀ entry ∈ entries, 0 < entry.2) :
    (∀ path, 0 ≤ bonus chunks entries path) ∧ ∀ entry ∈ entries, 0 < bonus chunks entries (file chunks entry.1) := by
  have sums : ∀ path, (lookup (plainSums chunks entries) path).getD 0 = if path ∈ entries.map
    (file chunks ·.1) then sumOf chunks entries path else 0 := by
    intro path
    rw [plainSums,sums_run,lookup_nil,Option.getD_none,zero_add]
    split_ifs <;> rfl
  have terms : ∀ path, ∀ x ∈ (entries.filter (file chunks ·.1 = path)).map (·.2), 0 ≤ x := by
    intro path x isX
    obtain ⟨entry,isEntry,rfl⟩ := List.mem_map.mp isX
    exact (positive entry (List.mem_filter.mp isEntry).1).le
  have most := greatest_ge (entries.map (·.2))
  have divisor : 0 < max (greatest ((plainSums chunks entries).map (·.2))) EPSILON := lt_max_of_lt_right (by norm_num [EPSILON])
  constructor
  · intro path
    have sum : 0 ≤ (lookup (plainSums chunks entries) path).getD 0 := by
      rw [sums]
      split_ifs
      · exact List.sum_nonneg (terms path)
      · exact le_rfl
    have most := most.1
    rw [bonus]
    positivity
  · intro entry isIn
    have sum : 0 < (lookup (plainSums chunks entries) (file chunks entry.1)).getD 0 := by
      rw [sums,if_pos (List.mem_map.mpr ⟨entry,isIn,rfl⟩)]
      refine (positive entry isIn).trans_le (List.single_le_sum (terms _) _ (List.mem_map.mpr ⟨entry,List.mem_filter.mpr ⟨isIn,?_⟩,rfl⟩))
      exact decide_eq_true rfl
    have most := (positive entry isIn).trans_le (most.2 _ (List.mem_map_of_mem isIn))
    rw [bonus]
    positivity

theorem path_penalty_positive (path : String) : 0 < path_penalty path := by
  simp only [path_penalty]
  refine mul_pos (mul_pos (mul_pos ?_ ?_) ?_) ?_ <;> split_ifs <;> norm_num

theorem saturate_mem (l : List (Nat × ℚ)) : ∀ {per_file : List (String × Nat)} {entry : Nat × ℚ}, entry ∈ saturate chunks per_file l →
    ∃ score, (entry.1,score) ∈ l ∧ (0 ≤ score → entry.2 ≤ score) := by
  induction l with
  | nil => exact nofun
  | cons first rest ih =>
    intro per_file entry isIn
    rw [saturate] at isIn
    rcases List.mem_cons.mp isIn with rfl | later
    · refine ⟨first.2,List.mem_cons_self,fun positive => ?_⟩
      simp only
      split_ifs
      · exact mul_le_of_le_one_right positive (pow_le_one₀ (by norm_num) (by norm_num))
      · exact le_rfl
    · obtain ⟨score,member,less⟩ := ih later
      exact ⟨score,List.mem_cons_of_mem _ member,less⟩
theorem saturate_first {entry : Nat × ℚ} {back : List (Nat × ℚ)} (front : List (Nat × ℚ)) : ∀ {per_file : List (String × Nat)},
    lookup per_file (file chunks entry.1) = none → (∀ other ∈ front, file chunks other.1 ≠ file chunks entry.1) →
    entry ∈ saturate chunks per_file (front ++ entry :: back) := by
  induction front with
  | nil =>
    intro per_file none_ _
    rw [List.nil_append,saturate,none_]
    exact List.mem_cons_self
  | cons first rest ih =>
    intro per_file none_ apart
    obtain ⟨differ,others⟩ := List.forall_mem_cons.mp apart
    rw [List.cons_append,saturate]
    refine List.mem_cons_of_mem _ (ih ?_ others)
    rw [lookup_insertLast,if_neg (Ne.symm differ),none_]

def penalized (chunks : List Chunk) (entries : List (Nat × ℚ)) : List (Nat × ℚ) :=
  (entries.map fun entry => (entry.1,entry.2 * path_penalty (file chunks entry.1))).insertionSort (Ahead chunks)
theorem rerank_plain [Definitions] [Iteration] (scores : Scores chunks) (filled : scores.entries ≠ []) (top_k : Nat) :
    rerank chunks scores "a" top_k =
      ((saturate chunks [] (penalized chunks (boosted chunks scores.entries))).insertionSort (Ahead chunks)).take top_k := by
  have notEmpty : scores.entries.isEmpty = false := by simpa using filled
  have plain : is_symbol_query "a" = false := by decide +kernel
  simp only [rerank,notEmpty,Bool.false_eq_true,if_false,matched,plain]
  rw [sort_perm ((Iteration.scores_perm _).map _),penalized]

theorem tie_differs [Definitions] (scores : Scores chunks) (positive : ∀ entry ∈ scores.entries, 0 < entry.2) {a b : Nat × ℚ}
    (isA : a ∈ scores.entries) (isB : b ∈ scores.entries) (same : file chunks a.1 = file chunks b.1) (equal : a.2 = b.2)
    (most : ∀ other ∈ scores.entries, file chunks other.1 = file chunks a.1 → other.2 ≤ a.2) (differ : a.1 ≠ b.1) :
    ∃ top_k, @rerank chunks (firstOf a) _ scores "a" top_k ≠ @rerank chunks (firstOf b) _ scores "a" top_k := by
  have filled : scores.entries ≠ [] := List.ne_nil_of_mem isA
  have bestA := firstOf_best scores.distinct isA most
  have bestB := firstOf_best scores.distinct isB fun other isOther ofFile => equal ▸ most other isOther (ofFile.trans same.symm)
  have takenA := @best_taken chunks _ (firstOf a) scores.distinct
  have takenB := @best_taken chunks _ (firstOf b) scores.distinct
  have boostedA := @boosted_eq chunks _ (firstOf a) scores.distinct
  have boostedB := @boosted_eq chunks _ (firstOf b) scores.distinct
  obtain ⟨nonneg,gains⟩ := @bonus_positive chunks _ positive
  have penalty := path_penalty_positive (file chunks a.1)
  have only : ∀ {c : Nat × ℚ}, c ∈ scores.entries → c.1 = a.1 → c = a := by
    intro c isC index
    have found := (mem_iff scores.distinct c.1 c.2).mp isC
    rw [index,(mem_iff scores.distinct a.1 a.2).mp isA] at found
    exact Prod.ext index (Option.some.inj found).symm
  -- Picked first, the chunk has more than its own score at the end.
  obtain ⟨top,atTop,isTop⟩ : ∃ top, a.2 * path_penalty (file chunks a.1) < top ∧
      (a.1,top) ∈ saturate chunks [] (penalized chunks (@boosted chunks (firstOf a) scores.entries)) := by
    have more := (gains a isA).trans_le (gain_ge nonneg ((mem_iff takenA.distinct _ _).mpr bestA))
    have top := mul_lt_mul_of_pos_right (lt_add_of_pos_right a.2 more) penalty
    refine ⟨_,top,?_⟩
    have isRanked : (a.1,
      (a.2 + gain (bonus chunks scores.entries) (@best chunks (firstOf a) scores.entries) a.1) * path_penalty (file chunks a.1)) ∈
        penalized chunks (@boosted chunks (firstOf a) scores.entries) := by
      rw [penalized,List.mem_insertionSort,boostedA,List.map_map]
      exact List.mem_map.mpr ⟨a,isA,rfl⟩
    have ordered : (penalized chunks (@boosted chunks (firstOf a) scores.entries)).Pairwise (Ahead chunks) := sorted _
    obtain ⟨front,back,ranked,notBefore⟩ := List.eq_append_cons_of_mem isRanked
    rw [ranked] at ordered ⊢
    refine saturate_first front rfl fun f isFront ofFile => ?_
    have isF : f ∈ penalized chunks (@boosted chunks (firstOf a) scores.entries) := ranked ▸ List.mem_append_left _ isFront
    rw [penalized,List.mem_insertionSort,boostedA,List.map_map] at isF
    obtain ⟨c,isC,rfl⟩ := List.mem_map.mp isF
    have ofFile : file chunks c.1 = file chunks a.1 := ofFile
    have ahead := (List.pairwise_append.mp ordered).2.2 _ isFront _ List.mem_cons_self
    by_cases index : c.1 = a.1
    · rw [only isC index] at isFront
      exact notBefore isFront
    · have none_ : gain (bonus chunks scores.entries) (@best chunks (firstOf a) scores.entries) c.1 = 0 := by
        refine takenA.gain_zero _ fun isBest => index ?_
        rw [ofFile,bestA] at isBest
        exact (Option.some.inj isBest).symm
      have less := score_ahead ahead
      simp only [Function.comp_apply,none_,add_zero,ofFile] at less
      exact absurd (less.trans (mul_le_mul_of_nonneg_right (most c isC ofFile) penalty.le)) (not_le.mpr top)
  -- Not picked, it has no more than its own score.
  have below : ∀ top, (a.1,top) ∈ saturate chunks [] (penalized chunks (@boosted chunks (firstOf b) scores.entries)) →
      top ≤ a.2 * path_penalty (file chunks a.1) := by
    intro top isIn
    obtain ⟨score,member,less⟩ := saturate_mem _ isIn
    rw [penalized,List.mem_insertionSort,boostedB,List.map_map] at member
    obtain ⟨c,isC,isScore⟩ := List.mem_map.mp member
    obtain ⟨index,rfl⟩ := Prod.mk.inj isScore
    obtain rfl := only isC index
    have none_ : gain (bonus chunks scores.entries) (@best chunks (firstOf b) scores.entries) c.1 = 0 := by
      refine takenB.gain_zero _ fun isBest => differ ?_
      rw [same,bestB] at isBest
      exact (Option.some.inj isBest).symm
    simp only [none_,add_zero] at less
    exact less (mul_nonneg (positive c isA).le penalty.le)
  refine ⟨(saturate chunks [] (penalized chunks (@boosted chunks (firstOf a) scores.entries))).length +
    (saturate chunks [] (penalized chunks (@boosted chunks (firstOf b) scores.entries))).length,fun results => ?_⟩
  rw [@rerank_plain chunks _ (firstOf a) scores filled,@rerank_plain chunks _ (firstOf b) scores filled,
    List.take_of_length_le (by rw [List.length_insertionSort]; omega),
      List.take_of_length_le (by rw [List.length_insertionSort]; omega)] at results
  have isIn := (List.mem_insertionSort (Ahead chunks)).mpr isTop
  rw [results,List.mem_insertionSort] at isIn
  exact absurd (below top isIn) (not_le.mpr atTop)

end Ties

/-- The orders of the maps do not matter where no file has two best chunks; for positive
    scores, as fusing ranks gives them, exactly there. -/
theorem rerank_iteration_free [Definitions] (chunks : List Chunk) (scores : Scores chunks) :
    (SingleBest chunks scores.entries → ∀ (query : String) (top_k : Nat) (order other : Iteration),
      @rerank chunks order _ scores query top_k = @rerank chunks other _ scores query top_k) ∧
    ((∀ entry ∈ scores.entries, 0 < entry.2) → ((∀ (query : String) (top_k : Nat) (order other : Iteration),
        @rerank chunks order _ scores query top_k = @rerank chunks other _ scores query top_k) ↔ SingleBest chunks scores.entries)) := by
  refine ⟨rerank_free scores,fun positive => ⟨fun free a isA b isB same equal most => ?_,rerank_free scores⟩⟩
  by_contra differ
  obtain ⟨top_k,differs⟩ := tie_differs scores positive isA isB same equal most differ
  exact differs (free "a" top_k (firstOf a) (firstOf b))

def twoChunks : List Chunk := [⟨"a.rs",1,10,none,""⟩,⟨"a.rs",11,20,none,""⟩]
def swapped : Scores twoChunks where
  entries := [(0,1 / 61),(1,1 / 61)]
  distinct := by simp [Distinct]
  inside := by decide

theorem swapped_differs : ¬ ∀ (_ : Definitions) (chunks : List Chunk) (scores : Scores chunks) (query : String) (top_k : Nat)
    (order other : Iteration), @rerank chunks order _ scores query top_k = @rerank chunks other _ scores query top_k := by
  intro free
  have positive : ∀ entry ∈ swapped.entries, 0 < entry.2 := by
    intro entry isIn
    simp only [swapped,List.mem_cons,List.not_mem_nil,or_false] at isIn
    rcases isIn with rfl | rfl <;> norm_num
  have most : ∀ other ∈ swapped.entries, file twoChunks other.1 = file twoChunks 0 → other.2 ≤ 1 / 61 := by
    intro entry isIn _
    simp only [swapped,List.mem_cons,List.not_mem_nil,or_false] at isIn
    rcases isIn with rfl | rfl <;> exact le_rfl
  obtain ⟨top_k,differs⟩ := @tie_differs twoChunks ⟨fun _ => none⟩ swapped positive (0,1 / 61) (1,1 / 61) (by simp [swapped])
    (by simp [swapped]) rfl rfl most (by decide)
  exact differs (free _ _ _ _ _ _ _)

end MyCursor.Rerank

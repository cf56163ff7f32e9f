import Mathlib.Algebra.Order.BigOperators.Group.List
import Mathlib.Data.Rat.Floor

/-!
# The rows of a virtual list

`RangeMap` of `apps/desktop/src/shared/virtual/rangeMap.ts`, which keeps the sums of the
heights of rows and finds a row by bisection, and the ranges that `VirtualListEngine.tsx`
asks it for. Heights are whole, scroll positions need not be; numbers are exact.
-/
namespace MyCursor.VirtualList

structure RangeMap where
  sizes : List Int
  prefixSums : List Int
deriving DecidableEq

namespace RangeMap

def count (map : RangeMap) : Nat := map.sizes.length
def totalSize (map : RangeMap) : Int := map.prefixSums.getLast?.getD 0

/-- The loop of `rebuildPrefixSums`, over the sizes from the index on. -/
def sumsFrom : List Int → Nat → Int → List Int → List Int
  | [], _, _, prefixSums => prefixSums
  | size :: rest, index, runningTotal, prefixSums =>
    sumsFrom rest (index + 1) (runningTotal + size) (prefixSums.set index (runningTotal + size))
def rebuildPrefixSums (map : RangeMap) (startIndex : Nat) : RangeMap :=
  if startIndex = 0 ∨ map.prefixSums.length ≠ map.sizes.length then
    -- every place of the new array is written before it is read
    { map with prefixSums := sumsFrom map.sizes 0 0 (List.replicate map.sizes.length 0) }
  else
    { map with prefixSums :=
        sumsFrom (map.sizes.drop startIndex) startIndex (map.prefixSums[startIndex - 1]?.getD 0) map.prefixSums }

def reset (map : RangeMap) (sizes : List Int) : RangeMap :=
  rebuildPrefixSums { map with sizes := sizes.map (max 1) } 0
def new (sizes : List Int) : RangeMap := rebuildPrefixSums ⟨sizes.map (max 1),[]⟩ 0

/-- The map after `updateSize`, with what it returns. -/
def updateSize (map : RangeMap) (index : Int) (size : ℚ) : RangeMap × Int :=
  if index < 0 ∨ map.sizes.length ≤ index then (map,0)
  else
    let nextSize := max 1 ⌈size⌉
    let previousSize := map.sizes[index.toNat]?.getD 0
    if previousSize = nextSize then (map,0)
    else (rebuildPrefixSums { map with sizes := map.sizes.set index.toNat nextSize } index.toNat,nextSize - previousSize)

def positionAt (map : RangeMap) (index : Int) : Int :=
  if index ≤ 0 then 0
  else if map.sizes.length ≤ index then map.totalSize
  else map.prefixSums[(index - 1).toNat]?.getD 0

/-- The loop of `indexAt`. -/
def bisect (prefixSums : List Int) (offset : ℚ) (low high : Nat) : Nat :=
  if low < high then
    if offset < (prefixSums[(low + high) / 2]?.getD 0 : Int) then bisect prefixSums offset low ((low + high) / 2)
    else bisect prefixSums offset ((low + high) / 2 + 1) high
  else low
termination_by high - low

def indexAt (map : RangeMap) (offset : ℚ) : Nat :=
  if map.sizes.length = 0 then 0
  else if offset ≤ 0 then 0
  else if map.totalSize ≤ offset then map.sizes.length - 1
  else bisect map.prefixSums offset 0 (map.prefixSums.length - 1)
def indexAfter (map : RangeMap) (offset : ℚ) : Nat :=
  if map.sizes.length = 0 then 0
  else if offset < 0 then 0
  else if map.totalSize ≤ offset then map.sizes.length
  else min (map.indexAt offset + 1) map.sizes.length

end RangeMap

structure RenderRange where
  start : Nat
  stop : Nat
deriving DecidableEq

/-- `stop` is the `end` of the source, which is not in the range. -/
def getVisibleRange (rangeMap : RangeMap) (scrollTop viewportHeight : ℚ) : RenderRange :=
  if rangeMap.count = 0 ∨ viewportHeight ≤ 0 then ⟨0,0⟩
  else ⟨rangeMap.indexAt scrollTop,rangeMap.indexAfter (scrollTop + viewportHeight - 1)⟩
def getRenderRange (rangeMap : RangeMap) (scrollTop viewportHeight : ℚ) (overscan : Nat) : RenderRange :=
  let visibleRange := getVisibleRange rangeMap scrollTop viewportHeight
  ⟨visibleRange.start - overscan,min rangeMap.count (visibleRange.stop + overscan)⟩

inductive Change where
  | reset (sizes : List Int)
  | updateSize (index : Int) (size : ℚ)

def change (map : RangeMap) : Change → RangeMap
  | .reset sizes => map.reset sizes
  | .updateSize index size => (map.updateSize index size).1
def run (sizes : List Int) (changes : List Change) : RangeMap := changes.foldl change (.new sizes)

def place (sizes : List Int) (row : Nat) : Int := (sizes.take row).sum

/-- Rows are at least one pixel high, and the sums are those of the rows so far. -/
structure Summed (map : RangeMap) : Prop where
  positive : ∀ size ∈ map.sizes, 1 ≤ size
  sums : map.prefixSums = (List.range map.sizes.length).map fun row => place map.sizes (row + 1)

theorem sums_from (rest : List Int) : ∀ (index : Nat) (runningTotal : Int) (prefixSums : List Int),
    index + rest.length = prefixSums.length → RangeMap.sumsFrom rest index runningTotal prefixSums =
      prefixSums.take index ++ (List.range rest.length).map fun row => runningTotal + place rest (row + 1) := by
  induction rest with
  | nil =>
    intro index runningTotal prefixSums long
    rw [RangeMap.sumsFrom,List.length_nil,List.range_zero,List.map_nil,List.append_nil,List.take_of_length_le (by
      rw [← long,List.length_nil,Nat.add_zero])]
  | cons size rest ih =>
    intro index runningTotal prefixSums long
    rw [List.length_cons] at long
    rw [RangeMap.sumsFrom,ih _ _ _ (by rw [List.length_set]; omega),List.length_cons,List.range_succ_eq_map,List.map_cons,List.map_map,
      List.take_add_one,List.take_set_of_le (Nat.le_refl index),List.getElem?_set_self (by omega),List.append_assoc]
    refine congrArg (prefixSums.take index ++ ·) ?_
    refine congrArg₂ List.cons ?_ (List.map_congr_left fun row _ => ?_)
    · simp [place]
    · simp [place,add_assoc]

theorem place_add (sizes : List Int) (first more : Nat) :
    place sizes (first + more) = place sizes first + place (sizes.drop first) more := by
  rw [place,List.take_add,List.sum_append]
  rfl

variable {map : RangeMap}

theorem rebuild_summed {startIndex : Nat} (positive : ∀ size ∈ map.sizes, 1 ≤ size) (isRow : startIndex ≤ map.sizes.length)
    (before : map.prefixSums.length = map.sizes.length →
      map.prefixSums.take startIndex = (List.range startIndex).map fun row => place map.sizes (row + 1)) :
    Summed (map.rebuildPrefixSums startIndex) := by
  rw [RangeMap.rebuildPrefixSums]
  split_ifs with whole
  · refine ⟨positive,?_⟩
    rw [sums_from _ _ _ _ (by rw [List.length_replicate,Nat.zero_add]),List.take_zero,List.nil_append]
    exact List.map_congr_left fun row _ => Int.zero_add _
  · rw [not_or,not_not] at whole
    obtain ⟨later,long⟩ := whole
    have known := before long
    obtain ⟨last,rfl⟩ : ∃ last, startIndex = last + 1 := ⟨startIndex - 1,by omega⟩
    have total : map.prefixSums[last]? = some (place map.sizes (last + 1)) := by
      rw [← List.getElem?_take_of_lt (Nat.lt_succ_self last),known,List.getElem?_map,List.getElem?_range (Nat.lt_succ_self last)]
      rfl
    have all : (List.range map.sizes.length).map (fun row => place map.sizes (row + 1)) =
        ((List.range (last + 1)).map fun row => place map.sizes (row + 1)) ++ (List.range (map.sizes.length - (last + 1))).map fun row =>
            place map.sizes (last + 1) + place (map.sizes.drop (last + 1)) (row + 1) := by
      conv => lhs; rw [← Nat.add_sub_of_le isRow,List.range_add,List.map_append,List.map_map]
      exact congrArg _ (List.map_congr_left fun row _ => place_add map.sizes (last + 1) (row + 1))
    refine ⟨positive,?_⟩
    rw [Nat.add_sub_cancel,total,Option.getD_some,sums_from _ _ _ _ (by rw [List.length_drop,long]; omega),known,List.length_drop]
    exact all.symm

theorem max_positive {sizes : List Int} : ∀ size ∈ sizes.map (max 1), 1 ≤ size := by
  intro size isIn
  obtain ⟨given,_,rfl⟩ := List.mem_map.mp isIn
  exact le_max_left _ _
theorem new_summed (sizes : List Int) : Summed (.new sizes) := rebuild_summed max_positive (Nat.zero_le _) fun _ => rfl
theorem reset_summed (map : RangeMap) (sizes : List Int) : Summed (map.reset sizes) :=
  rebuild_summed max_positive (Nat.zero_le _) fun _ => rfl
theorem update_summed (summed : Summed map) (index : Int) (size : ℚ) : Summed (map.updateSize index size).1 := by
  simp only [RangeMap.updateSize]
  split_ifs with outside
  · exact summed
  · exact summed
  · obtain ⟨row,rfl⟩ := Int.eq_ofNat_of_zero_le (by omega : 0 ≤ index)
    refine rebuild_summed (fun other isIn => ?_) (by rw [List.length_set]; omega) fun _ => ?_
    · rcases List.mem_or_eq_of_mem_set isIn with isIn | rfl
      · exact summed.positive other isIn
      · exact le_max_left _ _
    · rw [summed.sums,← List.map_take,List.take_range,Int.toNat_natCast,Nat.min_eq_left (by omega)]
      refine List.map_congr_left fun before isBefore => ?_
      rw [place,place,List.take_set_of_le (List.mem_range.mp isBefore)]

theorem change_summed (summed : Summed map) : ∀ made, Summed (change map made)
  | .reset sizes => reset_summed map sizes
  | .updateSize index size => update_summed summed index size
theorem run_summed (sizes : List Int) (changes : List Change) : Summed (run sizes changes) :=
  List.foldlRecOn changes change (new_summed sizes) fun _ summed made _ => change_summed summed made

section Positions
variable {map : RangeMap} (summed : Summed map)
include summed

variable {row : Nat}

theorem place_next (isRow : row < map.sizes.length) : place map.sizes row + 1 ≤ place map.sizes (row + 1) := by
  rw [place,place,List.take_add_one,List.getElem?_eq_getElem isRow,List.sum_append]
  have one := summed.positive _ (List.getElem_mem isRow)
  simpa using one
theorem place_mono {later : Nat} (less : row ≤ later) : place map.sizes row ≤ place map.sizes later := by
  obtain ⟨more,rfl⟩ := Nat.exists_eq_add_of_le less
  rw [place_add]
  refine le_add_of_nonneg_right (List.sum_nonneg fun size isIn => ?_)
  exact (by decide : (0 : Int) ≤ 1).trans (summed.positive size (List.mem_of_mem_drop (List.mem_of_mem_take isIn)))

theorem sum_at (isRow : row < map.sizes.length) : map.prefixSums[row]? = some (place map.sizes (row + 1)) := by
  rw [summed.sums,List.getElem?_map,List.getElem?_range isRow]
  rfl
theorem sums_length : map.prefixSums.length = map.sizes.length := by
  rw [summed.sums,List.length_map,List.length_range]
theorem total_place : map.totalSize = place map.sizes map.sizes.length := by
  rw [RangeMap.totalSize,List.getLast?_eq_getElem?,sums_length summed]
  cases long : map.sizes.length with
  | zero => rw [← sums_length summed,List.length_eq_zero_iff] at long; rw [long]; rfl
  | succ last => rw [Nat.add_sub_cancel,sum_at summed (long ▸ Nat.lt_succ_self last)]; rfl
theorem position_place (row : Nat) : map.positionAt row = place map.sizes row := by
  rw [RangeMap.positionAt]
  split_ifs with first past
  · obtain rfl : row = 0 := by omega
    rfl
  · rw [total_place summed,place,place,List.take_length,List.take_of_length_le (by omega)]
  · obtain ⟨before,rfl⟩ : ∃ before, row = before + 1 := ⟨row - 1,by omega⟩
    rw [(by omega : (((before + 1 : Nat) : Int) - 1).toNat = before),sum_at summed (by omega)]
    rfl

variable {offset : ℚ}

theorem bisect_place (low high : Nat) (isRow : high < map.sizes.length) (ordered : low ≤ high)
    (from_ : place map.sizes low ≤ offset) (before : offset < place map.sizes (high + 1)) :
    RangeMap.bisect map.prefixSums offset low high < map.sizes.length ∧
      place map.sizes (RangeMap.bisect map.prefixSums offset low high) ≤ offset ∧
        offset < place map.sizes (RangeMap.bisect map.prefixSums offset low high + 1) := by
  fun_induction RangeMap.bisect map.prefixSums offset low high with
  | case1 low high less above ih =>
    rw [sum_at summed (by omega),Option.getD_some] at above
    exact ih (by omega) (by omega) from_ above
  | case2 low high less after ih =>
    rw [sum_at summed (by omega),Option.getD_some,not_lt] at after
    exact ih isRow (by omega) after before
  | case3 low high done =>
    obtain rfl : low = high := by omega
    exact ⟨isRow,from_,before⟩

theorem index_place (some_ : 0 ≤ offset) (within : offset < map.totalSize) : map.indexAt offset < map.sizes.length ∧
    place map.sizes (map.indexAt offset) ≤ offset ∧ offset < place map.sizes (map.indexAt offset + 1) := by
  rw [total_place summed] at within
  have rows : map.sizes.length ≠ 0 := fun none_ => by
    rw [none_] at within
    exact absurd within (not_lt_of_ge some_)
  rw [RangeMap.indexAt,if_neg rows]
  split_ifs with first past
  · have next := place_next summed (Nat.pos_of_ne_zero rows)
    have high : (1 : ℚ) ≤ place map.sizes (0 + 1) := by exact_mod_cast next
    exact ⟨Nat.pos_of_ne_zero rows,some_,by linarith⟩
  · rw [total_place summed] at past
    exact absurd within (not_lt_of_ge past)
  · rw [sums_length summed]
    exact bisect_place summed 0 _ (by omega) (Nat.zero_le _) some_ (by rwa [Nat.sub_add_cancel (by omega)])

theorem index_le (within : offset < map.totalSize) (isRow : row < map.sizes.length) :
    map.indexAt offset ≤ row ↔ offset < place map.sizes (row + 1) := by
  rcases lt_or_ge offset 0 with negative | some_
  · rw [RangeMap.indexAt,if_neg (by omega),if_pos negative.le]
    have high : (0 : ℚ) ≤ place map.sizes (row + 1) := by exact_mod_cast place_mono summed (Nat.zero_le (row + 1))
    exact iff_of_true (Nat.zero_le _) (negative.trans_le high)
  · obtain ⟨_,low,high⟩ := index_place summed some_ within
    constructor
    · intro before
      exact high.trans_le (by exact_mod_cast place_mono summed (Nat.succ_le_succ before))
    · intro ends
      by_contra after
      have less : (place map.sizes (row + 1) : ℚ) ≤ place map.sizes (map.indexAt offset) := by
        exact_mod_cast place_mono summed (by omega)
      linarith
/-- The rows before the one that comes after an offset begin at the offset or before it. -/
theorem before_after (isRow : row < map.sizes.length) : row < map.indexAfter offset ↔ place map.sizes row ≤ offset := by
  rw [RangeMap.indexAfter,if_neg (by omega)]
  split_ifs with negative past
  · have high : (0 : ℚ) ≤ place map.sizes row := by exact_mod_cast place_mono summed (Nat.zero_le row)
    exact iff_of_false (Nat.not_lt_zero _) (by linarith)
  · rw [total_place summed] at past
    have low : (place map.sizes row : ℚ) ≤ place map.sizes map.sizes.length := by exact_mod_cast place_mono summed isRow.le
    exact iff_of_true isRow (low.trans past)
  · obtain ⟨_,low,high⟩ := index_place summed (not_lt.mp negative) (not_le.mp past)
    rw [Nat.lt_min,Nat.lt_succ_iff,and_iff_left isRow]
    constructor
    · intro before
      exact le_trans (by exact_mod_cast place_mono summed before) low
    · intro begins
      by_contra after
      have less : (place map.sizes (map.indexAt offset + 1) : ℚ) ≤ place map.sizes row := by exact_mod_cast place_mono summed (by omega)
      linarith

end Positions

/-- The part of the list that rows are shown of; at its end or past it the last row. -/
def Shown (map : RangeMap) (scrollTop viewportHeight : ℚ) (row : Nat) : Prop :=
  row < map.count ∧ if map.totalSize ≤ scrollTop then row + 1 = map.count
    else map.positionAt row < scrollTop + viewportHeight ∧ scrollTop < map.positionAt (row + 1)
/-- The visible range is the rows that are shown. -/
def Visible (map : RangeMap) (scrollTop viewportHeight : ℚ) : Prop :=
  ∀ row, (getVisibleRange map scrollTop viewportHeight).start ≤ row ∧ row < (getVisibleRange map scrollTop viewportHeight).stop ↔
    Shown map scrollTop viewportHeight row
/-- No row begins within the last pixel of the viewport, but for its upper edge. -/
def Unbroken (map : RangeMap) (scrollTop viewportHeight : ℚ) : Prop :=
  ∀ row < map.count, ¬(scrollTop + viewportHeight - 1 < map.positionAt row ∧ (map.positionAt row : ℚ) < scrollTop + viewportHeight)

theorem after_le (map : RangeMap) (offset : ℚ) : map.indexAfter offset ≤ map.sizes.length := by
  rw [RangeMap.indexAfter]
  split_ifs
  · exact Nat.zero_le _
  · exact Nat.zero_le _
  · exact le_rfl
  · exact Nat.min_le_right _ _

section Ranges
variable {map : RangeMap} {scrollTop viewportHeight : ℚ}

theorem range_rows (some_ : 0 < viewportHeight) {row : Nat} (isRow : row < map.sizes.length) :
    getVisibleRange map scrollTop viewportHeight = ⟨map.indexAt scrollTop,map.indexAfter (scrollTop + viewportHeight - 1)⟩ :=
  if_neg (by rw [RangeMap.count,not_or,not_le]; exact ⟨by omega,some_⟩)
theorem in_range {row : Nat} (inside : row < (getVisibleRange map scrollTop viewportHeight).stop) : row < map.sizes.length := by
  rw [getVisibleRange] at inside
  split_ifs at inside
  · exact absurd inside (Nat.not_lt_zero _)
  · exact inside.trans_le (after_le map _)
section
variable (summed : Summed map)
include summed

theorem shown_place (within : scrollTop < map.totalSize) (row : Nat) : Shown map scrollTop viewportHeight row ↔
    row < map.sizes.length ∧ place map.sizes row < scrollTop + viewportHeight ∧ scrollTop < place map.sizes (row + 1) := by
  have next : map.positionAt (row + 1) = place map.sizes (row + 1) := position_place summed (row + 1)
  rw [Shown,if_neg (not_le.mpr within),position_place summed,next]
  rfl

theorem end_visible (some_ : 0 < viewportHeight) (past : map.totalSize ≤ scrollTop) : Visible map scrollTop viewportHeight := by
  intro row
  rw [Shown,if_pos past]
  by_cases isRow : row < map.sizes.length
  · have ends : (place map.sizes row + 1 : ℚ) ≤ map.totalSize := by
      rw [total_place summed]
      exact_mod_cast (place_next summed isRow).trans (place_mono summed isRow)
    have begins : (0 : ℚ) ≤ place map.sizes row := by exact_mod_cast place_mono summed (Nat.zero_le row)
    have last : map.indexAt scrollTop = map.sizes.length - 1 := by
      rw [RangeMap.indexAt,if_neg (by omega),if_neg (by linarith),if_pos past]
    rw [range_rows some_ isRow,before_after summed isRow,last,RangeMap.count]
    constructor
    · rintro ⟨first,_⟩
      have isLast : map.sizes.length - 1 ≤ row := first
      omega
    · intro isLast
      exact ⟨(by omega : map.sizes.length - 1 ≤ row),by linarith⟩
  · exact iff_of_false (fun inside => isRow (in_range inside.2)) fun shown => isRow shown.1

/-- Before its end, the range is right exactly where no row begins in the last pixel: the end is looked up one pixel above. -/
theorem visible_iff (some_ : 0 < viewportHeight) (within : scrollTop < map.totalSize) :
    Visible map scrollTop viewportHeight ↔ Unbroken map scrollTop viewportHeight := by
  constructor
  · rintro right row isRow ⟨late,begins⟩
    rw [position_place summed] at late begins
    have high : (place map.sizes row + 1 : ℚ) ≤ place map.sizes (row + 1) := by exact_mod_cast place_next summed isRow
    have inside := ((right row).mpr ((shown_place summed within row).mpr ⟨isRow,begins,by linarith⟩)).2
    rw [range_rows some_ isRow,before_after summed isRow] at inside
    linarith
  · intro unbroken row
    rw [shown_place summed within]
    by_cases isRow : row < map.sizes.length
    · have whole := unbroken row isRow
      rw [position_place summed] at whole
      rw [range_rows some_ isRow,index_le summed within isRow,before_after summed isRow]
      constructor
      · intro inside
        exact ⟨isRow,by linarith [inside.2],inside.1⟩
      · rintro ⟨_,begins,ends⟩
        exact ⟨ends,not_lt.mp fun late => whole ⟨late,begins⟩⟩
    · exact iff_of_false (fun inside => isRow (in_range inside.2)) fun shown => isRow shown.1
theorem whole_visible {top height : Int} (some_ : 0 < height) : Visible map top height := by
  have positive : (0 : ℚ) < height := by exact_mod_cast some_
  rcases lt_or_ge (top : ℚ) map.totalSize with within | past
  · refine (visible_iff summed positive within).mpr fun row _ => ?_
    rintro ⟨late,begins⟩
    have less : top + height - 1 < map.positionAt row := by exact_mod_cast late
    have more : map.positionAt row < top + height := by exact_mod_cast begins
    omega
  · exact end_visible summed positive past
/-- The row that is left out is rendered all the same, wherever rows beyond the range are. -/
theorem shown_rendered (some_ : 0 < viewportHeight) {overscan row : Nat} (beyond : 0 < overscan)
    (shown : Shown map scrollTop viewportHeight row) : (getRenderRange map scrollTop viewportHeight overscan).start ≤ row ∧
      row < (getRenderRange map scrollTop viewportHeight overscan).stop := by
  rcases lt_or_ge scrollTop map.totalSize with within | past
  · obtain ⟨isRow,begins,ends⟩ := (shown_place summed within row).mp shown
    have first := (index_le summed within isRow).mpr ends
    have last : row ≤ map.indexAfter (scrollTop + viewportHeight - 1) := by
      cases row with
      | zero => exact Nat.zero_le _
      | succ before =>
        have high : (place map.sizes before + 1 : ℚ) ≤ place map.sizes (before + 1) := by
          exact_mod_cast place_next summed (Nat.lt_of_succ_lt isRow)
        exact (before_after summed (Nat.lt_of_succ_lt isRow)).mpr (by linarith)
    simp only [getRenderRange,range_rows some_ isRow,RangeMap.count]
    omega
  · obtain ⟨first,last⟩ := (end_visible summed some_ past row).mpr shown
    have isRow := in_range last
    simp only [getRenderRange,RangeMap.count]
    omega

end

end Ranges

/-- What the map answers about its rows. -/
structure Right (map : RangeMap) : Prop where
  positive : ∀ size ∈ map.sizes, 1 ≤ size
  sums : map.prefixSums = (List.range map.sizes.length).map fun row => (map.sizes.take (row + 1)).sum
  positions : ∀ index : Int, map.positionAt index = (map.sizes.take index.toNat).sum
  found : ∀ offset : ℚ, 0 ≤ offset → offset < map.totalSize → ∀ index : Int,
    index = map.indexAt offset ↔ map.positionAt index ≤ offset ∧ offset < map.positionAt (index + 1)

theorem summed_right (summed : Summed map) : Right map := by
  have positions (index : Int) : map.positionAt index = place map.sizes index.toNat := by
    rcases Int.le_total index 0 with first | later
    · rw [RangeMap.positionAt,if_pos first,Int.toNat_of_nonpos first]
      rfl
    · rw [← position_place summed,Int.toNat_of_nonneg later]
  refine ⟨summed.positive,summed.sums,positions,fun offset some_ within index => ?_⟩
  obtain ⟨isRow,low,high⟩ := index_place summed some_ within
  rw [positions,positions]
  constructor
  · rintro rfl
    exact ⟨low,high⟩
  · rintro ⟨begins,ends⟩
    have negative : 0 ≤ index := by
      by_contra below
      rw [Int.toNat_of_nonpos (by omega)] at ends
      exact absurd ends (not_lt_of_ge some_)
    obtain ⟨row,rfl⟩ := Int.eq_ofNat_of_zero_le negative
    have notAfter : ¬map.indexAt offset < row := fun after => by
      have less : (place map.sizes (map.indexAt offset + 1) : ℚ) ≤ place map.sizes row := by exact_mod_cast place_mono summed after
      exact absurd (high.trans_le less) (not_lt_of_ge begins)
    have notBefore : ¬row < map.indexAt offset := fun before => by
      have less : (place map.sizes (row + 1) : ℚ) ≤ place map.sizes (map.indexAt offset) := by exact_mod_cast place_mono summed before
      exact absurd (lt_of_lt_of_le ends less) (not_lt_of_ge low)
    omega

/-- After any calls the sums are right; the visible range is, exactly where no row begins in the last pixel before the list ends. -/
theorem range_map_right (sizes : List Int) (changes : List Change) : Right (run sizes changes) ∧
    ∀ scrollTop viewportHeight : ℚ, 0 < viewportHeight → (Visible (run sizes changes) scrollTop viewportHeight ↔
      (scrollTop < (run sizes changes).totalSize → Unbroken (run sizes changes) scrollTop viewportHeight)) := by
  have summed := run_summed sizes changes
  refine ⟨summed_right summed,fun scrollTop viewportHeight some_ => ?_⟩
  rcases lt_or_ge scrollTop (run sizes changes).totalSize with within | past
  · exact (visible_iff summed some_ within).trans ⟨fun unbroken _ => unbroken,fun unbroken => unbroken within⟩
  · exact iff_of_true (end_visible summed some_ past) fun within => absurd within (not_lt_of_ge past)
theorem measured_right : Visible (run [10,0] [.updateSize 1 (25 / 2),.updateSize 7 3]) 12 6 :=
  ((range_map_right [10,0] [.updateSize 1 (25 / 2),.updateSize 7 3]).2 12 6 (by decide +kernel)).mpr fun _ => by
    rw [Unbroken]
    decide +kernel
/-- Half a pixel down, half a pixel of the second of two rows is in the viewport. -/
theorem second_row_left_out : ¬Visible (run [10,10] []) (1 / 2) 10 ∧ Shown (run [10,10] []) (1 / 2) 10 1 := by
  have within : (1 / 2 : ℚ) < (run [10,10] []).totalSize := by decide +kernel
  have positive : (0 : ℚ) < 10 := by decide +kernel
  refine ⟨fun right => ?_,(shown_place (run_summed _ _) within 1).mpr (by decide +kernel)⟩
  have unbroken := (visible_iff (run_summed _ _) positive within).mp right
  exact unbroken 1 (by decide +kernel) (by decide +kernel)

end MyCursor.VirtualList

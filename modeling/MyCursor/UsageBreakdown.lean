import MyCursor.Compaction
import Mathlib.Algebra.BigOperators.Fin
import Mathlib.Algebra.Order.BigOperators.Group.Finset

/-!
# The breakdown of the tokens in use

`cursor/services/usage.rs`: what the prompt, the tools and the messages measure, by
categories, and how the tokens in use are shared among these.
-/

namespace Apportionment
variable {n : Nat}

/-- One more for the first of the order, as long as something remains. -/
def raise : Nat → List (Fin n) → (Fin n → Nat) → Fin n → Nat
  | 0, _, shares => shares
  | _, [], shares => shares
  | remainder + 1, index :: rest, shares => raise remainder rest (Function.update shares index (shares index + 1))

theorem raise_eq {order : List (Fin n)} (distinct : order.Nodup) : ∀ (remainder : Nat) (shares : Fin n → Nat) (index : Fin n),
    raise remainder order shares index = shares index + if index ∈ order.take remainder then 1 else 0 := by
  induction order with
  | nil => rintro (_ | remainder) shares index <;> simp [raise]
  | cons first rest ih =>
    rintro (_ | remainder) shares index
    · simp [raise]
    · obtain ⟨notIn,restDistinct⟩ := List.nodup_cons.mp distinct
      rw [raise,ih restDistinct,List.take_succ_cons]
      by_cases same : index = first
      · subst same
        have notTaken : index ∉ rest.take remainder := fun isIn => notIn (List.mem_of_mem_take isIn)
        simp [notTaken]
      · simp [same]
theorem raise_sum (order : List (Fin n)) : ∀ (remainder : Nat) (shares : Fin n → Nat),
    ∑ index, raise remainder order shares index = ∑ index, shares index + min remainder order.length := by
  induction order with
  | nil => rintro (_ | remainder) shares <;> simp [raise]
  | cons first rest ih =>
    rintro (_ | remainder) shares
    · simp [raise]
    · have one : ∑ index, Function.update shares first (shares first + 1) index = ∑ index, shares index + 1 := by
        rw [Finset.sum_update_of_mem (Finset.mem_univ first),← Finset.add_sum_erase Finset.univ shares (Finset.mem_univ first),
          Finset.sdiff_singleton_eq_erase]
        omega
      rw [raise,ih,one,List.length_cons]
      omega

theorem floors_le {weights : Fin n → Nat} {whole total : Nat} (some_ : 0 < whole) (bounded : ∑ index, weights index ≤ whole * total) :
    ∑ index, weights index / whole ≤ total := by
  have less : (∑ index, weights index / whole) * whole ≤ total * whole := by
    calc (∑ index, weights index / whole) * whole = ∑ index, weights index / whole * whole := Finset.sum_mul _ _ _
      _ ≤ ∑ index, weights index := Finset.sum_le_sum fun _ _ => Nat.div_mul_le_self _ _
      _ ≤ total * whole := bounded.trans_eq (Nat.mul_comm _ _)
  exact Nat.le_of_mul_le_mul_right less some_
theorem remainder_le {weights : Fin n → Nat} {whole total : Nat} (some_ : 0 < whole) (exact_ : ∑ index, weights index = whole * total) :
    total ≤ ∑ index, weights index / whole + n := by
  have less : whole * total ≤ whole * (∑ index, weights index / whole + n) := by
    calc whole * total = ∑ index, weights index := exact_.symm
      _ ≤ ∑ index, (whole * (weights index / whole) + whole) := Finset.sum_le_sum fun index _ => by
          have parts := Nat.div_add_mod (weights index) whole
          have less := Nat.mod_lt (weights index) some_
          omega
      _ = whole * (∑ index, weights index / whole + n) := by
          rw [Finset.sum_add_distrib,← Finset.mul_sum,Nat.mul_add]
          simp [Nat.mul_comm n]
  exact Nat.le_of_mul_le_mul_left less some_

end Apportionment

namespace MyCursor.UsageBreakdown
open Text Message Compaction Apportionment

def CATEGORIES : List (String × String) :=
    [("system_prompt","System prompt"),("tools","Tool definitions"),("rules","Rules"),("skills","Skills"),
  ("mcp","MCP & dynamic tools"),("subagents","Subagent definitions"),("summarized_conversation","Summarized conversation"),
  ("conversation","Conversation")]
def SYSTEM : Fin 8 := 0
def TOOLS : Fin 8 := 1
def RULES : Fin 8 := 2
def SKILLS : Fin 8 := 3
def MCP : Fin 8 := 4
def SUBAGENTS : Fin 8 := 5
def SUMMARY : Fin 8 := 6
def CONVERSATION : Fin 8 := 7

def len_utf16 (c : Char) : Nat := if c.toNat < 0x10000 then 1 else 2

structure Measure where
  characters : Nat
  token_units : Nat

def Measure.add (measure : Measure) (text : List Char) : Measure :=
  ⟨measure.characters + (text.map len_utf16).sum,
    measure.token_units + (text.map fun c => if c.toNat < 128 then len_utf16 c * 273 else len_utf16 c * 550).sum⟩
def Measure.estimated_tokens (measure : Measure) : Nat := (measure.token_units + 999) / 1000

abbrev Measures := Fin 8 → Measure
def add (measures : Measures) (category : Fin 8) (text : List Char) : Measures :=
  Function.update measures category ((measures category).add text)

def find (pattern : List Char) : List Char → Option Nat
  | [] => if pattern = [] then some 0 else none
  | c :: rest => if pattern <+: c :: rest then some 0 else (find pattern rest).map (· + 1)

theorem find_within {pattern text : List Char} {offset : Nat} (found : find pattern text = some offset) :
    offset + pattern.length ≤ text.length := by
  induction text generalizing offset with
  | nil =>
    rw [find] at found
    split_ifs at found with none_
    cases found
    simp [none_]
  | cons c rest ih =>
    rw [find] at found
    split_ifs at found with here
    · cases found
      rw [Nat.zero_add]
      exact here.length_le
    · obtain ⟨next,isNext,rfl⟩ := Option.map_eq_some_iff.mp found
      have within := ih isNext
      rw [List.length_cons]
      omega

structure Range where
  start : Nat
  finish : Nat
  category : Fin 8

/-- The next range of the tag in a text: where it starts and where it ends. -/
def nextRange (tag : String) (text : List Char) : Option (Nat × Nat) := do
  let start ← find ("<" ++ tag).toList text
  let open_end := start + (← find ['>'] (text.drop start)) + 1
  let relative_end ← find ("</" ++ tag ++ ">").toList (text.drop open_end)
  some (start,open_end + relative_end + ("</" ++ tag ++ ">").toList.length)

theorem nextRange_within {tag : String} {text : List Char} {start finish : Nat} (next : nextRange tag text = some (start,finish)) :
    start < finish ∧ finish ≤ text.length := by
  rw [nextRange] at next
  obtain ⟨first,isFirst,next⟩ := Option.bind_eq_some_iff.mp next
  obtain ⟨gap,isGap,next⟩ := Option.bind_eq_some_iff.mp next
  obtain ⟨last,isLast,next⟩ := Option.bind_eq_some_iff.mp next
  have one := find_within isGap
  have two := find_within isLast
  rw [List.length_drop] at one two
  cases next
  generalize ("</" ++ tag ++ ">").toList.length = closing at two ⊢
  rw [List.length_singleton] at one
  omega

def collect_ranges (tag : String) (category : Fin 8) (cursor : Nat) (text : List Char) : List Range :=
  match _next : nextRange tag text with
  | none => []
  | some (start,finish) => ⟨cursor + start,cursor + finish,category⟩ :: collect_ranges tag category (cursor + finish) (text.drop finish)
termination_by text.length
decreasing_by
  have within := nextRange_within _next
  rw [List.length_drop]
  omega

theorem collect_within (tag : String) (category : Fin 8) (cursor : Nat) (text : List Char) :
    ∀ range ∈ collect_ranges tag category cursor text, range.start < range.finish ∧ range.finish ≤ cursor + text.length := by
  induction cursor, text using collect_ranges.induct tag with
  | case1 cursor text none_ =>
    rw [collect_ranges,none_]
    exact List.forall_mem_nil _
  | case2 cursor text start finish next ih =>
    have within := nextRange_within next
    rw [collect_ranges,next]
    refine List.forall_mem_cons.mpr ⟨by dsimp only; omega,fun range isIn => ?_⟩
    have inside := ih range isIn
    rw [List.length_drop] at inside
    omega

def slice (text : List Char) (start finish : Nat) : List Char := (text.take finish).drop start
def measure_ranges (text : List Char) : Nat → List Range → Measures → Measures
  | cursor, [], measures => add measures CONVERSATION (text.drop cursor)
  | cursor, range :: rest, measures =>
    if range.start < cursor then measure_ranges text cursor rest measures
    else measure_ranges text range.finish rest
      (add (add measures CONVERSATION (slice text cursor range.start)) range.category (slice text range.start range.finish))
def measure_runtime (text : List Char) (measures : Measures) : Measures :=
  let ranges := collect_ranges "rules" RULES 0 text ++ collect_ranges "rule" RULES 0 text ++ collect_ranges "agent_skills" SKILLS 0 text ++
    collect_ranges "skill" SKILLS 0 text ++ collect_ranges "subagents" SUBAGENTS 0 text ++ collect_ranges "mcp_meta_tools" MCP 0 text ++
    collect_ranges "conversation_summary" SUMMARY 0 text
  measure_ranges text 0 (ranges.mergeSort fun a b => decide (a.start ≤ b.start)) measures

/-- `serde_json::to_string` of what an assistant message calls and of a result. -/
class UsageText where
  tool_calls : List ToolCallContent → String
  result : ToolResultContent → String

section Breakdown
variable [SerdeText] [UsageText]

def measure_part (origin : Origin) (measures : Measures) : ContentPart → Measures
  | .Text text => if origin = .Runtime then measure_runtime text.toList measures else add measures CONVERSATION text.toList
  | .Image _ _ => measures
def measure_message (measures : Measures) (message : CanonicalMessage) : Measures :=
  match message.content with
  | .Parts parts => parts.foldl (measure_part message.origin) measures
  | .Assistant text thinking _ _ tool_calls =>
    add (add (add measures CONVERSATION text.toList) CONVERSATION thinking.toList) CONVERSATION (UsageText.tool_calls tool_calls).toList
  | .ToolResult result => add measures CONVERSATION (UsageText.result result).toList

structure PromptTokenBreakdownCategory where
  id : String
  label : String
  estimated_tokens : UInt32
  character_count : Option UInt32

structure PromptTokenBreakdownSnapshot where
  total_used_tokens : UInt32
  max_tokens : UInt32
  categories : List PromptTokenBreakdownCategory

def special (estimates : Fin 8 → Nat) (index : Fin 7) : Nat := estimates index.castSucc
/-- `saturating_mul` of an estimate with the total. -/
def product (original : Fin 8 → Nat) (total : Nat) (index : Fin 7) : Nat := min (special original index * total) u64Max

/-- The special estimates as they are fitted into the total. -/
def fit_special_estimates (original : Fin 8 → Nat) (total : Nat) : Fin 7 → Nat :=
  let special_total := ∑ index, special original index
  if special_total ≤ total ∨ special_total = 0 then special original
  else
    let shares index := product original total index / special_total
    let order := (List.finRange 7).mergeSort fun a b =>
      decide (product original total b % special_total ≤ product original total a % special_total)
    raise (total - ∑ index, shares index) order shares

def measured (instructions : String) (tools : List ToolDefinition) (dynamic_tools : List String) (messages : List CanonicalMessage) :
    Measures :=
  messages.foldl measure_message (tools.foldl (fun measures tool =>
    add measures (if tool.name ∈ dynamic_tools then MCP else TOOLS) (SerdeText.tool tool).toList)
      (add (fun _ => ⟨0,0⟩) SYSTEM instructions.toList))
/-- The measures with what the last summary measured, where there is none in the messages. -/
def withBaseline (baseline : Option PromptTokenBreakdownSnapshot) (measures : Measures) : Measures × (Fin 8 → Nat) :=
  let estimates index := if index = CONVERSATION then 0 else (measures index).estimated_tokens
  if (measures SUMMARY).characters ≠ 0 then (measures,estimates)
  else
    match baseline.bind fun snapshot => snapshot.categories.find? (·.id = "summarized_conversation") with
    | some summary => (Function.update measures SUMMARY ⟨(summary.character_count.map UInt32.toNat).getD 0,(measures SUMMARY).token_units⟩,
        Function.update estimates SUMMARY summary.estimated_tokens.toNat)
    | none => (measures,estimates)

def toU32 (value : Nat) : UInt32 := UInt32.ofNat (min value (2 ^ 32 - 1))
def breakdown (used_tokens max_tokens : UInt32) (baseline : Option PromptTokenBreakdownSnapshot) (instructions : String)
    (tools : List ToolDefinition) (dynamic_tools : List String) (messages : List CanonicalMessage) : PromptTokenBreakdownSnapshot :=
  let based := withBaseline baseline (measured instructions tools dynamic_tools messages)
  let fitted := fit_special_estimates based.2 used_tokens.toNat
  let estimates : Fin 8 → Nat := Fin.snoc fitted (used_tokens.toNat - ∑ index, fitted index)
  ⟨used_tokens,max_tokens,(CATEGORIES.zip (List.finRange 8)).map fun category => ⟨category.1.1,category.1.2,toU32 (estimates category.2),
    if (based.1 category.2).characters ≠ 0 then some (toU32 (based.1 category.2).characters) else none⟩⟩

end Breakdown

/-- Within the total, or in the proportion of the products: rounded down, and one more for those with the largest remainders. -/
structure Apportioned (original : Fin 8 → Nat) (total : Nat) (estimates : Fin 7 → Nat) : Prop where
  whole : ∑ index, special original index ≤ total → estimates = special original
  shares : total < ∑ index, special original index → ∃ raised : List (Fin 7),
    (∀ index, estimates index = product original total index / (∑ index, special original index) + if index ∈ raised then 1 else 0) ∧
    ∀ one ∈ raised, ∀ other ∉ raised,
      product original total other % (∑ index, special original index) ≤ product original total one % (∑ index, special original index)
  within : ∑ index, estimates index ≤ total
  exact_ : total < ∑ index, special original index → (∀ index, special original index * total ≤ u64Max) → ∑ index, estimates index = total

theorem fitted_apportioned (original : Fin 8 → Nat) (total : Nat) : Apportioned original total (fit_special_estimates original total) := by
  obtain ⟨whole,isWhole⟩ : ∃ whole, ∑ index, special original index = whole := ⟨_,rfl⟩
  rw [fit_special_estimates]
  by_cases small : whole ≤ total ∨ whole = 0
  · have within : whole ≤ total := small.elim id fun none_ => none_.trans_le (Nat.zero_le _)
    simp only [isWhole,if_pos small]
    have not_ {P : Prop} (above : total < ∑ index, special original index) : P := absurd (isWhole ▸ above) (not_lt.mpr within)
    exact ⟨fun _ => rfl,not_,isWhole.trans_le within,not_⟩
  · obtain ⟨above,some_⟩ := not_or.mp small
    have positive := Nat.pos_of_ne_zero some_
    have products : ∑ index, product original total index ≤ whole * total := by
      rw [← isWhole,Finset.sum_mul]
      exact Finset.sum_le_sum fun _ _ => Nat.min_le_left _ _
    have floors := floors_le positive products
    obtain ⟨order,isOrder⟩ : ∃ order, ((List.finRange 7).mergeSort fun a b =>
      decide (product original total b % whole ≤ product original total a % whole)) = order := ⟨_,rfl⟩
    have perm : order.Perm (List.finRange 7) := isOrder ▸ List.mergeSort_perm _ _
    have distinct : order.Nodup := perm.nodup_iff.mpr (List.nodup_finRange 7)
    have length : order.length = 7 := perm.length_eq.trans List.length_finRange
    have sorted : order.Pairwise fun a b => product original total b % whole ≤ product original total a % whole := by
      rw [← isOrder]
      refine (List.pairwise_mergeSort (fun a b c ab bc => ?_) (fun a b => ?_) _).imp fun holds => of_decide_eq_true holds
      · exact decide_eq_true ((of_decide_eq_true bc).trans (of_decide_eq_true ab))
      · rw [Bool.or_eq_true,decide_eq_true_eq,decide_eq_true_eq]
        exact Nat.le_total _ _
    simp only [isWhole,if_neg small,isOrder]
    obtain ⟨remainder,isRemainder⟩ : ∃ remainder, total - ∑ index, product original total index / whole = remainder := ⟨_,rfl⟩
    rw [isRemainder]
    have sum := raise_sum order remainder fun index => product original total index / whole
    refine ⟨fun within => absurd (isWhole ▸ within) above,fun _ => ⟨order.take remainder,?_,?_⟩,?_,fun _ exact_ => ?_⟩
    · exact fun index => by rw [raise_eq distinct]; simp only [isWhole]
    · intro one isOne other notOther
      have split := List.take_append_drop remainder order
      have isOther : other ∈ order.drop remainder := by
        have isIn : other ∈ order := perm.mem_iff.mpr (List.mem_finRange other)
        rw [← split,List.mem_append] at isIn
        exact isIn.resolve_left notOther
      rw [← split] at sorted
      rw [isWhole]
      exact (List.pairwise_append.mp sorted).2.2 one isOne other isOther
    · rw [sum]
      omega
    · have all : ∑ index, product original total index = whole * total := by
        rw [← isWhole,Finset.sum_mul]
        exact Finset.sum_congr rfl fun index _ => Nat.min_eq_left (exact_ index)
      have enough := remainder_le positive all
      rw [sum,length]
      omega

def addAll (measures : Measures) (pieces : List (Fin 8 × List Char)) : Measures :=
  pieces.foldl (fun measures piece => add measures piece.1 piece.2) measures
def Counted (change : Measures → Measures) (text : List Char) : Prop :=
  ∀ measures, ∃ pieces : List (Fin 8 × List Char), pieces.flatMap (·.2) = text ∧ change measures = addAll measures pieces

theorem counted_add (category : Fin 8) (text : List Char) : Counted (fun measures => add measures category text) text :=
  fun _ => ⟨[(category,text)],List.append_nil text,rfl⟩
theorem Counted.next {change next : Measures →
    Measures} {text more : List Char} (counted : Counted change text) (then_ : Counted next more) :
    Counted (fun measures => next (change measures)) (text ++ more) := by
  intro measures
  obtain ⟨first,isText,same⟩ := counted measures
  obtain ⟨second,isMore,same'⟩ := then_ (change measures)
  refine ⟨first ++ second,by rw [List.flatMap_append,isText,isMore],?_⟩
  exact same'.trans ((congrArg (addAll · second) same).trans List.foldl_append.symm)
theorem counted_foldl {α : Type} {change : Measures → α → Measures} {text : α → List Char} {items : List α}
    (each : ∀ item ∈ items, Counted (fun measures => change measures item) (text item)) :
    Counted (fun measures => items.foldl change measures) (items.flatMap text) := by
  induction items with
  | nil => exact fun _ => ⟨[],rfl,rfl⟩
  | cons item rest ih =>
    obtain ⟨head,tail⟩ := List.forall_mem_cons.mp each
    exact head.next (ih tail)

theorem slice_drop (text : List Char) {start finish : Nat} (before : start ≤ finish) (within : finish ≤ text.length) :
    slice text start finish ++ text.drop finish = text.drop start := by
  have split := congrArg (List.drop start) (List.take_append_drop finish text)
  rwa [List.drop_append_of_le_length (by rw [List.length_take_of_le within]; exact before)] at split
theorem ranges_counted {text : List Char} {ranges : List Range} (inside : ∀ range ∈ ranges, range.start < range.finish ∧
    range.finish ≤ text.length) :
    ∀ {cursor}, cursor ≤ text.length → Counted (measure_ranges text cursor ranges) (text.drop cursor) := by
  induction ranges with
  | nil => exact fun _ => counted_add _ _
  | cons range rest ih =>
    intro cursor within measures
    obtain ⟨⟨ordered,bounded⟩,restInside⟩ := List.forall_mem_cons.mp inside
    rw [measure_ranges]
    split_ifs with earlier
    · exact ih restInside within measures
    · have parts : slice text cursor range.start ++ (slice text range.start range.finish ++ text.drop range.finish) = text.drop cursor := by
        rw [slice_drop text ordered.le bounded,slice_drop text (not_lt.mp earlier) (ordered.le.trans bounded)]
      have all := (counted_add CONVERSATION (slice text cursor range.start)).next
        ((counted_add range.category (slice text range.start range.finish)).next (ih restInside bounded)) measures
      rwa [parts] at all
theorem runtime_counted (text : List Char) : Counted (measure_runtime text) text := by
  refine ranges_counted (fun range isIn => ?_) (Nat.zero_le _)
  rw [List.mem_mergeSort] at isIn
  simp only [List.mem_append] at isIn
  have within (tag : String) (category : Fin 8) (isIn : range ∈ collect_ranges tag category 0 text) :
      range.start < range.finish ∧ range.finish ≤ text.length := by
    have bounds := collect_within tag category 0 text range isIn
    rwa [Nat.zero_add] at bounds
  rcases isIn with (((((isIn | isIn) | isIn) | isIn) | isIn) | isIn) | isIn
  all_goals exact within _ _ isIn

theorem toU32_toNat {value : Nat} (small : value < 2 ^ 32) : (toU32 value).toNat = value := by
  rw [toU32,Nat.min_eq_left (by omega)]
  exact UInt32.toNat_ofNat_of_lt' small

section Counted
variable [SerdeText] [UsageText]

def partText : ContentPart → List Char
  | .Text text => text.toList
  | .Image _ _ => []
def messageText (message : CanonicalMessage) : List Char :=
  match message.content with
  | .Parts parts => parts.flatMap partText
  | .Assistant text thinking _ _ tool_calls => text.toList ++ (thinking.toList ++ (UsageText.tool_calls tool_calls).toList)
  | .ToolResult result => (UsageText.result result).toList
omit [SerdeText] in
theorem message_counted (message : CanonicalMessage) :
    Counted (fun measures => measure_message measures message) (messageText message) := by
  rcases content : message.content with parts | ⟨text,thinking,_,_,tool_calls⟩ | result
  · simp only [measure_message,messageText,content]
    refine counted_foldl fun part _ => ?_
    cases part with
    | Text text =>
      simp only [measure_part]
      split_ifs
      · exact runtime_counted _
      · exact counted_add _ _
    | Image mime_type data => exact fun _ => ⟨[],rfl,rfl⟩
  · simp only [measure_message,messageText,content]
    exact (counted_add _ _).next ((counted_add _ _).next (counted_add _ _))
  · simp only [measure_message,messageText,content]
    exact counted_add _ _

/-- The estimates of the categories make up the tokens in use, and what is measured is counted in one category each. -/
theorem breakdown_partitions (used_tokens max_tokens : UInt32) (baseline : Option PromptTokenBreakdownSnapshot) (instructions : String)
    (tools : List ToolDefinition) (dynamic_tools : List String) (messages : List CanonicalMessage) :
    let snapshot := breakdown used_tokens max_tokens baseline instructions tools dynamic_tools messages
    let estimates := snapshot.categories.map (·.estimated_tokens.toNat)
    estimates.sum = used_tokens.toNat ∧
      (∃ fitted : Fin 7 → Nat, estimates = List.ofFn fitted ++ [used_tokens.toNat - ∑ index, fitted index] ∧
        Apportioned (withBaseline baseline (measured instructions tools dynamic_tools messages)).2 used_tokens.toNat fitted) ∧
      ∃ pieces : List (Fin 8 × List Char), measured instructions tools dynamic_tools messages = addAll (fun _ => ⟨0,0⟩) pieces ∧
        pieces.flatMap (·.2) = instructions.toList ++ (tools.flatMap (fun tool =>
          (SerdeText.tool tool).toList) ++ messages.flatMap messageText) := by
  intro snapshot estimates
  obtain ⟨fitted,isFitted⟩ : ∃ fitted, fit_special_estimates (withBaseline baseline (measured instructions tools dynamic_tools messages)).2
    used_tokens.toNat = fitted := ⟨_,rfl⟩
  have apportioned := fitted_apportioned (withBaseline baseline (measured instructions tools dynamic_tools messages)).2 used_tokens.toNat
  rw [isFitted] at apportioned
  have small := used_tokens.toNat_lt
  have within := apportioned.within
  have bound (index : Fin 7) : fitted index < 2 ^ 32 :=
    ((Finset.single_le_sum (fun _ _ => Nat.zero_le _) (Finset.mem_univ index)).trans within).trans_lt small
  have listed : estimates = List.ofFn fitted ++ [used_tokens.toNat - ∑ index, fitted index] := by
    have rest := toU32_toNat ((Nat.sub_le used_tokens.toNat (∑ index, fitted index)).trans_lt small)
    have each (index : Fin 7) := toU32_toNat (bound index)
    simp only [estimates,snapshot,breakdown,isFitted,List.map_map]
    simp [CATEGORIES,List.finRange,List.ofFn_succ,Fin.snoc,each,rest]
    exact ⟨rfl,rfl,rfl,rfl,rfl⟩
  refine ⟨?_,⟨fitted,listed,apportioned⟩,?_⟩
  · rw [listed,List.sum_append,List.sum_ofFn,List.sum_singleton]
    omega
  · have texts : Counted (fun measures => tools.foldl (fun measures tool =>
        add measures (if tool.name ∈ dynamic_tools then MCP else TOOLS) (SerdeText.tool tool).toList) measures)
        (tools.flatMap fun tool => (SerdeText.tool tool).toList) := counted_foldl fun _ _ => counted_add _ _
    have heard : Counted (fun measures => messages.foldl measure_message measures) (messages.flatMap messageText) :=
      counted_foldl fun message _ => message_counted message
    have all := (counted_add SYSTEM instructions.toList).next (texts.next heard)
    obtain ⟨pieces,isText,same⟩ := all fun _ => ⟨0,0⟩
    exact ⟨pieces,same,isText⟩

end Counted

end MyCursor.UsageBreakdown

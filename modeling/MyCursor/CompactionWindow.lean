import MyCursor.Compaction
import MyCursor.ProjectedRounds
import Mathlib.Data.List.TakeWhile

/-!
# The history of a compaction call

`compaction_history` of `run/compaction.rs`: which turns of a history are kept, and what the
message costs that is added after the budget has been checked.
-/
namespace MyCursor.CompactionWindow
open Message Text Projection ProjectedRounds Compaction

section Window
variable [SerdeText]

/-- The history from a turn boundary on. -/
def IsTurn (history turn : List ProjectedMessage) : Prop := turn <:+ history ∧ turn.head?.any is_turn_boundary = true

def turns : List ProjectedMessage → List (List ProjectedMessage)
  | [] => []
  | m :: rest => if is_turn_boundary m then (m :: rest) :: turns rest else turns rest

omit [SerdeText] in
theorem mem_turns (history turn : List ProjectedMessage) : turn ∈ turns history ↔ IsTurn history turn := by
  induction history with
  | nil =>
    refine ⟨nofun,fun isTurn => ?_⟩
    obtain rfl := List.suffix_nil.mp isTurn.1
    cases isTurn.2
  | cons m rest ih =>
    have split : IsTurn (m :: rest) turn ↔ (turn = m :: rest ∧ is_turn_boundary m = true) ∨ IsTurn rest turn := by
      rw [IsTurn,List.suffix_cons_iff,or_and_right]
      refine or_congr_left (and_congr_right fun whole => ?_)
      rw [whole]
      exact Iff.rfl
    rw [turns,split,← ih]
    by_cases boundary : is_turn_boundary m = true
    · rw [if_pos boundary,List.mem_cons]
      exact or_congr_left (and_iff_left boundary).symm
    · rw [if_neg boundary]
      exact (or_iff_right fun both => boundary both.2).symm
omit [SerdeText] in
theorem turns_shorter (history : List ProjectedMessage) : (turns history).Pairwise fun a b => b <:+ a ∧ b.length < a.length := by
  induction history with
  | nil => exact .nil
  | cons m rest ih =>
    rw [turns]
    split_ifs
    · refine .cons (fun turn isIn => ?_) ih
      have inside := ((mem_turns rest turn).mp isIn).1
      exact ⟨inside.trans (List.suffix_cons m rest),Nat.lt_succ_of_le inside.length_le⟩
    · exact ih

theorem estimate_mono (messages : List ProjectedMessage) : ∀ {a b : Nat}, a ≤ b →
    messages.foldl (fun total message => saturating_add total (estimate_message_tokens message)) a ≤
      messages.foldl (fun total message => saturating_add total (estimate_message_tokens message)) b := by
  induction messages with
  | nil => exact id
  | cons m rest ih => exact fun less => ih (min_le_min (Nat.add_le_add_right less _) le_rfl)
theorem estimate_suffix {history turn : List ProjectedMessage} (inside : turn <:+ history) :
    estimate_projected_messages_tokens turn ≤ estimate_projected_messages_tokens history := by
  obtain ⟨front,rfl⟩ := inside
  rw [estimate_projected_messages_tokens,estimate_projected_messages_tokens,List.foldl_append]
  exact estimate_mono turn (Nat.zero_le _)
theorem estimate_concat (history : List ProjectedMessage) (last : ProjectedMessage) :
    estimate_projected_messages_tokens (history ++ [last]) =
    saturating_add (estimate_projected_messages_tokens history) (estimate_message_tokens last) := List.foldl_append

def Fits (budget : Nat) (turn : List ProjectedMessage) : Bool := decide (estimate_projected_messages_tokens turn ≤ budget)

theorem walk_stops (history : List ProjectedMessage) (budget : Nat) (boundaries : List Nat) : ∀ (newest_turn : Option Nat) (kept : Nat),
    walkBack history budget boundaries newest_turn kept = (newest_turn.or boundaries.head?,
      (boundaries.takeWhile fun index => Fits budget (history.drop index)).getLast?.elim kept (history.length - ·)) := by
  induction boundaries with
  | nil => intro newest_turn kept; simp [walkBack]
  | cons index older ih =>
    intro newest_turn kept
    have first : some (newest_turn.getD index) = newest_turn.or (some index) := by cases newest_turn <;> rfl
    rw [walkBack,List.head?_cons,← first]
    by_cases above : budget < estimate_projected_messages_tokens (history.drop index)
    · have cut : Fits budget (history.drop index) = false := decide_eq_false (not_le.mpr above)
      simp only [if_pos above,List.takeWhile_cons,cut]
      rfl
    · have goes : Fits budget (history.drop index) = true := decide_eq_true (not_lt.mp above)
      simp only [if_neg above,ih,List.takeWhile_cons,goes,if_true,Option.some_or,List.getLast?_cons]
      cases (older.takeWhile fun index => Fits budget (history.drop index)).getLast? <;> rfl

omit [SerdeText] in
/-- Where all that follows a match matches, the last match from behind is the first one. -/
theorem takeWhile_find {α : Type} {p : α → Bool} {items : List α} (closed : items.Pairwise fun a b => p a = true → p b = true) :
    (items.reverse.takeWhile p).getLast? = items.find? p := by
  induction items with
  | nil => rfl
  | cons item rest ih =>
    obtain ⟨follows,restClosed⟩ := List.pairwise_cons.mp closed
    rw [List.reverse_cons,List.takeWhile_append]
    by_cases holds : p item = true
    · have all : rest.reverse.takeWhile p = rest.reverse :=
        List.takeWhile_eq_self_iff.mpr fun other isIn => follows other (List.mem_reverse.mp isIn) holds
      rw [if_pos (congrArg List.length all),List.takeWhile_cons_of_pos holds,List.find?_cons_of_pos holds]
      simp
    · rw [List.find?_cons_of_neg holds,← ih restClosed]
      split_ifs with whole
      · rw [List.takeWhile_cons_of_neg holds,List.append_nil]
        exact congrArg List.getLast? ((List.takeWhile_prefix p).eq_of_length whole).symm
      · rfl

def boundaries (history : List ProjectedMessage) : List Nat :=
  (List.range history.length).filter fun index => (history[index]?).any is_turn_boundary
omit [SerdeText] in
theorem boundaries_turns (history : List ProjectedMessage) : (boundaries history).map history.drop = turns history := by
  induction history with
  | nil => rfl
  | cons m rest ih =>
    have tail : ((List.range rest.length).map Nat.succ).filter (fun index => ((m :: rest)[index]?).any is_turn_boundary) =
        (boundaries rest).map Nat.succ := by
      rw [List.filter_map]
      rfl
    have shifted : ((boundaries rest).map Nat.succ).map (m :: rest).drop = turns rest := by
      rw [List.map_map,← ih]
      rfl
    rw [boundaries,List.length_cons,List.range_succ_eq_map,List.filter_cons,tail,turns]
    by_cases boundary : is_turn_boundary m = true
    · simp only [List.getElem?_cons_zero,Option.any_some,boundary,if_true,List.map_cons,List.drop_zero,shifted]
    · simp only [List.getElem?_cons_zero,Option.any_some,Bool.not_eq_true _ ▸ boundary,Bool.false_eq_true,if_false,shifted]

/-- The budget where there is one. -/
def budgetOf (context_window : Option Nat) : Option Nat :=
  ((context_window.filter (0 < ·)).map fun window => context_budget window - OUTPUT_TOKENS).filter (0 < ·)
/-- The history where it fits or there is no budget; else the longest turn that fits, or the newest turn. -/
def keptTurns (history : List ProjectedMessage) (context_window : Option Nat) : List ProjectedMessage :=
  match budgetOf context_window with
  | none => history
  | some budget =>
    if estimate_projected_messages_tokens history ≤ budget then history
    else ((turns history).find? (Fits budget)).getD ((turns history).getLast?.getD history)

theorem trim_eq (history : List ProjectedMessage) (context_window : Option Nat) :
    trim_to_context history context_window = keptTurns history context_window := by
  rw [trim_to_context,keptTurns,← budgetOf]
  cases budgetOf context_window with
  | none => rfl
  | some budget =>
    by_cases fits : estimate_projected_messages_tokens history ≤ budget
    · simp only [if_pos fits]
    · have closed : (boundaries history).Pairwise fun a b => Fits budget (history.drop a) = true → Fits budget (history.drop b) = true := by
        refine (List.pairwise_lt_range.filter _).imp fun less holds => decide_eq_true ?_
        have inside : history.drop _ <:+ history.drop _ := List.drop_suffix_drop_left history (le_of_lt less)
        exact (estimate_suffix inside).trans (of_decide_eq_true holds)
      simp only [if_neg fits]
      rw [← boundaries,walk_stops,Option.none_or,List.head?_reverse,takeWhile_find closed,← boundaries_turns,List.find?_map,
        List.getLast?_map]
      have found : ((boundaries history).find? (Fits budget ∘ history.drop)) = (boundaries history).find? fun index => Fits budget
        (history.drop index) := rfl
      rw [found]
      cases isFirst : (boundaries history).find? fun index => Fits budget (history.drop index) with
      | none => cases (boundaries history).getLast? <;> rfl
      | some index =>
        have inside := List.mem_range.mp (List.mem_of_mem_filter (List.mem_of_find?_eq_some isFirst))
        have some_ : history.length - index ≠ 0 := by omega
        have back : history.length - (history.length - index) = index := by omega
        simp only [Option.elim_some,if_neg some_,back,Option.map_some,Option.getD_some]

/-- What is kept of a history: all of it, or the longest turn within the budget, or the newest turn. -/
structure Kept (history : List ProjectedMessage) (context_window : Option Nat) (kept : List ProjectedMessage) : Prop where
  suffix : kept <:+ history
  boundary : kept ≠ history → IsTurn history kept
  whole : (∀ budget, budgetOf context_window = some budget → estimate_projected_messages_tokens history ≤ budget) → kept = history
  longest : ∀ budget, budgetOf context_window = some budget → ∀ turn, IsTurn history turn →
    estimate_projected_messages_tokens turn ≤ budget → estimate_projected_messages_tokens kept ≤ budget ∧ turn.length ≤ kept.length
  newest : ∀ budget, budgetOf context_window = some budget → (∃ turn, IsTurn history turn) →
    (∀ turn, IsTurn history turn → budget < estimate_projected_messages_tokens turn) →
      IsTurn history kept ∧ ∀ turn, IsTurn history turn → kept.length ≤ turn.length

theorem Kept.unique {history kept other : List ProjectedMessage} {context_window : Option Nat} (isKept : Kept history context_window kept)
    (isOther : Kept history context_window other) : kept = other := by
  suffices lengths : kept.length = other.length from
    (List.suffix_of_suffix_length_le isKept.suffix isOther.suffix lengths.le).eq_of_length lengths
  by_cases all : ∀ budget, budgetOf context_window = some budget → estimate_projected_messages_tokens history ≤ budget
  · rw [isKept.whole all,isOther.whole all]
  · push Not at all
    obtain ⟨budget,isBudget,above⟩ := all
    have cut {turns : List ProjectedMessage} (turns_kept : Kept history context_window turns)
        (fits : estimate_projected_messages_tokens turns ≤ budget) : IsTurn history turns := by
      refine turns_kept.boundary fun whole => absurd fits (not_le.mpr ?_)
      rwa [whole]
    by_cases fits : ∃ turn, IsTurn history turn ∧ estimate_projected_messages_tokens turn ≤ budget
    · obtain ⟨turn,isTurn,small⟩ := fits
      have first := (isKept.longest budget isBudget turn isTurn small).1
      have second := (isOther.longest budget isBudget turn isTurn small).1
      exact le_antisymm (isOther.longest budget isBudget kept (cut isKept first) first).2
        (isKept.longest budget isBudget other (cut isOther second) second).2
    · push Not at fits
      by_cases some_ : ∃ turn, IsTurn history turn
      · obtain ⟨first,shortest⟩ := isKept.newest budget isBudget some_ fits
        obtain ⟨second,shortest'⟩ := isOther.newest budget isBudget some_ fits
        exact le_antisymm (shortest other second) (shortest' kept first)
      · have whole {turns : List ProjectedMessage} (turns_kept : Kept history context_window turns) : turns = history := by
          by_contra differs
          exact some_ ⟨turns,turns_kept.boundary differs⟩
        rw [whole isKept,whole isOther]

theorem Kept.of_whole {history : List ProjectedMessage} {context_window : Option Nat}
    (fits : ∀ budget, budgetOf context_window = some budget →
      estimate_projected_messages_tokens history ≤ budget ∨ ∀ turn, ¬IsTurn history turn) : Kept history context_window history := by
  refine ⟨List.suffix_refl _,fun differs => absurd rfl differs,fun _ => rfl,fun budget isBudget turn isTurn _ => ?_,
    fun budget isBudget some_ above => ?_⟩
  · exact ⟨(fits budget isBudget).resolve_right fun none_ => none_ turn isTurn,isTurn.1.length_le⟩
  · obtain ⟨turn,isTurn⟩ := some_
    have small := (fits budget isBudget).resolve_right fun none_ => none_ turn isTurn
    exact absurd ((estimate_suffix isTurn.1).trans small) (not_le.mpr (above turn isTurn))

theorem keptTurns_kept (history : List ProjectedMessage) (context_window : Option Nat) :
    Kept history context_window (keptTurns history context_window) := by
  rw [keptTurns]
  cases isBudget : budgetOf context_window with
  | none => exact .of_whole fun budget is => absurd (isBudget.symm.trans is) nofun
  | some budget =>
    have only {other : Nat} (is : budgetOf context_window = some other) : other = budget := Option.some.inj (is.symm.trans isBudget)
    by_cases fits : estimate_projected_messages_tokens history ≤ budget
    · simp only [if_pos fits]
      exact .of_whole fun other is => .inl (only is ▸ fits)
    · simp only [if_neg fits]
      cases found : (turns history).find? (Fits budget) with
      | some turn =>
        have isTurn := (mem_turns history turn).mp (List.mem_of_find?_eq_some found)
        have within : estimate_projected_messages_tokens turn ≤ budget := of_decide_eq_true (List.find?_some (p := Fits budget) found)
        refine ⟨isTurn.1,fun _ => isTurn,fun all => absurd (all budget isBudget) fits,fun other is shorter isShorter small => ?_,
          fun other is _ above => absurd (only is ▸ within) (not_le.mpr (above turn isTurn))⟩
        obtain rfl := only is
        obtain ⟨-,front,back,split,early⟩ := List.find?_eq_some_iff_append.mp found
        have isIn := (mem_turns history shorter).mpr isShorter
        have sorted := turns_shorter history
        rw [split] at isIn sorted
        refine ⟨within,?_⟩
        rcases List.mem_append.mp isIn with inFront | inBack
        · exact absurd (decide_eq_true small) (by simpa [Fits] using early shorter inFront)
        · rcases List.mem_cons.mp inBack with rfl | inBack
          · exact le_rfl
          · exact ((List.pairwise_cons.mp (List.pairwise_append.mp sorted).2.1).1 shorter inBack).2.le
      | none =>
        have above (turn : List ProjectedMessage) (isTurn : IsTurn history turn) : budget < estimate_projected_messages_tokens turn := by
          have misses := List.find?_eq_none.mp found turn ((mem_turns history turn).mpr isTurn)
          simpa [Fits] using misses
        cases isLast : (turns history).getLast? with
        | none =>
          refine .of_whole fun _ _ => .inr fun turn => ?_
          rw [← mem_turns,List.getLast?_eq_none_iff.mp isLast]
          exact List.not_mem_nil
        | some turn =>
          have isTurn := (mem_turns history turn).mp (List.mem_of_getLast? isLast)
          refine ⟨isTurn.1,fun _ => isTurn,fun all => absurd (all budget isBudget) fits,fun other is shorter isShorter small =>
            absurd (only is ▸ small) (not_le.mpr (above shorter isShorter)),fun _ _ _ _ => ⟨isTurn,fun longer isLonger => ?_⟩⟩
          obtain ⟨front,split⟩ := List.getLast?_eq_some_iff.mp isLast
          have isIn := (mem_turns history longer).mpr isLonger
          have sorted := turns_shorter history
          rw [split] at isIn sorted
          rcases List.mem_append.mp isIn with inFront | isSelf
          · exact ((List.pairwise_append.mp sorted).2.2 longer inFront turn (List.mem_singleton_self turn)).2.le
          · exact (congrArg List.length (List.mem_singleton.mp isSelf)).ge

omit [SerdeText] in
theorem results_called (messages : List CanonicalMessage) : ∀ {round : Option (ToolRoundId × List CanonicalMessage)},
    (∀ id members, round = some (id,members) → resultIds members ⊆ callIds members) →
    ∀ members, Part.Round members ∈ partsFrom round messages → resultIds members ⊆ callIds members := by
  have starts {m : CanonicalMessage} {id : ToolRoundId} (start : roundStart m = some id) : resultOf m = none := by
    rw [roundStart] at start
    rw [resultOf]
    split at start <;> simp_all
  have started {m : CanonicalMessage} {id : ToolRoundId} (start : roundStart m = some id) : resultIds [m] ⊆ callIds [m] := by
    rw [resultIds,List.filterMap_cons_none (starts start)]
    exact List.nil_subset _
  induction messages with
  | nil =>
    intro round called members isIn
    rcases round with _ | ⟨id,opened⟩
    · cases isIn
    · cases List.mem_singleton.mp isIn
      exact called id _ rfl
  | cons m rest ih =>
    have alone {members : List CanonicalMessage} (isIn : Part.Round members ∈ partsFrom none (m :: rest)) :
        resultIds members ⊆ callIds members := by
      rw [partsFrom] at isIn
      cases start : roundStart m with
      | none =>
        simp only [start,List.mem_cons,reduceCtorEq,false_or] at isIn
        exact ih (fun _ _ same => absurd same (by simp)) members isIn
      | some id =>
        simp only [start] at isIn
        refine ih (fun other opened same => ?_) members isIn
        cases same
        exact started start
    intro round called members isIn
    rcases round with _ | ⟨id,opened⟩
    · exact alone isIn
    · rw [partsFrom] at isIn
      split_ifs at isIn with goes
      · refine ih (fun other more same => ?_) members isIn
        cases same
        have before := called id opened rfl
        rw [resultIds,callIds] at before
        rw [resultIds,callIds,List.filterMap_append,List.map_append,List.flatMap_append,List.map_append]
        rcases goes with start | ⟨result,content,isCalled⟩
        · rw [List.filterMap_cons_none (starts start)]
          simpa using List.subset_append_of_subset_left _ before
        · have one : [m].filterMap resultOf = [(m.message_id,result)] := by simp [resultOf,content]
          rw [one]
          refine List.append_subset.mpr ⟨List.subset_append_of_subset_left _ before,?_⟩
          exact List.cons_subset.mpr ⟨List.mem_append_left _ isCalled,List.nil_subset _⟩
      · rcases List.mem_cons.mp isIn with same | isIn
        · cases same
          exact called id _ rfl
        · exact alone isIn

omit [SerdeText] in
theorem turn_parts {parts : List Part} {turn : List ProjectedMessage} (isTurn : IsTurn (parts.flatMap Part.projected) turn) :
    ∃ last, last <:+ parts ∧ turn = last.flatMap Part.projected := by
  induction parts with
  | nil => exact ⟨[],List.suffix_refl _,List.suffix_nil.mp isTurn.1⟩
  | cons part rest ih =>
    obtain ⟨⟨front,split⟩,boundary⟩ := isTurn
    have later (inside : turn <:+ rest.flatMap Part.projected) : ∃ last, last <:+ part :: rest ∧ turn = last.flatMap Part.projected := by
      obtain ⟨last,isLast,same⟩ := ih ⟨inside,boundary⟩
      exact ⟨last,isLast.trans (List.suffix_cons part rest),same⟩
    rw [List.flatMap_cons] at split
    rcases List.append_eq_append_iff.mp split with ⟨middle,isPart,isTurn⟩ | ⟨middle,-,isRest⟩
    · cases middle with
      | nil => exact later (isTurn ▸ List.suffix_refl _)
      | cons first middle =>
        rw [isTurn] at boundary
        cases part with
        | Message m =>
          obtain ⟨rfl,same⟩ | ⟨-,none_⟩ := List.append_eq_singleton_iff.mp isPart.symm
          · exact ⟨_,List.suffix_refl _,by rw [isTurn,same]; rfl⟩
          · cases none_
        | Round members =>
          have isIn : first ∈ Part.projected (.Round members) := isPart ▸ List.mem_append_right _ List.mem_cons_self
          rcases List.mem_cons.mp isIn with rfl | isIn
          · cases boundary
          · obtain ⟨result,-,rfl⟩ := List.mem_map.mp isIn
            cases boundary
    · exact later ⟨middle,isRest.symm⟩

def answered (m : ProjectedMessage) : Option String :=
  match m.content with
  | .ToolResult result => some result.call_id
  | _ => none
/-- Each result comes behind its call, and each call before its result; `called` are the
    calls that came before. -/
def Matched (called : Set String) : List ProjectedMessage → Prop
  | [] => True
  | m :: rest =>
    (∀ id ∈ answered m, id ∈ called) ∧ (∀ call ∈ projectedCalls m, call.call_id ∈ rest.filterMap answered) ∧
      Matched (called ∪ {id | ∃ call ∈ projectedCalls m, call.call_id = id}) rest
/-- The same for the messages outside the rounds. -/
def Paired (called : Set String) : List Part → Prop
  | [] => True
  | .Message m :: rest =>
    (∀ result ∈ resultOf m, result.2.call_id ∈ called) ∧
      (∀ call ∈ callsOf m, call.call_id ∈ resultIds (rest.flatMap Part.messages)) ∧ Paired (called ∪ {id | id ∈ callIds [m]}) rest
  | .Round members :: rest => Paired (called ∪ {id | id ∈ callIds members}) rest

section Matching
omit [SerdeText]

theorem projected_answers (part : Part) : part.projected.filterMap answered = resultIds part.messages := by
  cases part with
  | Message m => cases content : m.content <;> simp [Part.projected,Part.messages,project_message,answered,resultIds,resultOf,content,
      normalized_tool_result]
  | Round members =>
    rw [Part.projected,projectedRound,List.filterMap_cons_none rfl,List.filterMap_map,Part.messages,resultIds,← List.filterMap_eq_map]
    rfl
theorem parts_answers (last : List Part) : (last.flatMap Part.projected).filterMap answered = resultIds (last.flatMap Part.messages) := by
  induction last with
  | nil => rfl
  | cons part rest ih =>
    rw [List.flatMap_cons,List.filterMap_append,projected_answers,ih,List.flatMap_cons,resultIds,resultIds,resultIds,
      List.filterMap_append,List.map_append]

theorem matched_results {called : Set String} {results : List (String × ToolResultContent)} {rest : List ProjectedMessage}
    (known : ∀ result ∈ results, result.2.call_id ∈ called) :
    Matched called ((results.map fun (message_id,result) => ⟨message_id,.Tool,.ToolResult (normalized_tool_result result)⟩) ++ rest) ↔
      Matched called rest := by
  induction results with
  | nil => exact Iff.rfl
  | cons result results ih =>
    obtain ⟨here,later⟩ := List.forall_mem_cons.mp known
    rw [List.map_cons,List.cons_append,Matched,← ih later]
    simpa [answered,projectedCalls,normalized_tool_result] using fun _ => here
theorem round_calls (members : List CanonicalMessage) :
    {id | ∃ call ∈ sortCalls (groupOf members).calls, call.call_id = id} = {id | id ∈ callIds members} := by
  ext id
  simp [(sortCalls_perm _).mem_iff,groupOf,callIds,normalized_tool_call]

theorem matched_iff {last : List Part} (rounds : ∀ members, Part.Round members ∈ last →
    callIds members ⊆ resultIds members ∧ resultIds members ⊆ callIds members) (called : Set String) :
    Matched called (last.flatMap Part.projected) ↔ Paired called last := by
  induction last generalizing called with
  | nil => exact Iff.rfl
  | cons part rest ih =>
    have later := ih fun members isIn => rounds members (List.mem_cons_of_mem _ isIn)
    rw [List.flatMap_cons]
    cases part with
    | Message m =>
      rw [Part.projected,List.singleton_append,Matched,Paired,later,parts_answers]
      cases content : m.content <;>
        simp [project_message,answered,projectedCalls,resultOf,callsOf,callIds,content,normalized_tool_call,normalized_tool_result]
    | Round members =>
      obtain ⟨answers,calls⟩ := rounds members List.mem_cons_self
      have results : (projectedRound members ++ rest.flatMap Part.projected).filterMap answered =
          resultIds members ++ resultIds (rest.flatMap Part.messages) := by
        rw [List.filterMap_append,parts_answers]
        exact congrArg (· ++ _) (projected_answers (.Round members))
      rw [projectedRound,List.cons_append,List.filterMap_cons_none rfl] at results
      have all : ∀ call ∈ sortCalls (groupOf members).calls, call.call_id ∈ resultIds members ++ resultIds (rest.flatMap Part.messages) := by
        intro call isCall
        refine List.mem_append_left _ (answers ?_)
        exact (round_calls members).subset ⟨call,isCall,rfl⟩
      have known : ∀ result ∈ members.filterMap resultOf, result.2.call_id ∈ called ∪ {id | id ∈ callIds members} :=
        fun result isResult => .inr (calls (List.mem_map_of_mem isResult))
      rw [Part.projected,projectedRound,List.cons_append,Matched,projectedCalls,results,round_calls,matched_results known,later,Paired]
      exact ⟨fun both => both.2.2,fun paired => ⟨fun id none_ => absurd none_ (by simp [answered]),all,paired⟩⟩

end Matching

def instruction : ProjectedMessage := ⟨"compaction:instruction",.User,.Parts [.Text INSTRUCTIONS]⟩
def EndsWithAssistant (history : List ProjectedMessage) : Prop := ∃ last, history.getLast? = some last ∧ last.role = .Assistant
/-- The newest turn is within the budget. -/
def NewestFits (history : List ProjectedMessage) (budget : Nat) : Prop :=
  ∃ newest, IsTurn history newest ∧ (∀ turn, IsTurn history turn → newest.length ≤ turn.length) ∧
    estimate_projected_messages_tokens newest ≤ budget

/-- What a compaction call is to be sent. -/
structure Sent (history : List ProjectedMessage) (context_window : Option Nat) : Prop where
  kept : Kept history context_window (trim_to_context history context_window)
  added : compaction_history history context_window = trim_to_context history context_window ∨
    compaction_history history context_window = trim_to_context history context_window ++ [instruction]
  /-- No result is kept without its call, and no call without its result. -/
  matched : Matched ∅ (trim_to_context history context_window)
  nonempty : compaction_history history context_window ≠ []
  ends : ¬EndsWithAssistant (compaction_history history context_window)
  fits : ∀ budget, budgetOf context_window = some budget → NewestFits history budget →
    estimate_projected_messages_tokens (compaction_history history context_window) ≤ budget
/-- Where the history ends with the assistant, no turn and no history within the budget
    leaves no room for the instruction. -/
def InstructionFits (history : List ProjectedMessage) (context_window : Option Nat) : Prop :=
  ∀ budget, budgetOf context_window = some budget → NewestFits history budget → EndsWithAssistant history →
    ∀ turns, turns = history ∨ IsTurn history turns → estimate_projected_messages_tokens turns ≤ budget →
      saturating_add (estimate_projected_messages_tokens turns) (estimate_message_tokens instruction) ≤ budget
/-- Where the parts from some part on are what is to be kept, their messages outside the
    rounds have their results and calls among them. -/
def CutApart (messages : List CanonicalMessage) (context_window : Option Nat) : Prop :=
  ∀ last, last <:+ parts messages →
    Kept ((parts messages).flatMap Part.projected) context_window (last.flatMap Part.projected) → Paired ∅ last

omit [SerdeText] in
theorem user_terminated_eq (history : List ProjectedMessage) (message_id text : String) :
    (EndsWithAssistant history ∧ user_terminated history message_id text = history ++ [⟨message_id,.User,.Parts [.Text text]⟩]) ∨
      (¬EndsWithAssistant history ∧ user_terminated history message_id text = history) := by
  rw [user_terminated]
  cases isLast : history.getLast? with
  | none => exact .inr ⟨fun ⟨last,same,_⟩ => absurd (isLast.symm.trans same) nofun,rfl⟩
  | some last =>
    by_cases assistant : last.role = .Assistant
    · exact .inl ⟨⟨last,isLast,assistant⟩,by simp [assistant]⟩
    · exact .inr ⟨fun ⟨other,same,is⟩ => assistant (Option.some.inj (isLast.symm.trans same) ▸ is),by simp [assistant]⟩

theorem Kept.empty {history : List ProjectedMessage} {context_window : Option Nat} (isKept : Kept history context_window []) :
    history = [] := by
  by_contra some_
  cases (isKept.boundary (Ne.symm some_)).2
omit [SerdeText] in
theorem ends_suffix {history kept : List ProjectedMessage} (suffix : kept <:+ history) (some_ : kept ≠ []) :
    EndsWithAssistant kept ↔ EndsWithAssistant history := by
  obtain ⟨front,rfl⟩ := suffix
  rw [EndsWithAssistant,EndsWithAssistant,List.getLast?_append,List.getLast?_eq_some_getLast some_,Option.some_or]

/-- The history ends with the assistant, and there is room for the instruction behind what is kept. -/
theorem instruction_fits {history kept : List ProjectedMessage} {context_window : Option Nat} (isKept : Kept history context_window kept)
    (some_ : history ≠ []) : InstructionFits history context_window ↔
      ∀ budget, budgetOf context_window = some budget → NewestFits history budget → EndsWithAssistant kept →
        saturating_add (estimate_projected_messages_tokens kept) (estimate_message_tokens instruction) ≤ budget := by
  have ends : EndsWithAssistant kept ↔ EndsWithAssistant history := by
    refine ends_suffix isKept.suffix fun none_ => some_ ?_
    exact (none_ ▸ isKept).empty
  refine forall₃_congr fun budget isBudget newest => ?_
  rw [ends]
  refine forall_congr' fun _ => ⟨fun room => room kept ?_ ?_,fun room turns candidate small => ?_⟩
  · by_cases whole : kept = history
    · exact .inl whole
    · exact .inr (isKept.boundary whole)
  · obtain ⟨turn,isTurn,-,small⟩ := newest
    exact (isKept.longest budget isBudget turn isTurn small).1
  · have inside : turns <:+ kept := by
      rcases candidate with rfl | isTurn
      · rw [isKept.whole fun other is => Option.some.inj (isBudget.symm.trans is) ▸ small]
      · exact List.suffix_of_suffix_length_le isTurn.1 isKept.suffix (isKept.longest budget isBudget turns isTurn small).2
    exact (min_le_min (Nat.add_le_add_right (estimate_suffix inside) _) le_rfl).trans room

/-- A compaction call is sent what it needs if and only if there is a history, calls and
    results outside the rounds are not cut apart, and there is room for the instruction. -/
theorem compaction_sent_iff {messages : List CanonicalMessage} {history : List ProjectedMessage}
    (projected : project_messages messages = .ok history) (context_window : Option Nat) : Sent history context_window ↔
      history ≠ [] ∧ CutApart messages context_window ∧ InstructionFits history context_window := by
  obtain ⟨valid,isHistory⟩ := (project_parts messages history).mp projected
  have kept := keptTurns_kept history context_window
  rw [← trim_eq] at kept
  have term := user_terminated_eq (trim_to_context history context_window) "compaction:instruction" INSTRUCTIONS
  rw [← compaction_history] at term
  have rounds : ∀ last, last <:+ parts messages → ∀ members, Part.Round members ∈ last →
      callIds members ⊆ resultIds members ∧ resultIds members ⊆ callIds members := by
    intro last inside members isIn
    have settled : Settled members := valid _ (inside.subset isIn)
    exact ⟨settled.answered,results_called messages (fun _ _ same => absurd same (by simp)) members (inside.subset isIn)⟩
  have matched : Matched ∅ (trim_to_context history context_window) ↔ CutApart messages context_window := by
    rw [CutApart,← isHistory]
    constructor
    · intro matched last inside isKept
      rw [kept.unique isKept] at matched
      exact (matched_iff (rounds last inside) ∅).mp matched
    · intro apart
      have isLast : ∃ last, last <:+ parts messages ∧ trim_to_context history context_window = last.flatMap Part.projected := by
        by_cases same : trim_to_context history context_window = history
        · exact ⟨_,List.suffix_refl _,same.trans isHistory⟩
        · exact turn_parts (isHistory ▸ kept.boundary same)
      obtain ⟨last,inside,same⟩ := isLast
      rw [same]
      exact (matched_iff (rounds last inside) ∅).mpr (apart last inside (same ▸ kept))
  rw [← matched]
  constructor
  · intro sent
    have some_ : history ≠ [] := by
      rintro rfl
      have empty : trim_to_context [] context_window = [] := List.suffix_nil.mp kept.suffix
      refine sent.nonempty ?_
      rcases term with ⟨⟨last,isLast,-⟩,-⟩ | ⟨-,same⟩
      · rw [empty] at isLast
        cases isLast
      · rw [same,empty]
    refine ⟨some_,sent.matched,(instruction_fits kept some_).mpr fun budget isBudget newest assistant => ?_⟩
    rcases term with ⟨-,same⟩ | ⟨other,-⟩
    · have fits := sent.fits budget isBudget newest
      rwa [same,← instruction,estimate_concat] at fits
    · exact absurd assistant other
  · rintro ⟨some_,matched,fits⟩
    rw [instruction_fits kept some_] at fits
    refine ⟨kept,term.elim (fun both => .inr both.2) (fun both => .inl both.2),matched,?_,?_,fun budget isBudget newest => ?_⟩
    · rcases term with ⟨-,same⟩ | ⟨-,same⟩
      · rw [same]
        simp
      · rw [same]
        intro none_
        rw [none_] at kept
        exact some_ kept.empty
    · rcases term with ⟨-,same⟩ | ⟨other,same⟩
      · rw [same]
        rintro ⟨last,isLast,assistant⟩
        rw [List.getLast?_concat] at isLast
        cases isLast
        cases assistant
      · rwa [same]
    · rcases term with ⟨assistant,same⟩ | ⟨-,same⟩
      · rw [same,← instruction,estimate_concat]
        exact fits budget isBudget newest assistant
      · rw [same]
        obtain ⟨turn,isTurn,-,small⟩ := newest
        exact (kept.longest budget isBudget turn isTurn small).1

end Window

section Tests
local instance : SerdeText := ⟨fun _ => "",fun _ => "",fun _ => ""⟩

def question : CanonicalMessage := text "u1" .User .User "q"
def answer : CanonicalMessage := ⟨"a1",.Assistant,.Assistant,.Assistant "a" "" none none [],none⟩
def asked : List ProjectedMessage := [⟨"u1",.User,.Parts [.Text "q"]⟩,⟨"a1",.Assistant,.Assistant "a" "" none []⟩]
theorem asked_projected : project_messages [question,answer] = .ok asked := rfl

theorem estimate_of_chars (value : String) {chars trimmed : List Char} (written : value = String.ofList chars)
    (inner : trimmed = ((chars.dropWhile is_whitespace).reverse.dropWhile is_whitespace).reverse) (some_ : trimmed ≠ []) :
    estimate_text_tokens value = max (saturating_add ((trimmed.length + 3) / 4) (trimmed.count '\n')) 1 := by
  have isTrimmed : trim value = String.ofList trimmed := by rw [trim,written,String.toList_ofList,inner]
  have filled : (String.ofList trimmed).isEmpty = false := by simpa using some_
  rw [estimate_text_tokens,isTrimmed,String.toList_ofList,if_neg (by rw [filled]; simp)]

set_option maxRecDepth 4000 in
theorem instructions_estimate : estimate_text_tokens INSTRUCTIONS = 52 := by
  rw [estimate_of_chars INSTRUCTIONS rfl rfl (by decide +kernel)]
  decide +kernel
theorem estimate_user (message_id text : String) : estimate_message_tokens ⟨message_id,.User,.Parts [.Text text]⟩ =
    saturating_add TOKENS_PER_MESSAGE_OVERHEAD (saturating_add 0 (estimate_text_tokens text)) := rfl
theorem instruction_estimate : estimate_message_tokens instruction = 60 := by
  rw [instruction,estimate_user,instructions_estimate]
  rfl

theorem asked_sent : Sent asked (some 200000) := by
  refine (compaction_sent_iff asked_projected (some 200000)).mpr ⟨by decide,?_,?_⟩
  · have two : parts [question,answer] = [.Message question,.Message answer] := rfl
    rintro last inside -
    rw [two] at inside
    rcases List.suffix_cons_iff.mp inside with rfl | inside
    · simp [Paired,resultOf,callsOf,question,answer,text]
    · rcases List.suffix_cons_iff.mp inside with rfl | inside
      · simp [Paired,resultOf,callsOf,answer]
      · obtain rfl := List.suffix_nil.mp inside
        trivial
  · intro budget isBudget _ _ turns candidate _
    have budget_eq : budget = 175904 := by
      have value : budgetOf (some 200000) = some 175904 := by decide
      exact Option.some.inj (isBudget.symm.trans value)
    have inside : turns <:+ asked := candidate.elim (fun same => same ▸ List.suffix_refl _) (·.1)
    refine (min_le_min (Nat.add_le_add_right (estimate_suffix inside) _) le_rfl).trans ?_
    rw [budget_eq,instruction_estimate]
    decide +kernel
/-- A window whose budget is 26 tokens: the turn takes 18, and the instruction more than 8. -/
theorem asked_over : project_messages [question,answer] = .ok asked ∧ ¬Sent asked (some 4580) := by
  refine ⟨asked_projected,fun sent => ?_⟩
  have value : budgetOf (some 4580) = some 26 := by decide
  have newest : NewestFits asked 26 := by
    refine ⟨asked,⟨List.suffix_refl _,rfl⟩,fun turn isTurn => ?_,by decide +kernel⟩
    have one : turns asked = [asked] := rfl
    rw [← mem_turns,one] at isTurn
    rw [List.mem_singleton.mp isTurn]
  have kept : compaction_history asked (some 4580) = asked ++ [instruction] := by decide +kernel
  have fits := sent.fits 26 value newest
  rw [kept,estimate_concat,instruction_estimate] at fits
  exact absurd fits (by decide +kernel)
end Tests

end MyCursor.CompactionWindow

import MyCursor.Projection

/-!
# The ids of calls that a provider is sent

`model/inference.rs`: before a request goes to a provider, the ids of its calls and
of their results are cut to 64 characters, each for itself.
-/
namespace MyCursor.CallIds
open Message Projection

def PROVIDER_TOOL_CALL_ID_MAX_CHARS : Nat := 64
def truncate_tool_call_id (call_id : String) : String :=
  if PROVIDER_TOOL_CALL_ID_MAX_CHARS < call_id.toList.length then String.ofList (call_id.toList.take PROVIDER_TOOL_CALL_ID_MAX_CHARS)
  else call_id

def cutCall (call : ToolCallContent) : ToolCallContent := { call with call_id := truncate_tool_call_id call.call_id }
def cutResult (result : ProjectedToolResult) : ProjectedToolResult := { result with call_id := truncate_tool_call_id result.call_id }
def cutContent : ProjectedContent → ProjectedContent
  | .Assistant text thinking replay_state calls => .Assistant text thinking replay_state (calls.map cutCall)
  | .ToolResult result => .ToolResult (cutResult result)
  | .Parts parts => .Parts parts
def cutMessage (message : ProjectedMessage) : ProjectedMessage := { message with content := cutContent message.content }
def normalize_provider_tool_call_ids (history : List ProjectedMessage) : List ProjectedMessage := history.map cutMessage

def answers : List ProjectedMessage → List ProjectedToolResult
  | [] => []
  | message :: rest =>
    match message.content with
    | .ToolResult result => result :: answers rest
    | _ => []
/-- The calls of each assistant message, with the results behind it. -/
def rounds : List ProjectedMessage → List (List ToolCallContent × List ProjectedToolResult)
  | [] => []
  | message :: rest =>
    match message.content with
    | .Assistant _ _ _ calls => (calls,answers rest) :: rounds rest
    | _ => rounds rest

def idsOf : ProjectedContent → List String
  | .Assistant _ _ _ calls => calls.map (·.call_id)
  | .ToolResult result => [result.call_id]
  | .Parts _ => []

def Names (calls : List ToolCallContent) (result : ProjectedToolResult) (i : Nat) : Prop :=
  ∃ call, calls[i]? = some call ∧ call.call_id = result.call_id
def DistinctIds (calls : List ToolCallContent) : Prop := (calls.map (·.call_id)).Nodup

/-- Every result in the one round names what it answers in the other. -/
def StillNames (round other : List ToolCallContent × List ProjectedToolResult) : Prop :=
  ∀ (k : Nat) (result result' : ProjectedToolResult) (i : Nat), round.2[k]? = some result → other.2[k]? = some result' →
    Names round.1 result i →
    ∀ j, Names other.1 result' j ↔ j = i
structure Unambiguous (history sent : List ProjectedMessage) : Prop where
  distinct : ∀ round ∈ rounds sent, DistinctIds round.1
  answers : List.Forall₂ StillNames (rounds history) (rounds sent)
  short : ∀ message ∈ sent, ∀ id ∈ idsOf message.content, id.toList.length ≤ PROVIDER_TOOL_CALL_ID_MAX_CHARS

theorem truncate_take (call_id : String) :
    (truncate_tool_call_id call_id).toList = call_id.toList.take PROVIDER_TOOL_CALL_ID_MAX_CHARS := by
  rw [truncate_tool_call_id]
  split_ifs with long
  · exact String.toList_ofList
  · exact (List.take_of_length_le (not_lt.mp long)).symm
theorem truncate_same (first second : String) : truncate_tool_call_id first = truncate_tool_call_id second ↔
    first.toList.take PROVIDER_TOOL_CALL_ID_MAX_CHARS = second.toList.take PROVIDER_TOOL_CALL_ID_MAX_CHARS := by
  rw [← String.toList_inj,truncate_take,truncate_take]
theorem truncate_short (call_id : String) : (truncate_tool_call_id call_id).toList.length ≤ PROVIDER_TOOL_CALL_ID_MAX_CHARS := by
  rw [truncate_take,List.length_take]
  exact Nat.min_le_left _ _

theorem answers_cut (history : List ProjectedMessage) :
    answers (normalize_provider_tool_call_ids history) = (answers history).map cutResult := by
  induction history with
  | nil => rfl
  | cons message rest ih =>
    rw [normalize_provider_tool_call_ids] at ih ⊢
    rw [List.map_cons,answers,answers,cutMessage]
    cases message.content with
    | ToolResult result => exact congrArg _ ih
    | Parts parts => rfl
    | Assistant text thinking replay_state calls => rfl
theorem rounds_cut (history : List ProjectedMessage) : rounds (normalize_provider_tool_call_ids history) =
    (rounds history).map fun round => (round.1.map cutCall,round.2.map cutResult) := by
  induction history with
  | nil => rfl
  | cons message rest ih =>
    have behind := answers_cut rest
    rw [normalize_provider_tool_call_ids] at ih behind ⊢
    rw [List.map_cons,rounds,rounds,cutMessage]
    cases message.content with
    | Assistant text thinking replay_state calls =>
      rw [List.map_cons,← ih,← behind]
      rfl
    | ToolResult result => exact ih
    | Parts parts => exact ih

theorem normalize_short (history : List ProjectedMessage) : ∀ message ∈ normalize_provider_tool_call_ids history,
    ∀ id ∈ idsOf message.content, id.toList.length ≤ PROVIDER_TOOL_CALL_ID_MAX_CHARS := by
  intro message member id isId
  obtain ⟨before,-,rfl⟩ := List.mem_map.mp member
  rw [cutMessage] at isId
  cases isContent : before.content with
  | Assistant text thinking replay_state calls =>
    rw [isContent,cutContent,idsOf,List.map_map] at isId
    obtain ⟨call,-,rfl⟩ := List.mem_map.mp isId
    exact truncate_short _
  | ToolResult result =>
    rw [isContent] at isId
    cases List.mem_singleton.mp isId
    exact truncate_short _
  | Parts parts =>
    rw [isContent] at isId
    cases isId

/-- Different ids of the round differ in their first 64 characters. -/
def ToldApart (calls : List ToolCallContent) : Prop :=
  ∀ a ∈ calls, ∀ b ∈ calls, a.call_id ≠ b.call_id →
    a.call_id.toList.take PROVIDER_TOOL_CALL_ID_MAX_CHARS ≠ b.call_id.toList.take PROVIDER_TOOL_CALL_ID_MAX_CHARS

section Rounds
variable {calls : List ToolCallContent}

theorem cut_distinct (distinct : DistinctIds calls) : DistinctIds (calls.map cutCall) ↔ ToldApart calls := by
  have ids : (calls.map cutCall).map (·.call_id) = (calls.map (·.call_id)).map truncate_tool_call_id := by
    rw [List.map_map,List.map_map]
    rfl
  rw [DistinctIds,ids]
  constructor
  · intro nodup a isA b isB apart same
    exact apart (List.inj_on_of_nodup_map nodup (List.mem_map_of_mem isA) (List.mem_map_of_mem isB) ((truncate_same _ _).mpr same))
  · intro apart
    refine distinct.map_on fun x isX y isY same => ?_
    obtain ⟨a,isA,rfl⟩ := List.mem_map.mp isX
    obtain ⟨b,isB,rfl⟩ := List.mem_map.mp isY
    by_contra differ
    exact apart a isA b isB differ ((truncate_same _ _).mp same)

theorem still_names (distinct : DistinctIds calls) (apart : ToldApart calls) (results : List ProjectedToolResult) :
    StillNames (calls,results) (calls.map cutCall,results.map cutResult) := by
  intro k result result' i isResult isCut named j
  obtain ⟨call,isCall,same⟩ := named
  rw [List.getElem?_map,isResult] at isCut
  cases isCut
  have member : call ∈ calls := List.mem_of_getElem? isCall
  constructor
  · rintro ⟨other,isOther,names⟩
    rw [List.getElem?_map] at isOther
    obtain ⟨original,isOriginal,rfl⟩ := Option.map_eq_some_iff.mp isOther
    have ids : original.call_id = call.call_id := by
      by_contra differ
      refine apart original (List.mem_of_getElem? isOriginal) call member differ ((truncate_same _ _).mp ?_)
      rw [same]
      exact names
    have atJ : (calls.map (·.call_id))[j]? = some call.call_id := by rw [List.getElem?_map,isOriginal,Option.map_some,ids]
    have atI : (calls.map (·.call_id))[i]? = some call.call_id := by rw [List.getElem?_map,isCall,Option.map_some]
    have inside : j < (calls.map (·.call_id)).length := (List.getElem?_eq_some_iff.mp atJ).1
    exact (List.getElem?_inj inside distinct).mp (atJ.trans atI.symm)
  · rintro rfl
    exact ⟨cutCall call,by rw [List.getElem?_map,isCall]; rfl,congrArg truncate_tool_call_id same⟩

end Rounds

/-- Ids that are distinct in each round stay unambiguous, exactly where they differ in
    their first 64 characters. -/
theorem normalize_unambiguous (history : List ProjectedMessage) (distinct : ∀ round ∈ rounds history, DistinctIds round.1) :
    Unambiguous history (normalize_provider_tool_call_ids history) ↔ ∀ round ∈ rounds history, ToldApart round.1 := by
  constructor
  · intro unambiguous round member
    refine (cut_distinct (distinct round member)).mp (unambiguous.distinct (round.1.map cutCall,round.2.map cutResult) ?_)
    rw [rounds_cut]
    exact List.mem_map_of_mem member
  · intro apart
    refine ⟨?_,?_,normalize_short history⟩
    · intro round member
      rw [rounds_cut] at member
      obtain ⟨before,isRound,rfl⟩ := List.mem_map.mp member
      exact (cut_distinct (distinct before isRound)).mpr (apart before isRound)
    · rw [rounds_cut,List.forall₂_map_right_iff,List.forall₂_same]
      exact fun round member => still_names (distinct round member) (apart round member) round.2

def longId (last : Char) : String := String.ofList (List.replicate 64 'a' ++ [last])
def longCalls (first second : String) : List ProjectedMessage :=
  [⟨"a",.Assistant,.Assistant "" "" none [⟨0,first,"Read",.Null⟩,⟨1,second,"Read",.Null⟩]⟩,
    ⟨"r",.Tool,.ToolResult { call_id := second, name := "Read", content := "ok", is_error := false, image := none }⟩]

theorem long_ids_collapse : (∀ round ∈ rounds (longCalls (longId 'x') (longId 'y')), DistinctIds round.1) ∧
    ¬ Unambiguous (longCalls (longId 'x') (longId 'y')) (normalize_provider_tool_call_ids (longCalls (longId 'x') (longId 'y'))) := by
  have differ : longId 'x' ≠ longId 'y' := fun same => absurd (String.ofList_injective same) (by decide)
  have distinct : ∀ round ∈ rounds (longCalls (longId 'x') (longId 'y')), DistinctIds round.1 := by
    intro round member
    cases List.mem_singleton.mp member
    exact List.nodup_cons.mpr ⟨fun same => differ (List.mem_singleton.mp same),List.nodup_singleton _⟩
  have same : truncate_tool_call_id (longId 'x') = truncate_tool_call_id (longId 'y') := by
    simp [truncate_tool_call_id,longId,PROVIDER_TOOL_CALL_ID_MAX_CHARS]
  refine ⟨distinct,fun unambiguous => ?_⟩
  have nodup := unambiguous.distinct _ (List.mem_singleton.mpr rfl)
  exact (List.nodup_cons.mp nodup).1 (List.mem_singleton.mpr same)
theorem short_ids_unambiguous : Unambiguous (longCalls "c" "d") (normalize_provider_tool_call_ids (longCalls "c" "d")) := by
  have distinct : ∀ round ∈ rounds (longCalls "c" "d"), DistinctIds round.1 := by
    intro round member
    cases List.mem_singleton.mp member
    exact List.nodup_cons.mpr ⟨by simp,List.nodup_singleton _⟩
  refine (normalize_unambiguous _ distinct).mpr fun round member => ?_
  cases List.mem_singleton.mp member
  intro a isA b isB differ same
  simp only [List.mem_cons,List.not_mem_nil,or_false] at isA isB
  rcases isA with rfl | rfl <;> rcases isB with rfl | rfl
  · exact differ rfl
  · exact absurd same (by decide)
  · exact absurd same (by decide)
  · exact differ rfl

end MyCursor.CallIds

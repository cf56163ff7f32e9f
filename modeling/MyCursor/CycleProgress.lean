import MyCursor.ModelCycle

/-!
# The progress of a model cycle

What `consume_model_cycle` has made of the events so far, without times and
without what was sent to the client. A stream is accepted exactly if its events
are taken one by one; an adapter conforms if it only yields events that are taken
in the progress it has made.
-/
namespace MyCursor.CycleProgress
open Message Store Projection Run ModelCycle
set_option linter.unusedSectionVars false

structure Tool where
  call_id : String
  name : String
  arguments : String := ""
  ended : Bool := false
deriving DecidableEq

structure Progress where
  model_call_id : Option String := none
  text : String := ""
  reasoning : String := ""
  text_open : Bool := false
  thinking_open : Bool := false
  tools : Nat → Option Tool := fun _ => none
  replay_state : Option ProviderReplayState := none
  usage : Option Usage := none
  finish : Option FinishReason := none

def Progress.Takes (p : Progress) : ModelEvent → Prop
  | .Start _ => p.model_call_id = none
  | .TextStart => p.model_call_id ≠ none ∧ p.text_open = false
  | .TextDelta _ | .TextEnd => p.text_open = true
  | .ThinkingStart => p.model_call_id ≠ none ∧ p.thinking_open = false
  | .ThinkingDelta _ | .ThinkingEnd => p.thinking_open = true
  | .ToolCallStart index call_id _ =>
    p.model_call_id ≠ none ∧ p.tools index = none ∧ ∀ other tool, p.tools other = some tool → tool.call_id ≠ call_id
  | .ToolCallArgumentsDelta index _ | .ToolCallEnd index => ∃ tool, p.tools index = some tool ∧ tool.ended = false
  | .ProviderReplayState _ => p.replay_state = none
  | .Usage _ => p.usage = none
  | .Done _ => p.model_call_id ≠ none ∧ p.text_open = false ∧ p.thinking_open = false ∧
      ∀ index tool, p.tools index = some tool → tool.ended = true

def changeTool (tools : Nat → Option Tool) (index : Nat) (change : Tool → Tool) : Nat → Option Tool :=
  Function.update tools index ((tools index).map change)
def Tool.push (delta : String) (tool : Tool) : Tool := { tool with arguments := tool.arguments ++ delta }
def Tool.end (tool : Tool) : Tool := { tool with ended := true }

def Progress.after (p : Progress) : ModelEvent → Progress
  | .Start model_call_id => { p with model_call_id := some model_call_id }
  | .TextStart => { p with text_open := true }
  | .TextDelta delta => { p with text := p.text ++ delta }
  | .TextEnd => { p with text_open := false }
  | .ThinkingStart => { p with thinking_open := true }
  | .ThinkingDelta delta => { p with reasoning := p.reasoning ++ delta }
  | .ThinkingEnd => { p with thinking_open := false }
  | .ToolCallStart index call_id name => { p with tools := Function.update p.tools index (some { call_id, name }) }
  | .ToolCallArgumentsDelta index delta => { p with tools := changeTool p.tools index (.push delta) }
  | .ToolCallEnd index => { p with tools := changeTool p.tools index .end }
  | .ProviderReplayState state => { p with replay_state := some state }
  | .Usage usage => { p with usage := some usage }
  | .Done reason => { p with finish := some reason }

/-- The events are all taken, and lead from one progress to another. -/
def Leads : Progress → List ModelEvent → Progress → Prop
  | p, [], q => p = q
  | p, event :: rest, q => p.finish = none ∧ p.Takes event ∧ Leads (p.after event) rest q

theorem leads_append {before later : List ModelEvent} : ∀ {p q : Progress},
    Leads p (before ++ later) q ↔ ∃ middle, Leads p before middle ∧ Leads middle later q := by
  induction before with
  | nil => simp [Leads]
  | cons event rest ih =>
    intro p q
    simp only [List.cons_append,Leads,ih]
    constructor
    · rintro ⟨going,taken,middle,first,second⟩
      exact ⟨middle,⟨going,taken,first⟩,second⟩
    · rintro ⟨middle,⟨going,taken,first⟩,second⟩
      exact ⟨going,taken,middle,first,second⟩
theorem leads_unique {events : List ModelEvent} : ∀ {p q q' : Progress}, Leads p events q → Leads p events q' → q = q' := by
  induction events with
  | nil => exact fun first second => first.symm.trans second
  | cons event rest ih => exact fun first second => ih first.2.2 second.2.2

variable {p q : Progress}

theorem Leads.snoc {events : List ModelEvent} {event : ModelEvent} (leads : Leads p events q)
    (going : q.finish = none) (taken : q.Takes event) : Leads p (events ++ [event]) (q.after event) :=
  leads_append.mpr ⟨q,leads,going,taken,rfl⟩
theorem Leads.trans {r : Progress} {events later : List ModelEvent} (first : Leads p events q) (second : Leads q later r) :
    Leads p (events ++ later) r := leads_append.mpr ⟨q,first,second⟩

variable {index : Nat}

theorem changeTool_apply (tools : Nat → Option Tool) (index other : Nat) (change : Tool → Tool) :
    changeTool tools index change other = if other = index then (tools other).map change else tools other := by
  unfold changeTool
  by_cases same : other = index
  · subst same
    simp
  · simp [same]

theorem Leads.text : ∀ {p q : Progress} {events : List ModelEvent}, Leads p events q →
    q.text = p.text ++ String.join (Lanes.deltas (textLane events)) := by
  intro p q events
  induction events generalizing p with
  | nil =>
    rintro rfl
    simp [Lanes.deltas]
  | cons event rest ih =>
    rintro ⟨_,_,leads⟩
    rw [ih leads]
    cases event <;> simp [Progress.after,textLane,textEvent,Lanes.deltas,List.filterMap_cons,String.append_assoc]
theorem Leads.reasoning : ∀ {p q : Progress} {events : List ModelEvent}, Leads p events q →
    q.reasoning = p.reasoning ++ String.join (Lanes.deltas (thinkingLane events)) := by
  intro p q events
  induction events generalizing p with
  | nil =>
    rintro rfl
    simp [Lanes.deltas]
  | cons event rest ih =>
    rintro ⟨_,_,leads⟩
    rw [ih leads]
    cases event <;> simp [Progress.after,thinkingLane,thinkingEvent,Lanes.deltas,List.filterMap_cons,String.append_assoc]
theorem Leads.usage : ∀ {p q : Progress} {events : List ModelEvent}, Leads p events q →
    q.usage.toList = p.usage.toList ++ events.filterMap usageOf := by
  intro p q events
  induction events generalizing p with
  | nil =>
    rintro rfl
    simp
  | cons event rest ih =>
    rintro ⟨_,taken,leads⟩
    rw [ih leads]
    cases event with
    | Usage usage =>
      have none_ : p.usage = none := taken
      simp [Progress.after,usageOf,none_]
    | _ => simp [Progress.after,usageOf,List.filterMap_cons]

theorem Leads.finish : ∀ {p q : Progress} {events : List ModelEvent}, Leads p events q →
    q.finish.toList = p.finish.toList ++ events.filterMap doneReason := by
  intro p q events
  induction events generalizing p with
  | nil =>
    rintro rfl
    simp
  | cons event rest ih =>
    rintro ⟨going,_,leads⟩
    rw [ih leads]
    cases event <;> simp [Progress.after,doneReason,List.filterMap_cons,going]

theorem Leads.with_usage (usage : Option Usage) : ∀ {p q : Progress} {events : List ModelEvent}, Leads p events q →
    events.filterMap usageOf = [] → Leads { p with usage } events { q with usage } := by
  intro p q events
  induction events generalizing p with
  | nil =>
    rintro rfl _
    rfl
  | cons event rest ih =>
    rintro ⟨going,taken,leads⟩ unused
    cases event with
    | Usage used => simp [usageOf] at unused
    | _ => exact ⟨going,taken,ih leads (by simpa [usageOf,List.filterMap_cons] using unused)⟩

theorem Leads.starts (index : Nat) : ∀ {p q : Progress} {events : List ModelEvent}, Leads p events q →
    ((q.tools index).map fun tool => (index,tool.call_id,tool.name)).toList =
      ((p.tools index).map fun tool => (index,tool.call_id,tool.name)).toList ++ (events.filterMap toolStart).filter (·.1 = index) := by
  intro p q events
  induction events generalizing p with
  | nil =>
    rintro rfl
    simp
  | cons event rest ih =>
    rintro ⟨_,taken,leads⟩
    rw [ih leads]
    cases event with
    | ToolCallStart other call_id name =>
      obtain ⟨_,free,_⟩ := taken
      by_cases same : index = other
      · subst same
        simp [Progress.after,toolStart,free]
      · simp [Progress.after,toolStart,same,Ne.symm same]
    | ToolCallArgumentsDelta other delta | ToolCallEnd other =>
      obtain ⟨tool,known,_⟩ := taken
      by_cases same : index = other
      · subst same
        simp [Progress.after,toolStart,changeTool_apply,List.filterMap_cons,Tool.push,Tool.end,known]
      · simp [Progress.after,toolStart,changeTool_apply,same,List.filterMap_cons]
    | _ => simp [Progress.after,toolStart,List.filterMap_cons]
theorem Leads.arguments (index : Nat) : ∀ {p q : Progress} {events : List ModelEvent}, Leads p events q →
    (q.tools index).elim "" (·.arguments) =
      (p.tools index).elim "" (·.arguments) ++ String.join (Lanes.deltas (toolLane index events)) := by
  intro p q events
  induction events generalizing p with
  | nil =>
    rintro rfl
    simp [Lanes.deltas]
  | cons event rest ih =>
    rintro ⟨_,taken,leads⟩
    rw [ih leads]
    cases event with
    | ToolCallStart other call_id name =>
      obtain ⟨_,free,_⟩ := taken
      by_cases same : index = other
      · subst same
        simp [Progress.after,toolLane,toolEvent,Lanes.deltas,free]
      · simp [Progress.after,toolLane,toolEvent,same,Ne.symm same]
    | ToolCallArgumentsDelta other delta =>
      obtain ⟨tool,known,_⟩ := taken
      by_cases same : index = other
      · subst same
        simp [Progress.after,toolLane,toolEvent,changeTool_apply,known,Tool.push,Lanes.deltas,String.append_assoc]
      · simp [Progress.after,toolLane,toolEvent,changeTool_apply,same,Ne.symm same]
    | ToolCallEnd other =>
      obtain ⟨tool,known,_⟩ := taken
      by_cases same : index = other
      · subst same
        simp [Progress.after,toolLane,toolEvent,changeTool_apply,known,Tool.end,Lanes.deltas]
      · simp [Progress.after,toolLane,toolEvent,changeTool_apply,same,Ne.symm same]
    | _ => simp [Progress.after,toolLane,toolEvent,List.filterMap_cons]

def Progress.DistinctIds (p : Progress) : Prop := ∀ first second one other, p.tools first = some one →
  p.tools second = some other → one.call_id = other.call_id → first = second

theorem distinctIds_change (distinct : p.DistinctIds) {change : Tool → Tool} (names : ∀ tool, (change tool).call_id = tool.call_id) :
    Progress.DistinctIds { p with tools := changeTool p.tools index change } := by
  have origin : ∀ {other tool}, changeTool p.tools index change other = some tool →
      ∃ one, p.tools other = some one ∧ tool.call_id = one.call_id := by
    intro other tool known
    rw [changeTool_apply] at known
    split_ifs at known
    · obtain ⟨one,isOne,rfl⟩ := Option.map_eq_some_iff.mp known
      exact ⟨one,isOne,names one⟩
    · exact ⟨tool,known,rfl⟩
  intro first second one other isOne isOther same
  obtain ⟨one',isOne',sameOne⟩ := origin isOne
  obtain ⟨other',isOther',sameOther⟩ := origin isOther
  exact distinct first second one' other' isOne' isOther' (by rw [← sameOne,← sameOther,same])
theorem Leads.distinct_ids : ∀ {p q : Progress} {events : List ModelEvent}, Leads p events q → p.DistinctIds → q.DistinctIds := by
  intro p q events
  induction events generalizing p with
  | nil =>
    rintro rfl distinct
    exact distinct
  | cons event rest ih =>
    rintro ⟨_,taken,leads⟩ distinct
    refine ih leads ?_
    cases event with
    | ToolCallStart index call_id name =>
      obtain ⟨_,_,fresh⟩ := taken
      have apart : ∀ {other tool}, other ≠ index → (p.after (.ToolCallStart index call_id name)).tools other = some tool →
          tool.call_id ≠ call_id := by
        intro other tool different known
        simp only [Progress.after,Function.update_of_ne different] at known
        exact fresh other tool known
      have isNew : ∀ {tool}, (p.after (.ToolCallStart index call_id name)).tools index = some tool → tool.call_id = call_id := by
        intro tool known
        simp only [Progress.after,Function.update_self] at known
        rw [← Option.some.inj known]
      intro first second one other isOne isOther same
      by_cases isFirst : first = index
      · subst isFirst
        by_contra different
        exact apart (Ne.symm different) isOther (same.symm.trans (isNew isOne))
      · by_cases isSecond : second = index
        · subst isSecond
          exact absurd (same.trans (isNew isOther)) (apart isFirst isOne)
        · simp only [Progress.after,Function.update_of_ne isFirst] at isOne
          simp only [Progress.after,Function.update_of_ne isSecond] at isOther
          exact distinct first second one other isOne isOther same
    | ToolCallArgumentsDelta index delta => exact distinctIds_change distinct fun _ => rfl
    | ToolCallEnd index => exact distinctIds_change distinct fun _ => rfl
    | _ => exact distinct

def Progress.withTool (p : Progress) (index : Nat) (tool : Option Tool) : Progress :=
  { p with tools := Function.update p.tools index tool }

theorem withTool_self {tool : Option Tool} (known : p.tools index = tool) : p.withTool index tool = p := by
  unfold Progress.withTool
  rw [← known,Function.update_eq_self]
@[simp] theorem withTool_twice (p : Progress) (index : Nat) (first second : Option Tool) :
    (p.withTool index first).withTool index second = p.withTool index second := by
  simp [Progress.withTool]
@[simp] theorem withTool_tools (p : Progress) (index : Nat) (tool : Option Tool) : (p.withTool index tool).tools index = tool := by
  simp [Progress.withTool]
theorem withTool_apply (p : Progress) (index other : Nat) (tool : Option Tool) :
    (p.withTool index tool).tools other = if other = index then tool else p.tools other := by
  simp [Progress.withTool,Function.update_apply]
@[simp] theorem withTool_finish (p : Progress) (index : Nat) (tool : Option Tool) : (p.withTool index tool).finish = p.finish := rfl

def Extends (p q : Progress) : Prop := ∀ index tool, p.tools index = some tool →
  ∃ later, q.tools index = some later ∧ later.call_id = tool.call_id

theorem Extends.distinct (extends_ : Extends p q) (distinct : q.DistinctIds) : p.DistinctIds := by
  intro first second one other isOne isOther same
  obtain ⟨one',isOne',sameOne⟩ := extends_ first one isOne
  obtain ⟨other',isOther',sameOther⟩ := extends_ second other isOther
  exact distinct first second one' other' isOne' isOther' (by rw [sameOne,sameOther,same])
theorem extends_tool (p : Progress) (index : Nat) (tool : Tool)
    (same : ∀ one, p.tools index = some one → tool.call_id = one.call_id) : Extends p (p.withTool index (some tool)) := by
  intro other one known
  rw [withTool_apply]
  by_cases here : other = index
  · subst here
    exact ⟨tool,if_pos rfl,same one known⟩
  · exact ⟨one,by rw [if_neg here,known],rfl⟩

theorem takes_extends {event : ModelEvent} (taken : p.Takes event) : Extends p (p.after event) := by
  have changes : ∀ (index : Nat) (change : Tool → Tool), (∀ tool, (change tool).call_id = tool.call_id) →
      Extends p { p with tools := changeTool p.tools index change } := by
    intro index change names other tool known
    simp only [changeTool_apply]
    by_cases here : other = index
    · exact ⟨change tool,by rw [if_pos here,known]; rfl,names tool⟩
    · exact ⟨tool,by rw [if_neg here,known],rfl⟩
  cases event with
  | ToolCallStart index call_id name =>
    intro other tool known
    have different : other ≠ index := by
      rintro rfl
      rw [taken.2.1] at known
      cases known
    exact ⟨tool,by simp [Progress.after,different,known],rfl⟩
  | ToolCallArgumentsDelta index delta => exact changes index (.push delta) fun _ => rfl
  | ToolCallEnd index => exact changes index .end fun _ => rfl
  | _ => exact fun _ tool known => ⟨tool,known,rfl⟩
theorem Leads.started_ids : ∀ {p q : Progress} {events : List ModelEvent}, Leads p events q →
    ((events.filterMap toolStart).map (·.2.1)).Nodup ∧
      ∀ id ∈ (events.filterMap toolStart).map (·.2.1), ∀ index tool, p.tools index = some tool → tool.call_id ≠ id := by
  intro p q events
  induction events generalizing p with
  | nil => exact fun _ => ⟨List.nodup_nil,fun id member => by cases member⟩
  | cons event rest ih =>
    rintro ⟨_,taken,leads⟩
    obtain ⟨nodup,fresh⟩ := ih leads
    have earlier : ∀ id ∈ (rest.filterMap toolStart).map (·.2.1), ∀ index tool, p.tools index = some tool → tool.call_id ≠ id := by
      intro id member index tool known
      obtain ⟨later,isLater,same⟩ := takes_extends taken index tool known
      rw [← same]
      exact fresh id member index later isLater
    cases event with
    | ToolCallStart index call_id name =>
      refine ⟨List.nodup_cons.mpr ⟨fun member => ?_,nodup⟩,?_⟩
      · exact fresh call_id member index { call_id, name } (by simp [Progress.after]) rfl
      · intro id member other tool known
        rcases List.mem_cons.mp member with rfl | later
        · exact taken.2.2 other tool known
        · exact earlier id later other tool known
    | _ => exact ⟨nodup,earlier⟩

theorem distinct_same (p : Progress) (index : Nat) {one other : Tool} (same : one.call_id = other.call_id) :
    (p.withTool index (some one)).DistinctIds ↔ (p.withTool index (some other)).DistinctIds := by
  have changes : ∀ {first second : Tool}, first.call_id = second.call_id →
      Extends (p.withTool index (some first)) (p.withTool index (some second)) := by
    intro first second same
    have extends_ := extends_tool (p.withTool index (some first)) index second
      (fun one known => by rw [withTool_tools] at known; rw [← Option.some.inj known,same])
    rwa [withTool_twice] at extends_
  exact ⟨(changes same.symm).distinct,(changes same).distinct⟩

theorem start_leads (call_id name : String) (going : p.finish = none)
    (named : p.model_call_id ≠ none) (free : p.tools index = none) (distinct : p.DistinctIds) :
    Leads p [.ToolCallStart index call_id name] q ↔
      (p.withTool index (some { call_id, name })).DistinctIds ∧ q = p.withTool index (some { call_id, name }) := by
  constructor
  · rintro ⟨going,taken,rfl⟩
    have leads : Leads p [.ToolCallStart index call_id name] (p.after (.ToolCallStart index call_id name)) :=
      ⟨going,taken,rfl⟩
    exact ⟨leads.distinct_ids distinct,rfl⟩
  · rintro ⟨apart,rfl⟩
    refine ⟨going,⟨named,free,?_⟩,rfl⟩
    intro other tool known same
    have different : other ≠ index := by
      rintro rfl
      rw [free] at known
      cases known
    refine different (apart other index tool { call_id, name } ?_ ?_ same)
    · rw [withTool_apply,if_neg different,known]
    · rw [withTool_tools]
theorem arguments_leads {tool : Tool} {delta : String} (going : p.finish = none)
    (known : p.tools index = some tool) (running : tool.ended = false) :
    Leads p [.ToolCallArgumentsDelta index delta] q ↔ q = p.withTool index (some (tool.push delta)) := by
  have next : p.after (.ToolCallArgumentsDelta index delta) = p.withTool index (some (tool.push delta)) := by
    simp [Progress.after,Progress.withTool,changeTool,known]
  rw [← next]
  exact ⟨fun leads => leads.2.2.symm,fun same => ⟨going,⟨tool,known,running⟩,same.symm⟩⟩
theorem end_leads {tool : Tool} (going : p.finish = none) (known : p.tools index = some tool) (running : tool.ended = false) :
    Leads p [.ToolCallEnd index] q ↔ q = p.withTool index (some tool.end) := by
  have next : p.after (.ToolCallEnd index) = p.withTool index (some tool.end) := by
    simp [Progress.after,Progress.withTool,changeTool,known]
  rw [← next]
  exact ⟨fun leads => leads.2.2.symm,fun same => ⟨going,⟨tool,known,running⟩,same.symm⟩⟩

section Recogniser
variable [ArgumentText] {cycle : Cycle} {p : Progress} {event : ModelEvent}

def openTool (model_call_id : String) (index : Nat) (tool : Tool) : OpenTool :=
  let started : OpenTool :=
    ⟨⟨index,tool.call_id,model_call_id,normalize_tool_name tool.name,tool.arguments,.Null,none⟩,false⟩
  if tool.ended then endTool started else started

structure Agrees (cycle : Cycle) (p : Progress) : Prop where
  room : cycle.room = none
  model_call_id : cycle.model_call_id = p.model_call_id
  text : cycle.text = p.text
  reasoning : cycle.reasoning = p.reasoning
  text_open : cycle.text_open = p.text_open
  thinking_open : cycle.thinking_started.isSome = p.thinking_open
  ordered : cycle.tools.Pairwise (·.call.index < ·.call.index)
  tools : ∀ index, get cycle.tools index = (p.tools index).map (openTool (p.model_call_id.getD "") index)
  call_ids : ∀ id, id ∈ cycle.call_ids ↔ ∃ index tool, p.tools index = some tool ∧ tool.call_id = id
  unnamed : p.model_call_id = none → ∀ index, p.tools index = none
  replay_state : cycle.replay_state = p.replay_state
  usage : cycle.usage = p.usage
  finish : cycle.finish = p.finish

@[simp] theorem openTool_index (id : String) (index : Nat) (tool : Tool) : (openTool id index tool).call.index = index := by
  unfold openTool
  split_ifs
  · rw [endTool_eq]
  · rfl
@[simp] theorem openTool_ended (id : String) (index : Nat) (tool : Tool) : (openTool id index tool).ended = tool.ended := by
  unfold openTool
  cases isEnded : tool.ended <;> simp [endTool_eq]

theorem agrees_nothing : Agrees {} {} := by
  refine ⟨rfl,rfl,rfl,rfl,rfl,rfl,.nil,fun _ => rfl,?_,fun _ _ => rfl,rfl,rfl,rfl⟩
  simp

theorem Agrees.guard_iff (agrees : Agrees cycle p) : Guard cycle event ↔ p.Takes event := by
  have thinking : cycle.thinking_started = none ↔ p.thinking_open = false := by
    rw [← agrees.thinking_open]
    simp
  have running : ∀ index, toolState cycle.tools index = .Open ↔ ∃ tool, p.tools index = some tool ∧ tool.ended = false := by
    intro index
    rw [toolState_open,agrees.tools]
    cases p.tools index <;> simp
  cases event with
  | ToolCallStart index call_id name =>
    have free : toolState cycle.tools index = .Unstarted ↔ p.tools index = none := by
      rw [toolState_unstarted,agrees.tools]
      simp
    simp only [Guard,Progress.Takes,agrees.model_call_id,free,agrees.call_ids,not_exists,not_and,ne_eq]
  | ToolCallArgumentsDelta index delta | ToolCallEnd index => exact running index
  | Done reason =>
    simp only [Guard,Progress.Takes,agrees.model_call_id,agrees.text_open,thinking]
    refine and_congr_right fun _ => and_congr_right fun _ => and_congr_right fun _ => ?_
    constructor
    · intro ended index tool known
      have found := agrees.tools index
      rw [known] at found
      simpa using ended _ (get_index found).1
    · intro ended tool member
      have found := agrees.tools tool.call.index
      rw [get_mem agrees.ordered member] at found
      obtain ⟨one,known,same⟩ := Option.map_eq_some_iff.mp found.symm
      rw [← same]
      simpa using ended _ _ known
  | Start _ | TextStart | TextDelta _ | TextEnd | ThinkingStart | ThinkingDelta _ | ThinkingEnd | ProviderReplayState _
    | Usage _ =>
    simp [Guard,Progress.Takes,agrees.model_call_id,agrees.text_open,thinking,agrees.replay_state,agrees.usage]

theorem Agrees.update (agrees : Agrees cycle p) {index : Nat} (change : OpenTool → OpenTool) (change' : Tool → Tool)
    (keeps : ∀ tool, (change tool).call.index = tool.call.index) (names : ∀ tool, (change' tool).call_id = tool.call_id)
    (same : ∀ id tool, p.tools index = some tool → change (openTool id index tool) = openTool id index (change' tool))
    (event : RunEvent) :
    Agrees (push { cycle with tools := update cycle.tools index change } event)
      { p with tools := changeTool p.tools index change' } := by
  refine ⟨agrees.room,agrees.model_call_id,agrees.text,agrees.reasoning,agrees.text_open,agrees.thinking_open,
    update_ordered keeps agrees.ordered,?_,?_,?_,agrees.replay_state,agrees.usage,agrees.finish⟩
  · intro other
    simp only [push]
    rw [get_update keeps,agrees.tools,changeTool_apply]
    by_cases here : other = index
    · subst here
      cases known : p.tools other with
      | none => simp
      | some tool => simp [same _ tool known]
    · simp [here]
  · intro id
    simp only [push]
    rw [agrees.call_ids]
    constructor
    · rintro ⟨other,tool,known,rfl⟩
      by_cases here : other = index
      · subst here
        exact ⟨other,change' tool,by simp [changeTool_apply,known],names tool⟩
      · exact ⟨other,tool,by simp [changeTool_apply,here,known],rfl⟩
    · rintro ⟨other,tool,known,rfl⟩
      rw [changeTool_apply] at known
      by_cases here : other = index
      · rw [if_pos here] at known
        obtain ⟨one,isOne,rfl⟩ := Option.map_eq_some_iff.mp known
        exact ⟨other,one,isOne,(names one).symm⟩
      · rw [if_neg here] at known
        exact ⟨other,tool,known,rfl⟩
  · intro unnamed other
    dsimp only at unnamed ⊢
    rw [changeTool_apply,agrees.unnamed unnamed other]
    simp

theorem Agrees.step (agrees : Agrees cycle p) (taken : p.Takes event) (now : Nat) : Agrees (effect cycle now event) (p.after event) := by
  cases event with
  | Start model_call_id =>
    have unnamed : p.model_call_id = none := taken
    refine ⟨agrees.room,rfl,agrees.text,agrees.reasoning,agrees.text_open,agrees.thinking_open,agrees.ordered,?_,
      agrees.call_ids,(fun unnamed => by cases unnamed),agrees.replay_state,agrees.usage,agrees.finish⟩
    intro index
    have found := agrees.tools index
    rw [agrees.unnamed unnamed index] at found
    rw [effect,Progress.after,found,agrees.unnamed unnamed index]
    rfl
  | ToolCallStart index call_id name =>
    obtain ⟨named,free,fresh⟩ := taken
    obtain ⟨id,isId⟩ := Option.ne_none_iff_exists'.mp named
    have isNew : get cycle.tools (newTool index call_id name (cycle.model_call_id.getD "")).call.index = none := by
      rw [newTool,agrees.tools,free]
      rfl
    refine ⟨agrees.room,agrees.model_call_id,agrees.text,agrees.reasoning,agrees.text_open,agrees.thinking_open,
      insert_ordered agrees.ordered isNew,?_,?_,fun unnamed => absurd unnamed named,agrees.replay_state,agrees.usage,
      agrees.finish⟩
    · intro other
      simp only [effect,push,Progress.after]
      rw [get_insert agrees.ordered isNew,agrees.tools,agrees.model_call_id]
      by_cases here : other = index
      · subst here
        simp [newTool,openTool]
      · simp [newTool,here]
    · intro id
      simp only [effect,push,Progress.after,List.mem_cons,agrees.call_ids]
      constructor
      · rintro (rfl | ⟨other,tool,known,rfl⟩)
        · exact ⟨index,{ call_id := id, name },by simp,rfl⟩
        · have different : other ≠ index := by
            rintro rfl
            simp [free] at known
          exact ⟨other,tool,by simp [different,known],rfl⟩
      · rintro ⟨other,tool,known,rfl⟩
        by_cases here : other = index
        · subst here
          rw [Function.update_self] at known
          exact .inl (by rw [← Option.some.inj known])
        · rw [Function.update_of_ne here] at known
          exact .inr ⟨other,tool,known,rfl⟩
  | ToolCallArgumentsDelta index delta =>
    obtain ⟨tool,known,running⟩ := taken
    refine agrees.update (pushArguments delta) (.push delta) (pushArguments_index delta) (fun _ => rfl) ?_ _
    intro id one isOne
    obtain rfl := Option.some.inj (known.symm.trans isOne)
    simp [openTool,running,pushArguments,Tool.push]
  | ToolCallEnd index =>
    obtain ⟨tool,known,running⟩ := taken
    refine agrees.update endTool .end (fun tool => by rw [endTool_eq]) (fun _ => rfl) ?_ _
    intro id one isOne
    obtain rfl := Option.some.inj (known.symm.trans isOne)
    simp [openTool,running,Tool.end]
  | _ =>
    obtain ⟨room,model_call_id,text,reasoning,text_open,thinking_open,ordered,tools,call_ids,unnamed,replay_state,usage,finish⟩ :=
      agrees
    exact ⟨room,model_call_id,by simp [effect,Progress.after,push,text],by simp [effect,Progress.after,push,reasoning],
      by simp [effect,Progress.after,push,text_open],by simp [effect,Progress.after,push,thinking_open],
      ordered,tools,call_ids,unnamed,by simp [effect,Progress.after,push,replay_state],
      by simp [effect,Progress.after,push,usage],by simp [effect,Progress.after,push,finish]⟩

structure Yields (p : Progress) (result : ModelCycleResult) : Prop where
  finish : p.finish = some result.finish_reason
  complete : result.finish_reason ≠ .Length
  agrees : result.finish_reason = .ToolUse ↔ ∃ index, p.tools index ≠ none
  model_call_id : p.model_call_id = some result.model_call_id
  text : result.text = p.text
  reasoning : result.reasoning = p.reasoning
  replay_state : result.replay_state = p.replay_state
  usage : result.usage = p.usage
  ordered : result.calls.Pairwise (·.index < ·.index)
  calls : ∀ call, call ∈ result.calls ↔
    ∃ tool, p.tools call.index = some tool ∧ call = (openTool result.model_call_id call.index tool).call

theorem Yields.known {result : ModelCycleResult} (yields : Yields p result) (index : Nat) :
    p.tools index ≠ none ↔ ∃ call ∈ result.calls, call.index = index := by
  constructor
  · intro known
    obtain ⟨tool,isTool⟩ := Option.ne_none_iff_exists'.mp known
    have sameIndex : (openTool result.model_call_id index tool).call.index = index := openTool_index _ _ _
    refine ⟨_,(yields.calls _).mpr ⟨tool,?_,?_⟩,sameIndex⟩
    · rw [sameIndex,isTool]
    · rw [sameIndex]
  · rintro ⟨call,member,rfl⟩
    obtain ⟨tool,isTool,_⟩ := (yields.calls call).mp member
    simp [isTool]

theorem Agrees.no_tools (agrees : Agrees cycle p) : cycle.tools ≠ [] ↔ ∃ index, p.tools index ≠ none := by
  constructor
  · intro some_
    obtain ⟨tool,rest,isTools⟩ := List.exists_cons_of_ne_nil some_
    refine ⟨tool.call.index,fun missing => ?_⟩
    have found := agrees.tools tool.call.index
    rw [missing,get_mem agrees.ordered (by simp [isTools])] at found
    cases found
  · rintro ⟨index,known⟩ none_
    obtain ⟨tool,isTool⟩ := Option.ne_none_iff_exists'.mp known
    have found := agrees.tools index
    rw [isTool,none_] at found
    cases found

theorem Agrees.finishes (agrees : Agrees cycle p) {result : ModelCycleResult} : finishCycle cycle = .ok result ↔ Yields p result := by
  cases isFinish : cycle.finish with
  | none =>
    have unfinished : p.finish = none := agrees.finish ▸ isFinish
    constructor
    · intro finished
      simp [finishCycle,isFinish] at finished
    · intro yields
      have finished := yields.finish
      rw [unfinished] at finished
      cases finished
  | some reason =>
    have same : cycle = { cycle with finish := some reason } := by rw [← isFinish]
    have finished : p.finish = some reason := agrees.finish ▸ isFinish
    rw [same,finishCycle_ok,agrees.no_tools]
    have calls : ∀ id, p.model_call_id = some id → ∀ call, call ∈ cycle.tools.map (·.call) ↔
        ∃ tool, p.tools call.index = some tool ∧ call = (openTool id call.index tool).call := by
      intro id isId call
      constructor
      · intro member
        obtain ⟨one,isOne,rfl⟩ := List.mem_map.mp member
        have found := agrees.tools one.call.index
        rw [get_mem agrees.ordered isOne,isId] at found
        obtain ⟨tool,known,same⟩ := Option.map_eq_some_iff.mp found.symm
        exact ⟨tool,known,congrArg OpenTool.call same.symm⟩
      · rintro ⟨tool,known,isCall⟩
        have found := agrees.tools call.index
        rw [known,isId] at found
        rw [isCall]
        exact List.mem_map_of_mem (get_index found).1
    constructor
    · rintro ⟨complete,fits,id,isId,rfl⟩
      rw [agrees.model_call_id] at isId
      exact ⟨finished,complete,fits,isId,agrees.text,agrees.reasoning,agrees.replay_state,agrees.usage,
        agrees.ordered.map _ fun _ _ less => less,calls id isId⟩
    · intro yields
      obtain rfl := Option.some.inj (finished.symm.trans yields.finish)
      refine ⟨yields.complete,yields.agrees,result.model_call_id,agrees.model_call_id.trans yields.model_call_id,?_⟩
      have sameCalls : result.calls = cycle.tools.map (·.call) := by
        refine List.Perm.eq_of_pairwise ?_ yields.ordered (agrees.ordered.map _ fun _ _ less => less) ?_
        · exact fun a b _ _ first second => absurd first (Nat.lt_asymm second)
        · refine (List.perm_ext_iff_of_nodup ?_ ?_).mpr fun call => ?_
          · exact List.Nodup.of_map (·.index) (List.pairwise_map.mpr (yields.ordered.imp fun less => Nat.ne_of_lt less))
          · refine List.Nodup.of_map (·.index) (List.pairwise_map.mpr (List.pairwise_map.mpr ?_))
            exact agrees.ordered.imp fun less => Nat.ne_of_lt less
          · rw [yields.calls,calls _ yields.model_call_id]
      obtain ⟨model_call_id,text,reasoning,replay_state,isCalls,usage,reason⟩ := result
      simp only at sameCalls yields ⊢
      rw [sameCalls,agrees.text,agrees.reasoning,agrees.replay_state,agrees.usage]
      have isText := yields.text
      have isReasoning := yields.reasoning
      have isReplay := yields.replay_state
      have isUsage := yields.usage
      simp only at isText isReasoning isReplay isUsage
      rw [isText,isReasoning,isReplay,isUsage]

theorem consume_leads {items : List (ModelEvent × Nat)} : ∀ {cycle : Cycle} {p q : Progress}, Agrees cycle p →
    Leads p (items.map (·.1)) q → ∃ cycle', Agrees cycle' q ∧ consume cycle (items.map nextEvent) = (finishCycle cycle',cycle'.sent) := by
  induction items with
  | nil =>
    rintro cycle p q agrees rfl
    exact ⟨cycle,agrees,rfl⟩
  | cons item rest ih =>
    obtain ⟨event,now⟩ := item
    rintro cycle p q agrees ⟨going,taken,leads⟩
    obtain ⟨cycle',agrees',same⟩ := ih (agrees.step taken now) leads
    refine ⟨cycle',agrees',?_⟩
    have going' : cycle.finish = none := agrees.finish.trans going
    rw [List.map_cons,nextEvent]
    simp only [consume,going',Option.isSome_none,Bool.false_eq_true,if_false,advance_guarded agrees.room now (agrees.guard_iff.mpr taken)]
    exact same
theorem consume_stops {items : List (ModelEvent × Nat)} : ∀ {cycle : Cycle} {p : Progress}, Agrees cycle p →
    (¬ ∃ q, Leads p (items.map (·.1)) q) → ¬ Through (consume cycle (items.map nextEvent)).1 := by
  induction items with
  | nil => exact fun {cycle p} _ stops => absurd ⟨p,rfl⟩ stops
  | cons item rest ih =>
    obtain ⟨event,now⟩ := item
    intro cycle p agrees stops
    rw [List.map_cons,nextEvent]
    cases going : cycle.finish with
    | some reason => simp [consume,going,Through,ModelCycle.failure]
    | none =>
      by_cases taken : p.Takes event
      · simp only [consume,going,Option.isSome_none,Bool.false_eq_true,if_false,
          advance_guarded agrees.room now (agrees.guard_iff.mpr taken)]
        refine ih (agrees.step taken now) ?_
        rintro ⟨q,leads⟩
        exact stops ⟨q,agrees.finish ▸ going,taken,leads⟩
      · exact consume_refused (fun guard => taken (agrees.guard_iff.mp guard)) now _

/-- A stream is accepted exactly if its events are taken and something is returned
    of where they lead. -/
theorem consume_ok_iff (items : List (ModelEvent × Nat)) (result : ModelCycleResult) :
    (consume_model_cycle (items.map nextEvent) none).1 = .ok result ↔ ∃ p, Leads {} (items.map (·.1)) p ∧ Yields p result := by
  by_cases goes : ∃ q, Leads {} (items.map (·.1)) q
  · obtain ⟨q,leads⟩ := goes
    obtain ⟨cycle,agrees,same⟩ := consume_leads agrees_nothing leads
    rw [consume_model_cycle,same,agrees.finishes]
    refine ⟨fun yields => ⟨q,leads,yields⟩,?_⟩
    rintro ⟨p,leads',yields⟩
    rwa [leads_unique leads leads']
  · have stops := consume_stops agrees_nothing goes
    constructor
    · intro accepted
      rw [consume_model_cycle] at accepted
      rw [accepted] at stops
      exact absurd trivial stops
    · rintro ⟨p,leads,_⟩
      exact absurd ⟨p,leads⟩ goes

/-- Something is returned of a stream that was taken, was not cut and ends as its
    calls have it. -/
theorem Leads.yields {p : Progress} {events : List ModelEvent} {reason : FinishReason} {model_call_id : String}
    (leads : Leads {} events p) (finished : p.finish = some reason) (complete : reason ≠ .Length)
    (fits : reason = .ToolUse ↔ ∃ index, p.tools index ≠ none) (named : p.model_call_id = some model_call_id) :
    ∃ result, Yields p result := by
  have isEvents : (events.map fun event => (event,0)).map (·.1) = events := by simp [Function.comp_def]
  rw [← isEvents] at leads
  obtain ⟨cycle,agrees,_⟩ := consume_leads agrees_nothing leads
  have finishes : cycle.finish = some reason := agrees.finish.trans finished
  have same : cycle = { cycle with finish := some reason } := by rw [← finishes]
  have returned := finishCycle_ok.mpr
    ⟨complete,fits.trans agrees.no_tools.symm,model_call_id,agrees.model_call_id.trans named,rfl⟩
  rw [← same] at returned
  exact ⟨_,agrees.finishes.mp returned⟩

def Progress.Ends (p : Progress) : Prop :=
  ∃ reason, p.finish = some reason ∧ (reason = .Length ∨ (reason = .ToolUse ↔ ∃ index, p.tools index ≠ none))

theorem Agrees.through (agrees : Agrees cycle p) (named : p.model_call_id ≠ none) : Through (finishCycle cycle) ↔ p.Ends := by
  obtain ⟨id,isId⟩ := Option.ne_none_iff_exists'.mp named
  cases isFinish : cycle.finish with
  | none =>
    have unfinished : p.finish = none := agrees.finish ▸ isFinish
    simp [finishCycle,isFinish,Through,ModelCycle.failure,Progress.Ends,unfinished]
  | some reason =>
    have finished : p.finish = some reason := agrees.finish ▸ isFinish
    have ends : p.Ends ↔ (reason = .Length ∨ (reason = .ToolUse ↔ cycle.tools ≠ [])) := by
      simp [Progress.Ends,finished,agrees.no_tools]
    rw [ends,show cycle = { cycle with finish := some reason } by rw [← isFinish]]
    by_cases length : reason = .Length
    · simp [finishCycle,length,Through,terminal_failure]
    by_cases fits : reason = .ToolUse ↔ cycle.tools ≠ []
    · have named' : cycle.model_call_id = some id := agrees.model_call_id.trans isId
      rw [finishCycle_ok.mpr ⟨length,fits,id,named',rfl⟩]
      simp [Through,length,fits]
    · rw [finishCycle_disagree length fits]
      simp [Through,ModelCycle.failure,length,fits]

theorem Leads.named : ∀ {p q : Progress} {events : List ModelEvent}, Leads p events q → p.finish = none → q.finish ≠ none →
    q.model_call_id ≠ none := by
  intro p q events
  induction events generalizing p with
  | nil =>
    rintro rfl going finished
    exact absurd going finished
  | cons event rest ih =>
    rintro ⟨going,taken,leads⟩ _ finished
    cases rest with
    | nil =>
      obtain rfl := leads
      cases event with
      | Done reason => exact taken.1
      | _ => exact absurd going finished
    | cons next rest => exact ih leads leads.1 finished

theorem accepts_leads {events : List ModelEvent} : Accepts events ↔ ∃ p, Leads {} events p ∧ p.Ends := by
  constructor
  · intro accepts
    have isEvents : (events.map fun event => (event,0)).map (·.1) = events := by simp [Function.comp_def]
    have through := accepts _ isEvents
    by_cases goes : ∃ q, Leads {} events q
    · obtain ⟨q,leads⟩ := goes
      rw [← isEvents] at leads
      obtain ⟨cycle,agrees,same⟩ := consume_leads agrees_nothing leads
      rw [consume_model_cycle,same] at through
      rw [isEvents] at leads
      refine ⟨q,leads,?_⟩
      have finished : q.finish ≠ none := by
        intro unfinished
        simp [finishCycle,agrees.finish,unfinished,Through,ModelCycle.failure] at through
      exact (agrees.through (leads.named rfl finished)).mp through
    · rw [← isEvents] at goes
      exact absurd through (consume_stops agrees_nothing goes)
  · rintro ⟨p,leads,ends⟩ items isEvents
    rw [← isEvents] at leads
    obtain ⟨cycle,agrees,same⟩ := consume_leads agrees_nothing leads
    rw [consume_model_cycle,same]
    have finished : p.finish ≠ none := by
      obtain ⟨reason,isReason,_⟩ := ends
      simp [isReason]
    exact (agrees.through (leads.named rfl finished)).mpr ends

end Recogniser

end MyCursor.CycleProgress

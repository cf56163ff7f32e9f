import MyCursor.Lanes
import MyCursor.Run

/-!
# Model cycles

`run/model_cycle.rs`: the events of one streaming provider call are checked,
forwarded to the client and collected. A stream is accepted exactly if it is
well formed, kind by kind of its content.
-/
namespace MyCursor.ModelCycle
open Message Store Projection Run Text
set_option linter.unusedSectionVars false

inductive ModelEvent where
  | Start (model_call_id : String)
  | TextStart
  | TextDelta (delta : String)
  | TextEnd
  | ThinkingStart
  | ThinkingDelta (delta : String)
  | ThinkingEnd
  | ToolCallStart (index : Nat) (call_id name : String)
  | ToolCallArgumentsDelta (index : Nat) (delta : String)
  | ToolCallEnd (index : Nat)
  | ProviderReplayState (state : ProviderReplayState)
  | Usage (usage : Usage)
  | Done (reason : FinishReason)
deriving DecidableEq

/-- What comes next: an event of the provider at some time, a failure of its
    stream, or the cancellation of the cycle. -/
inductive Next where
  | Event (event : ModelEvent) (now : Nat)
  | Failed (error : Error)
  | Cancelled (now : Nat)
deriving DecidableEq

/-- `serde_json::from_str` for the arguments of a call. -/
class ArgumentText where
  from_str : String → Except String Value

structure OpenTool where
  call : ToolCall
  ended : Bool
deriving DecidableEq

/-- The variables of the loop, and what was sent to the client. The tools stand
    in the order of their indices. `room` is how many events the client takes
    before it closes its channel, if it does. -/
structure Cycle where
  model_call_id : Option String := none
  text : String := ""
  reasoning : String := ""
  text_open : Bool := false
  thinking_started : Option Nat := none
  tools : List OpenTool := []
  call_ids : List String := []
  replay_state : Option ProviderReplayState := none
  usage : Option Usage := none
  finish : Option FinishReason := none
  sent : List RunEvent := []
  room : Option Nat := none
deriving DecidableEq

section Recogniser
variable [ArgumentText]

inductive Fault where
  | Protocol (message : String)
  | Closed
deriving DecidableEq

def send (cycle : Cycle) (event : RunEvent) : Cycle × Option Fault :=
  if cycle.room.all (cycle.sent.length < ·) then ({ cycle with sent := cycle.sent ++ [event] },none)
  else (cycle,some (.Protocol "client event channel closed"))
def fails (cycle : Cycle) (message : String) : Cycle × Option Fault := (cycle,some (.Protocol message))

def get (tools : List OpenTool) (index : Nat) : Option OpenTool := tools.find? (·.call.index = index)
def insert (tools : List OpenTool) (tool : OpenTool) : List OpenTool :=
  match tools with
  | [] => [tool]
  | first :: rest => if tool.call.index < first.call.index then tool :: first :: rest else first :: insert rest tool
def update (tools : List OpenTool) (index : Nat) (change : OpenTool → OpenTool) : List OpenTool :=
  tools.map fun tool => if tool.call.index = index then change tool else tool

/-- The arguments of a call are the object that its text denotes; an empty text
    denotes the empty object. -/
def parseArguments (name arguments_text : String) : Value × Option String :=
  if (trim arguments_text).isEmpty then (.Object [],none)
  else match ArgumentText.from_str arguments_text with
    | .ok (.Object members) => (.Object members,none)
    | .ok _ => (.Object [],some s!"{name} arguments must be a JSON object")
    | .error error => (.Object [],some s!"{name} arguments are not valid JSON: {error}")
def endTool (tool : OpenTool) : OpenTool :=
  let (arguments,argument_error) := parseArguments tool.call.name tool.call.arguments_text
  { call := { tool.call with arguments, argument_error }, ended := true }
def pushArguments (delta : String) (tool : OpenTool) : OpenTool :=
  { tool with call := { tool.call with arguments_text := tool.call.arguments_text ++ delta } }

def startTool (cycle : Cycle) (index : Nat) (call_id name model_call_id : String) : Cycle × Option Fault :=
  if (get cycle.tools index).isSome then fails cycle "provider reused a tool index"
  else if call_id ∈ cycle.call_ids then fails cycle "provider reused a tool call_id"
  else send
    { cycle with
      call_ids := call_id :: cycle.call_ids
      tools := insert cycle.tools ⟨⟨index,call_id,model_call_id,name,"",.Null,none⟩,false⟩ }
    (.ToolCallStart index call_id name model_call_id)

/-- One event. A usage that the client does not take fails the cycle in its own
    way. -/
def advance (cycle : Cycle) (now : Nat) : ModelEvent → Cycle × Option Fault
  | .Start model_call_id =>
    if cycle.model_call_id.isSome then fails { cycle with model_call_id := some model_call_id } "provider emitted duplicate Start"
    else ({ cycle with model_call_id := some model_call_id },none)
  | .TextStart =>
    if cycle.model_call_id.isNone then fails cycle "provider emitted content before Start"
    else if cycle.text_open then fails cycle "provider emitted duplicate TextStart"
    else send { cycle with text_open := true } .TextStart
  | .TextDelta delta =>
    if !cycle.text_open then fails cycle "provider emitted TextDelta before TextStart"
    else send { cycle with text := cycle.text ++ delta } (.TextDelta delta)
  | .TextEnd =>
    if !cycle.text_open then fails cycle "provider emitted TextEnd before TextStart"
    else send { cycle with text_open := false } .TextEnd
  | .ThinkingStart =>
    if cycle.model_call_id.isNone then fails cycle "provider emitted content before Start"
    else if cycle.thinking_started.isSome then
      fails { cycle with thinking_started := some now } "provider emitted duplicate ThinkingStart"
    else send { cycle with thinking_started := some now } .ThinkingStart
  | .ThinkingDelta delta =>
    if cycle.thinking_started.isNone then fails cycle "provider emitted ThinkingDelta before ThinkingStart"
    else send { cycle with reasoning := cycle.reasoning ++ delta } (.ThinkingDelta delta)
  | .ThinkingEnd =>
    match cycle.thinking_started with
    | none => fails cycle "provider emitted ThinkingEnd before ThinkingStart"
    | some started => send { cycle with thinking_started := none } (.ThinkingEnd (now - started))
  | .ToolCallStart index call_id name =>
    match cycle.model_call_id with
    | none => fails cycle "provider emitted content before Start"
    | some model_call_id => startTool cycle index call_id (normalize_tool_name name) model_call_id
  | .ToolCallArgumentsDelta index delta =>
    match get cycle.tools index with
    | none => fails cycle "provider emitted tool arguments for an unknown index"
    | some tool =>
      if tool.ended then fails cycle "provider emitted tool arguments after ToolCallEnd"
      else send { cycle with tools := update cycle.tools index (pushArguments delta) } (.ToolCallArgumentsDelta index delta)
  | .ToolCallEnd index =>
    match get cycle.tools index with
    | none => fails cycle "provider ended an unknown tool index"
    | some tool =>
      if tool.ended then fails cycle "provider emitted duplicate ToolCallEnd"
      else send { cycle with tools := update cycle.tools index endTool } (.ToolCallEnd index)
  | .ProviderReplayState state =>
    if cycle.replay_state.isSome then
      fails { cycle with replay_state := some state } "provider emitted duplicate ProviderReplayState"
    else ({ cycle with replay_state := some state },none)
  | .Usage usage =>
    if cycle.usage.isSome then fails { cycle with usage := some usage } "provider emitted duplicate Usage"
    else match send { cycle with usage := some usage } (.Usage usage) with
      | (cycle,none) => (cycle,none)
      | (cycle,some _) => (cycle,some .Closed)
  | .Done reason =>
    if cycle.model_call_id.isNone then fails cycle "provider emitted content before Start"
    else if cycle.text_open || cycle.thinking_started.isSome || cycle.tools.any (!·.ended) then
      fails cycle "provider emitted Done with an open content block"
    else ({ cycle with finish := some reason },none)

def headOf : List Char → List Char
  | ':' :: ' ' :: _ => []
  | c :: rest => c :: headOf rest
  | [] => []
def is_rejected_request (message : String) : Bool :=
  ((headOf message.toList).splitOnP is_whitespace).any fun token =>
    token.length = 3 && token.head? = some '4' && token.all (fun c => '0' ≤ c && c ≤ '9') &&
      !(token = "408".toList || token = "425".toList || token = "429".toList)

def retryable : RunFailure → Bool
  | .Protocol _ => true
  | .Provider message => !is_rejected_request message
  | .Store _ | .Client _ => false
def failure (cycle : Cycle) (failure : RunFailure) : ModelCycleFailure :=
  ⟨failure,cycle.text,cycle.reasoning,cycle.usage,retryable failure⟩
def terminal_failure (cycle : Cycle) (failure : RunFailure) : ModelCycleFailure :=
  ⟨failure,cycle.text,cycle.reasoning,cycle.usage,false⟩

/-- The open blocks are ended for the client, if it still listens. -/
def interrupt_cycle (cycle : Cycle) (now : Nat) : Cycle :=
  let cycle := if cycle.text_open then (send cycle .TextEnd).1 else cycle
  match cycle.thinking_started with
  | none => cycle
  | some started => (send cycle (.ThinkingEnd (now - started))).1

def finishCycle (cycle : Cycle) : CycleEnd :=
  match cycle.finish with
  | none => .error (failure cycle (.Provider "provider stream reached EOF before Done"))
  | some finish_reason =>
    let calls := cycle.tools.map (·.call)
    if finish_reason = .Length then
      .error (terminal_failure cycle (.Provider "model stopped before completing the response"))
    else if decide (finish_reason = .ToolUse) != !calls.isEmpty then
      .error (failure cycle (.Protocol "finish reason and tool calls disagree"))
    else match cycle.model_call_id with
      | none => .error (failure cycle (.Protocol "provider completed without Start"))
      | some model_call_id =>
        .ok ⟨model_call_id,cycle.text,cycle.reasoning,cycle.replay_state,calls,cycle.usage,finish_reason⟩

/-- The loop from a given state: how it ends, and what was sent. -/
def consume (cycle : Cycle) : List Next → CycleEnd × List RunEvent
  | [] => (finishCycle cycle,cycle.sent)
  | .Cancelled now :: _ =>
    let cycle := interrupt_cycle cycle now
    (.error (failure cycle (.Client "run was cancelled")),cycle.sent)
  | .Failed error :: _ => (.error (failure cycle (.from error)),cycle.sent)
  | .Event event now :: rest =>
    if cycle.finish.isSome then
      (.error (failure cycle (.Protocol "provider emitted an event after Done")),cycle.sent)
    else match advance cycle now event with
      | (cycle,none) => consume cycle rest
      | (cycle,some (.Protocol message)) => (.error (failure cycle (.Protocol message)),cycle.sent)
      | (cycle,some .Closed) => (.error (failure cycle (.Client "client event channel closed")),cycle.sent)
def consume_model_cycle (stream : List Next) (room : Option Nat) : CycleEnd × List RunEvent := consume { room } stream

def textEvent : ModelEvent → Option (Lanes.Event String)
  | .TextStart => some .Start
  | .TextDelta delta => some (.Delta delta)
  | .TextEnd => some .End
  | _ => none
def thinkingEvent : ModelEvent → Option (Lanes.Event String)
  | .ThinkingStart => some .Start
  | .ThinkingDelta delta => some (.Delta delta)
  | .ThinkingEnd => some .End
  | _ => none
def toolEvent (index : Nat) : ModelEvent → Option (Lanes.Event String)
  | .ToolCallStart other _ _ => if other = index then some .Start else none
  | .ToolCallArgumentsDelta other delta => if other = index then some (.Delta delta) else none
  | .ToolCallEnd other => if other = index then some .End else none
  | _ => none
def startId : ModelEvent → Option String
  | .Start model_call_id => some model_call_id
  | _ => none
def toolStart : ModelEvent → Option (Nat × String × String)
  | .ToolCallStart index call_id name => some (index,call_id,name)
  | _ => none
def usageOf : ModelEvent → Option Usage
  | .Usage usage => some usage
  | _ => none
def replayOf : ModelEvent → Option ProviderReplayState
  | .ProviderReplayState state => some state
  | _ => none
def doneReason : ModelEvent → Option FinishReason
  | .Done reason => some reason
  | _ => none
/-- What the provider may say before it has started: nothing of the answer. -/
def isContent : ModelEvent → Bool
  | .Start _ | .ProviderReplayState _ | .Usage _ | .Done _ => false
  | _ => true

abbrev textLane (events : List ModelEvent) : List (Lanes.Event String) := events.filterMap textEvent
abbrev thinkingLane (events : List ModelEvent) : List (Lanes.Event String) := events.filterMap thinkingEvent
abbrev toolLane (index : Nat) (events : List ModelEvent) : List (Lanes.Event String) := events.filterMap (toolEvent index)

/-- One start before all content, blocks of text and of thinking, at most one
    block for each tool index and distinct call ids, at most one usage and one
    replay state, and the end of it all. -/
structure WellFormed (events : List ModelEvent) : Prop where
  start : (events.filterMap startId).length = 1
  started : ∀ before event later, events = before ++ event :: later → isContent event = true ∨ (doneReason event).isSome →
    before.filterMap startId ≠ []
  text : Lanes.Blocks (textLane events)
  thinking : Lanes.Blocks (thinkingLane events)
  tool : ∀ index, Lanes.OneBlock (toolLane index events)
  call_ids : ((events.filterMap toolStart).map (·.2.1)).Nodup
  usage : (events.filterMap usageOf).length ≤ 1
  replay : (events.filterMap replayOf).length ≤ 1
  done : ∃ body reason, events = body ++ [.Done reason] ∧ body.filterMap doneReason = [] ∧ reason ≠ .Length ∧
    (reason = .ToolUse ↔ events.filterMap toolStart ≠ [])

/-- The arguments of a call: the object that its text denotes, the empty one if
    there is no text, or the empty one with an error. -/
structure Parsed (call : ToolCall) : Prop where
  blank : (trim call.arguments_text).isEmpty = true → call.arguments = .Object [] ∧ call.argument_error = none
  object : (trim call.arguments_text).isEmpty = false → ∀ members,
    ArgumentText.from_str call.arguments_text = .ok (.Object members) →
    call.arguments = .Object members ∧ call.argument_error = none
  other : (trim call.arguments_text).isEmpty = false → ∀ value, ArgumentText.from_str call.arguments_text = .ok value →
    (∀ members, value ≠ .Object members) →
    call.arguments = .Object [] ∧ call.argument_error = some s!"{call.name} arguments must be a JSON object"
  invalid : (trim call.arguments_text).isEmpty = false → ∀ error, ArgumentText.from_str call.arguments_text = .error error →
    call.arguments = .Object [] ∧ call.argument_error = some s!"{call.name} arguments are not valid JSON: {error}"

def forwarded (model_call_id : String) : ModelEvent → Option RunEvent
  | .TextStart => some .TextStart
  | .TextDelta delta => some (.TextDelta delta)
  | .TextEnd => some .TextEnd
  | .ThinkingStart => some .ThinkingStart
  | .ThinkingDelta delta => some (.ThinkingDelta delta)
  | .ThinkingEnd => some (.ThinkingEnd 0)
  | .ToolCallStart index call_id name => some (.ToolCallStart index call_id (normalize_tool_name name) model_call_id)
  | .ToolCallArgumentsDelta index delta => some (.ToolCallArgumentsDelta index delta)
  | .ToolCallEnd index => some (.ToolCallEnd index)
  | .Usage usage => some (.Usage usage)
  | .Start _ | .ProviderReplayState _ | .Done _ => none
def timeless : RunEvent → RunEvent
  | .ThinkingEnd _ => .ThinkingEnd 0
  | event => event

/-- What the cycle makes of a stream and what it sends. -/
structure Delivers (events : List ModelEvent) (result : ModelCycleResult) (sent : List RunEvent) : Prop where
  model_call_id : events.filterMap startId = [result.model_call_id]
  text : result.text = String.join (Lanes.deltas (textLane events))
  reasoning : result.reasoning = String.join (Lanes.deltas (thinkingLane events))
  usage : events.filterMap usageOf = result.usage.toList
  replay_state : events.filterMap replayOf = result.replay_state.toList
  finish_reason : events.filterMap doneReason = [result.finish_reason]
  ordered : result.calls.Pairwise (·.index < ·.index)
  call_ids : (result.calls.map (·.call_id)).Nodup
  calls : ∀ index call_id, (∃ name, .ToolCallStart index call_id name ∈ events) ↔
    ∃ call ∈ result.calls, call.index = index ∧ call.call_id = call_id
  call : ∀ call ∈ result.calls, (∃ name, .ToolCallStart call.index call.call_id name ∈ events ∧
    call.name = normalize_tool_name name) ∧ call.model_call_id = result.model_call_id ∧
    call.arguments_text = String.join (Lanes.deltas (toolLane call.index events)) ∧ Parsed call
  sent : sent.map timeless = events.filterMap (forwarded result.model_call_id)

def toolState (tools : List OpenTool) (index : Nat) : Lanes.State :=
  match get tools index with
  | none => .Unstarted
  | some tool => if tool.ended then .Ended else .Open

def Guard (cycle : Cycle) : ModelEvent → Prop
  | .Start _ => cycle.model_call_id = none
  | .TextStart => cycle.model_call_id ≠ none ∧ cycle.text_open = false
  | .TextDelta _ | .TextEnd => cycle.text_open = true
  | .ThinkingStart => cycle.model_call_id ≠ none ∧ cycle.thinking_started = none
  | .ThinkingDelta _ | .ThinkingEnd => cycle.thinking_started ≠ none
  | .ToolCallStart index call_id _ =>
    cycle.model_call_id ≠ none ∧ toolState cycle.tools index = .Unstarted ∧ call_id ∉ cycle.call_ids
  | .ToolCallArgumentsDelta index _ | .ToolCallEnd index => toolState cycle.tools index = .Open
  | .ProviderReplayState _ => cycle.replay_state = none
  | .Usage _ => cycle.usage = none
  | .Done _ => cycle.model_call_id ≠ none ∧ cycle.text_open = false ∧ cycle.thinking_started = none ∧
      ∀ tool ∈ cycle.tools, tool.ended = true

def newTool (index : Nat) (call_id name model_call_id : String) : OpenTool :=
  ⟨⟨index,call_id,model_call_id,normalize_tool_name name,"",.Null,none⟩,false⟩
def push (cycle : Cycle) (event : RunEvent) : Cycle := { cycle with sent := cycle.sent ++ [event] }

def effect (cycle : Cycle) (now : Nat) : ModelEvent → Cycle
  | .Start model_call_id => { cycle with model_call_id := some model_call_id }
  | .TextStart => push { cycle with text_open := true } .TextStart
  | .TextDelta delta => push { cycle with text := cycle.text ++ delta } (.TextDelta delta)
  | .TextEnd => push { cycle with text_open := false } .TextEnd
  | .ThinkingStart => push { cycle with thinking_started := some now } .ThinkingStart
  | .ThinkingDelta delta => push { cycle with reasoning := cycle.reasoning ++ delta } (.ThinkingDelta delta)
  | .ThinkingEnd => push { cycle with thinking_started := none } (.ThinkingEnd (now - cycle.thinking_started.getD 0))
  | .ToolCallStart index call_id name =>
    push { cycle with
      call_ids := call_id :: cycle.call_ids
      tools := insert cycle.tools (newTool index call_id name (cycle.model_call_id.getD "")) }
      (.ToolCallStart index call_id (normalize_tool_name name) (cycle.model_call_id.getD ""))
  | .ToolCallArgumentsDelta index delta =>
    push { cycle with tools := update cycle.tools index (pushArguments delta) } (.ToolCallArgumentsDelta index delta)
  | .ToolCallEnd index => push { cycle with tools := update cycle.tools index endTool } (.ToolCallEnd index)
  | .ProviderReplayState state => { cycle with replay_state := some state }
  | .Usage usage => push { cycle with usage := some usage } (.Usage usage)
  | .Done reason => { cycle with finish := some reason }

variable {cycle : Cycle}

variable {tools : List OpenTool} {index : Nat}

theorem toolState_unstarted : toolState tools index = .Unstarted ↔ get tools index = none := by
  unfold toolState
  cases get tools index with
  | none => simp
  | some tool => cases isEnded : tool.ended <;> simp [isEnded]
theorem toolState_open : toolState tools index = .Open ↔ ∃ tool, get tools index = some tool ∧ tool.ended = false := by
  unfold toolState
  cases get tools index with
  | none => simp
  | some tool => cases isEnded : tool.ended <;> simp [isEnded]

theorem advance_guarded (room : cycle.room = none) (now : Nat) {event : ModelEvent} (guard : Guard cycle event) :
    advance cycle now event = (effect cycle now event,none) := by
  cases event with
  | ToolCallStart index call_id name =>
    obtain ⟨started,unstarted,fresh⟩ := guard
    obtain ⟨model_call_id,isStarted⟩ := Option.ne_none_iff_exists'.mp started
    have absent := toolState_unstarted.mp unstarted
    simp [advance,effect,push,startTool,send,newTool,room,isStarted,absent,fresh]
  | ToolCallArgumentsDelta index delta =>
    obtain ⟨tool,found,running⟩ := toolState_open.mp guard
    simp [advance,effect,push,send,room,found,running]
  | ToolCallEnd index =>
    obtain ⟨tool,found,running⟩ := toolState_open.mp guard
    simp [advance,effect,push,send,room,found,running]
  | ThinkingEnd =>
    obtain ⟨started,isStarted⟩ := Option.ne_none_iff_exists'.mp guard
    simp [advance,effect,push,send,room,isStarted]
  | Done reason =>
    obtain ⟨started,text,thinking,tools⟩ := guard
    have ended : cycle.tools.any (!·.ended) = false := by simpa using tools
    simp [advance,effect,started,text,thinking,ended]
  | Start _ | TextStart | TextDelta _ | TextEnd | ThinkingStart | ThinkingDelta _ | ProviderReplayState _ | Usage _ =>
    simp only [Guard] at guard
    simp [advance,effect,push,send,room,guard]

theorem advance_refused (now : Nat) {event : ModelEvent} (refused : ¬ Guard cycle event) :
    ∃ cycle' fault, advance cycle now event = (cycle',some fault) := by
  cases event with
  | ToolCallStart index call_id name =>
    simp only [Guard,toolState_unstarted] at refused
    simp only [advance]
    cases isStarted : cycle.model_call_id with
    | none => exact ⟨_,_,rfl⟩
    | some model_call_id =>
      simp only [startTool]
      split_ifs with occupied reused
      · exact ⟨_,_,rfl⟩
      · exact ⟨_,_,rfl⟩
      · refine absurd ⟨by simp [isStarted],?_,reused⟩ refused
        simpa using occupied
  | ToolCallArgumentsDelta index delta | ToolCallEnd index =>
    simp only [Guard,toolState_open] at refused
    simp only [advance]
    cases found : get cycle.tools index with
    | none => exact ⟨_,_,rfl⟩
    | some tool =>
      dsimp only
      split_ifs with ended
      · exact ⟨_,_,rfl⟩
      · exact absurd ⟨tool,found,by simpa using ended⟩ refused
  | ThinkingEnd =>
    simp only [Guard,ne_eq,not_not] at refused
    simp only [advance,refused]
    exact ⟨_,_,rfl⟩
  | Done reason =>
    simp only [advance]
    split_ifs with unstarted running
    · exact ⟨_,_,rfl⟩
    · exact ⟨_,_,rfl⟩
    · refine absurd ⟨by simpa using unstarted,?_⟩ refused
      simp only [Bool.or_eq_true,not_or] at running
      exact ⟨by simpa using running.1.1,by simpa using running.1.2,by simpa using running.2⟩
  | TextStart | ThinkingStart =>
    simp only [advance]
    split_ifs with unstarted already
    · exact ⟨_,_,rfl⟩
    · exact ⟨_,_,rfl⟩
    · exact absurd ⟨by simpa using unstarted,by simpa using already⟩ refused
  | Start _ | TextDelta _ | TextEnd | ThinkingDelta _ | ProviderReplayState _ | Usage _ =>
    simp only [advance]
    split_ifs with failing
    · exact ⟨_,_,rfl⟩
    · exact absurd (by simpa [Guard] using failing) refused

section Tools
variable {tools : List OpenTool} {index other : Nat}

variable {tool : OpenTool}

theorem get_index (found : get tools index = some tool) : tool ∈ tools ∧ tool.call.index = index :=
  ⟨List.mem_of_find?_eq_some found,by simpa using List.find?_some found⟩
theorem get_none : get tools index = none ↔ ∀ tool ∈ tools, tool.call.index ≠ index := by
  simp [get]

theorem insert_perm (tool : OpenTool) : (insert tools tool).Perm (tool :: tools) := by
  induction tools with
  | nil => exact .refl _
  | cons first rest ih =>
    simp only [insert]
    split_ifs
    · exact .refl _
    · exact (ih.cons first).trans (.swap tool first rest)
theorem mem_insert {one : OpenTool} : one ∈ insert tools tool ↔ one = tool ∨ one ∈ tools := by
  rw [(insert_perm tool).mem_iff,List.mem_cons]

section
variable (ordered : tools.Pairwise (·.call.index < ·.call.index))
include ordered

theorem insert_ordered (new : get tools tool.call.index = none) : (insert tools tool).Pairwise (·.call.index < ·.call.index) := by
  induction tools with
  | nil => simp [insert]
  | cons first rest ih =>
    have others := get_none.mp new
    rw [List.pairwise_cons] at ordered
    simp only [insert]
    split_ifs with before
    · refine List.pairwise_cons.mpr ⟨?_,List.pairwise_cons.mpr ordered⟩
      intro one member
      rcases List.mem_cons.mp member with rfl | later
      · exact before
      · exact before.trans (ordered.1 one later)
    · refine List.pairwise_cons.mpr ⟨?_,ih ordered.2 (get_none.mpr fun one later => others one (List.mem_cons_of_mem _ later))⟩
      intro one member
      rcases mem_insert.mp member with rfl | later
      · have different := others first List.mem_cons_self
        omega
      · exact ordered.1 one later

theorem get_mem (member : tool ∈ tools) : get tools tool.call.index = some tool := by
  induction tools with
  | nil => cases member
  | cons first rest ih =>
    rw [List.pairwise_cons] at ordered
    rcases List.mem_cons.mp member with rfl | later
    · simp [get]
    · have different := (ordered.1 tool later).ne
      rw [get,List.find?_cons_of_neg (by simpa using different)]
      exact ih ordered.2 later

theorem get_insert (new : get tools tool.call.index = none) :
    get (insert tools tool) index = if index = tool.call.index then some tool else get tools index := by
  have orderedThen := insert_ordered ordered new
  split_ifs with same
  · rw [same]
    exact get_mem orderedThen (mem_insert.mpr (.inl rfl))
  · cases found : get tools index with
    | none =>
      refine get_none.mpr fun one member => ?_
      rcases mem_insert.mp member with rfl | before
      · exact fun isIndex => same isIndex.symm
      · exact get_none.mp found one before
    | some one =>
      obtain ⟨member,rfl⟩ := get_index found
      exact get_mem orderedThen (mem_insert.mpr (.inr member))

end

theorem get_update {change : OpenTool → OpenTool} (keeps : ∀ tool, (change tool).call.index = tool.call.index) :
    get (update tools index change) other = if other = index then (get tools other).map change else get tools other := by
  induction tools with
  | nil => simp [get,update]
  | cons first rest ih =>
    have isRest : get (rest.map fun tool => if tool.call.index = index then change tool else tool) other = _ := ih
    simp only [get] at isRest ⊢
    by_cases here : first.call.index = other
    · subst here
      by_cases same : first.call.index = index
      · simp [update,same,keeps]
      · simp [update,same]
    · have there : (if first.call.index = index then change first else first).call.index ≠ other := by
        split_ifs
        · rw [keeps]
          exact here
        · exact here
      rw [update,List.map_cons,List.find?_cons_of_neg (by simpa using there),List.find?_cons_of_neg (by simpa using here)]
      exact isRest

theorem update_ordered {change : OpenTool → OpenTool} (keeps : ∀ tool, (change tool).call.index = tool.call.index)
    (ordered : tools.Pairwise (·.call.index < ·.call.index)) :
    (update tools index change).Pairwise (·.call.index < ·.call.index) := by
  have same : ∀ tool, (if tool.call.index = index then change tool else tool).call.index = tool.call.index := by
    intro tool
    split_ifs
    · exact keeps tool
    · rfl
  exact ordered.map _ fun a b less => by simpa only [same] using less

theorem pushArguments_index (delta : String) (tool : OpenTool) : (pushArguments delta tool).call.index = tool.call.index := rfl
theorem endTool_eq (tool : OpenTool) : endTool tool = ⟨{ tool.call with
      arguments := (parseArguments tool.call.name tool.call.arguments_text).1
      argument_error := (parseArguments tool.call.name tool.call.arguments_text).2 },true⟩ := by
  unfold endTool
  generalize parseArguments tool.call.name tool.call.arguments_text = parsed
  rfl

end Tools

structure LaneRead (lane : List (Lanes.Event String)) (isOpen : Prop) (joined : String) : Prop where
  state : ∃ state, Lanes.run true lane = some state ∧ (state = .Open ↔ isOpen)
  joined : joined = String.join (Lanes.deltas lane)

section Lane
variable {lane : List (Lanes.Event String)} {isOpen : Prop} {joined : String}

theorem LaneRead.begin (read : LaneRead lane isOpen joined) (closed : ¬ isOpen) : LaneRead (lane ++ [.Start]) True joined := by
  obtain ⟨state,isState,opened⟩ := read.state
  refine ⟨⟨.Open,?_,by simp⟩,?_⟩
  · rw [Lanes.run_snoc,isState]
    cases state with
    | Open => exact absurd (opened.mp rfl) closed
    | Unstarted | Ended => rfl
  · simpa [Lanes.deltas] using read.joined
theorem LaneRead.delta (read : LaneRead lane isOpen joined) (opened : isOpen) (delta : String) :
    LaneRead (lane ++ [.Delta delta]) True (joined ++ delta) := by
  obtain ⟨state,isState,isOpened⟩ := read.state
  obtain rfl := isOpened.mpr opened
  refine ⟨⟨.Open,?_,by simp⟩,?_⟩
  · rw [Lanes.run_snoc,isState]
    rfl
  · rw [Lanes.deltas_append,String.join_append,← read.joined]
    simp [Lanes.deltas]
theorem LaneRead.finish (read : LaneRead lane isOpen joined) (opened : isOpen) : LaneRead (lane ++ [.End]) False joined := by
  obtain ⟨state,isState,isOpened⟩ := read.state
  obtain rfl := isOpened.mpr opened
  refine ⟨⟨.Ended,?_,by simp⟩,?_⟩
  · rw [Lanes.run_snoc,isState]
    rfl
  · simpa [Lanes.deltas] using read.joined

theorem LaneRead.next (read : LaneRead lane isOpen joined) {event : Lanes.Event String} {later : List (Lanes.Event String)}
    (blocks : Lanes.Blocks (lane ++ event :: later)) : event = .Start ↔ ¬ isOpen := by
  obtain ⟨state,isState,opened⟩ := read.state
  have fits : ∃ state', Lanes.next true state event = some state' := by
    obtain ⟨last,isLast,_⟩ := (Lanes.blocks_iff _).mp blocks
    exact Lanes.run_next isLast isState
  rw [← opened]
  cases state <;> cases event <;> simp [Lanes.next] at fits ⊢

end Lane

def startOf (start : Nat × String × String) : Nat × String × String := (start.1,start.2.1,normalize_tool_name start.2.2)
def nameOf (tool : OpenTool) : Nat × String × String := (tool.call.index,tool.call.call_id,tool.call.name)

structure ToolsRead (tools : List OpenTool) (call_ids : List String) (model_call_id : Option String)
    (events : List ModelEvent) : Prop where
  state : ∀ index, Lanes.run false (toolLane index events) = some (toolState tools index)
  ordered : tools.Pairwise (·.call.index < ·.call.index)
  starts : (tools.map nameOf).Perm ((events.filterMap toolStart).map startOf)
  ids : call_ids.Perm ((events.filterMap toolStart).map (·.2.1))
  distinct : call_ids.Nodup
  text : ∀ tool ∈ tools, tool.call.arguments_text = String.join (Lanes.deltas (toolLane tool.call.index events))
  parsed : ∀ tool ∈ tools, tool.ended = true → Parsed tool.call
  named : ∀ tool ∈ tools, some tool.call.model_call_id = model_call_id

structure Reads (cycle : Cycle) (events : List ModelEvent) : Prop where
  room : cycle.room = none
  start : events.filterMap startId = cycle.model_call_id.toList
  started : ∀ before event later, events = before ++ event :: later → isContent event = true ∨ (doneReason event).isSome →
    before.filterMap startId ≠ []
  text : LaneRead (textLane events) (cycle.text_open = true) cycle.text
  thinking : LaneRead (thinkingLane events) (cycle.thinking_started ≠ none) cycle.reasoning
  tools : ToolsRead cycle.tools cycle.call_ids cycle.model_call_id events
  usage : events.filterMap usageOf = cycle.usage.toList
  replay : events.filterMap replayOf = cycle.replay_state.toList
  sent : ∀ model_call_id, (∀ id, cycle.model_call_id = some id → id = model_call_id) →
    cycle.sent.map timeless = events.filterMap (forwarded model_call_id)

section Others
variable {tools : List OpenTool} {call_ids : List String} {model_call_id : Option String} {events : List ModelEvent}
  {event : ModelEvent}

theorem ToolsRead.other (read : ToolsRead tools call_ids model_call_id events) (noTool : ∀ index, toolEvent index event = none)
    (noStart : toolStart event = none) : ToolsRead tools call_ids model_call_id (events ++ [event]) := by
  have lane : ∀ index, toolLane index (events ++ [event]) = toolLane index events := by
    intro index
    simp [toolLane,noTool index]
  have starts : (events ++ [event]).filterMap toolStart = events.filterMap toolStart := by simp [noStart]
  refine ⟨?_,read.ordered,?_,?_,read.distinct,?_,read.parsed,read.named⟩
  · intro index
    rw [lane]
    exact read.state index
  · rw [starts]
    exact read.starts
  · rw [starts]
    exact read.ids
  · intro tool member
    rw [lane]
    exact read.text tool member

theorem ToolsRead.named_later (read : ToolsRead tools call_ids none events) (model_call_id : Option String) :
    ToolsRead tools call_ids model_call_id events := by
  refine ⟨read.state,read.ordered,read.starts,read.ids,read.distinct,read.text,read.parsed,?_⟩
  intro tool member
  exact nomatch read.named tool member

theorem ToolsRead.begin {index : Nat} {call_id name id : String} (read : ToolsRead tools call_ids (some id) events)
    (unstarted : toolState tools index = .Unstarted) (fresh : call_id ∉ call_ids) :
    ToolsRead (insert tools (newTool index call_id name id)) (call_id :: call_ids) (some id)
      (events ++ [.ToolCallStart index call_id name]) := by
  have new : get tools (newTool index call_id name id).call.index = none := toolState_unstarted.mp unstarted
  have lane : ∀ other, other ≠ index → toolLane other (events ++ [.ToolCallStart index call_id name]) = toolLane other events := by
    intro other different
    simp [toolLane,toolEvent,different.symm]
  have own : toolLane index (events ++ [.ToolCallStart index call_id name]) = toolLane index events ++ [.Start] := by
    simp [toolLane,toolEvent]
  -- Nothing was read of the tool before.
  have empty : toolLane index events = [] := by
    have state := read.state index
    rw [unstarted] at state
    cases isLane : toolLane index events using List.reverseRecOn with
    | nil => rfl
    | append_singleton before last =>
      rw [isLane,Lanes.run_snoc] at state
      obtain ⟨previous,_,isNext⟩ := Option.bind_eq_some_iff.mp state
      cases previous <;> cases last <;> simp [Lanes.next] at isNext
  refine ⟨?_,insert_ordered read.ordered new,?_,?_,List.nodup_cons.mpr ⟨fresh,read.distinct⟩,?_,?_,?_⟩
  · intro other
    simp only [toolState,get_insert read.ordered new]
    by_cases same : other = index
    · subst same
      rw [own,empty]
      simp [Lanes.run,Lanes.runFrom,Lanes.next,newTool]
    · rw [lane other same,if_neg (show other ≠ (newTool index call_id name id).call.index from same)]
      exact read.state other
  · refine ((insert_perm _).map nameOf).trans ?_
    simp only [List.map_cons,List.filterMap_append,List.map_append]
    exact (read.starts.cons _).trans (List.perm_append_singleton _ _).symm
  · simp only [List.filterMap_append,List.map_append]
    exact (read.ids.cons _).trans (List.perm_append_singleton _ _).symm
  · intro tool member
    rcases mem_insert.mp member with rfl | before
    · rw [show (newTool index call_id name id).call.index = index from rfl,own,empty]
      rfl
    · have different : tool.call.index ≠ index := get_none.mp new tool before
      rw [lane _ different]
      exact read.text tool before
  · intro tool member ended
    rcases mem_insert.mp member with rfl | before
    · cases ended
    · exact read.parsed tool before ended
  · intro tool member
    rcases mem_insert.mp member with rfl | before
    · rfl
    · exact read.named tool before

theorem ToolsRead.change {index : Nat} {lane : Lanes.Event String} {change : OpenTool → OpenTool} {ended : Lanes.State}
    (read : ToolsRead tools call_ids model_call_id events) (isLane : ∀ other, toolEvent other event =
      if index = other then some lane else none) (noStart : toolStart event = none) (running : toolState tools index = .Open)
    (names : ∀ tool, nameOf (change tool) = nameOf tool)
    (ids : ∀ tool, (change tool).call.model_call_id = tool.call.model_call_id)
    (goes : Lanes.next false .Open lane = some ended)
    (state : ∀ tool, tool.ended = false → ended = if (change tool).ended then .Ended else .Open)
    (text : ∀ tool, (change tool).call.arguments_text = tool.call.arguments_text ++ String.join (Lanes.deltas [lane]))
    (parsed : ∀ tool, tool.ended = false → (change tool).ended = true → Parsed (change tool).call) :
    ToolsRead (update tools index change) call_ids model_call_id (events ++ [event]) := by
  have keeps : ∀ tool, (change tool).call.index = tool.call.index := fun tool => congrArg Prod.fst (names tool)
  have lanes : ∀ other, other ≠ index → toolLane other (events ++ [event]) = toolLane other events := by
    intro other different
    simp [toolLane,isLane,different.symm]
  have own : toolLane index (events ++ [event]) = toolLane index events ++ [lane] := by simp [toolLane,isLane]
  have starts : (events ++ [event]).filterMap toolStart = events.filterMap toolStart := by simp [noStart]
  have members : ∀ tool ∈ update tools index change, ∃ before ∈ tools,
      (before.call.index = index ∧ tool = change before) ∨ (before.call.index ≠ index ∧ tool = before) := by
    intro tool member
    obtain ⟨before,isBefore,rfl⟩ := List.mem_map.mp member
    split_ifs with same
    · exact ⟨before,isBefore,.inl ⟨same,rfl⟩⟩
    · exact ⟨before,isBefore,.inr ⟨same,rfl⟩⟩
  obtain ⟨tool,found,notEnded⟩ := toolState_open.mp running
  refine ⟨?_,update_ordered keeps read.ordered,?_,?_,read.distinct,?_,?_,?_⟩
  · intro other
    simp only [toolState,get_update keeps]
    by_cases same : other = index
    · subst same
      rw [own,Lanes.run_snoc,read.state,running,Option.bind_some,goes,if_pos rfl,found]
      simp [state tool notEnded]
    · rw [lanes other same,if_neg same]
      exact read.state other
  · have same : (update tools index change).map nameOf = tools.map nameOf := by
      rw [update,List.map_map]
      refine List.map_congr_left fun tool _ => ?_
      simp only [Function.comp]
      split_ifs
      · exact names tool
      · rfl
    rw [same,starts]
    exact read.starts
  · rw [starts]
    exact read.ids
  · intro tool member
    obtain ⟨before,isBefore,⟨same,rfl⟩ | ⟨different,rfl⟩⟩ := members tool member
    · rw [keeps,same,own,Lanes.deltas_append,String.join_append,text,read.text before isBefore,same]
    · rw [lanes _ different]
      exact read.text tool isBefore
  · intro tool member isEnded
    obtain ⟨before,isBefore,⟨same,rfl⟩ | ⟨different,rfl⟩⟩ := members tool member
    · have isFound := get_mem read.ordered isBefore
      rw [same,found] at isFound
      obtain rfl := Option.some.inj isFound
      exact parsed tool notEnded isEnded
    · exact read.parsed tool isBefore isEnded
  · intro tool member
    obtain ⟨before,isBefore,⟨same,rfl⟩ | ⟨different,rfl⟩⟩ := members tool member
    · rw [ids]
      exact read.named before isBefore
    · exact read.named tool isBefore

theorem parsed_endTool (tool : OpenTool) : Parsed (endTool tool).call := by
  rw [endTool_eq]
  refine ⟨?_,?_,?_,?_⟩
  · intro blank
    have blank : (trim tool.call.arguments_text).isEmpty = true := blank
    simp only [parseArguments,blank,if_true]
    exact ⟨trivial,trivial⟩
  · intro filled members reads
    have filled : (trim tool.call.arguments_text).isEmpty = false := filled
    have reads : ArgumentText.from_str tool.call.arguments_text = .ok (.Object members) := reads
    simp only [parseArguments,filled,reads,Bool.false_eq_true,if_false]
    exact ⟨trivial,trivial⟩
  · intro filled value reads noObject
    have filled : (trim tool.call.arguments_text).isEmpty = false := filled
    have reads : ArgumentText.from_str tool.call.arguments_text = .ok value := reads
    simp only [parseArguments,filled,reads,Bool.false_eq_true,if_false]
    cases value with
    | Object members => exact absurd rfl (noObject members)
    | _ => exact ⟨trivial,trivial⟩
  · intro filled error reads
    have filled : (trim tool.call.arguments_text).isEmpty = false := filled
    have reads : ArgumentText.from_str tool.call.arguments_text = .error error := reads
    simp only [parseArguments,filled,reads,Bool.false_eq_true,if_false]
    exact ⟨trivial,trivial⟩

end Others

variable {events : List ModelEvent} {event : ModelEvent}

theorem filterMap_skip {α : Type} {f : ModelEvent → Option α} (skips : f event = none) :
    (events ++ [event]).filterMap f = events.filterMap f := by
  simp [skips]
theorem filterMap_take {α : Type} {f : ModelEvent → Option α} {a : α} (takes : f event = some a) :
    (events ++ [event]).filterMap f = events.filterMap f ++ [a] := by
  simp [takes]

theorem lane_content {kind : ModelEvent → Option (Lanes.Event String)} (content : ∀ event, kind event ≠ none → isContent event = true)
    {again : Bool} (opened : Lanes.run again (events.filterMap kind) = some .Open) : ∃ event ∈ events, isContent event = true := by
  cases isLane : events.filterMap kind with
  | nil =>
    rw [isLane] at opened
    cases opened
  | cons first rest =>
    have member : first ∈ events.filterMap kind := by simp [isLane]
    obtain ⟨event,isEvent,isFirst⟩ := List.mem_filterMap.mp member
    exact ⟨event,isEvent,content event (by simp [isFirst])⟩

section
variable (reads : Reads cycle events)
include reads

theorem Reads.content_started (content : ∃ event ∈ events, isContent event = true) : cycle.model_call_id ≠ none := by
  obtain ⟨event,member,isContent⟩ := content
  obtain ⟨before,later,split⟩ := List.append_of_mem member
  have started := reads.started before event later split (.inl isContent)
  intro unstarted
  have start := reads.start
  rw [unstarted,split,List.filterMap_append] at start
  exact started (List.append_eq_nil_iff.mp start).1

theorem Reads.guard_started (guard : Guard cycle event)
    (late : isContent event = true ∨ (doneReason event).isSome) : cycle.model_call_id ≠ none := by
  cases event with
  | Start _ | ProviderReplayState _ | Usage _ => simp [isContent,doneReason] at late
  | TextStart | ThinkingStart | ToolCallStart _ _ _ | Done _ => exact guard.1
  | TextDelta _ | TextEnd =>
    obtain ⟨state,isState,opened⟩ := reads.text.state
    obtain rfl := opened.mpr guard
    refine reads.content_started (lane_content ?_ isState)
    intro event isText
    cases event <;> simp [textEvent,isContent] at isText ⊢
  | ThinkingDelta _ | ThinkingEnd =>
    obtain ⟨state,isState,opened⟩ := reads.thinking.state
    obtain rfl := opened.mpr guard
    refine reads.content_started (lane_content ?_ isState)
    intro event isText
    cases event <;> simp [thinkingEvent,isContent] at isText ⊢
  | ToolCallArgumentsDelta index _ | ToolCallEnd index =>
    have isState := reads.tools.state index
    rw [show toolState cycle.tools index = .Open from guard] at isState
    refine reads.content_started (lane_content ?_ isState)
    intro event isTool
    cases event <;> simp [toolEvent,isContent] at isTool ⊢

theorem Reads.step_started (guard : Guard cycle event) :
    ∀ before one later, events ++ [event] = before ++ one :: later → isContent one = true ∨ (doneReason one).isSome →
      before.filterMap startId ≠ [] := by
  intro before one later split late
  cases later using List.reverseRecOn with
  | nil =>
    obtain ⟨rfl,isOne⟩ := List.append_inj' split rfl
    obtain rfl : event = one := List.singleton_inj.mp isOne
    rw [reads.start]
    cases isStarted : cycle.model_call_id with
    | none => exact absurd isStarted (reads.guard_started guard late)
    | some id => simp
  | append_singleton later last =>
    rw [← List.cons_append,← List.append_assoc] at split
    obtain ⟨isEvents,_⟩ := List.append_inj' split rfl
    exact reads.started before one later isEvents late

theorem Reads.step_text (guard : Guard cycle event) (now : Nat) :
    LaneRead (textLane (events ++ [event])) ((effect cycle now event).text_open = true) (effect cycle now event).text := by
  cases event with
  | TextStart =>
    have step := reads.text.begin (by simp [guard.2])
    simpa [effect,push,textLane,textEvent] using step
  | TextDelta delta =>
    have step := reads.text.delta guard delta
    have opened : cycle.text_open = true := guard
    simpa [effect,push,textLane,textEvent,opened] using step
  | TextEnd =>
    have step := reads.text.finish guard
    simpa [effect,push,textLane,textEvent] using step
  | _ =>
    rw [textLane,filterMap_skip rfl]
    exact reads.text

theorem Reads.step_thinking (guard : Guard cycle event) (now : Nat) :
    LaneRead (thinkingLane (events ++ [event])) ((effect cycle now event).thinking_started ≠ none)
      (effect cycle now event).reasoning := by
  cases event with
  | ThinkingStart =>
    have step := reads.thinking.begin (by simp [guard.2])
    simpa [effect,push,thinkingLane,thinkingEvent] using step
  | ThinkingDelta delta =>
    have step := reads.thinking.delta guard delta
    have opened : cycle.thinking_started ≠ none := guard
    simpa [effect,push,thinkingLane,thinkingEvent,opened] using step
  | ThinkingEnd =>
    have step := reads.thinking.finish guard
    simpa [effect,push,thinkingLane,thinkingEvent] using step
  | _ =>
    rw [thinkingLane,filterMap_skip rfl]
    exact reads.thinking

theorem Reads.step_tools (guard : Guard cycle event) (now : Nat) :
    ToolsRead (effect cycle now event).tools (effect cycle now event).call_ids (effect cycle now event).model_call_id
      (events ++ [event]) := by
  have read := reads.tools
  cases event with
  | Start id =>
    rw [show cycle.model_call_id = none from guard] at read
    exact (read.named_later _).other (fun _ => rfl) rfl
  | ToolCallStart index call_id name =>
    obtain ⟨started,unstarted,fresh⟩ := guard
    obtain ⟨id,isStarted⟩ := Option.ne_none_iff_exists'.mp started
    rw [isStarted] at read
    simpa [effect,push,isStarted] using read.begin unstarted fresh
  | ToolCallArgumentsDelta index delta =>
    refine read.change (fun other => rfl) rfl guard (fun tool => rfl) (fun tool => rfl) rfl ?_ ?_ ?_
    · intro tool notEnded
      simp [pushArguments,notEnded]
    · intro tool
      simp [pushArguments,Lanes.deltas]
    · intro tool notEnded ended
      have ended : tool.ended = true := ended
      simp [notEnded] at ended
  | ToolCallEnd index =>
    show ToolsRead (update cycle.tools index endTool) cycle.call_ids cycle.model_call_id (events ++ [.ToolCallEnd index])
    refine read.change (fun other => rfl) rfl guard ?_ ?_ rfl ?_ ?_ ?_
    · intro tool
      simp only [endTool_eq,nameOf]
    · intro tool
      rw [endTool_eq]
    · intro tool _
      simp only [endTool_eq,if_true]
    · intro tool
      rw [endTool_eq]
      simp [Lanes.deltas]
    · exact fun tool _ _ => parsed_endTool tool
  | _ => exact read.other (fun _ => rfl) rfl

theorem Reads.step_marks (guard : Guard cycle event) (now : Nat) :
    (events ++ [event]).filterMap startId = (effect cycle now event).model_call_id.toList ∧
    (events ++ [event]).filterMap usageOf = (effect cycle now event).usage.toList ∧
    (events ++ [event]).filterMap replayOf = (effect cycle now event).replay_state.toList := by
  have start := reads.start
  have usage := reads.usage
  have replay := reads.replay
  cases event with
  | Start id =>
    rw [show cycle.model_call_id = none from guard] at start
    rw [filterMap_take (show startId (.Start id) = some id from rfl),start,filterMap_skip rfl,filterMap_skip rfl]
    exact ⟨rfl,usage,replay⟩
  | Usage value =>
    rw [show cycle.usage = none from guard] at usage
    rw [filterMap_take (show usageOf (.Usage value) = some value from rfl),usage,filterMap_skip rfl,filterMap_skip rfl]
    exact ⟨start,rfl,replay⟩
  | ProviderReplayState state =>
    rw [show cycle.replay_state = none from guard] at replay
    rw [filterMap_take (show replayOf (.ProviderReplayState state) = some state from rfl),replay,filterMap_skip rfl,filterMap_skip rfl]
    exact ⟨start,usage,rfl⟩
  | _ =>
    rw [filterMap_skip rfl,filterMap_skip rfl,filterMap_skip rfl]
    exact ⟨start,usage,replay⟩

theorem Reads.step_sent (guard : Guard cycle event) (now : Nat) (model_call_id : String)
    (isId : ∀ id, (effect cycle now event).model_call_id = some id → id = model_call_id) :
    (effect cycle now event).sent.map timeless = (events ++ [event]).filterMap (forwarded model_call_id) := by
  cases event with
  | Start id =>
    rw [filterMap_skip rfl]
    refine reads.sent model_call_id fun other isOther => ?_
    rw [show cycle.model_call_id = none from guard] at isOther
    cases isOther
  | ProviderReplayState _ | Done _ =>
    rw [filterMap_skip rfl]
    exact reads.sent model_call_id isId
  | ToolCallStart index call_id name =>
    obtain ⟨id,isStarted⟩ := Option.ne_none_iff_exists'.mp guard.1
    obtain rfl := isId id isStarted
    rw [List.filterMap_append,← reads.sent id isId]
    simp [effect,push,isStarted,timeless,forwarded]
  | _ =>
    rw [List.filterMap_append,← reads.sent model_call_id isId]
    simp [effect,push,timeless,forwarded]

theorem Reads.step (guard : Guard cycle event) (now : Nat) : Reads (effect cycle now event) (events ++ [event]) where
  room := by
    cases event <;> exact reads.room
  start := (reads.step_marks guard now).1
  started := reads.step_started guard
  text := reads.step_text guard now
  thinking := reads.step_thinking guard now
  tools := reads.step_tools guard now
  usage := (reads.step_marks guard now).2.1
  replay := (reads.step_marks guard now).2.2
  sent := reads.step_sent guard now

end

theorem reads_nothing : Reads {} [] := by
  refine ⟨rfl,rfl,by simp,⟨⟨.Unstarted,rfl,by simp⟩,rfl⟩,⟨⟨.Unstarted,rfl,by simp⟩,rfl⟩,?_,rfl,rfl,fun _ _ => rfl⟩
  exact ⟨fun _ => rfl,.nil,.nil,.nil,.nil,by simp,by simp,by simp⟩

variable {result : ModelCycleResult}

variable {reason : FinishReason}

variable {items : List (ModelEvent × Nat)}

def nextEvent (item : ModelEvent × Nat) : Next := .Event item.1 item.2

theorem effect_finish (now : Nat) (notDone : doneReason event = none) : (effect cycle now event).finish = cycle.finish := by
  cases event with
  | Done reason => cases notDone
  | _ => rfl

theorem consume_guarded (reads : Reads cycle events) (going : cycle.finish = none) (guard : Guard cycle event) (now : Nat)
    (rest : List Next) : consume cycle (.Event event now :: rest) = consume (effect cycle now event) rest := by
  simp [consume,going,advance_guarded reads.room now guard]
/-- The stream was read to its end: it was accepted, or failed for its length. -/
def Through : CycleEnd → Prop
  | .ok _ => True
  | .error failure => failure.failure = .Provider "model stopped before completing the response"

theorem consume_refused (refused : ¬ Guard cycle event) (now : Nat) (rest : List Next) :
    ¬ Through (consume cycle (.Event event now :: rest)).1 := by
  obtain ⟨cycle',fault,isRefused⟩ := advance_refused now refused
  simp only [consume]
  split_ifs
  · simp [Through,failure]
  · rw [isRefused]
    cases fault <;> simp [Through,failure]

/-- What was read when the stream ended, and how it was finished. -/
structure Finished (events : List ModelEvent) (ending : CycleEnd) (sent : List RunEvent) (cycle : Cycle)
    (body : List ModelEvent) (reason : FinishReason) : Prop where
  isEvents : events = body ++ [.Done reason]
  noDone : body.filterMap doneReason = []
  reads : Reads cycle body
  guard : Guard cycle (.Done reason)
  finish : finishCycle { cycle with finish := some reason } = ending
  sent : sent = cycle.sent

variable {sent : List RunEvent}

theorem consume_finished {ending : CycleEnd} (through : Through ending) :
    ∀ {cycle : Cycle} {before : List ModelEvent}, Reads cycle before → cycle.finish = none →
    before.filterMap doneReason = [] → consume cycle (items.map nextEvent) = (ending,sent) →
    ∃ cycle' body reason, Finished (before ++ items.map (·.1)) ending sent cycle' body reason := by
  induction items with
  | nil =>
    intro cycle before _ going _ done
    obtain ⟨rfl,_⟩ := Prod.mk.inj done
    simp [finishCycle,going,Through,failure] at through
  | cons item rest ih =>
    intro cycle before reads going noDone done
    obtain ⟨event,now⟩ := item
    rw [List.map_cons,show nextEvent (event,now) = .Event event now from rfl] at done
    by_cases guard : Guard cycle event
    · rw [consume_guarded reads going guard] at done
      cases isDone : doneReason event with
      | none =>
        have step := ih (reads.step guard now) (by rw [effect_finish now isDone,going])
          (by rw [filterMap_skip isDone,noDone]) done
        simpa using step
      | some reason =>
        obtain rfl : event = .Done reason := by
          cases event <;> simp [doneReason] at isDone
          rw [isDone]
        -- Nothing is taken after the end.
        cases rest with
        | nil =>
          obtain ⟨isEnding,isSent⟩ := Prod.mk.inj done
          exact ⟨cycle,before,reason,rfl,noDone,reads,guard,isEnding,isSent.symm⟩
        | cons next rest =>
          have isEnding : (consume (effect cycle now (.Done reason)) ((next :: rest).map nextEvent)).1 = ending := by rw [done]
          rw [← isEnding] at through
          simp [nextEvent,consume,effect,Through,failure] at through
    · have refused := consume_refused guard now (rest.map nextEvent)
      rw [done] at refused
      exact absurd through refused

theorem finishCycle_disagree (length : reason ≠ .Length)
    (disagree : ¬ (reason = .ToolUse ↔ cycle.tools ≠ [])) : finishCycle { cycle with finish := some reason } =
      .error (failure { cycle with finish := some reason } (.Protocol "finish reason and tool calls disagree")) := by
  have different : (decide (reason = .ToolUse) != !(cycle.tools.map (·.call)).isEmpty) = true := by
    cases tools : cycle.tools with
    | nil =>
      have isUse : reason = .ToolUse := by
        by_contra notUse
        exact disagree (by simp [tools,notUse])
      simp [isUse]
    | cons tool rest =>
      have notUse : reason ≠ .ToolUse := fun isUse => disagree (by simp [tools,isUse])
      simp [notUse]
  simp only [finishCycle]
  rw [if_neg length,if_pos different]

theorem finishCycle_ok :
    finishCycle { cycle with finish := some reason } = .ok result ↔ reason ≠ .Length ∧ (reason = .ToolUse ↔ cycle.tools ≠ []) ∧
      ∃ model_call_id, cycle.model_call_id = some model_call_id ∧
        result = ⟨model_call_id,cycle.text,cycle.reasoning,cycle.replay_state,cycle.tools.map (·.call),cycle.usage,reason⟩ := by
  simp only [finishCycle]
  by_cases length : reason = .Length
  · simp [length]
  by_cases agree : reason = .ToolUse ↔ cycle.tools ≠ []
  · have same : (decide (reason = .ToolUse) != !(cycle.tools.map (·.call)).isEmpty) = false := by
      cases tools : cycle.tools with
      | nil => simpa [tools] using agree
      | cons tool rest => simpa [tools] using agree
    rw [if_neg length,same]
    simp only [Bool.false_eq_true,if_false]
    cases cycle.model_call_id with
    | none => simp
    | some model_call_id =>
      simp only [Except.ok.injEq,Option.some.injEq]
      exact ⟨fun isResult => ⟨length,agree,model_call_id,rfl,isResult.symm⟩,fun ⟨_,_,id,isId,isResult⟩ => by rw [isResult,isId]⟩
  · have disagrees := finishCycle_disagree length agree
    simp only [finishCycle] at disagrees
    rw [disagrees]
    simp [agree]

/-! ## Well-formed streams are accepted, and no others -/

variable {call_ids : List String} {model_call_id : Option String}

theorem WellFormed.last {later : List ModelEvent}
    (formed : WellFormed (events ++ .Done reason :: later)) : later = [] ∧ reason ≠ .Length ∧
      (reason = .ToolUse ↔ events.filterMap toolStart ≠ []) := by
  obtain ⟨body,last,split,noDone,notLength,agrees⟩ := formed.done
  cases later using List.reverseRecOn with
  | nil =>
    obtain ⟨rfl,isLast⟩ := List.append_inj' split rfl
    obtain rfl : reason = last := by simpa using isLast
    refine ⟨rfl,notLength,?_⟩
    rwa [filterMap_skip rfl] at agrees
  | append_singleton later final =>
    rw [← List.cons_append,← List.append_assoc] at split
    obtain ⟨isBody,_⟩ := List.append_inj' split rfl
    rw [← isBody,List.filterMap_append,List.filterMap_cons_some (show doneReason (.Done reason) = some reason from rfl)] at noDone
    simp at noDone

theorem LaneRead.complete {lane : List (Lanes.Event String)} {isOpen : Prop} {joined : String}
    (read : LaneRead lane isOpen joined) : Lanes.Blocks lane ↔ ¬ isOpen := by
  obtain ⟨state,isState,opened⟩ := read.state
  rw [Lanes.blocks_iff,isState,← opened]
  simp
theorem ToolsRead.complete (read : ToolsRead tools call_ids model_call_id events) :
    (∀ index, Lanes.OneBlock (toolLane index events)) ↔ ∀ tool ∈ tools, tool.ended = true := by
  simp only [Lanes.oneBlock_iff,read.state]
  constructor
  · intro closed tool member
    obtain ⟨last,isLast,notOpen⟩ := closed tool.call.index
    rw [Option.some.injEq,toolState,get_mem read.ordered member] at isLast
    by_contra running
    exact notOpen (by simpa [running] using isLast.symm)
  · intro ended index
    refine ⟨_,rfl,fun running => ?_⟩
    obtain ⟨tool,found,notEnded⟩ := toolState_open.mp running
    simp [ended tool (get_index found).1] at notEnded

theorem Reads.guarded (reads : Reads cycle events) (later : List ModelEvent) (formed : WellFormed (events ++ event :: later)) :
    Guard cycle event := by
  have started : isContent event = true ∨ (doneReason event).isSome → cycle.model_call_id ≠ none := by
    intro late unstarted
    have before := formed.started events event later rfl late
    rw [reads.start,unstarted] at before
    exact before rfl
  have lane (index : Nat) : ∃ last, Lanes.run false (toolLane index (events ++ event :: later)) = some last := by
    obtain ⟨last,isLast,_⟩ := (Lanes.oneBlock_iff _).mp (formed.tool index)
    exact ⟨last,isLast⟩
  cases event with
  | Start id =>
    have once := formed.start
    rw [List.filterMap_append,reads.start,List.filterMap_cons_some (show startId (.Start id) = some id from rfl)] at once
    cases isStarted : cycle.model_call_id with
    | none => exact isStarted
    | some other => simp [isStarted] at once
  | TextStart =>
    have blocks := formed.text
    simp only [textLane,List.filterMap_append,List.filterMap_cons,textEvent] at blocks
    exact ⟨started (.inl rfl),by simpa using (reads.text.next blocks).mp rfl⟩
  | TextDelta delta | TextEnd =>
    have blocks := formed.text
    simp only [textLane,List.filterMap_append,List.filterMap_cons,textEvent] at blocks
    by_contra closed
    exact nomatch (reads.text.next blocks).mpr closed
  | ThinkingStart =>
    have blocks := formed.thinking
    simp only [thinkingLane,List.filterMap_append,List.filterMap_cons,thinkingEvent] at blocks
    exact ⟨started (.inl rfl),by simpa using (reads.thinking.next blocks).mp rfl⟩
  | ThinkingDelta delta | ThinkingEnd =>
    have blocks := formed.thinking
    simp only [thinkingLane,List.filterMap_append,List.filterMap_cons,thinkingEvent] at blocks
    by_contra closed
    exact nomatch (reads.thinking.next blocks).mpr closed
  | ToolCallStart index call_id name =>
    refine ⟨started (.inl rfl),?_,?_⟩
    · obtain ⟨last,isLast⟩ := lane index
      simp only [toolLane,List.filterMap_append,List.filterMap_cons,toolEvent,if_true] at isLast
      obtain ⟨state,fits⟩ := Lanes.run_next isLast (reads.tools.state index)
      cases isState : toolState cycle.tools index <;> simp [isState,Lanes.next] at fits ⊢
    · have distinct := formed.call_ids
      rw [List.filterMap_append,List.map_append] at distinct
      intro used
      have earlier := reads.tools.ids.mem_iff.mp used
      refine List.disjoint_of_nodup_append distinct earlier ?_
      rw [List.filterMap_cons_some (show toolStart (.ToolCallStart index call_id name) = some (index,call_id,name) from rfl)]
      exact List.mem_cons_self
  | ToolCallArgumentsDelta index delta | ToolCallEnd index =>
    obtain ⟨last,isLast⟩ := lane index
    simp only [toolLane,List.filterMap_append,List.filterMap_cons,toolEvent,if_true] at isLast
    obtain ⟨state,fits⟩ := Lanes.run_next isLast (reads.tools.state index)
    simp only [Guard]
    cases isState : toolState cycle.tools index <;> simp [isState,Lanes.next] at fits ⊢
  | ProviderReplayState state =>
    have once := formed.replay
    rw [List.filterMap_append,reads.replay,
      List.filterMap_cons_some (show replayOf (.ProviderReplayState state) = some state from rfl)] at once
    cases isSet : cycle.replay_state with
    | none => exact isSet
    | some other => simp [isSet] at once
  | Usage usage =>
    have once := formed.usage
    rw [List.filterMap_append,reads.usage,List.filterMap_cons_some (show usageOf (.Usage usage) = some usage from rfl)] at once
    cases isSet : cycle.usage with
    | none => exact isSet
    | some other => simp [isSet] at once
  | Done reason =>
    obtain ⟨rfl,_⟩ := formed.last
    have text := formed.text
    have thinking := formed.thinking
    rw [textLane,filterMap_skip rfl,reads.text.complete] at text
    rw [thinkingLane,filterMap_skip rfl,reads.thinking.complete] at thinking
    refine ⟨started (.inr rfl),by simpa using text,by simpa using thinking,reads.tools.complete.mp ?_⟩
    intro index
    have block := formed.tool index
    rwa [toolLane,filterMap_skip rfl] at block

structure Shape (body : List ModelEvent) : Prop where
  start : (body.filterMap startId).length = 1
  started : ∀ before event later, body = before ++ event :: later → isContent event = true → before.filterMap startId ≠ []
  text : Lanes.Blocks (textLane body)
  thinking : Lanes.Blocks (thinkingLane body)
  tool : ∀ index, Lanes.OneBlock (toolLane index body)
  call_ids : ((body.filterMap toolStart).map (·.2.1)).Nodup
  usage : (body.filterMap usageOf).length ≤ 1
  replay : (body.filterMap replayOf).length ≤ 1
  noDone : body.filterMap doneReason = []

variable {body : List ModelEvent}

theorem formed_iff_shape : WellFormed (body ++ [.Done reason]) ↔
    Shape body ∧ reason ≠ .Length ∧ (reason = .ToolUse ↔ body.filterMap toolStart ≠ []) := by
  constructor
  · intro formed
    obtain ⟨_,notLength,agrees⟩ := formed.last
    obtain ⟨start,started,text,thinking,tool,call_ids,usage,replay,other,last,split,noDone,_⟩ := formed
    obtain ⟨rfl,_⟩ := List.append_inj' split rfl
    rw [textLane,filterMap_skip rfl] at text
    rw [thinkingLane,filterMap_skip rfl] at thinking
    rw [filterMap_skip rfl] at start call_ids usage replay
    refine ⟨⟨start,?_,text,thinking,?_,call_ids,usage,replay,noDone⟩,notLength,agrees⟩
    · intro before event later split content
      exact started before event (later ++ [.Done reason]) (by rw [split]; simp) (.inl content)
    · intro index
      have block := tool index
      rwa [toolLane,filterMap_skip rfl] at block
  · rintro ⟨shape,notLength,agrees⟩
    refine ⟨?_,?_,?_,?_,?_,?_,?_,?_,body,reason,rfl,shape.noDone,notLength,?_⟩
    · rw [filterMap_skip rfl]
      exact shape.start
    · intro before event later split late
      cases later using List.reverseRecOn with
      | nil =>
        obtain ⟨rfl,_⟩ := List.append_inj' split rfl
        exact List.ne_nil_of_length_pos (by rw [shape.start]; decide)
      | append_singleton later last =>
        rw [← List.cons_append,← List.append_assoc] at split
        obtain ⟨isBody,_⟩ := List.append_inj' split rfl
        rcases late with content | done
        · exact shape.started before event later isBody content
        · obtain ⟨other,isDone⟩ := Option.isSome_iff_exists.mp done
          have noDone := shape.noDone
          rw [isBody,List.filterMap_append,List.filterMap_cons_some isDone] at noDone
          simp at noDone
    · rw [textLane,filterMap_skip rfl]
      exact shape.text
    · rw [thinkingLane,filterMap_skip rfl]
      exact shape.thinking
    · intro index
      rw [toolLane,filterMap_skip rfl]
      exact shape.tool index
    · rw [filterMap_skip rfl]
      exact shape.call_ids
    · rw [filterMap_skip rfl]
      exact shape.usage
    · rw [filterMap_skip rfl]
      exact shape.replay
    · rw [filterMap_skip rfl]
      exact agrees

theorem no_tools (read : ToolsRead tools call_ids model_call_id events) : tools = [] ↔ events.filterMap toolStart = [] := by
  have same := read.starts.length_eq
  simp only [List.length_map] at same
  rw [← List.length_eq_zero_iff,same,List.length_eq_zero_iff]

theorem consume_formed : ∀ {cycle : Cycle} {before : List ModelEvent}, Reads cycle before → cycle.finish = none →
    before.filterMap doneReason = [] → WellFormed (before ++ items.map (·.1)) →
    ∃ result sent, consume cycle (items.map nextEvent) = (.ok result,sent) := by
  induction items with
  | nil =>
    intro cycle before _ _ noDone formed
    obtain ⟨body,reason,isEvents,_⟩ := formed.done
    rw [List.map_nil,List.append_nil] at isEvents
    simp [isEvents,doneReason] at noDone
  | cons item rest ih =>
    intro cycle before reads going noDone formed
    obtain ⟨event,now⟩ := item
    rw [List.map_cons] at formed
    have guard := reads.guarded (rest.map (·.1)) formed
    rw [List.map_cons,show nextEvent (event,now) = .Event event now from rfl,consume_guarded reads going guard]
    cases isDone : doneReason event with
    | none =>
      refine ih (reads.step guard now) (by rw [effect_finish now isDone,going]) (by rw [filterMap_skip isDone,noDone]) ?_
      simpa using formed
    | some reason =>
      obtain rfl : event = .Done reason := by
        cases event <;> simp [doneReason] at isDone
        rw [isDone]
      obtain ⟨nothing,notLength,agrees⟩ := formed.last
      obtain rfl : rest = [] := List.map_eq_nil_iff.mp nothing
      obtain ⟨model_call_id,isStarted⟩ := Option.ne_none_iff_exists'.mp guard.1
      refine ⟨_,cycle.sent,Prod.ext (finishCycle_ok.mpr ⟨notLength,?_,model_call_id,isStarted,rfl⟩) rfl⟩
      rw [agrees,Ne,Ne,no_tools reads.tools]

theorem mem_starts {call_id name : String} :
    (index,call_id,name) ∈ events.filterMap toolStart ↔ .ToolCallStart index call_id name ∈ events := by
  rw [List.mem_filterMap]
  constructor
  · rintro ⟨event,member,isStart⟩
    cases event <;> simp [toolStart] at isStart
    obtain ⟨rfl,rfl,rfl⟩ := isStart
    exact member
  · exact fun member => ⟨_,member,rfl⟩

theorem ToolsRead.started (read : ToolsRead tools call_ids model_call_id events) {tool : OpenTool} (member : tool ∈ tools) :
    ∃ name, .ToolCallStart tool.call.index tool.call.call_id name ∈ events ∧ tool.call.name = normalize_tool_name name := by
  obtain ⟨⟨index,call_id,name⟩,isStart,isName⟩ := List.mem_map.mp (read.starts.mem_iff.mp (List.mem_map_of_mem member))
  obtain ⟨isIndex,isId,isNormal⟩ : index = tool.call.index ∧ call_id = tool.call.call_id ∧
      normalize_tool_name name = tool.call.name := by simpa [startOf,nameOf] using isName
  refine ⟨name,?_,isNormal.symm⟩
  rw [← isIndex,← isId]
  exact mem_starts.mp isStart
theorem ToolsRead.tool_of_start (read : ToolsRead tools call_ids model_call_id events) {call_id name : String}
    (member : .ToolCallStart index call_id name ∈ events) :
    ∃ tool ∈ tools, tool.call.index = index ∧ tool.call.call_id = call_id := by
  have isStart : startOf (index,call_id,name) ∈ (events.filterMap toolStart).map startOf :=
    List.mem_map_of_mem (mem_starts.mpr member)
  obtain ⟨tool,isTool,isName⟩ := List.mem_map.mp (read.starts.mem_iff.mpr isStart)
  refine ⟨tool,isTool,?_⟩
  have isName : tool.call.index = index ∧ tool.call.call_id = call_id ∧ tool.call.name = normalize_tool_name name := by
    simpa [startOf,nameOf] using isName
  exact ⟨isName.1,isName.2.1⟩

theorem Finished.shape {ending : CycleEnd} (finished : Finished events ending sent cycle body reason) : Shape body := by
  obtain ⟨rfl,noDone,reads,guard,_,_⟩ := finished
  obtain ⟨model_call_id,isStarted⟩ := Option.ne_none_iff_exists'.mp guard.1
  refine ⟨?_,?_,?_,?_,?_,?_,?_,?_,noDone⟩
  · rw [reads.start,isStarted]
    rfl
  · exact fun before event later split content => reads.started before event later split (.inl content)
  · rw [reads.text.complete]
    simp [guard.2.1]
  · rw [reads.thinking.complete]
    simp [guard.2.2.1]
  · exact reads.tools.complete.mpr guard.2.2.2
  · exact reads.tools.ids.nodup_iff.mp reads.tools.distinct
  · rw [reads.usage]
    cases cycle.usage <;> simp
  · rw [reads.replay]
    cases cycle.replay_state <;> simp

theorem Finished.formed
    (finished : Finished events (.ok result) sent cycle body reason) : WellFormed events ∧ Delivers events result sent := by
  have shape := finished.shape
  obtain ⟨rfl,noDone,reads,guard,finish,rfl⟩ := finished
  obtain ⟨notLength,agrees,model_call_id,isStarted,rfl⟩ := finishCycle_ok.mp finish
  have start := reads.start
  rw [isStarted] at start
  have starts := reads.tools.starts
  have ids : ((cycle.tools.map (·.call)).map (·.call_id)).Nodup := by
    have same : (cycle.tools.map nameOf).map (·.2.1) = (cycle.tools.map (·.call)).map (·.call_id) := by
      simp [nameOf,Function.comp_def]
    have names : ((body.filterMap toolStart).map startOf).map (·.2.1) = (body.filterMap toolStart).map (·.2.1) := by
      simp [startOf,Function.comp_def]
    rw [← same,(starts.map _).nodup_iff,names]
    exact shape.call_ids
  have formed : WellFormed (body ++ [.Done reason]) := by
    refine formed_iff_shape.mpr ⟨shape,notLength,?_⟩
    rw [agrees,Ne,Ne,no_tools reads.tools]
  refine ⟨formed,⟨?_,?_,?_,?_,?_,?_,?_,ids,?_,?_,?_⟩⟩
  · rw [filterMap_skip rfl,start]
    rfl
  · rw [textLane,filterMap_skip rfl]
    exact reads.text.joined
  · rw [thinkingLane,filterMap_skip rfl]
    exact reads.thinking.joined
  · rw [filterMap_skip rfl]
    exact reads.usage
  · rw [filterMap_skip rfl]
    exact reads.replay
  · rw [filterMap_take (show doneReason (.Done reason) = some reason from rfl),noDone]
    rfl
  · exact List.pairwise_map.mpr reads.tools.ordered
  · intro index call_id
    constructor
    · rintro ⟨name,member⟩
      have member : .ToolCallStart index call_id name ∈ body := by simpa using member
      obtain ⟨tool,isTool,same⟩ := reads.tools.tool_of_start member
      exact ⟨tool.call,List.mem_map_of_mem isTool,same⟩
    · rintro ⟨call,member,rfl,rfl⟩
      obtain ⟨tool,isTool,rfl⟩ := List.mem_map.mp member
      obtain ⟨name,isStart,_⟩ := reads.tools.started isTool
      exact ⟨name,List.mem_append_left _ isStart⟩
  · intro call member
    obtain ⟨tool,isTool,rfl⟩ := List.mem_map.mp member
    obtain ⟨name,isStart,isName⟩ := reads.tools.started isTool
    refine ⟨⟨name,List.mem_append_left _ isStart,isName⟩,?_,?_,reads.tools.parsed tool isTool (guard.2.2.2 tool isTool)⟩
    · exact Option.some.inj ((reads.tools.named tool isTool).trans isStarted)
    · rw [toolLane,filterMap_skip rfl]
      exact reads.tools.text tool isTool
  · rw [filterMap_skip rfl]
    exact reads.sent model_call_id fun id isId => Option.some.inj (isId.symm.trans isStarted)

theorem accepted_formed (accepted : consume_model_cycle (items.map nextEvent) none = (.ok result,sent)) :
    WellFormed (items.map (·.1)) ∧ Delivers (items.map (·.1)) result sent := by
  obtain ⟨cycle,body,reason,finished⟩ :=
    consume_finished (show Through (.ok result) from trivial) reads_nothing rfl rfl accepted
  exact finished.formed
theorem formed_accepted (formed : WellFormed (items.map (·.1))) :
    ∃ result sent, consume_model_cycle (items.map nextEvent) none = (.ok result,sent) :=
  consume_formed reads_nothing rfl rfl formed

/-- The cycle accepts the stream, or fails for its length. -/
def Accepts (events : List ModelEvent) : Prop := ∀ items : List (ModelEvent × Nat), items.map (·.1) = events →
  Through (consume_model_cycle (items.map nextEvent) none).1

/-- With an open channel and no cancellation, a stream is accepted exactly if it
    is well formed, and its content is collected and forwarded. -/
theorem cycle_accepts_well_formed (items : List (ModelEvent × Nat)) :
    ((∃ result sent, consume_model_cycle (items.map nextEvent) none = (.ok result,sent)) ↔ WellFormed (items.map (·.1))) ∧
    ∀ result sent, consume_model_cycle (items.map nextEvent) none = (.ok result,sent) → Delivers (items.map (·.1)) result sent := by
  refine ⟨⟨?_,formed_accepted⟩,fun result sent accepted => (accepted_formed accepted).2⟩
  rintro ⟨result,sent,accepted⟩
  exact (accepted_formed accepted).1

end Recogniser

section Example

local instance : ArgumentText where
  from_str text :=
    if text = "\x7b\"path\":\"x\"\x7d" then .ok (.Object [("path",.String "x")])
    else .error "EOF while parsing a value at line 1 column 0"

def reading : List (ModelEvent × Nat) :=
  [(.Usage { input_tokens := some 3 },0),(.Start "m",0),(.TextStart,1),(.ToolCallStart 1 "b" "Read",1),(.TextDelta "a",2),
    (.ToolCallStart 0 "a" "List Dir",3),(.ToolCallArgumentsDelta 1 "\x7b\"path\":",3),(.TextEnd,4),
    (.ToolCallArgumentsDelta 1 "\"x\"\x7d",4),(.ToolCallEnd 1,4),(.ToolCallEnd 0,5),(.Done .ToolUse,6)]
theorem reading_accepted : (consume_model_cycle (reading.map nextEvent) none).1 = .ok ⟨"m","a","",none,
    [⟨0,"a","m","List_Dir","",.Object [],none⟩,
      ⟨1,"b","m","Read","\x7b\"path\":\"x\"\x7d",.Object [("path",.String "x")],none⟩],
    some { input_tokens := some 3 },.ToolUse⟩ := by
  decide +kernel

theorem cycle_accepts_well_formed_reading : WellFormed (reading.map (·.1)) ∧
    Delivers (reading.map (·.1)) ⟨"m","a","",none,[⟨0,"a","m","List_Dir","",.Object [],none⟩,
      ⟨1,"b","m","Read","\x7b\"path\":\"x\"\x7d",.Object [("path",.String "x")],none⟩],some { input_tokens := some 3 },.ToolUse⟩
      (consume_model_cycle (reading.map nextEvent) none).2 := by
  have accepted : consume_model_cycle (reading.map nextEvent) none = (.ok _,_) := Prod.ext reading_accepted rfl
  have both := cycle_accepts_well_formed reading
  exact ⟨both.1.mp ⟨_,_,accepted⟩,both.2 _ _ accepted⟩

def silent : List (ModelEvent × Nat) :=
  [(.Start "m",0),(.ToolCallStart 0 "a" "Now",0),(.ToolCallEnd 0,0),(.Done .ToolUse,0)]

/-- Its empty text is no JSON, and the call has no argument error. -/
theorem silent_call_accepted : ∃ result call, (consume_model_cycle (silent.map nextEvent) none).1 = .ok result ∧
    call ∈ result.calls ∧ call.arguments_text = "" ∧ (ArgumentText.from_str call.arguments_text).toOption = none ∧
    call.arguments = .Object [] ∧ call.argument_error = none :=
  ⟨⟨"m","","",none,[⟨0,"a","m","Now","",.Object [],none⟩],none,.ToolUse⟩,⟨0,"a","m","Now","",.Object [],none⟩,
    by decide +kernel⟩

end Example

end MyCursor.ModelCycle

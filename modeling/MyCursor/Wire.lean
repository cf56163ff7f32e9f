import MyCursor.ProviderEvents
import MyCursor.CycleProgress

/-!
# The wire of plugins

`plugin/wire.rs` and the events of `plugin/sdk/provider.ts`: a plugin emits events
that are written as JSON by its worker and read by the server as the events of a
model cycle.
-/
namespace MyCursor.Wire
open Message Store Run ModelCycle CycleProgress
open ProviderEvents (stringOf)
open CheckpointCodec (Serde object)
set_option linter.unusedSectionVars false

/-- The numbers of JavaScript are 64-bit floats. `through` is what is read of a
    number's text after it was parsed and written by JavaScript, `text` is that
    text. Integers up to 2^53 stay as they are. -/
class JavaScript where
  through : Number → Number
  text : Number → String
  stringify : Value → String
  exact : ∀ n, n ≤ 2 ^ 53 → through (.PosInt n) = .PosInt n
  mono : ∀ m n m' n', m ≤ n → through (.PosInt m) = .PosInt m' → through (.PosInt n) = .PosInt n' → m' ≤ n'
  text_nat : ∀ n, through (.PosInt n) = .PosInt n → text (.PosInt n) = toString n

/-- `JSON.parse`. A number is kept as it is written; it is rounded where it is read. -/
class JsonParse where
  parse : String → Except String Value

structure ModelUsage where
  inputTokens : Option Number := none
  outputTokens : Option Number := none
  totalTokens : Option Number := none
  cacheReadTokens : Option Number := none
  cacheWriteTokens : Option Number := none
  reasoningTokens : Option Number := none
deriving DecidableEq

inductive SdkEvent where
  | TextStart
  | TextDelta (text : String)
  | TextEnd
  | ThinkingStart
  | ThinkingDelta (text : String)
  | ThinkingEnd
  | ToolCallStart (index : Number) (callId name : String)
  | ToolCallArgumentsDelta (index : Number) (delta : String)
  | ToolCallEnd (index : Number)
  | ReplayState (providerKind : String) (value : Value)
  | Usage (usage : ModelUsage)
  | Done (reason : FinishReason)
deriving DecidableEq

section Wire
variable [Serde]

def reasonText : FinishReason → String
  | .Stop => "stop"
  | .Length => "length"
  | .ToolUse => "tool-use"
def nullable (number : Option Number) : Value := number.elim .Null .Number

def SdkEvent.toValue : SdkEvent → Value
  | .TextStart => object [("type",.String "text-start")]
  | .TextDelta text => object [("type",.String "text-delta"),("text",.String text)]
  | .TextEnd => object [("type",.String "text-end")]
  | .ThinkingStart => object [("type",.String "thinking-start")]
  | .ThinkingDelta text => object [("type",.String "thinking-delta"),("text",.String text)]
  | .ThinkingEnd => object [("type",.String "thinking-end")]
  | .ToolCallStart index callId name =>
    object [("type",.String "tool-call-start"),("index",.Number index),("callId",.String callId),("name",.String name)]
  | .ToolCallArgumentsDelta index delta =>
    object [("type",.String "tool-call-arguments-delta"),("index",.Number index),("delta",.String delta)]
  | .ToolCallEnd index => object [("type",.String "tool-call-end"),("index",.Number index)]
  | .ReplayState providerKind value =>
    object [("type",.String "replay-state"),("providerKind",.String providerKind),("value",value)]
  | .Usage usage => object [("type",.String "usage"),("usage",object
      [("inputTokens",nullable usage.inputTokens),("outputTokens",nullable usage.outputTokens),
        ("totalTokens",nullable usage.totalTokens),("cacheReadTokens",nullable usage.cacheReadTokens),
        ("cacheWriteTokens",nullable usage.cacheWriteTokens),("reasoningTokens",nullable usage.reasoningTokens)])]
  | .Done reason => object [("type",.String "done"),("reason",.String (reasonText reason))]

def required_str (value : Value) (key : String) : Except Error String :=
  match stringOf value key with
  | some text => .ok text
  | none => .error (.Protocol s!"plugin model event requires string '{key}'")
def required_index (value : Value) : Except Error Nat :=
  match (Json.get value "index").bind Json.as_u64 with
  | some index => .ok index
  | none => .error (.Protocol "plugin model event requires index")

def model_event (value : Value) : Except Error ModelEvent :=
  match stringOf value "type" with
  | none => .error (.Protocol "plugin model event requires type")
  | some kind =>
    if kind = "text-start" then .ok .TextStart
    else if kind = "text-delta" then (required_str value "text").map .TextDelta
    else if kind = "text-end" then .ok .TextEnd
    else if kind = "thinking-start" then .ok .ThinkingStart
    else if kind = "thinking-delta" then (required_str value "text").map .ThinkingDelta
    else if kind = "thinking-end" then .ok .ThinkingEnd
    else if kind = "tool-call-start" then do
      let index ← required_index value
      let call_id ← required_str value "callId"
      let name ← required_str value "name"
      .ok (.ToolCallStart index call_id name)
    else if kind = "tool-call-arguments-delta" then do
      let index ← required_index value
      let delta ← required_str value "delta"
      .ok (.ToolCallArgumentsDelta index delta)
    else if kind = "tool-call-end" then (required_index value).map .ToolCallEnd
    else if kind = "replay-state" then do
      let provider_kind ← required_str value "providerKind"
      .ok (.ProviderReplayState ⟨provider_kind,(Json.get value "value").getD .Null⟩)
    else if kind = "usage" then
      match Json.get value "usage" with
      | none => .error (.Protocol "plugin usage event requires usage")
      | some usage =>
        let tokens (name : String) : Option Nat := (Json.get usage name).bind Json.as_u64
        .ok (.Usage
          { input_tokens := tokens "inputTokens"
            context_input_tokens := tokens "inputTokens"
            output_tokens := tokens "outputTokens"
            total_tokens := tokens "totalTokens"
            cache_read_tokens := tokens "cacheReadTokens"
            cache_write_tokens := tokens "cacheWriteTokens"
            reasoning_tokens := tokens "reasoningTokens" })
    else if kind = "done" then do
      let reason ← required_str value "reason"
      if reason = "stop" then .ok (.Done .Stop)
      else if reason = "length" then .ok (.Done .Length)
      else if reason = "tool-use" then .ok (.Done .ToolUse)
      else .error (.Protocol s!"unknown plugin finish reason: {reason}")
    else .error (.Protocol s!"unknown plugin model event: {kind}")

/-- The events are read until one cannot be; what was thrown ends the stream. -/
def readEvents (events : List SdkEvent) (thrown : Option String) : List ModelEvent × Option Error :=
  match events with
  | [] => ([],thrown.map .Provider)
  | event :: rest =>
    match model_event event.toValue with
    | .error error => ([],some error)
    | .ok event =>
      let (more,ending) := readEvents rest thrown
      (event :: more,ending)
/-- `PluginRegistry::stream_model` from the start of the worker's stream on. -/
def stream_model (call_id : String) (output : List SdkEvent × Option String) : List ModelEvent × Option Error :=
  let (events,ending) := readEvents output.1 output.2
  (.Start call_id :: events,ending)

def asNat : Number → Option Nat
  | .PosInt value => some value
  | _ => none
@[reducible] def JavaScript.plain (stringify : Value → String) : JavaScript where
  through number := number
  text number := (asNat number).elim "NaN" toString
  stringify := stringify
  exact _ _ := rfl
  mono _ _ _ _ less first second := by
    rw [← Number.PosInt.inj first,← Number.PosInt.inj second]
    exact less
  text_nat _ _ := rfl
def readUsage (usage : ModelUsage) : Usage :=
  { input_tokens := usage.inputTokens.bind asNat
    context_input_tokens := usage.inputTokens.bind asNat
    output_tokens := usage.outputTokens.bind asNat
    total_tokens := usage.totalTokens.bind asNat
    cache_read_tokens := usage.cacheReadTokens.bind asNat
    cache_write_tokens := usage.cacheWriteTokens.bind asNat
    reasoning_tokens := usage.reasoningTokens.bind asNat }
def SdkEvent.read : SdkEvent → Option ModelEvent
  | .TextStart => some .TextStart
  | .TextDelta text => some (.TextDelta text)
  | .TextEnd => some .TextEnd
  | .ThinkingStart => some .ThinkingStart
  | .ThinkingDelta text => some (.ThinkingDelta text)
  | .ThinkingEnd => some .ThinkingEnd
  | .ToolCallStart index callId name => (asNat index).map fun index => .ToolCallStart index callId name
  | .ToolCallArgumentsDelta index delta => (asNat index).map fun index => .ToolCallArgumentsDelta index delta
  | .ToolCallEnd index => (asNat index).map .ToolCallEnd
  | .ReplayState providerKind value => some (.ProviderReplayState ⟨providerKind,value⟩)
  | .Usage usage => some (.Usage (readUsage usage))
  | .Done reason => some (.Done reason)

theorem as_u64_number (index : Number) : Json.as_u64 (.Number index) = asNat index := by
  cases index <;> rfl
theorem nullable_u64 (number : Option Number) : Json.as_u64 (nullable number) = number.bind asNat := by
  cases number with
  | none => rfl
  | some number => exact as_u64_number number
theorem model_event_read (event : SdkEvent) : model_event event.toValue =
      event.read.elim (.error (.Protocol "plugin model event requires index")) .ok := by
  cases event with
  | ToolCallStart index callId name | ToolCallArgumentsDelta index delta | ToolCallEnd index =>
    cases isIndex : asNat index <;>
      simp [SdkEvent.toValue,model_event,stringOf,Json.as_str,required_index,required_str,as_u64_number,isIndex,
        SdkEvent.read,bind,Except.bind,Except.map]
  | Usage usage =>
    simp [SdkEvent.toValue,model_event,stringOf,Json.as_str,SdkEvent.read,readUsage,nullable_u64]
  | Done reason =>
    cases reason <;>
      simp [SdkEvent.toValue,model_event,stringOf,Json.as_str,SdkEvent.read,required_str,reasonText,bind,Except.bind]
  | _ => simp [SdkEvent.toValue,model_event,stringOf,Json.as_str,SdkEvent.read,required_str,Except.map,bind,Except.bind]

theorem readEvents_all (thrown : Option String) : ∀ {events : List SdkEvent} {read : List ModelEvent},
    events.map SdkEvent.read = read.map some → readEvents events thrown = (read,thrown.map .Provider) := by
  intro events
  induction events with
  | nil =>
    intro read reads
    obtain rfl : [] = read := by simpa using reads
    rfl
  | cons event rest ih =>
    intro read reads
    cases read with
    | nil => cases reads
    | cons first more =>
      obtain ⟨isFirst,others⟩ := List.cons.inj reads
      have isFirst : event.read = some first := isFirst
      rw [readEvents,model_event_read,isFirst]
      simp only [Option.elim_some,ih others]
theorem readEvents_ok {thrown : Option String} : ∀ {events : List SdkEvent}, (readEvents events thrown).2 = none →
    thrown = none ∧ ∀ event ∈ events, event.read ≠ none := by
  intro events
  induction events with
  | nil => exact fun ended => ⟨Option.map_eq_none_iff.mp ended,fun event member => by cases member⟩
  | cons event rest ih =>
    intro ended
    rw [readEvents,model_event_read] at ended
    cases isRead : event.read with
    | none =>
      rw [isRead] at ended
      cases ended
    | some first =>
      rw [isRead] at ended
      obtain ⟨unthrown,others⟩ := ih ended
      refine ⟨unthrown,fun other member => ?_⟩
      rcases List.mem_cons.mp member with rfl | later
      · simp [isRead]
      · exact others other later

end Wire

section Outcomes
variable [ArgumentText]

def Timed (output : List ModelEvent × Option Error) (stream : List Next) : Prop :=
  ∃ items : List (ModelEvent × Nat), items.map (·.1) = output.1 ∧ stream = items.map nextEvent ++ (output.2.map Next.Failed).toList
/-- Two streams have the same outcome: both fail, or both succeed with the same
    result. -/
def SameOutcome (first second : List ModelEvent × Option Error) : Prop :=
  ∀ one other, Timed first one → Timed second other → ∀ result,
    (consume_model_cycle one none).1 = .ok result ↔ (consume_model_cycle other none).1 = .ok result
def Results (output : List ModelEvent × Option Error) (result : ModelCycleResult) : Prop :=
  output.2 = none ∧ ∃ p, Leads {} output.1 p ∧ Yields p result

theorem consume_failed (items : List (ModelEvent × Nat)) (error : Error) (result : ModelCycleResult) : ∀ cycle : Cycle,
    (consume cycle (items.map nextEvent ++ [Next.Failed error])).1 ≠ .ok result := by
  induction items with
  | nil => exact fun cycle same => by cases same
  | cons item rest ih =>
    intro cycle
    rw [List.map_cons,List.cons_append,nextEvent,consume]
    split_ifs
    · intro same
      cases same
    · rcases advance cycle item.2 item.1 with ⟨next,_ | ⟨⟨message⟩ | _⟩⟩
      · exact ih next
      · intro same
        cases same
      · intro same
        cases same
theorem Timed.results {output : List ModelEvent × Option Error} {stream : List Next} (timed : Timed output stream)
    (result : ModelCycleResult) : (consume_model_cycle stream none).1 = .ok result ↔ Results output result := by
  obtain ⟨events,ending⟩ := output
  obtain ⟨items,rfl,rfl⟩ := timed
  cases ending with
  | none =>
    rw [Option.map_none,Option.toList_none,List.append_nil,consume_ok_iff]
    exact ⟨fun yields => ⟨rfl,yields⟩,fun results => results.2⟩
  | some error =>
    refine iff_of_false (consume_failed items error result _) ?_
    rintro ⟨ended,_⟩
    cases ended
theorem sameOutcome_iff {first second : List ModelEvent × Option Error} :
    SameOutcome first second ↔ ∀ result, Results first result ↔ Results second result := by
  have timed : ∀ output : List ModelEvent × Option Error, ∃ stream, Timed output stream :=
    fun output => ⟨_,output.1.map fun event => (event,0),by simp [Function.comp_def],rfl⟩
  constructor
  · intro same result
    obtain ⟨one,isOne⟩ := timed first
    obtain ⟨other,isOther⟩ := timed second
    rw [← isOne.results,← isOther.results]
    exact same one other isOne isOther result
  · intro same one other isOne isOther result
    rw [isOne.results,isOther.results]
    exact same result

end Outcomes

end MyCursor.Wire

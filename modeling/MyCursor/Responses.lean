import MyCursor.ProviderEvents
import MyCursor.CycleProgress
import MyCursor.Keyed

/-!
# The Responses adapter

`provider/openai_responses.rs`: the server-sent events of a response of the
Responses API become the events of a model cycle. Texts and arguments come as
deltas and as final values; what is missing of a final value is sent on. All
parts of the text are compared with one text that was sent so far. What a stream
means is said by its items, as they are announced.
-/
namespace MyCursor.Responses
open Message Store Run ModelCycle Text
open ProviderEvents (Source stringOf provider_event_error)
open CheckpointCodec (Serde object)

/-- The usage of a response that is incomplete is read by nobody. -/
inductive Incoming where
  | OutputTextDelta (delta : Option String)
  | OutputTextDone (text : Option String)
  | ReasoningDelta (delta : Option String)
  | ReasoningDone
  | CallAdded (index : Nat) (call_id name : Option String)
  | ReasoningItemDone (item : Value)
  | MessageItemDone (text : Option String)
  | CallDone (index : Nat) (call_id name arguments : Option String)
  | ArgumentsDelta (index : Nat) (delta : Option String)
  | ArgumentsDone (index : Nat) (arguments : Option String)
  | Completed (usage : Option Value)
  | Incomplete (usage : Option Value)
  | Other
deriving DecidableEq

def required_u64 (value : Value) (name : String) : Except Error Nat :=
  match (Json.get value name).bind Json.as_u64 with
  | some number => .ok number
  | none => .error (.Provider s!"OpenAI Responses event is missing {name}")

def responses_usage (value : Value) : Usage :=
  let tokens (path : List String) : Option Nat := (Json.pointer value path).bind Json.as_u64
  { input_tokens := tokens ["input_tokens"]
    context_input_tokens := tokens ["input_tokens"]
    output_tokens := tokens ["output_tokens"]
    total_tokens := tokens ["total_tokens"]
    cache_read_tokens := tokens ["input_tokens_details","cached_tokens"]
    cache_write_tokens := none
    reasoning_tokens := tokens ["output_tokens_details","reasoning_tokens"] }

def response_item_text (item : Value) : Option String := do
  let content ← Json.get item "content"
  let parts ← Json.as_array content
  let texts := parts.filter fun part => decide (stringOf part "type" = some "output_text")
  some (String.join (texts.filterMap fun part => stringOf part "text"))

def readAdded (value item : Value) : Except Error Incoming :=
  if stringOf item "type" = some "function_call" then do
    let index ← required_u64 value "output_index"
    .ok (.CallAdded index (stringOf item "call_id") (stringOf item "name"))
  else .ok .Other
def readItemDone (value item : Value) : Except Error Incoming :=
  match stringOf item "type" with
  | some kind =>
    if kind = "reasoning" then .ok (.ReasoningItemDone item)
    else if kind = "message" then .ok (.MessageItemDone (response_item_text item))
    else if kind = "function_call" then do
      let index ← required_u64 value "output_index"
      .ok (.CallDone index (stringOf item "call_id") (stringOf item "name") (stringOf item "arguments"))
    else .ok .Other
  | none => .ok .Other

def readEvent (event : String) (value : Value) : Except Error Incoming :=
  match provider_event_error "OpenAI Responses" value with
  | some error => .error error
  | none =>
    let kind := (stringOf value "type").getD event
    let item := (Json.get value "item").getD .Null
    let usage := Json.pointer value ["response","usage"]
    if kind = "response.output_text.delta" then .ok (.OutputTextDelta (stringOf value "delta"))
    else if kind = "response.output_text.done" then .ok (.OutputTextDone (stringOf value "text"))
    else if kind = "response.reasoning_summary_text.delta" ∨ kind = "response.reasoning_text.delta" then
      .ok (.ReasoningDelta (stringOf value "delta"))
    else if kind = "response.reasoning_summary_text.done" ∨ kind = "response.reasoning_text.done" then .ok .ReasoningDone
    else if kind = "response.output_item.added" then readAdded value item
    else if kind = "response.output_item.done" then readItemDone value item
    else if kind = "response.function_call_arguments.delta" then do
      let index ← required_u64 value "output_index"
      .ok (.ArgumentsDelta index (stringOf value "delta"))
    else if kind = "response.function_call_arguments.done" then do
      let index ← required_u64 value "output_index"
      .ok (.ArgumentsDone index (stringOf value "arguments"))
    else if kind = "response.completed" then .ok (.Completed usage)
    else if kind = "response.incomplete" then .ok (.Incomplete usage)
    else .ok .Other

/-- How much of the arguments was sent is counted in characters. -/
structure ResponseToolState where
  call_id : Option String := none
  name : Option String := none
  arguments : String := ""
  emitted_arguments : Nat := 0
  started : Bool := false
  ended : Bool := false
deriving DecidableEq

inductive ResponseToolArguments where
  | None
  | Delta (delta : String)
  | Snapshot (snapshot : String)
deriving DecidableEq

def ResponseToolArguments.ofSnapshot : Option String → ResponseToolArguments
  | none => .None
  | some snapshot => .Snapshot snapshot

def sliceFrom (text : String) (start : Nat) : String := String.ofList (text.toList.drop start)

def takeArguments (tool : ResponseToolState) : ResponseToolArguments → Except Error ResponseToolState
  | .None => .ok tool
  | .Delta delta => .ok { tool with arguments := tool.arguments ++ delta }
  | .Snapshot snapshot =>
    if snapshot = tool.arguments then .ok tool
    else if starts_with snapshot tool.arguments then
      .ok { tool with arguments := tool.arguments ++ sliceFrom snapshot tool.arguments.length }
    else .error (.Provider "OpenAI Responses final tool arguments do not match streamed arguments")
def startTool (index : Nat) (tool : ResponseToolState) : ResponseToolState × List ModelEvent :=
  match tool.started, tool.call_id, tool.name with
  | false, some call_id, some name => ({ tool with started := true },[.ToolCallStart index call_id name])
  | _, _, _ => (tool,[])
def emitArguments (index : Nat) (tool : ResponseToolState) : ResponseToolState × List ModelEvent :=
  if tool.started && tool.emitted_arguments < tool.arguments.length then
    ({ tool with emitted_arguments := tool.arguments.length },
      [.ToolCallArgumentsDelta index (sliceFrom tool.arguments tool.emitted_arguments)])
  else (tool,[])
def endTool (index : Nat) (done : Bool) (tool : ResponseToolState) : Except Error (ResponseToolState × List ModelEvent) :=
  if done && !tool.ended then
    if !tool.started then .error (.Provider "OpenAI Responses function call is missing call_id or name")
    else .ok ({ tool with ended := true },[.ToolCallEnd index])
  else .ok (tool,[])

def updateTool (index : Nat) (call_id name : Option String) (arguments : ResponseToolArguments) (done : Bool)
    (tool : ResponseToolState) : Except Error (ResponseToolState × List ModelEvent) := do
  let tool ← takeArguments { tool with call_id := tool.call_id.or call_id, name := tool.name.or name } arguments
  let (tool,started) := startTool index tool
  let (tool,emitted) := emitArguments index tool
  let (tool,ended) ← endTool index done tool
  .ok (tool,started ++ emitted ++ ended)

structure Adapter where
  text_open : Bool := false
  text : String := ""
  thinking_open : Bool := false
  tools : List (Nat × ResponseToolState) := []
  reasoning_items : List Value := []
  saw_tool : Bool := false
  saw_completed_item : Bool := false
  terminal : Bool := false
deriving DecidableEq

abbrev Yield : Type := Adapter × List ModelEvent × Option Error

def update_response_tool (a : Adapter) (index : Nat) (call_id name : Option String) (arguments : ResponseToolArguments)
    (done : Bool) : Yield :=
  match updateTool index call_id name arguments done ((Keyed.lookup a.tools index).getD {}) with
  | .error error => (a,[],some error)
  | .ok (tool,events) => ({ a with tools := Keyed.insertOrdered index tool a.tools },events,none)

def reconcile_response_text (a : Adapter) (final_text : String) : Adapter × List ModelEvent :=
  if starts_with final_text a.text && a.text.length < final_text.length then
    let suffix := sliceFrom final_text a.text.length
    ({ a with text_open := true, text := a.text ++ suffix },(if a.text_open then [] else [.TextStart]) ++ [.TextDelta suffix])
  else (a,[])

def closeThinking (a : Adapter) : Adapter × List ModelEvent :=
  ({ a with thinking_open := false },if a.thinking_open then [.ThinkingEnd] else [])
def closeText (a : Adapter) : Adapter × List ModelEvent :=
  ({ a with text_open := false },if a.text_open then [.TextEnd] else [])
def finishText (a : Adapter) (final_text : Option String) : Adapter × List ModelEvent :=
  let (a,added) := final_text.elim (a,[]) (reconcile_response_text a)
  let (a,closed) := closeText a
  (a,added ++ closed)

def endTools (tools : List (Nat × ResponseToolState)) : List (Nat × ResponseToolState) × List ModelEvent :=
  (tools.map fun (index,tool) => (index,if tool.started then { tool with ended := true } else tool),
    (tools.filter fun (_,tool) => tool.started && !tool.ended).map fun (index,_) => .ToolCallEnd index)
def closeAll (a : Adapter) : Adapter × List ModelEvent :=
  let (a,thinking) := closeThinking a
  let (a,text) := closeText a
  let (tools,ended) := endTools a.tools
  ({ a with tools },thinking ++ text ++ ended)

section Stream
variable [Serde] [ArgumentText]

def replayState (items : List Value) : List ModelEvent :=
  if items.isEmpty then [] else [.ProviderReplayState ⟨"openai_responses",object [("items",.Array items)]⟩]
def finalReason (a : Adapter) : FinishReason := if a.saw_tool then .ToolUse else .Stop

def complete (a : Adapter) (usage : Option Value) : Yield :=
  let used := usage.toList.map fun usage => .Usage (responses_usage usage)
  let (a,closed) := closeAll a
  if a.tools.any (fun (_,tool) => !tool.started) then
    (a,used ++ closed,some (.Provider "OpenAI Responses completed with incomplete tool metadata"))
  else
    ({ a with terminal := true, reasoning_items := [] },
      used ++ closed ++ replayState a.reasoning_items ++ [.Done (finalReason a)],none)

def step (a : Adapter) : Incoming → Yield
  | .OutputTextDelta delta =>
    let (a,closed) := closeThinking a
    let opened := if a.text_open then [] else [.TextStart]
    match delta with
    | some delta => ({ a with text_open := true, text := a.text ++ delta },closed ++ opened ++ [.TextDelta delta],none)
    | none => ({ a with text_open := true },closed ++ opened,none)
  | .OutputTextDone text =>
    let (a,events) := finishText a text
    (a,events,none)
  | .ReasoningDelta delta =>
    ({ a with thinking_open := true },
      (if a.thinking_open then [] else [.ThinkingStart]) ++ delta.toList.map .ThinkingDelta,none)
  | .ReasoningDone =>
    let (a,closed) := closeThinking a
    (a,closed,none)
  | .CallAdded index call_id name => update_response_tool { a with saw_tool := true } index call_id name .None false
  | .ReasoningItemDone item =>
    let (a,closed) := closeThinking a
    ({ a with reasoning_items := a.reasoning_items ++ [item] },closed,none)
  | .MessageItemDone text =>
    let (a,events) := finishText { a with saw_completed_item := true } text
    (a,events,none)
  | .CallDone index call_id name arguments =>
    update_response_tool { a with saw_completed_item := true, saw_tool := true } index call_id name (.ofSnapshot arguments) true
  | .ArgumentsDelta index delta =>
    match delta with
    | some delta => update_response_tool { a with saw_tool := true } index none none (.Delta delta) false
    | none => (a,[],none)
  | .ArgumentsDone index arguments =>
    -- An empty final value does not end the call.
    if arguments = some "" then update_response_tool a index none none .None false
    else update_response_tool a index none none (.ofSnapshot arguments) true
  | .Completed usage => complete a usage
  | .Incomplete _ =>
    let (a,closed) := closeAll a
    ({ a with terminal := true },closed ++ [.Done .Length],none)
  | .Other => (a,[],none)

/-- What follows the loop: a stream without its last event is finished if an item
    of it was. -/
def finishStream (a : Adapter) : List ModelEvent × Option Error :=
  if a.terminal then ([],none)
  else if a.saw_completed_item then
    let (a,thinking) := closeThinking a
    let (a,text) := closeText a
    if a.tools.any (fun (_,tool) => !tool.ended) then
      (thinking ++ text,some (.Provider "OpenAI Responses stream ended with an incomplete tool call"))
    else (thinking ++ text ++ replayState a.reasoning_items ++ [.Done (finalReason a)],none)
  else ([],some (.Provider "OpenAI Responses stream ended without response.completed or response.incomplete"))

/-- The events of a stream that was read, and the error that it ends with. -/
def runFrom (a : Adapter) : List Incoming → List ModelEvent × Option Error
  | [] => finishStream a
  | incoming :: rest =>
    match step a incoming with
    | (_,events,some error) => (events,some error)
    | (a,events,none) =>
      let (more,ending) := runFrom a rest
      (events ++ more,ending)

def readSource (event data : String) : Except Error Incoming := do
  let value ← (ArgumentText.from_str data).mapError .Json
  readEvent event value
def streamFrom (a : Adapter) : List Source → List ModelEvent × Option Error
  | [] => finishStream a
  | .Cancelled :: _ => ([],none)
  | .Failed error :: _ => ([],some error)
  | .Event event data :: rest =>
    if data = "[DONE]" then finishStream a
    else
      match readSource event data with
      | .error error => ([],some error)
      | .ok incoming =>
        match step a incoming with
        | (_,events,some error) => (events,some error)
        | (a,events,none) =>
          let (more,ending) := streamFrom a rest
          (events ++ more,ending)
/-- `OpenAiResponsesProvider::stream` from the response on. -/
def stream (call_id : String) (source : List Source) : List ModelEvent × Option Error :=
  let (events,ending) := streamFrom {} source
  (.Start call_id :: events,ending)

end Stream

/-! ## The items of a stream -/

/-- A part of a text: what its deltas were, and its final text. -/
structure Part where
  streamed : String
  final : String
deriving DecidableEq

/-- A call: what is known of its id and its name, what its arguments are so far,
    their final value, and whether its item is done. -/
structure Call where
  call_id : Option String := none
  name : Option String := none
  arguments : String := ""
  final : Option String := none
  done : Bool := false
deriving DecidableEq

/-- The message items that are done, with their parts; the parts of the one that
    is not; the deltas of the part that is not done; and the calls. -/
structure Items where
  messages : List (List Part) := []
  parts : List Part := []
  pending : Option String := none
  calls : List (Nat × Call) := []
deriving DecidableEq

def textOf (parts : List Part) : String := String.join (parts.map (·.final))
def Call.learn (call : Call) (call_id name : Option String) : Call :=
  { call with call_id := call.call_id.or call_id, name := call.name.or name }
def changeCall (s : Items) (index : Nat) (change : Call → Option Call) : Option Items :=
  let call := (Keyed.lookup s.calls index).getD {}
  if call.done then none else (change call).map fun call => { s with calls := Keyed.insertLast index call s.calls }

/-- The items after an event, if it may come then: a prefix of each text and of
    each call's arguments is sent as deltas, and the final values follow. The parts
    of a message come one after the other, and so do messages; everything else may
    come in between. The id and the name of a call may come with any of its
    events, but are known when it is done. -/
def follow (s : Items) : Incoming → Option Items
  | .OutputTextDelta delta => some { s with pending := some (s.pending.getD "" ++ delta.getD "") }
  | .OutputTextDone (some text) =>
    if starts_with text (s.pending.getD "") then
      some { s with pending := none, parts := s.parts ++ [⟨s.pending.getD "",text⟩] }
    else none
  | .MessageItemDone (some text) =>
    if s.pending = none ∧ text = textOf s.parts then some { s with messages := s.messages ++ [s.parts], parts := [] } else none
  | .CallAdded index call_id name => changeCall s index fun call => some (call.learn call_id name)
  | .ArgumentsDelta index (some delta) => changeCall s index fun call =>
      if call.final.isSome then none else some { call with arguments := call.arguments ++ delta }
  | .ArgumentsDone index (some arguments) => changeCall s index fun call =>
      if call.final.isNone && starts_with arguments call.arguments then some { call with arguments, final := some arguments }
      else none
  | .CallDone index call_id name (some arguments) => changeCall s index fun call =>
      let call := call.learn call_id name
      if call.call_id.isSome && call.name.isSome && call.final.all (· = arguments) && starts_with arguments call.arguments then
        some { call with arguments, final := some arguments, done := true }
      else none
  | .ArgumentsDelta _ none | .ReasoningDelta _ | .ReasoningDone | .ReasoningItemDone _ | .Other => some s
  | .OutputTextDone none | .MessageItemDone none | .ArgumentsDone _ none | .CallDone _ _ _ none | .Completed _
  | .Incomplete _ => none
def followAll (s : Items) (incoming : List Incoming) : Option Items := incoming.foldlM follow s

inductive Ending where
  | Completed (usage : Option Value)
  | Incomplete (usage : Option Value)
  | Ended
deriving DecidableEq

def Ending.events : Ending → List Incoming
  | .Completed usage => [.Completed usage]
  | .Incomplete usage => [.Incomplete usage]
  | .Ended => []
def Ending.usage : Ending → Option Value
  | .Completed usage | .Incomplete usage => usage
  | .Ended => none

/-- A whole stream: everything that was announced is done. Without its last event
    it has some item. -/
structure Legal (s : Items) (body : List Incoming) (ending : Ending) : Prop where
  follows : followAll {} body = some s
  text : s.pending = none ∧ s.parts = []
  calls : ∀ entry ∈ s.calls, entry.2.done = true
  some_ : ending = .Ended → s.messages ≠ [] ∨ s.calls ≠ []

section Conformance
variable [ArgumentText]

/-- The output is accepted, its text is that of all parts in their order, the
    arguments of the calls are their final ones, and the usage of the last event is
    told once. -/
structure Conforms (s : Items) (ending : Ending) (output : List ModelEvent × Option Error) : Prop where
  finished : output.2 = none
  accepted : Accepts output.1
  text : String.join (Lanes.deltas (textLane output.1)) = String.join (s.messages.map textOf)
  arguments : ∀ index call, (index,call) ∈ s.calls → some (String.join (Lanes.deltas (toolLane index output.1))) = call.final
  usage : ∀ usage, ending.usage = some usage → output.1.filterMap usageOf = [responses_usage usage]

/-- What is sent of a message until it is done: the deltas of each part, or its
    final text where this begins with all that was sent so far. -/
def sent (before : String) : List Part → String
  | [] => before
  | part :: rest =>
    let now := before ++ part.streamed
    sent (if starts_with part.final now then part.final else now) rest
/-- The first message that has a text is a continuation of what is sent of it, and
    the parts of the later messages are sent in full by their deltas. -/
def Delivered (messages : List (List Part)) : Prop :=
  match messages.dropWhile (textOf · = "") with
  | [] => True
  | first :: later => starts_with (textOf first) (sent "" first) = true ∧ ∀ parts ∈ later, ∀ part ∈ parts, part.streamed = part.final

/-- The id and the name of a call are known when its final arguments come, unless
    these are empty. -/
def Named (s : Items) : Incoming → Prop
  | .ArgumentsDone index (some arguments) => arguments ≠ "" →
    ∃ call, Keyed.lookup s.calls index = some call ∧ call.call_id.isSome = true ∧ call.name.isSome = true
  | _ => True

structure Plain (s : Items) (body : List Incoming) (ending : Ending) : Prop where
  text : Delivered s.messages
  named : ∀ before event later known, body = before ++ event :: later → followAll {} before = some known → Named known event
  distinct : (s.calls.map (·.2.call_id)).Nodup
  usage : ∀ usage, ending ≠ .Incomplete (some usage)

end Conformance

end MyCursor.Responses

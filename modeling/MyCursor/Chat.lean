import MyCursor.Responses

/-!
# The Chat adapters

`provider/openai_chat.rs` and the adapter of the plugin SDK,
`plugin/sdk/protocol/openai_chat.ts`: the chunks of a chat completion become the
events of a model cycle. The two run the same loop over the chunks that they read;
they differ in what they read, in how they keep the tools and in what a finish
reason means to them.
-/
namespace MyCursor.Chat
open Message Store Run ModelCycle Text
open ProviderEvents (Source stringOf provider_event_error)
open CheckpointCodec (Serde object)
open Responses (sliceFrom)

/-- A tool call delta. The key is the number that stands for the tool. -/
structure ToolDelta (κ : Type) where
  index : κ
  id : Option String := none
  name : Option String := none
  arguments : Option String := none
deriving DecidableEq

structure Choice (κ : Type) where
  reasoning : Option String := none
  content : Option String := none
  tools : List (ToolDelta κ) := []
  finish_reason : Option String := none
deriving DecidableEq

structure Chunk (κ υ : Type) where
  usage : Option υ := none
  choice : Option (Choice κ) := none
deriving DecidableEq

inductive Event (κ υ : Type) where
  | TextStart
  | TextDelta (delta : String)
  | TextEnd
  | ThinkingStart
  | ThinkingDelta (delta : String)
  | ThinkingEnd
  | ToolCallStart (index : κ) (call_id name : String)
  | ToolCallArgumentsDelta (index : κ) (delta : String)
  | ToolCallEnd (index : κ)
  | Usage (usage : υ)
  | Replay (reasoning : String)
  | Done (reason : FinishReason)
deriving DecidableEq

/-- How much of the arguments was sent is counted in characters. -/
structure ChatToolState where
  call_id : String := ""
  name : String := ""
  arguments : String := ""
  emitted_arguments : Nat := 0
  started : Bool := false
deriving DecidableEq

def ends_with (text part : String) : Bool := decide (part.toList <:+ text.toList)
/-- A fragment that repeats what is there, or begins with it, is not appended. -/
def merge_chat_fragment (target fragment : String) : String :=
  if target = fragment ∨ ends_with target fragment = true then target
  else if starts_with fragment target then fragment
  else target ++ fragment

section Loop
variable {κ υ : Type} [DecidableEq κ]

def mergeTool (delta : ToolDelta κ) (tool : ChatToolState) : ChatToolState :=
  { tool with
    call_id := delta.id.elim tool.call_id (merge_chat_fragment tool.call_id)
    name := delta.name.elim tool.name (merge_chat_fragment tool.name)
    arguments := tool.arguments ++ delta.arguments.getD "" }
/-- A call starts when something of its id and of its name is known. -/
def startTool (index : κ) (tool : ChatToolState) : ChatToolState × List (Event κ υ) :=
  if !tool.started && tool.call_id ≠ "" && tool.name ≠ "" then
    ({ tool with started := true },[.ToolCallStart index tool.call_id tool.name])
  else (tool,[])
def emitArguments (index : κ) (tool : ChatToolState) : ChatToolState × List (Event κ υ) :=
  if tool.started && tool.emitted_arguments < tool.arguments.length then
    ({ tool with emitted_arguments := tool.arguments.length },
      [.ToolCallArgumentsDelta index (sliceFrom tool.arguments tool.emitted_arguments)])
  else (tool,[])
def updateTool (delta : ToolDelta κ) (tool : ChatToolState) : ChatToolState × List (Event κ υ) :=
  let (tool,started) := startTool delta.index (mergeTool delta tool)
  let (tool,emitted) := emitArguments delta.index tool
  (tool,started ++ emitted)

/-- Where the adapters differ: the map of the tools, the text of an index, and the
    meaning of a finish reason when there are tools or not. -/
structure Dialect (κ : Type) where
  insert : κ → ChatToolState → List (κ × ChatToolState) → List (κ × ChatToolState)
  label : κ → String
  map_finish : String → Bool → FinishReason

structure Loop (κ υ : Type) where
  text_open : Bool := false
  thinking_open : Bool := false
  reasoning : String := ""
  tools : List (κ × ChatToolState) := []
  final_usage : Option υ := none
  finish : Option FinishReason := none

def update_chat_tool (d : Dialect κ) (a : Loop κ υ) (delta : ToolDelta κ) : Loop κ υ × List (Event κ υ) :=
  let (tool,events) := updateTool delta ((Keyed.lookup a.tools delta.index).getD {})
  ({ a with tools := d.insert delta.index tool a.tools },events)
def update_chat_tools (d : Dialect κ) (a : Loop κ υ) : List (ToolDelta κ) → Loop κ υ × List (Event κ υ)
  | [] => (a,[])
  | delta :: rest =>
    let (a,events) := update_chat_tool d a delta
    let (a,more) := update_chat_tools d a rest
    (a,events ++ more)

def takeReasoning (a : Loop κ υ) : Option String → Loop κ υ × List (Event κ υ)
  | none => (a,[])
  | some delta =>
    ({ a with thinking_open := true, reasoning := a.reasoning ++ delta },
      (if a.thinking_open then [] else [.ThinkingStart]) ++ [.ThinkingDelta delta])
def takeContent (a : Loop κ υ) : Option String → Loop κ υ × List (Event κ υ)
  | none => (a,[])
  | some content =>
    ({ a with thinking_open := false, text_open := true },
      (if a.thinking_open then [.ThinkingEnd] else []) ++ (if a.text_open then [] else [.TextStart]) ++ [.TextDelta content])

def takeChoice (d : Dialect κ) (a : Loop κ υ) (choice : Choice κ) : Loop κ υ × List (Event κ υ) :=
  let (a,thought) := takeReasoning a choice.reasoning
  let (a,said) := takeContent a choice.content
  let (a,called) := update_chat_tools d a choice.tools
  ({ a with finish := (choice.finish_reason.map (d.map_finish · !a.tools.isEmpty)).or a.finish },thought ++ said ++ called)
def step (d : Dialect κ) (a : Loop κ υ) (chunk : Chunk κ υ) : Loop κ υ × List (Event κ υ) :=
  let a := { a with final_usage := chunk.usage.or a.final_usage }
  chunk.choice.elim (a,[]) (takeChoice d a)

/-- A call that was not started gets an id of its own if it has none. -/
def lateStart (d : Dialect κ) (index : κ) (tool : ChatToolState) : List (Event κ υ) :=
  if tool.started then []
  else .ToolCallStart index (if tool.call_id = "" then "call-" ++ d.label index else tool.call_id) tool.name ::
    (if tool.arguments = "" then [] else [.ToolCallArgumentsDelta index tool.arguments])
def closeTools (d : Dialect κ) : List (κ × ChatToolState) → List (Event κ υ) × Option String
  | [] => ([],none)
  | (index,tool) :: rest =>
    if !tool.started && tool.name = "" then ([],some "OpenAI Chat tool call is missing name")
    else
      let (more,ending) := closeTools d rest
      (lateStart d index tool ++ .ToolCallEnd index :: more,ending)

def finalReason (a : Loop κ υ) (saw_done_marker : Bool) : Option FinishReason :=
  a.finish.or (if saw_done_marker then some (if a.tools.isEmpty then .Stop else .ToolUse) else none)
def finishLoop (d : Dialect κ) (a : Loop κ υ) (saw_done_marker : Bool) : List (Event κ υ) × Option String :=
  let closed := (if a.thinking_open then [.ThinkingEnd] else []) ++ (if a.text_open then [.TextEnd] else [])
  match closeTools d a.tools with
  | (ended,some error) => (closed ++ ended,some error)
  | (ended,none) =>
    let told := a.final_usage.toList.map .Usage ++ (if a.reasoning = "" then [] else [.Replay a.reasoning])
    match finalReason a saw_done_marker with
    | none => (closed ++ ended ++ told,some "OpenAI Chat stream ended without finish_reason")
    | some reason => (closed ++ ended ++ told ++ [.Done reason],none)

def runFrom (d : Dialect κ) (a : Loop κ υ) (saw_done_marker : Bool) : List (Chunk κ υ) → List (Event κ υ) × Option String
  | [] => finishLoop d a saw_done_marker
  | chunk :: rest =>
    let (a,events) := step d a chunk
    let (more,ending) := runFrom d a saw_done_marker rest
    (events ++ more,ending)

end Loop

def openai_usage (value : Value) : Usage :=
  let tokens (path : List String) : Option Nat := (Json.pointer value path).bind Json.as_u64
  { input_tokens := tokens ["prompt_tokens"]
    context_input_tokens := tokens ["prompt_tokens"]
    output_tokens := tokens ["completion_tokens"]
    total_tokens := tokens ["total_tokens"]
    cache_read_tokens := tokens ["prompt_tokens_details","cached_tokens"]
    cache_write_tokens := none
    reasoning_tokens := tokens ["completion_tokens_details","reasoning_tokens"] }

def member (value : Value) (name : String) : Value := (Json.get value name).getD .Null
def nonEmpty (text : Option String) : Option String := text.filter (· ≠ "")

def readTool (tool : Value) (position : Nat) : ToolDelta Nat :=
  let function := member tool "function"
  { index := ((Json.get tool "index").bind Json.as_u64).getD position
    id := stringOf tool "id"
    name := stringOf function "name"
    arguments := stringOf function "arguments" }
/-- A field with any value hides the other name of the reasoning. -/
def readReasoning (delta : Value) : Option String :=
  nonEmpty (((Json.get delta "reasoning_content").or (Json.get delta "reasoning")).bind Json.as_str)
def toolCalls (delta : Value) : List Value := ((Json.get delta "tool_calls").bind Json.as_array).getD []
def readChoice (choice : Value) : Choice Nat :=
  let delta := member choice "delta"
  { reasoning := readReasoning delta
    content := nonEmpty (stringOf delta "content")
    tools := (toolCalls delta).zipIdx.map fun (tool,position) => readTool tool position
    finish_reason := stringOf choice "finish_reason" }
def firstChoice (value : Value) : Option Value := ((Json.get value "choices").bind Json.as_array).bind (·.head?)
def readChunk (value : Value) : Chunk Nat Usage :=
  { usage := ((Json.get value "usage").filter (· ≠ .Null)).map openai_usage
    choice := (firstChoice value).map readChoice }

def map_finish (value : String) (has_tools : Bool) : FinishReason :=
  if value = "tool_calls" ∨ value = "function_call" then .ToolUse
  else if value = "length" then .Length
  else if value = "content_filter" then .Stop
  else if has_tools then .ToolUse
  else .Stop

/-- The tools of the built-in adapter stand in the order of their indices. -/
def builtIn : Dialect Nat := ⟨Keyed.insertOrdered,toString,map_finish⟩

section Stream
variable [Serde] [ArgumentText]

def replayState (reasoning : String) : ProviderReplayState :=
  ⟨"openai_chat",object [("reasoning_content",.String reasoning)]⟩
def yielded : Event Nat Usage → ModelEvent
  | .TextStart => .TextStart
  | .TextDelta delta => .TextDelta delta
  | .TextEnd => .TextEnd
  | .ThinkingStart => .ThinkingStart
  | .ThinkingDelta delta => .ThinkingDelta delta
  | .ThinkingEnd => .ThinkingEnd
  | .ToolCallStart index call_id name => .ToolCallStart index call_id name
  | .ToolCallArgumentsDelta index delta => .ToolCallArgumentsDelta index delta
  | .ToolCallEnd index => .ToolCallEnd index
  | .Usage usage => .Usage usage
  | .Replay reasoning => .ProviderReplayState (replayState reasoning)
  | .Done reason => .Done reason
def provider (output : List (Event Nat Usage) × Option String) : List ModelEvent × Option Error :=
  (output.1.map yielded,output.2.map .Provider)

def readSource (data : String) : Except Error (Chunk Nat Usage) := do
  let value ← (ArgumentText.from_str data).mapError .Json
  match provider_event_error "OpenAI Chat" value with
  | some error => .error error
  | none => .ok (readChunk value)
def streamFrom (a : Loop Nat Usage) : List Source → List ModelEvent × Option Error
  | [] => provider (finishLoop builtIn a false)
  | .Cancelled :: _ => ([],none)
  | .Failed error :: _ => ([],some error)
  | .Event _ data :: rest =>
    if data = "[DONE]" then provider (finishLoop builtIn a true)
    else
      match readSource data with
      | .error error => ([],some error)
      | .ok chunk =>
        let (a,events) := step builtIn a chunk
        let (more,ending) := streamFrom a rest
        (events.map yielded ++ more,ending)
/-- `OpenAiChatProvider::stream` from the response on. -/
def stream (call_id : String) (source : List Source) : List ModelEvent × Option Error :=
  let (events,ending) := streamFrom {} source
  (.Start call_id :: events,ending)

end Stream

end MyCursor.Chat

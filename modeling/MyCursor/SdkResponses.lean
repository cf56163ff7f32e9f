import MyCursor.Requests
import MyCursor.SdkChat

/-!
# The Responses adapter of the plugin SDK

`plugin/sdk/protocol/openai_responses.ts` and the messages of `plugin/wire.rs`: the
state machine of the built-in adapter and its input list, written once more in
JavaScript.
-/
namespace MyCursor.SdkResponses
open Message Projection Store Run ModelCycle Text Wire
open ProviderEvents (stringOf)
open CheckpointCodec (Serde object)
open Responses (ResponseToolState ResponseToolArguments sliceFrom)
open Requests (isText textOf)
open SdkChat (count)
set_option linter.unusedSectionVars false

section Adapter
variable [JavaScript]

mutual
def held : Value → Value
  | .Number number => .Number (JavaScript.through number)
  | .Array items => .Array (heldItems items)
  | .Object members => .Object (heldMembers members)
  | value => value
def heldItems : List Value → List Value
  | [] => []
  | item :: rest => held item :: heldItems rest
def heldMembers : List (String × Value) → List (String × Value)
  | [] => []
  | (name,value) :: rest => (name,held value) :: heldMembers rest
end

inductive Seen where
  | OutputTextDelta (delta : Option String)
  | OutputTextDone (text : Option String)
  | ReasoningDelta (delta : Option String)
  | ReasoningDone
  | CallAdded (index : Number) (callId name : Option String)
  | ReasoningItemDone (item : Value)
  | MessageItemDone (text : Option String)
  | CallDone (index : Number) (callId name arguments : Option String)
  | ArgumentsDelta (index : Number) (delta : String)
  | ArgumentsDone (index : Number) (arguments : Option String)
  | Completed (usage : Option ModelUsage)
  | Incomplete
  | Other
deriving DecidableEq

def requiredIndex (value : Value) : Except String Number :=
  match (Json.get value "output_index").bind count with
  | some index => .ok index
  | none => .error "OpenAI Responses event is missing output_index"
def usageEvent (usage : Value) : ModelUsage :=
  let tokens (path : List String) : Option Number := (Json.pointer usage path).bind count
  { inputTokens := tokens ["input_tokens"]
    outputTokens := tokens ["output_tokens"]
    totalTokens := tokens ["total_tokens"]
    cacheReadTokens := tokens ["input_tokens_details","cached_tokens"]
    cacheWriteTokens := none
    reasoningTokens := tokens ["output_tokens_details","reasoning_tokens"] }
def itemText (item : Value) : Option String :=
  ((Json.get item "content").bind Json.as_array).map fun content =>
    String.join ((content.filter fun part => stringOf part "type" = some "output_text").map fun part =>
      (stringOf part "text").getD "")

def readAdded (value item : Value) : Except String Seen :=
  if stringOf item "type" = some "function_call" then
    (requiredIndex value).map fun index => .CallAdded index (stringOf item "call_id") (stringOf item "name")
  else .ok .Other
def readItemDone (value item : Value) : Except String Seen :=
  if stringOf item "type" = some "reasoning" then .ok (.ReasoningItemDone (held item))
  else if stringOf item "type" = some "message" then .ok (.MessageItemDone (itemText item))
  else if stringOf item "type" = some "function_call" then
    (requiredIndex value).map fun index =>
      .CallDone index (stringOf item "call_id") (stringOf item "name") (stringOf item "arguments")
  else .ok .Other
/-- `payload` is the text of the event. -/
def readSeen (payload : String) (value : Value) : Except String Seen :=
  let item := (Json.get value "item").getD .Null
  match stringOf value "type" with
  | none => .ok .Other
  | some kind =>
    if kind = "response.output_text.delta" then .ok (.OutputTextDelta (stringOf value "delta"))
    else if kind = "response.output_text.done" then .ok (.OutputTextDone (stringOf value "text"))
    else if kind = "response.reasoning_summary_text.delta" ∨ kind = "response.reasoning_text.delta" then
      .ok (.ReasoningDelta (stringOf value "delta"))
    else if kind = "response.reasoning_summary_text.done" ∨ kind = "response.reasoning_text.done" then .ok .ReasoningDone
    else if kind = "response.output_item.added" then readAdded value item
    else if kind = "response.output_item.done" then readItemDone value item
    else if kind = "response.function_call_arguments.delta" then
      match stringOf value "delta" with
      | none => .ok .Other
      | some delta => (requiredIndex value).map (.ArgumentsDelta · delta)
    else if kind = "response.function_call_arguments.done" then
      (requiredIndex value).map (.ArgumentsDone · (stringOf value "arguments"))
    else if kind = "response.completed" then .ok (.Completed ((Json.pointer value ["response","usage"]).map usageEvent))
    else if kind = "response.incomplete" then .ok .Incomplete
    else if kind = "response.failed" then .error s!"OpenAI Responses failed: {payload}"
    else .ok .Other

def takeArguments (tool : ResponseToolState) : ResponseToolArguments → Except String ResponseToolState
  | .None => .ok tool
  | .Delta delta => .ok { tool with arguments := tool.arguments ++ delta }
  | .Snapshot snapshot =>
    if snapshot = tool.arguments then .ok tool
    else if starts_with snapshot tool.arguments then
      .ok { tool with arguments := tool.arguments ++ sliceFrom snapshot tool.arguments.length }
    else .error "OpenAI Responses final tool arguments do not match streamed arguments"
def startTool (index : Number) (tool : ResponseToolState) : ResponseToolState × List SdkEvent :=
  match tool.started, tool.call_id, tool.name with
  | false, some callId, some name => ({ tool with started := true },[.ToolCallStart index callId name])
  | _, _, _ => (tool,[])
def emitArguments (index : Number) (tool : ResponseToolState) : ResponseToolState × List SdkEvent :=
  if tool.started && tool.emitted_arguments < tool.arguments.length then
    ({ tool with emitted_arguments := tool.arguments.length },
      [.ToolCallArgumentsDelta index (sliceFrom tool.arguments tool.emitted_arguments)])
  else (tool,[])
def endTool (index : Number) (done : Bool) (tool : ResponseToolState) : Except String (ResponseToolState × List SdkEvent) :=
  if done && !tool.ended then
    if !tool.started then .error "OpenAI Responses function call is missing call_id or name"
    else .ok ({ tool with ended := true },[.ToolCallEnd index])
  else .ok (tool,[])
def changeTool (index : Number) (callId name : Option String) (args : ResponseToolArguments) (done : Bool)
    (tool : ResponseToolState) : Except String (ResponseToolState × List SdkEvent) := do
  let tool ← takeArguments { tool with call_id := tool.call_id.or callId, name := tool.name.or name } args
  let (tool,started) := startTool index tool
  let (tool,emitted) := emitArguments index tool
  let (tool,ended) ← endTool index done tool
  .ok (tool,started ++ emitted ++ ended)

structure Adapter where
  textOpen : Bool := false
  streamedText : String := ""
  thinkingOpen : Bool := false
  tools : List (Number × ResponseToolState) := []
  reasoningItems : List Value := []
  sawTool : Bool := false
  sawCompletedItem : Bool := false
  terminal : Bool := false
deriving DecidableEq

abbrev Emit : Type := Adapter × List SdkEvent × Option String

def updateTool (a : Adapter) (index : Number) (callId name : Option String) (args : ResponseToolArguments) (done : Bool) : Emit :=
  match changeTool index callId name args done ((Keyed.lookup a.tools index).getD {}) with
  | .error error => (a,[],some error)
  | .ok (tool,events) => ({ a with tools := Keyed.insertLast index tool a.tools },events,none)
def reconcileText (a : Adapter) (finalText : String) : Adapter × List SdkEvent :=
  if starts_with finalText a.streamedText && a.streamedText.length < finalText.length then
    ({ a with textOpen := true, streamedText := finalText },
      (if a.textOpen then [] else [.TextStart]) ++ [.TextDelta (sliceFrom finalText a.streamedText.length)])
  else (a,[])
def closeThinking (a : Adapter) : Adapter × List SdkEvent :=
  ({ a with thinkingOpen := false },if a.thinkingOpen then [.ThinkingEnd] else [])
def closeText (a : Adapter) : Adapter × List SdkEvent :=
  ({ a with textOpen := false },if a.textOpen then [.TextEnd] else [])
def finishText (a : Adapter) (finalText : Option String) : Adapter × List SdkEvent :=
  let (a,added) := finalText.elim (a,[]) (reconcileText a)
  let (a,closed) := closeText a
  (a,added ++ closed)
def endStartedTools (tools : List (Number × ResponseToolState)) : List (Number × ResponseToolState) × List SdkEvent :=
  (tools.map fun (index,tool) => (index,if tool.started then { tool with ended := true } else tool),
    (tools.filter fun (_,tool) => tool.started && !tool.ended).map fun (index,_) => .ToolCallEnd index)
def closeAll (a : Adapter) : Adapter × List SdkEvent :=
  let (a,thinking) := closeThinking a
  let (a,text) := closeText a
  let (tools,ended) := endStartedTools a.tools
  ({ a with tools },thinking ++ text ++ ended)

section Stream
variable [Serde] [JsonParse]

def emitReplayState (items : List Value) : List SdkEvent :=
  if items.isEmpty then [] else [.ReplayState "openai_responses" (object [("items",.Array items)])]
def doneReason (a : Adapter) : FinishReason := if a.sawTool then .ToolUse else .Stop

def step (a : Adapter) : Seen → Emit
  | .OutputTextDelta delta =>
    let (a,closed) := closeThinking a
    let opened := if a.textOpen then [] else [.TextStart]
    match delta with
    | some delta =>
      ({ a with textOpen := true, streamedText := a.streamedText ++ delta },closed ++ opened ++ [.TextDelta delta],none)
    | none => ({ a with textOpen := true },closed ++ opened,none)
  | .OutputTextDone text =>
    let (a,events) := finishText a text
    (a,events,none)
  | .ReasoningDelta delta =>
    ({ a with thinkingOpen := true },
      (if a.thinkingOpen then [] else [.ThinkingStart]) ++ delta.toList.map .ThinkingDelta,none)
  | .ReasoningDone =>
    let (a,closed) := closeThinking a
    (a,closed,none)
  | .CallAdded index callId name => updateTool { a with sawTool := true } index callId name .None false
  | .ReasoningItemDone item =>
    let (a,closed) := closeThinking a
    ({ a with reasoningItems := a.reasoningItems ++ [item] },closed,none)
  | .MessageItemDone text =>
    let (a,events) := finishText { a with sawCompletedItem := true } text
    (a,events,none)
  | .CallDone index callId name arguments =>
    updateTool { a with sawCompletedItem := true, sawTool := true } index callId name (.ofSnapshot arguments) true
  | .ArgumentsDelta index delta => updateTool { a with sawTool := true } index none none (.Delta delta) false
  | .ArgumentsDone index arguments =>
    -- An empty final value does not end the call, and neither does a missing one.
    if arguments = none ∨ arguments = some "" then updateTool a index none none .None false
    else updateTool a index none none (.ofSnapshot arguments) true
  | .Completed usage =>
    let used := usage.toList.map .Usage
    let (a,closed) := closeAll a
    if a.tools.any (fun (_,tool) => !tool.started) then
      (a,used ++ closed,some "OpenAI Responses completed with incomplete tool metadata")
    else
      ({ a with terminal := true, reasoningItems := [] },
        used ++ closed ++ emitReplayState a.reasoningItems ++ [.Done (doneReason a)],none)
  | .Incomplete =>
    let (a,closed) := closeAll a
    ({ a with terminal := true },closed ++ [.Done .Length],none)
  | .Other => (a,[],none)

def finishStream (a : Adapter) : List SdkEvent × Option String :=
  if a.terminal then ([],none)
  else if a.sawCompletedItem then
    let (a,thinking) := closeThinking a
    let (a,text) := closeText a
    if a.tools.any (fun (_,tool) => !tool.ended) then
      (thinking ++ text,some "OpenAI Responses stream ended with an incomplete tool call")
    else (thinking ++ text ++ emitReplayState a.reasoningItems ++ [.Done (doneReason a)],none)
  else ([],some "OpenAI Responses stream ended without response.completed or response.incomplete")

/-- The payloads of the data lines; the last event ends the loop. -/
def streamFrom (a : Adapter) : List String → List SdkEvent × Option String
  | [] => finishStream a
  | payload :: rest =>
    if payload = "" then streamFrom a rest
    else if payload = "[DONE]" then finishStream a
    else
      match JsonParse.parse payload with
      | .error _ => ([],some "OpenAI Responses SSE returned invalid JSON")
      | .ok value =>
        match readSeen payload value with
        | .error error => ([],some error)
        | .ok seen =>
          match step a seen with
          | (_,events,some error) => (events,some error)
          | (a,events,none) =>
            if a.terminal then
              let (more,thrown) := finishStream a
              (events ++ more,thrown)
            else
              let (more,thrown) := streamFrom a rest
              (events ++ more,thrown)
def streamOpenAiResponses (payloads : List String) : List SdkEvent × Option String := streamFrom {} payloads

end Stream

end Adapter

section Input
variable [Serde]

def wire_part : ContentPart → Value
  | .Text text => object [("type",.String "text"),("text",.String text)]
  | .Image mime_type data =>
    object [("type",.String "image"),("mediaType",.String mime_type),("dataBase64",.String (Base64.encode data))]
def wire_parts (parts : List ContentPart) : Value := .Array (parts.map wire_part)
def joined_text (parts : List ContentPart) : String := String.join ((parts.filter isText).map textOf)
def wire_call (call : ToolCallContent) : Value :=
  object [("index",.Number (.PosInt call.index)),("callId",.String call.call_id),("name",.String call.name),
    ("arguments",call.arguments)]
def wire_replay (replay_state : Option ProviderReplayState) : Value :=
  replay_state.elim .Null fun state => object [("providerKind",.String state.provider_kind),("value",state.value)]
/-- A message of an `LlmRequest`. -/
def wire_message (message : ProjectedMessage) : Except Error Value :=
  match message.content with
  | .Parts parts =>
    match message.role with
    | .System | .User =>
      .ok (object [("role",.String (if message.role = .System then "system" else "user")),("content",wire_parts parts)])
    | .Assistant =>
      .ok (object [("role",.String "assistant"),("text",.String (joined_text parts)),("thinking",.String ""),
        ("replayState",.Null),("toolCalls",.Array [])])
    | .Tool => .error (.Protocol "tool messages must carry a tool result")
  | .Assistant text thinking replay_state calls =>
    .ok (object [("role",.String "assistant"),("text",.String text),("thinking",.String thinking),
      ("replayState",wire_replay replay_state),("toolCalls",.Array (calls.map wire_call))])
  | .ToolResult result =>
    .ok (object [("role",.String "tool"),("callId",.String result.call_id),("name",.String result.name),
      ("content",.String result.content),("isError",.Bool result.is_error),("parts",wire_parts result.provider_parts)])
/-- The messages of `llm_request`. -/
def llm_messages (history : List ProjectedMessage) : Except Error (List Value) := history.mapM wire_message

variable [JavaScript]

def arrayOf (value : Value) (name : String) : List Value := ((Json.get value name).bind Json.as_array).getD []
def contentParts (parts : List Value) (textType : String) : List Value :=
  parts.filterMap fun part =>
    if stringOf part "type" = some "text" then
      let text := (stringOf part "text").getD ""
      if text = "" then none else some (object [("type",.String textType),("text",.String text)])
    else
      let mediaType := (stringOf part "mediaType").getD ""
      let dataBase64 := (stringOf part "dataBase64").getD ""
      let url := s!"data:{mediaType};base64,{dataBase64}"
      some (object [("type",.String "input_image"),("detail",.String "auto"),("image_url",.String url)])
def replayItem (item : Value) : Except String Value :=
  if stringOf item "type" = some "reasoning" then
    .ok (object (("type",.String "reasoning") :: ["id","summary","content","encrypted_content"].filterMap fun field =>
      (Json.get item field).map (field,·)))
  else .error "OpenAI Responses replay state contains a non-reasoning item"
def replayItems (value : Value) : Except String (List Value) :=
  match (Json.get value "items").bind Json.as_array with
  | none => .error "OpenAI Responses replay state is missing items"
  | some items => items.mapM replayItem
def callItem (toolCall : Value) : Value :=
  object [("type",.String "function_call"),("call_id",(Json.get toolCall "callId").getD .Null),
    ("name",(Json.get toolCall "name").getD .Null),
    ("arguments",.String (JavaScript.stringify ((Json.get toolCall "arguments").getD .Null)))]
def messageItem (role : String) (content : List Value) : Value :=
  object [("type",.String "message"),("role",.String role),("content",.Array content)]
def inputItems (message : Value) : Except String (List Value) :=
  let role := (stringOf message "role").getD ""
  if role = "assistant" then
    let replayState := (Json.get message "replayState").getD .Null
    let replayed := if stringOf replayState "providerKind" = some "openai_responses" then
        replayItems ((Json.get replayState "value").getD .Null)
      else .ok []
    let text := (stringOf message "text").getD ""
    replayed.map fun items =>
      items ++ (if text = "" then [] else [messageItem "assistant" [object [("type",.String "output_text"),("text",.String text)]]]) ++
        (arrayOf message "toolCalls").map callItem
  else if role = "tool" then
    let parts := arrayOf message "parts"
    let output := if parts.isEmpty then (Json.get message "content").getD .Null else .Array (contentParts parts "input_text")
    .ok [object [("type",.String "function_call_output"),("call_id",(Json.get message "callId").getD .Null),("output",output)]]
  else
    let content := contentParts (arrayOf message "content") "input_text"
    .ok (if content.isEmpty then [] else [messageItem role content])
/-- The input of `buildResponsesBody`. -/
def buildInput : List Value → Except String (List Value)
  | [] => .ok []
  | message :: rest =>
    match inputItems (held message) with
    | .error error => .error error
    | .ok items => (buildInput rest).map (items ++ ·)

end Input

end MyCursor.SdkResponses

import MyCursor.ByokOutput

/-!
# Requests to the external API

`api/byok/protocol.rs`: the JSON body of a request, in the form of one of three
protocols, becomes a model request. The messages are read one after the other, each
with its index, and add to the instructions or to the history.
-/
namespace MyCursor.ByokProtocol
open Message Projection Compaction Text
open ModelCycle (ArgumentText)
open ByokOutput (Protocol)
open CheckpointCodec (Serde object stripPrefix)
set_option linter.unusedSectionVars false

structure ParsedRequest where
  public_model_id : String
  request : ModelRequest
  stream : Bool
deriving DecidableEq

def required_string (value : Value) (field : String) : Except Error String :=
  match (Json.get value field).bind Json.as_str with
  | none | some "" => .error (.Protocol s!"{field} is required")
  | some text => .ok text
def text_message (index : Nat) (role : Role) (text : String) : ProjectedMessage :=
  ⟨s!"external:{index}",role,.Parts [.Text text]⟩
def text_content : Option Value → Option String
  | some (.String text) => some text
  | some (.Array parts) =>
    some ("\n".intercalate (parts.filterMap fun part => (Json.as_str part).or ((Json.get part "text").bind Json.as_str)))
  | _ => none

/-- `str::split_once`. -/
def split_once (text : String) (c : Char) : Option (String × String) :=
  match text.toList.span (· ≠ c) with
  | (_,[]) => none
  | (before,_ :: after) => some (String.ofList before,String.ofList after)
/-- `str::strip_suffix`. -/
def strip_suffix (text last : String) : Option String :=
  if last.toList <:+ text.toList then some (String.ofList (text.toList.take (text.toList.length - last.toList.length))) else none

def dataUrl (part : Value) (url : String) : Except Error String :=
  if starts_with url "data:" then .ok url
  else match (Json.pointer part ["source","media_type"]).bind Json.as_str with
    | some mime => .ok s!"data:{mime};base64,{url}"
    | none => .error (.Protocol "only base64 image data URLs are supported")
def imageOf (data_url : String) : Except Error ContentPart :=
  match split_once data_url ',' with
  | none => .error (.Protocol "invalid image data URL")
  | some (front,encoded) =>
    match (stripPrefix front "data:").bind (strip_suffix · ";base64") with
    | none => .error (.Protocol "invalid image data URL")
    | some mime_type =>
      match Base64.decode encoded with
      | none => .error (.Protocol "invalid base64 image")
      | some data => .ok (.Image mime_type data)
def parsePart (part : Value) : Except Error ContentPart :=
  let kind := ((Json.get part "type").bind Json.as_str).getD "text"
  if kind = "text" || kind = "input_text" || kind = "output_text" then do
    let text ← required_string part "text"
    .ok (.Text text)
  else if kind = "image_url" || kind = "input_image" || kind = "image" then
    let url := ((Json.pointer part ["image_url","url"]).or (Json.get part "image_url")).or (Json.pointer part ["source","data"])
    match url.bind Json.as_str with
    | none => .error (.Protocol "image data URL is required")
    | some url => do
      let data_url ← dataUrl part url
      imageOf data_url
  else .error (.Protocol s!"unsupported content type: {kind}")
def parse_parts : Option Value → Except Error (List ContentPart)
  | none => .error (.Protocol "message content is required")
  | some (.String text) => .ok [.Text text]
  | some (.Array parts) => parts.mapM parsePart
  | some _ => .error (.Protocol "message content must be text or an array")

def tool_name (history : List ProjectedMessage) (call_id : String) : Option String :=
  history.reverse.findSome? fun message =>
    match message.content with
    | .Assistant _ _ _ calls => (calls.find? (·.call_id = call_id)).map (·.name)
    | _ => none

def each {σ : Type} (read : Nat → Value → σ → Except Error σ) (index : Nat) : List Value → σ → Except Error σ
  | [],state => .ok state
  | message :: rest,state => do
    let state ← read index message state
    each read (index + 1) rest state

section Parser
variable [Serde] [ArgumentText]

/-- `serde_json::from_str(arguments)?`. -/
def argumentsOf (arguments : String) : Except Error Value := (ArgumentText.from_str arguments).mapError .Json

def parseCall (index : Nat) (call : Value) : Except Error ToolCallContent :=
  match Json.get call "function" with
  | none => .error (.Protocol "tool function is required")
  | some function => do
    let arguments ← required_string function "arguments"
    let call_id ← required_string call "id"
    let name ← required_string function "name"
    let arguments ← argumentsOf arguments
    .ok ⟨index,call_id,name,arguments⟩
def parseCalls (index : Nat) : List Value → Except Error (List ToolCallContent)
  | [] => .ok []
  | call :: rest => do
    let call ← parseCall index call
    let rest ← parseCalls (index + 1) rest
    .ok (call :: rest)

abbrev Reading : Type := String × List ProjectedMessage

def chatSystem (message : Value) (instructions : String) (history : List ProjectedMessage) : Except Error Reading :=
  if history ≠ [] then .error (.Protocol "system messages must precede conversation messages")
  else match text_content (Json.get message "content") with
    | none => .error (.Protocol "system content must be text")
    | some text => .ok (if instructions = "" then text else instructions ++ "\n" ++ text,history)
def chatMessage (index : Nat) (message : Value) : Reading → Except Error Reading
  | (instructions,history) => do
    let role ← required_string message "role"
    match role with
    | "system" | "developer" => chatSystem message instructions history
    | "user" =>
      let parts ← parse_parts (Json.get message "content")
      .ok (instructions,history ++ [⟨s!"external:{index}",.User,.Parts parts⟩])
    | "assistant" =>
      let text := (text_content (Json.get message "content")).getD ""
      let calls ← parseCalls 0 (((Json.get message "tool_calls").bind Json.as_array).getD [])
      .ok (instructions,history ++ [⟨s!"external:{index}",.Assistant,.Assistant text "" none calls⟩])
    | "tool" =>
      let call_id ← required_string message "tool_call_id"
      let name := (((Json.get message "name").bind Json.as_str).or (tool_name history call_id)).getD "tool"
      let content := (text_content (Json.get message "content")).getD ""
      .ok (instructions,history ++
        [⟨s!"external:{index}",.Tool,.ToolResult { call_id, name, content, is_error := false, image := none }⟩])
    | role => .error (.Protocol s!"unsupported role: {role}")
def parse_chat_messages (value : Option Value) (reading : Reading) : Except Error Reading :=
  match value.bind Json.as_array with
  | none => .error (.Protocol "messages must be an array")
  | some messages => each chatMessage 0 messages reading

def responsesItem (index : Nat) (item : Value) (history : List ProjectedMessage) : Except Error (List ProjectedMessage) :=
  match (Json.get item "type").bind Json.as_str with
  | some "function_call_output" => do
    let call_id ← required_string item "call_id"
    let name := (tool_name history call_id).getD "tool"
    let content := (text_content (Json.get item "output")).getD ""
    .ok (history ++ [⟨s!"external:{index}",.Tool,.ToolResult { call_id, name, content, is_error := false, image := none }⟩])
  | some "function_call" => do
    let call_id ← required_string item "call_id"
    let name ← required_string item "name"
    let arguments ← required_string item "arguments"
    let arguments ← argumentsOf arguments
    .ok (history ++ [⟨s!"external:{index}",.Assistant,.Assistant "" "" none [⟨0,call_id,name,arguments⟩]⟩])
  | _ => do
    let role ← match ((Json.get item "role").bind Json.as_str).getD "user" with
      | "user" => .ok Role.User
      | "assistant" => .ok Role.Assistant
      | role => .error (.Protocol s!"unsupported role: {role}")
    let parts ← parse_parts (Json.get item "content")
    .ok (history ++ [⟨s!"external:{index}",role,.Parts parts⟩])
def parse_responses_input (value : Value) (history : List ProjectedMessage) : Except Error (List ProjectedMessage) :=
  match value with
  | .Array items => each responsesItem 0 items history
  | _ => .error (.Protocol "input must be text or an array")

structure Blocks where
  history : List ProjectedMessage
  text_parts : List ContentPart := []
  calls : List ToolCallContent := []

def Blocks.toolResult (blocks : Blocks) (index block_index : Nat) (block : Value) : Except Error Blocks := do
  let history := if blocks.text_parts = [] then blocks.history
    else blocks.history ++ [⟨s!"external:{index}:{block_index}:text",.User,.Parts blocks.text_parts⟩]
  let call_id ← required_string block "tool_use_id"
  let name := (tool_name history call_id).getD "tool"
  let content := (text_content (Json.get block "content")).getD ""
  let is_error := ((Json.get block "is_error").bind Json.as_bool).getD false
  .ok { blocks with
    history := history ++ [⟨s!"external:{index}:{block_index}:tool",.Tool,
      .ToolResult { call_id, name, content, is_error, image := none }⟩]
    text_parts := [] }
def anthropicBlock (role : String) (index block_index : Nat) (block : Value) (blocks : Blocks) : Except Error Blocks :=
  match (Json.get block "type").bind Json.as_str with
  | some "tool_use" => do
    let call_id ← required_string block "id"
    let name ← required_string block "name"
    .ok { blocks with calls := blocks.calls ++ [⟨blocks.calls.length,call_id,name,(Json.get block "input").getD (object [])⟩] }
  | some "tool_result" =>
    if role ≠ "user" then .error (.Protocol "tool_result must be in a user message")
    else blocks.toolResult index block_index block
  | _ => do
    let parts ← parse_parts (some (.Array [block]))
    .ok { blocks with text_parts := blocks.text_parts ++ parts }
def textOfPart : ContentPart → Option String
  | .Text text => some text
  | _ => none
def anthropicMessage (index : Nat) (message : Value) (history : List ProjectedMessage) : Except Error (List ProjectedMessage) := do
  let role ← required_string message "role"
  match Json.get message "content" with
  | none => .error (.Protocol "content is required")
  | some (.Array blocks) =>
    let blocks ← each (anthropicBlock role index) 0 blocks { history }
    if role = "assistant" then
      .ok (blocks.history ++ [⟨s!"external:{index}",.Assistant,
        .Assistant (String.join (blocks.text_parts.filterMap textOfPart)) "" none blocks.calls⟩])
    else if blocks.text_parts ≠ [] then
      .ok (blocks.history ++ [⟨s!"external:{index}",.User,.Parts blocks.text_parts⟩])
    else .ok blocks.history
  | some content =>
    let role ← match role with
      | "user" => .ok Role.User
      | "assistant" => .ok Role.Assistant
      | role => .error (.Protocol s!"unsupported role: {role}")
    let parts ← parse_parts (some content)
    .ok (history ++ [⟨s!"external:{index}",role,.Parts parts⟩])
def parse_anthropic_messages (value : Option Value) (history : List ProjectedMessage) : Except Error (List ProjectedMessage) :=
  match value.bind Json.as_array with
  | none => .error (.Protocol "messages must be an array")
  | some messages => each anthropicMessage 0 messages history

def parseTool (protocol : Protocol) (tool : Value) : Except Error ToolDefinition := do
  let function := if protocol = .Chat then (Json.get tool "function").getD tool else tool
  let name ← required_string function "name"
  let description := ((Json.get function "description").bind Json.as_str).getD ""
  let parameters := ((Json.get function "parameters").or (Json.get function "input_schema")).getD
    (object [("type",.String "object"),("properties",object [])])
  .ok ⟨name,description,parameters⟩
def parse_tools (value : Option Value) (protocol : Protocol) : Except Error (List ToolDefinition) :=
  match value with
  | none => .ok []
  | some (.Array tools) => tools.mapM (parseTool protocol)
  | some _ => .error (.Protocol "tools must be an array")

def conversation (protocol : Protocol) (body : Value) : Except Error Reading :=
  match protocol with
  | .Chat => parse_chat_messages (Json.get body "messages") ("",[])
  | .Responses => do
    let instructions := ((Json.get body "instructions").bind Json.as_str).getD ""
    match Json.get body "input" with
    | some (.String text) => .ok (instructions,[text_message 0 .User text])
    | some input =>
      let history ← parse_responses_input input []
      .ok (instructions,history)
    | none => .error (.Protocol "input is required")
  | .Messages => do
    let instructions := (text_content (Json.get body "system")).getD ""
    let history ← parse_anthropic_messages (Json.get body "messages") []
    .ok (instructions,history)
def outputLimit (protocol : Protocol) (body : Value) : Option Nat :=
  match protocol with
  | .Chat => ((Json.get body "max_completion_tokens").or (Json.get body "max_tokens")).bind Json.as_u64
  | .Responses => (Json.get body "max_output_tokens").bind Json.as_u64
  | .Messages => (Json.get body "max_tokens").bind Json.as_u64
/-- `ModelSpec::new`. -/
def modelSpec (model_id : String) : ModelSpec where
  model_id
  reasoning := ⟨false,none⟩
  max_output_tokens := none
  context_window_tokens := none
  other := object [("display_name",.Null),("latency",.String "standard"),("supports_image_generation",.Bool false),
    ("extra_params",object [])]
def parse (protocol : Protocol) (body : Value) : Except Error ParsedRequest := do
  let public_model_id ← required_string body "model"
  let stream := ((Json.get body "stream").bind Json.as_bool).getD false
  let (instructions,history) ← conversation protocol body
  let tools ← parse_tools (Json.get body "tools") protocol
  let model := { modelSpec public_model_id with max_output_tokens := outputLimit protocol body }
  if history = [] then .error (.Protocol "at least one input message is required")
  else .ok ⟨public_model_id,⟨⟨instructions,tools⟩,model,history⟩,stream⟩

end Parser

end MyCursor.ByokProtocol

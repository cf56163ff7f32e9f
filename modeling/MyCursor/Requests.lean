import MyCursor.ProviderEvents
import MyCursor.Keyed

/-!
# The messages of a request

`anthropic_messages`, `openai_chat_messages` and `responses_input` turn a projected
history into what a provider is sent. A longer history begins with what was sent
for the shorter one, so that the provider's cache of it stays valid.
-/
namespace MyCursor.Requests
open Message Projection Compaction
open ProviderEvents (stringOf)
open CheckpointCodec (Serde object)
set_option linter.unusedSectionVars false

theorem map_ok {ε α β : Type} {x : Except ε α} {f : α → β} {b : β} : x.map f = .ok b ↔ ∃ a, x = .ok a ∧ f a = b := by
  cases x <;> simp [Except.map]

variable [Serde] [SerdeText]

def textBlock (kind text : String) : Value := object [("type",.String kind),("text",.String text)]

/-- Empty texts are left out; an image stands in a message of the user. -/
def anthropic_parts (role : Role) : List ContentPart → Except Error (List Value)
  | [] => .ok []
  | .Text text :: rest =>
    if text = "" then anthropic_parts role rest
    else (anthropic_parts role rest).map (textBlock "text" text :: ·)
  | .Image mime_type data :: rest =>
    if role = .User then
      let source := object [("type",.String "base64"),("media_type",.String mime_type),("data",.String (Base64.encode data))]
      (anthropic_parts role rest).map (object [("type",.String "image"),("source",source)] :: ·)
    else .error (.Protocol "Anthropic only accepts images in user messages")

structure AnthropicMessage where
  role : String
  content : List Value
deriving DecidableEq

def anthropic_role_name : Role → String
  | .System | .User | .Tool => "user"
  | .Assistant => "assistant"

def push_anthropic (output : List AnthropicMessage) (role : String) (content : List Value) : List AnthropicMessage :=
  match output.getLast? with
  | some last => if last.role = role then output.dropLast ++ [⟨role,last.content ++ content⟩] else output ++ [⟨role,content⟩]
  | none => [⟨role,content⟩]

def replayBlocks (replay_state : Option ProviderReplayState) : List Value :=
  (((replay_state.filter (·.provider_kind = "anthropic")).bind (Json.get ·.value "blocks")).bind Json.as_array).getD []
def toolUse (call : ToolCallContent) : Value :=
  object [("type",.String "tool_use"),("id",.String call.call_id),("name",.String call.name),("input",call.arguments)]
def toolResult (call_id : String) (content : Value) : Value :=
  object [("type",.String "tool_result"),("tool_use_id",.String call_id),("content",content)]

/-- The role and the blocks of a message; what has no blocks is left out. -/
def anthropic_message (message : ProjectedMessage) : Except Error (String × List Value) :=
  match message.content with
  | .Parts parts => (anthropic_parts message.role parts).map (anthropic_role_name message.role,·)
  | .ToolResult result =>
    let content := if result.provider_parts.isEmpty then .ok (.String result.content)
      else (anthropic_parts .User result.provider_parts).map .Array
    content.map fun content => ("user",[toolResult result.call_id content])
  | .Assistant text _ replay_state calls =>
    .ok ("assistant",replayBlocks replay_state ++ (if text = "" then [] else [textBlock "text" text]) ++ calls.map toolUse)
def anthropicFrom (output : List AnthropicMessage) : List ProjectedMessage → Except Error (List AnthropicMessage)
  | [] => .ok output
  | message :: rest =>
    match anthropic_message message with
    | .error error => .error error
    | .ok (_,[]) => anthropicFrom output rest
    | .ok (role,block :: blocks) => anthropicFrom (push_anthropic output role (block :: blocks)) rest
def anthropic_messages (messages : List ProjectedMessage) : Except Error (List AnthropicMessage) := anthropicFrom [] messages

def changeLast {α : Type} (condition : α → Bool) (change : α → α) (items : List α) : List α :=
  (go items.reverse).reverse
where
  go : List α → List α
    | [] => []
    | item :: rest => if condition item then change item :: rest else item :: go rest

def markable (block : Value) : Bool := stringOf block "type" ∈ [some "text",some "image",some "tool_result"]
def insertMarker : Value → Value
  | .Object members => .Object (Keyed.insertOrdered "cache_control" (object [("type",.String "ephemeral")]) members)
  | value => value
def mark_cache_breakpoint (messages : List AnthropicMessage) : List AnthropicMessage :=
  changeLast (·.role = "user") (fun message => { message with content := changeLast markable insertMarker message.content }) messages

def anthropicBody (messages : List ProjectedMessage) : Except Error (List AnthropicMessage) :=
  (anthropic_messages messages).map mark_cache_breakpoint

def role_name : Role → String
  | .System => "system"
  | .User => "user"
  | .Assistant => "assistant"
  | .Tool => "tool"

def isText : ContentPart → Bool
  | .Text _ => true
  | .Image _ _ => false
def textOf : ContentPart → String
  | .Text text => text
  | .Image _ _ => ""
def dataUrl (mime_type : String) (data : List UInt8) : String := s!"data:{mime_type};base64,{Base64.encode data}"

def chat_content (parts : List ContentPart) : Value :=
  if parts.all isText then .String (String.join (parts.map textOf))
  else .Array (parts.map fun
    | .Text text => textBlock "text" text
    | .Image mime_type data =>
      object [("type",.String "image_url"),("image_url",object [("url",.String (dataUrl mime_type data))])])
def openai_tool_call (call : ToolCallContent) : Value :=
  object [("id",.String call.call_id),("type",.String "function"),
    ("function",object [("name",.String call.name),("arguments",.String (SerdeText.value call.arguments))])]

/-- Chat Completions rejects an empty assistant content; an assistant with nothing
    to send is left out. -/
def chat_message (message : ProjectedMessage) : Option Value :=
  let role := ("role",Value.String (role_name message.role))
  match message.content with
  | .Parts parts => some (object [role,("content",chat_content parts)])
  | .Assistant text _ replay_state calls =>
    let reasoning := (((replay_state.filter (·.provider_kind = "openai_chat")).bind (Json.get ·.value "reasoning_content")).bind
      Json.as_str).filter (· ≠ "")
    if text = "" ∧ calls = [] ∧ reasoning = none then none
    else some (object ([role,("content",if text = "" then .Null else .String text)] ++
      (reasoning.map fun reasoning => ("reasoning_content",Value.String reasoning)).toList ++
      if calls = [] then [] else [("tool_calls",.Array (calls.map openai_tool_call))]))
  | .ToolResult result =>
    let content := if result.provider_parts.isEmpty then .String result.content else chat_content result.provider_parts
    some (object [role,("content",content),("tool_call_id",.String result.call_id)])
def openai_chat_messages (instructions : String) (messages : List ProjectedMessage) : List Value :=
  (if instructions = "" then [] else [object [("role",.String "system"),("content",.String instructions)]]) ++
    messages.filterMap chat_message

def response_reasoning_input (item : Value) : Except Error Value :=
  if stringOf item "type" = some "reasoning" then
    .ok (object (("type",.String "reasoning") :: ["id","summary","content","encrypted_content"].filterMap fun field =>
      (Json.get item field).map (field,·)))
  else .error (.Protocol "OpenAI Responses replay state contains a non-reasoning item")

def responses_content (parts : List ContentPart) (text_type : String) : List Value :=
  parts.filterMap fun
    | .Text text => if text = "" then none else some (textBlock text_type text)
    | .Image mime_type data =>
      some (object [("type",.String "input_image"),("detail",.String "auto"),("image_url",.String (dataUrl mime_type data))])
def text_type (role : Role) : String := if role = .Assistant then "output_text" else "input_text"
def responsesMessage (role : Role) (content : List Value) : Value :=
  object [("type",.String "message"),("role",.String (role_name role)),("content",.Array content)]

def replayItems (replay_state : Option ProviderReplayState) : Except Error (List Value) :=
  match replay_state.filter (·.provider_kind = "openai_responses") with
  | none => .ok []
  | some state =>
    match (Json.get state.value "items").bind Json.as_array with
    | none => .error (.Protocol "OpenAI Responses replay state is missing items")
    | some items => items.mapM response_reasoning_input
def functionCall (call : ToolCallContent) : Value :=
  object [("type",.String "function_call"),("call_id",.String call.call_id),("name",.String call.name),
    ("arguments",.String (SerdeText.value call.arguments))]
def responses_items (message : ProjectedMessage) : Except Error (List Value) :=
  match message.content with
  | .Parts parts =>
    let content := responses_content parts (text_type message.role)
    .ok (if content.isEmpty then [] else [responsesMessage message.role content])
  | .ToolResult result =>
    let output := if result.provider_parts.isEmpty then Value.String result.content
      else .Array (responses_content result.provider_parts "input_text")
    .ok [object [("type",.String "function_call_output"),("call_id",.String result.call_id),("output",output)]]
  | .Assistant text _ replay_state calls =>
    (replayItems replay_state).map fun items =>
      items ++ (if text = "" then [] else [responsesMessage message.role [textBlock (text_type message.role) text]]) ++
        calls.map functionCall
def responses_input : List ProjectedMessage → Except Error (List Value)
  | [] => .ok []
  | message :: rest =>
    match responses_items message with
    | .error error => .error error
    | .ok items => (responses_input rest).map (items ++ ·)

end MyCursor.Requests

import MyCursor.Base64
import MyCursor.Projection

/-!
# Checkpoint messages

`cursor/checkpoint/messages/encode.rs` and `decode.rs`: the provider's view of
a history is written message by message as JSON for the client, and a history
is restored from what the client sends back.
-/
namespace MyCursor.Json
open Message

/-- `Value::get` with a name. -/
def get (value : Value) (name : String) : Option Value :=
  match value with
  | .Object members => (members.find? (·.1 = name)).map (·.2)
  | _ => none
def as_str : Value → Option String
  | .String value => some value
  | _ => none
def as_bool : Value → Option Bool
  | .Bool value => some value
  | _ => none
def as_array : Value → Option (List Value)
  | .Array items => some items
  | _ => none
def as_u64 : Value → Option Nat
  | .Number (.PosInt value) => some value
  | _ => none
/-- `Value::pointer` with names. -/
def pointer (value : Value) (path : List String) : Option Value := path.foldlM get value

@[simp] theorem get_nil (name : String) : get (.Object []) name = none := rfl
@[simp] theorem get_cons (member : String × Value) (members : List (String × Value)) (name : String) :
    get (.Object (member :: members)) name = if member.1 = name then some member.2 else get (.Object members) name := by
  unfold get
  by_cases same : member.1 = name <;> simp [same]

theorem find_name_iff {members : List (String × Value)} (distinct : (members.map (·.1)).Nodup) (name : String)
    (member : String × Value) : members.find? (·.1 = name) = some member ↔ member ∈ members ∧ member.1 = name := by
  constructor
  · intro found
    exact ⟨List.mem_of_find?_eq_some found,by simpa using List.find?_some found⟩
  · rintro ⟨isMember,rfl⟩
    induction members with
    | nil => cases isMember
    | cons first rest ih =>
      rw [List.map_cons,List.nodup_cons] at distinct
      rcases List.mem_cons.mp isMember with rfl | later
      · simp
      · have different : first.1 ≠ member.1 := fun same => distinct.1 (same ▸ List.mem_map_of_mem later)
        rw [List.find?_cons_of_neg (by simpa using different)]
        exact ih distinct.2 later

end MyCursor.Json

namespace MyCursor.CheckpointCodec
open Message Projection Text

/-- What `serde_json` and SHA-256 make of their inputs, and the texts of
    base 64 errors. The members of a map stand in the order of their insertion
    or of their names, as the features of `serde_json` have it. -/
class Serde where
  order : List (String × Value) → List (String × Value)
  order_perm : ∀ members, (order members).Perm members
  to_vec : Value → List UInt8
  from_slice : List UInt8 → Except String Value
  replay_to_vec : ProviderReplayState → List UInt8
  replay_from_slice : List UInt8 → Except String ProviderReplayState
  base64_error : String → String
  digest : List UInt8 → List UInt8

variable [Serde]

def object (members : List (String × Value)) : Value := .Object (Serde.order members)
@[simp] theorem get_object {members : List (String × Value)} (distinct : (members.map (·.1)).Nodup) (name : String) :
    Json.get (object members) name = Json.get (.Object members) name := by
  have perm := Serde.order_perm members
  have distinctOrdered := (perm.map (·.1)).nodup_iff.mpr distinct
  simp only [Json.get,object]
  congr 1
  refine Option.ext fun member => ?_
  rw [Json.find_name_iff distinctOrdered,Json.find_name_iff distinct,perm.mem_iff]
def insert (members : List (String × Value)) (name : String) (value : Value) : List (String × Value) :=
  if members.any (·.1 = name) then members.map fun member => if member.1 = name then (name,value) else member
  else members ++ [(name,value)]

def REPLAY_ENVELOPE_PREFIX : String := "cursor-byok:v1:"

/-- What is staged with calls that are still to be executed. -/
structure PendingContext where
  allowed_tools : List String
  dynamic_tools : List String
  started_at_ms : Nat
  tool_calls : Option (List ToolCall)

def role_name : Role → String
  | .System => "system"
  | .User => "user"
  | .Assistant => "assistant"
  | .Tool => "tool"

def wire_message_id (message : ProjectedMessage) : String :=
  match message.content with
  | .Assistant _ _ _ _ => "1"
  | .ToolResult result => result.call_id
  | .Parts _ => message.message_id

def is_ascii_uppercase (c : Char) : Bool := 'A' ≤ c && c ≤ 'Z'
def to_ascii_uppercase (c : Char) : Char := if 'a' ≤ c ∧ c ≤ 'z' then Char.ofNat (c.toNat - 32) else c
def tool_identifier (name : String) (dynamic_tools : List String) : String :=
  if dynamic_tools.contains name then name
  else if name = "CallMcpTool" ∨ name = "SembleSearch" ∨ name = "SembleFindRelated" then "MCP"
  else if name = "CreatePlan" then "CREATE_PLAN_V2"
  else if name = "UpdateCurrentStep" then "COMMUNICATE_UPDATE"
  else String.ofList (name.toList.zipIdx.flatMap fun (character,index) =>
    (if 0 < index ∧ is_ascii_uppercase character then ['_'] else []) ++ [to_ascii_uppercase character])

def argumentError (pending : PendingContext) (call_id : String) : Option String :=
  (pending.tool_calls.bind fun calls => calls.find? (·.call_id = call_id)).bind (·.argument_error)
def executionContract (pending : PendingContext) (call : ToolCallContent) : Value :=
  object ([("toolCallId",.String call.call_id),("outerToolName",.String call.name),
    ("toolIdentifier",.String (tool_identifier call.name pending.dynamic_tools)),
    ("isDynamic",.Bool (pending.dynamic_tools.contains call.name)),
    ("allowedToolNames",.Array (pending.allowed_tools.map .String))] ++
    (argumentError pending call.call_id).toList.map fun error => ("argumentError",.String error))
def pendingOptions (pending : PendingContext) (calls : List ToolCallContent) : Value :=
  object [("pendingToolCallStartedAtMs",.Number (.PosInt pending.started_at_ms)),
    ("pendingToolExecutionContracts",object (calls.foldl (fun contracts call =>
      insert contracts call.call_id (executionContract pending call)) []))]

def encode_replay_state (replay_state : ProviderReplayState) : Except Error String :=
  if replay_state.provider_kind = "cursor_opaque" then
    match Json.as_str replay_state.value with
    | some text => .ok text
    | none => .error (.Protocol "Cursor opaque replay state is not a string")
  else .ok (REPLAY_ENVELOPE_PREFIX ++ Base64.encode (Serde.replay_to_vec replay_state))

def wirePart : ContentPart → Value
  | .Text text => object [("type",.String "text"),("text",.String text)]
  | .Image mime_type data =>
    object [("type",.String "image"),("image",.String (Base64.encode data)),("mimeType",.String mime_type)]
def wireCall (call : ToolCallContent) : Value :=
  object [("type",.String "tool-call"),("toolCallId",.String call.call_id),("toolName",.String call.name),
    ("args",call.arguments)]
def reasoningPart (thinking : String) (signature : Option String) (model : String) : Value :=
  object ([("type",.String "reasoning"),("text",.String thinking),
    ("providerOptions",object [("cursor",object [("modelName",.String model)])])] ++
    signature.toList.map fun signature => ("signature",.String signature))

def wire_content (content : ProjectedContent) (model : String) : Except Error Value :=
  match content with
  | .Parts parts => .ok (.Array (parts.map wirePart))
  | .Assistant text thinking replay_state calls => do
    let signature ← replay_state.mapM encode_replay_state
    let reasoning := if thinking.isEmpty && replay_state.isNone then [] else [reasoningPart thinking signature model]
    let visible := if text.isEmpty then [] else [wirePart (.Text text)]
    .ok (.Array (reasoning ++ visible ++ calls.map wireCall))
  | .ToolResult result =>
    .ok (.Array [object [("type",.String "tool-result"),("toolCallId",.String result.call_id),
      ("toolName",.String result.name),("result",.String result.content),
      ("experimental_content",.Array [object [("type",.String "text"),("text",.String result.content)]]),
      ("isError",.Bool result.is_error)]])

def wire_message (message : ProjectedMessage) (model : String) (pending : Option PendingContext) : Except Error Value := do
  let content ← wire_content message.content model
  let options := match message.content, pending with
    | .Assistant _ _ _ calls, some pending =>
      [("providerOptions",object [("cursor",pendingOptions pending calls)])]
    | _, _ => []
  .ok (object ([("role",.String (role_name message.role)),("content",content),
    ("id",.String (wire_message_id message))] ++ options))

/-- The prompt stands before the history when there is one. -/
def promptRoots (instructions : String) : List ProjectedMessage :=
  if instructions.isEmpty then [] else [⟨"system",.System,.Parts [.Text instructions]⟩]
def wireBytes (model : String) (message : ProjectedMessage) : Except Error (List UInt8) := do
  let value ← wire_message message model none
  .ok (Serde.to_vec value)
def stable_messages (instructions : String) (messages : List CanonicalMessage) (model : String) : Except Error (List (List UInt8)) := do
  let projected ← project_messages messages
  (promptRoots instructions ++ projected).mapM (wireBytes model)

def required_string (value : Value) (name : String) : Except Error String :=
  match (Json.get value name).bind Json.as_str with
  | some text => .ok text
  | none => .error (.Protocol s!"Cursor message is missing {name}")

def decodePart (part : Value) : Except Error ContentPart :=
  match (Json.get part "type").bind Json.as_str with
  | none => .error (.Protocol "Cursor message content part is missing type")
  | some kind =>
    if kind = "text" then do
      let text ← required_string part "text"
      .ok (.Text text)
    else if kind = "image" then do
      let mime_type ← required_string part "mimeType"
      let encoded ← required_string part "image"
      match Base64.decode encoded with
      | some data => .ok (.Image mime_type data)
      | none => .error (.Protocol s!"invalid Cursor image base64: {Serde.base64_error encoded}")
    else .error (.Protocol s!"unsupported Cursor message content part: {kind}")
def decode_text (value : Value) : Except Error MessageContent :=
  let content := (Json.get value "content").getD .Null
  match Json.as_str content with
  | some text => .ok (.Parts [.Text text])
  | none =>
    match Json.as_array content with
    | none => .error (.Protocol "Cursor message content is not an array")
    | some parts => do
      let parts ← parts.mapM decodePart
      .ok (.Parts parts)

/-- `str::strip_prefix`. -/
def stripPrefix (text start : String) : Option String :=
  if starts_with text start then some (String.ofList (text.toList.drop start.toList.length)) else none

def decode_replay_state (signature : String) : Except Error ProviderReplayState :=
  match stripPrefix signature REPLAY_ENVELOPE_PREFIX with
  | none => .ok ⟨"cursor_opaque",.String signature⟩
  | some encoded =>
    match Base64.decode encoded with
    | none => .error (.Protocol s!"invalid My Cursor replay envelope base64: {Serde.base64_error encoded}")
    | some bytes =>
      match Serde.replay_from_slice bytes with
      | .ok replay_state => .ok replay_state
      | .error error => .error (.Protocol s!"invalid My Cursor replay envelope: {error}")

structure DecodedAssistant where
  text : String := ""
  thinking : String := ""
  calls : List ToolCallContent := []
  replay_state : Option ProviderReplayState := none

def textOf (part : Value) : String := ((Json.get part "text").bind Json.as_str).getD ""
def decodeReasoning (decoded : DecodedAssistant) (part : Value) : Except Error DecodedAssistant :=
  let decoded := { decoded with thinking := decoded.thinking ++ textOf part }
  match (Json.get part "signature").bind Json.as_str with
  | none => .ok decoded
  | some signature =>
    if decoded.replay_state.isSome then .error (.Protocol "Cursor assistant has multiple reasoning signatures")
    else do
      let replay_state ← decode_replay_state signature
      .ok { decoded with replay_state := some replay_state }
def decodeCall (decoded : DecodedAssistant) (part : Value) : Except Error DecodedAssistant := do
  let call_id ← required_string part "toolCallId"
  let name ← required_string part "toolName"
  .ok { decoded with calls := decoded.calls ++ [⟨decoded.calls.length,call_id,name,(Json.get part "args").getD .Null⟩] }
def decodeAssistantPart (decoded : DecodedAssistant) (part : Value) : Except Error DecodedAssistant :=
  match (Json.get part "type").bind Json.as_str with
  | none => .ok decoded
  | some kind =>
    if kind = "text" then .ok { decoded with text := decoded.text ++ textOf part }
    else if kind = "reasoning" then decodeReasoning decoded part
    else if kind = "tool-call" then decodeCall decoded part
    else .ok decoded
def decode_assistant (value : Value) (internal_id : String) : Except Error MessageContent := do
  let parts := ((Json.get value "content").bind Json.as_array).getD []
  let decoded ← parts.foldlM decodeAssistantPart {}
  .ok (.Assistant decoded.text decoded.thinking
    (if decoded.calls.isEmpty then none else some s!"{internal_id}:tool-round") decoded.replay_state decoded.calls)

def decode_tool_result (value : Value) : Except Error ToolResultContent :=
  match ((Json.get value "content").bind Json.as_array).bind (·.head?) with
  | none => .error (.Protocol "Cursor tool message has no result part")
  | some part => do
    let call_id ← required_string part "toolCallId"
    let name ← required_string part "toolName"
    .ok ⟨call_id,name,((Json.get part "result").bind Json.as_str).getD "",((Json.get part "isError").bind Json.as_bool).getD false,none⟩

def decode_role (name : String) : Except Error Role :=
  if name = "system" then .ok .System
  else if name = "user" then .ok .User
  else if name = "assistant" then .ok .Assistant
  else if name = "tool" then .ok .Tool
  else .error (.Protocol s!"unknown Cursor message role: {name}")
def decode_origin (role : Role) (wire_id : String) : Origin :=
  match role with
  | .System => .Prompt
  | .Assistant => .Assistant
  | .Tool => .Tool
  | .User =>
    if starts_with wire_id "runtime:" then .Runtime
    else if starts_with wire_id "request-context:" || starts_with wire_id "selected-context:" then .Prompt
    else .User
def decode_content (role : Role) (value : Value) (internal_id : String) : Except Error MessageContent :=
  match role with
  | .Assistant => decode_assistant value internal_id
  | .Tool => do
    let result ← decode_tool_result value
    .ok (.ToolResult result)
  | .System | .User => decode_text value

def decode (data : List UInt8) (internal_id : String) : Except Error CanonicalMessage := do
  let value ← (Serde.from_slice data).mapError .Json
  let role ← do
    let name ← required_string value "role"
    decode_role name
  let wire_id := ((Json.get value "id").bind Json.as_str).getD ""
  let is_request_context := decide (role = .User) && starts_with wire_id "request-context:"
  let runtime_event_id := stripPrefix wire_id "runtime:"
  let content ← decode_content role value internal_id
  .ok { message_id := if runtime_event_id.isSome || is_request_context then wire_id else internal_id, role,
        origin := decode_origin role wire_id, content, runtime_event_id }

/-- The id of the root message with the given content and place. -/
def rootId (data : List UInt8) (ordinal : Nat) : String := s!"cursor-root:{Base64.encode (Serde.digest data)}:{ordinal}"

/-- `hydrate_messages` over the contents of the root blobs, which are stored
    under their digests. -/
def hydrate_messages (blobs : List (List UInt8)) : Except Error (List CanonicalMessage) :=
  blobs.zipIdx.mapM fun (data,ordinal) => decode data (rootId data ordinal)
/-- The prompt root is no part of the restored history. -/
def withoutPrompt (messages : List CanonicalMessage) : List CanonicalMessage :=
  messages.filter fun message => !(decide (message.role = .System) && decide (message.origin = .Prompt))

end MyCursor.CheckpointCodec

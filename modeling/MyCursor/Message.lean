import Mathlib.Data.List.Basic

/-!
# Messages

The canonical messages of `model/message.rs` and the tool calls and results of
`model/tool.rs`, over the JSON values of `serde_json`. `provider_parts` of a
tool result is skipped by the serialiser and empty on every stored message, so
it is not a part of the canonical type; `MyCursor.Projection` has it.
-/
namespace MyCursor.Message

/-- `serde_json::Number`: an integer, or the bits of a finite float. -/
inductive Number where
  | PosInt (value : Nat)
  | NegInt (value : Int)
  | Float (bits : UInt64)
deriving DecidableEq

/-- `serde_json::Value`. The members of an object stand in the order of the map. -/
inductive Value where
  | Null
  | Bool (value : Bool)
  | Number (value : Number)
  | String (value : String)
  | Array (items : List Value)
  | Object (members : List (String × Value))

mutual
def decEqValue : (a b : Value) → Decidable (a = b)
  | .Null, .Null => isTrue rfl
  | .Bool a, .Bool b => decidable_of_iff (a = b) (by simp)
  | .Number a, .Number b => decidable_of_iff (a = b) (by simp)
  | .String a, .String b => decidable_of_iff (a = b) (by simp)
  | .Array a, .Array b => @decidable_of_iff _ (a = b) (by simp) (decEqItems a b)
  | .Object a, .Object b => @decidable_of_iff _ (a = b) (by simp) (decEqMembers a b)
  | .Null, .Bool _ | .Null, .Number _ | .Null, .String _ | .Null, .Array _ | .Null, .Object _
  | .Bool _, .Null | .Bool _, .Number _ | .Bool _, .String _ | .Bool _, .Array _ | .Bool _, .Object _
  | .Number _, .Null | .Number _, .Bool _ | .Number _, .String _ | .Number _, .Array _ | .Number _, .Object _
  | .String _, .Null | .String _, .Bool _ | .String _, .Number _ | .String _, .Array _ | .String _, .Object _
  | .Array _, .Null | .Array _, .Bool _ | .Array _, .Number _ | .Array _, .String _ | .Array _, .Object _
  | .Object _, .Null | .Object _, .Bool _ | .Object _, .Number _ | .Object _, .String _ | .Object _, .Array _ =>
    isFalse (by simp)
def decEqItems : (a b : List Value) → Decidable (a = b)
  | [], [] => isTrue rfl
  | x :: xs, y :: ys =>
    @decidable_of_iff _ (x = y ∧ xs = ys) (by simp) (@instDecidableAnd _ _ (decEqValue x y) (decEqItems xs ys))
  | [], _ :: _ | _ :: _, [] => isFalse (by simp)
def decEqMembers : (a b : List (String × Value)) → Decidable (a = b)
  | [], [] => isTrue rfl
  | (k,x) :: xs, (l,y) :: ys =>
    @decidable_of_iff _ (k = l ∧ x = y ∧ xs = ys) (by simp [and_assoc]) (@instDecidableAnd _ _ inferInstance
      (@instDecidableAnd _ _ (decEqValue x y) (decEqMembers xs ys)))
  | [], _ :: _ | _ :: _, [] => isFalse (by simp)
end
instance : DecidableEq Value := decEqValue

abbrev ConversationId := String
abbrev RunId := String
abbrev ToolRoundId := String

inductive Role where
  | System
  | User
  | Assistant
  | Tool
deriving DecidableEq

inductive Origin where
  | Prompt
  | User
  | Runtime
  | Assistant
  | Tool
deriving DecidableEq

structure ToolCallContent where
  index : Nat
  call_id : String
  name : String
  arguments : Value
deriving DecidableEq

structure ToolImageReference where
  blob_id : String
  mime_type : String
  path : String
deriving DecidableEq

structure ToolResultContent where
  call_id : String
  name : String
  content : String
  is_error : Bool
  image : Option ToolImageReference
deriving DecidableEq

structure ProviderReplayState where
  provider_kind : String
  value : Value
deriving DecidableEq

inductive ContentPart where
  | Text (text : String)
  | Image (mime_type : String) (data : List UInt8)
deriving DecidableEq

inductive MessageContent where
  | Parts (parts : List ContentPart)
  | Assistant (text thinking : String) (tool_round_id : Option ToolRoundId)
      (replay_state : Option ProviderReplayState) (tool_calls : List ToolCallContent)
  | ToolResult (result : ToolResultContent)
deriving DecidableEq

structure CanonicalMessage where
  message_id : String
  role : Role
  origin : Origin
  content : MessageContent
  runtime_event_id : Option String
deriving DecidableEq

/-- `CanonicalMessage::text`. -/
def text (message_id : String) (role : Role) (origin : Origin) (text : String) : CanonicalMessage :=
  { message_id, role, origin, content := .Parts [.Text text], runtime_event_id := none }

structure RuntimeEvent where
  event_id : String
  text : String
deriving DecidableEq

/-- `RuntimeEvent::into_message`. -/
def RuntimeEvent.into_message (event : RuntimeEvent) : CanonicalMessage :=
  { message_id := "runtime:" ++ event.event_id, role := .User, origin := .Runtime,
    content := .Parts [.Text event.text], runtime_event_id := some event.event_id }

/-- A call as the model made it. `arguments_text` is what the model streamed. -/
structure ToolCall where
  index : Nat
  call_id : String
  model_call_id : String
  name : String
  arguments_text : String
  arguments : Value
  argument_error : Option String
deriving DecidableEq

structure ToolResult where
  call_id : String
  content : String
  is_error : Bool
  image : Option ToolImageReference
deriving DecidableEq

structure ToolRoundAssistant where
  text : String
  thinking : String
  model_call_id : String
  replay_state : Option ProviderReplayState
deriving DecidableEq

end MyCursor.Message

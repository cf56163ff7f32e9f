import MyCursor.Projection

/-!
# When and how a history is compacted

`model/token_count.rs`, `run/history.rs` and `run/compaction.rs`: the estimate
of a request's size, the tail that makes a history end with a user message,
and the parts of a history that a compaction summarises.
-/
namespace MyCursor.Compaction
open Message Projection Text

structure ToolDefinition where
  name : String
  description : String
  parameters : Value
deriving DecidableEq

structure PromptSpec where
  instructions : String
  tools : List ToolDefinition
deriving DecidableEq

structure ReasoningSpec where
  enabled : Bool
  effort : Option String
deriving DecidableEq

/-- The fields of `ModelSpec` that a run reads or changes; the others are
    passed on in `other`. -/
structure ModelSpec where
  model_id : String
  reasoning : ReasoningSpec
  max_output_tokens : Option Nat
  context_window_tokens : Option Nat
  other : Value
deriving DecidableEq

structure ModelRequest where
  prompt : PromptSpec
  model : ModelSpec
  history : List ProjectedMessage
deriving DecidableEq

/-- Appends a user message when the history ends with the assistant. -/
def user_terminated (history : List ProjectedMessage) (message_id text : String) : List ProjectedMessage :=
  match history.getLast? with
  | some last =>
    if last.role = .Assistant then history ++ [⟨message_id,.User,.Parts [.Text text]⟩] else history
  | none => history

theorem user_terminated_take (history : List ProjectedMessage) (message_id text : String) :
    (user_terminated history message_id text).take history.length = history := by
  unfold user_terminated
  split
  · split_ifs
    · simp
    · simp
  · simp

/-- What `serde_json::to_string` gives for the values that are measured or
    quoted. -/
class SerdeText where
  value : Value → String
  tool : ToolDefinition → String
  messages : List CanonicalMessage → String
variable [SerdeText]

def TOKENS_PER_MESSAGE_OVERHEAD : Nat := 8
def TOKENS_PER_TOOL_CALL_OVERHEAD : Nat := 6
def TOKENS_PER_IMAGE : Nat := 1024

def estimate_text_tokens (text : String) : Nat :=
  let text := trim text
  if text.isEmpty then 0
  else max (saturating_add ((text.toList.length + 3) / 4) (text.toList.count '\n')) 1

def estimate_parts_tokens (parts : List ContentPart) : Nat :=
  parts.foldl (fun total part => saturating_add total (match part with
    | .Text text => estimate_text_tokens text
    | .Image mime_type _ => saturating_add TOKENS_PER_IMAGE (estimate_text_tokens mime_type))) 0

def estimate_call_tokens (call : ToolCallContent) (total : Nat) : Nat :=
  saturating_add (saturating_add (saturating_add (saturating_add total TOKENS_PER_TOOL_CALL_OVERHEAD)
    (estimate_text_tokens call.call_id)) (estimate_text_tokens call.name))
    (estimate_text_tokens (SerdeText.value call.arguments))

def estimate_result_tokens (result : ProjectedToolResult) : Nat :=
  let content :=
    if result.provider_parts.isEmpty then
      saturating_add (estimate_text_tokens result.content) (match result.image with
        | some image => saturating_add TOKENS_PER_IMAGE (estimate_text_tokens image.mime_type)
        | none => 0)
    else estimate_parts_tokens result.provider_parts
  saturating_add (saturating_add (estimate_text_tokens result.call_id) (estimate_text_tokens result.name)) content

def estimate_message_tokens (message : ProjectedMessage) : Nat :=
  saturating_add TOKENS_PER_MESSAGE_OVERHEAD (match message.content with
    | .Parts parts => estimate_parts_tokens parts
    | .Assistant text thinking _ calls =>
      saturating_add (saturating_add (estimate_text_tokens text) (estimate_text_tokens thinking))
        (calls.foldl (fun total call => estimate_call_tokens call total) 0)
    | .ToolResult result => estimate_result_tokens result)

def estimate_projected_messages_tokens (messages : List ProjectedMessage) : Nat :=
  messages.foldl (fun total message => saturating_add total (estimate_message_tokens message)) 0

def estimate_context_tokens (prompt : PromptSpec) (messages : List ProjectedMessage) : Nat :=
  let tools := prompt.tools.foldl (fun total tool => saturating_add total (estimate_text_tokens (SerdeText.tool tool))) 0
  saturating_add (saturating_add (estimate_text_tokens prompt.instructions) tools)
    (estimate_projected_messages_tokens messages)

def FALLBACK_CHARS : Nat := 12000
def CONTEXT_RESERVE_DIVISOR : Nat := 10
def OUTPUT_TOKENS : Nat := 4096
def INSTRUCTIONS : String := "Summarize the conversation for the next model turn. Preserve goals, constraints, decisions, files, commands, errors, results, and unfinished work. Do not call tools. Return only the concise durable summary."

def context_budget (context_window : Nat) : Nat := context_window - context_window / CONTEXT_RESERVE_DIVISOR
def input_budget (model : ModelSpec) : Option Nat := model.context_window_tokens.map context_budget

def is_context_overflow (message : String) : Bool :=
  let lowered := to_ascii_lowercase message
  contains lowered "prompt is too long" || contains lowered "context window exceeded" ||
    contains lowered "model_context_window_exceeded" || contains lowered "context_length_exceeded" ||
    (contains lowered "maximum context length" && contains lowered "token")

def is_turn_boundary (message : ProjectedMessage) : Bool :=
  message.role = .User && (match message.content with
    | .Parts _ => true
    | _ => false)

/-- The walk of `trim_to_context` over the turn boundaries from the newest on:
    the place where the newest turn begins, and how many messages are kept. -/
def walkBack (history : List ProjectedMessage) (budget : Nat) : List Nat → Option Nat → Nat → Option Nat × Nat
  | [], newest_turn, kept => (newest_turn,kept)
  | index :: older, newest_turn, kept =>
    let newest_turn := some (newest_turn.getD index)
    if budget < estimate_projected_messages_tokens (history.drop index) then (newest_turn,kept)
    else walkBack history budget older newest_turn (history.length - index)

def trim_to_context (history : List ProjectedMessage) (context_window : Option Nat) : List ProjectedMessage :=
  let budget := ((context_window.filter (0 < ·)).map fun window => context_budget window - OUTPUT_TOKENS).filter (0 < ·)
  match budget with
  | none => history
  | some budget =>
    if estimate_projected_messages_tokens history ≤ budget then history
    else
      let boundaries := ((List.range history.length).filter fun index => (history[index]?).any is_turn_boundary).reverse
      let (newest_turn,kept) := walkBack history budget boundaries none 0
      if kept = 0 then history.drop (newest_turn.getD 0) else history.drop (history.length - kept)

def compaction_history (history : List ProjectedMessage) (context_window : Option Nat) : List ProjectedMessage :=
  user_terminated (trim_to_context history context_window) "compaction:instruction" INSTRUCTIONS

structure ContextUsageAnchor where
  context_input_tokens : Nat
  message_count : Nat
deriving DecidableEq

def estimated_tokens (prompt : PromptSpec) (projected_messages : List ProjectedMessage) (anchor : Option ContextUsageAnchor) : Nat :=
  match anchor.filter (·.message_count ≤ projected_messages.length) with
  | some anchor =>
    saturating_add anchor.context_input_tokens
      (estimate_projected_messages_tokens (projected_messages.drop anchor.message_count))
  | none => estimate_context_tokens prompt projected_messages

def compaction_estimate (prompt : PromptSpec) (model : ModelSpec) (projected_messages : List ProjectedMessage)
    (anchor : Option ContextUsageAnchor) : Option Nat :=
  match input_budget model with
  | none => none
  | some budget =>
    let estimated := estimated_tokens prompt projected_messages anchor
    if budget < estimated then some estimated else none

def validate_compacted (prompt : PromptSpec) (model : ModelSpec) (projected_messages : List ProjectedMessage) : Except String Nat :=
  let estimated := estimate_context_tokens prompt projected_messages
  match input_budget model with
  | none => .ok estimated
  | some budget =>
    if estimated ≤ budget then .ok estimated
    else .error
      s!"context overflow after compaction: estimated input {estimated} tokens exceeds budget {budget} tokens"

/-- `rposition` of the last request context. -/
def latestRequestContext (messages : List CanonicalMessage) : Option Nat :=
  ((List.range messages.length).reverse).find? fun index =>
    (messages[index]?).any fun m => starts_with m.message_id "request-context:"

def partition (messages : List CanonicalMessage) (current_ids : List String) : List CanonicalMessage × Option CanonicalMessage :=
  let latest_request_context := latestRequestContext messages
  let compactable := messages.zipIdx.filter fun (m,index) =>
    decide (some index ≠ latest_request_context) && !current_ids.contains m.message_id
  let retained := (latest_request_context.bind fun index => messages[index]?).filter fun m =>
    !current_ids.contains m.message_id
  (compactable.map (·.1),retained)

def fallback_summary (messages : List CanonicalMessage) : String :=
  let serialized := (SerdeText.messages messages).toList
  "Durable recent conversation state:\n" ++ String.ofList (serialized.drop (serialized.length - FALLBACK_CHARS))

end MyCursor.Compaction

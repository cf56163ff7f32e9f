import MyCursor.Fallible
import MyCursor.ToolResults
import Mathlib.Tactic.MkIffOfInductiveProp

/-!
# Starting a tool call

`ToolDispatcher::start` of `cursor/tools/mod.rs` with `tool_call_dispatch` and the
reservations of `cursor/tools/runtime.rs`: a call is prepared, shown to the client
and handed to what executes it. Executions and questions get their id before their
message is encoded.
-/
namespace MyCursor.ToolStarts
open Message ToolRequests ToolCards ToolResults Compaction Fallible

inductive ExecStage where
  | Direct
  | DynamicMcp (definition : McpToolDefinition)
  | EditRead
deriving DecidableEq

structure PendingExec where
  call : ToolCall
  context : ExecContext
  stage : ExecStage

def keys {α : Type} (entries : List (Nat × α)) : List Nat := entries.map (·.1)

/-- The executions and questions that wait for the client. Their ids were given out
    by the counter. -/
structure Runtime where
  next_id : Nat
  execs : List (Nat × PendingExec)
  interactions : List (Nat × ToolCall)
  known : ∀ id ∈ keys execs ++ keys interactions, id ≤ next_id

def u32Max : Nat := 2 ^ 32 - 1
def exhausted : Error := .Protocol "Cursor message id space exhausted"

theorem known_exec {r : Runtime} (entry : PendingExec) :
    ∀ id ∈ keys ((r.next_id + 1,entry) :: r.execs) ++ keys r.interactions, id ≤ r.next_id + 1 := by
  intro id member
  rcases List.mem_cons.mp member with rfl | member
  · exact le_rfl
  · exact (r.known id member).trans (Nat.le_succ _)
theorem known_interaction {r : Runtime} (call : ToolCall) :
    ∀ id ∈ keys r.execs ++ keys ((r.next_id + 1,call) :: r.interactions), id ≤ r.next_id + 1 := by
  intro id member
  rcases List.mem_append.mp member with exec | question
  · exact (r.known id (List.mem_append_left _ exec)).trans (Nat.le_succ _)
  · rcases List.mem_cons.mp question with rfl | question
    · exact le_rfl
    · exact (r.known id (List.mem_append_right _ question)).trans (Nat.le_succ _)

/-- `reserve_exec_stage`: the next id is new, so the map has no entry of it. -/
def reserve_exec_stage (r : Runtime) (call : ToolCall) (context : ExecContext) (stage : ExecStage) : Except Error Nat × Runtime :=
  if r.next_id < u32Max then
    (.ok (r.next_id + 1),⟨r.next_id + 1,(r.next_id + 1,⟨call,context,stage⟩) :: r.execs,r.interactions,known_exec _⟩)
  else (.error exhausted,r)
def reserve_interaction (r : Runtime) (call : ToolCall) : Except Error Nat × Runtime :=
  if r.next_id < u32Max then
    (.ok (r.next_id + 1),⟨r.next_id + 1,r.execs,(r.next_id + 1,call) :: r.interactions,known_interaction _⟩)
  else (.error exhausted,r)

inductive ServerMessage where
  | ToolCallStarted (call_id : String) (card : Card) (model_call_id : String)
  | ExecServerMessage (message : ExecServerMessage)
  | InteractionQuery (query : InteractionQuery)
deriving DecidableEq

structure Search where
  tool_name : String
  call : ToolCall
deriving DecidableEq

structure ToolStart where
  messages : List ServerMessage := []
  completion : Option ToolCompletion := none
  search : Option Search := none
deriving DecidableEq

section Dispatch
variable [Paths] [SerdeText]

def sendReserved (encode : Nat → Except Error ServerMessage) : Except Error Nat × Runtime → Except Error ToolStart × Runtime
  | (.error error,r) => (.error error,r)
  | (.ok id,r) => ((encode id).map fun message => { messages := [message] },r)
def answered (r : Runtime) (completion : Except Error ToolCompletion) : Except Error ToolStart × Runtime :=
  (completion.map fun completion => { completion := some completion },r)

def required (call : ToolCall) (name : String) : Except Error String :=
  match (optional_string call name).filter (! ·.isEmpty) with
  | some value => .ok value
  | none => .error (missing call name)

/-- `tool_call_dispatch::exec::start`. -/
def exec_start (r : Runtime) (name : String) (call : ToolCall) (context : ExecContext) : Except Error ToolStart × Runtime :=
  if normalized name = "getmcptools" then
    sendReserved (fun id => .ok (.ExecServerMessage (mcp_state_request id call))) (reserve_exec_stage r call context .Direct)
  else if normalized name = "callmcptool" then
    match required call "server", required call "toolName" with
    | .error error, _ => (.error error,r)
    | .ok _, .error error => (.error error,r)
    | .ok server, .ok tool =>
      match context.mcp_routes (server,tool) with
      | none => answered r (.ok (mcp_failure call s!"MCP descriptor not found for {server}/{tool}"))
      | some route => sendReserved (fun id => (mcp_meta_request id call server route).map .ExecServerMessage)
          (reserve_exec_stage r call context .Direct)
  else sendReserved (fun id => (request name id call context).map .ExecServerMessage) (reserve_exec_stage r call context .Direct)

def start_dynamic (r : Runtime) (call : ToolCall) (definition : McpToolDefinition) (context : ExecContext) :
    Except Error ToolStart × Runtime :=
  sendReserved (fun id => .ok (.ExecServerMessage (mcp_request id call definition)))
    (reserve_exec_stage r call context (.DynamicMcp definition))

/-- `tool_call_dispatch::edit::start`. -/
def edit_start (r : Runtime) (name : String) (call : ToolCall) (context : ExecContext) : Except Error ToolStart × Runtime :=
  sendReserved (fun id => (edit_read_request name id call).map .ExecServerMessage) (reserve_exec_stage r call context .EditRead)

/-- `tool_call_dispatch::interaction::start`. -/
def interaction_start (r : Runtime) (name : String) (call : ToolCall) : Except Error ToolStart × Runtime :=
  sendReserved (fun id => (tool_query name id call).map .InteractionQuery) (reserve_interaction r call)

def search_start (name : String) (call : ToolCall) : ToolStart := { search := some ⟨normalized name,call⟩ }

def is_shell_tool (name : String) : Bool := normalized name = "shell" || normalized name = "bash"

/-- The whole number that the bits of a float are, if they are one. -/
def wholeFloat (bits : UInt64) : Option Int :=
  let fraction := bits.toNat % 2 ^ 52
  let exponent := bits.toNat / 2 ^ 52 % 2 ^ 11
  let (mantissa,shift) := if exponent = 0 then (fraction,1) else (fraction + 2 ^ 52,exponent)
  -- the absolute value is `mantissa * 2 ^ (shift - 1075)`
  let magnitude : Option Nat :=
    if exponent = 2047 then none
    else if 1075 ≤ shift then some (mantissa * 2 ^ (shift - 1075))
    else if mantissa % 2 ^ (1075 - shift) = 0 then some (mantissa / 2 ^ (1075 - shift))
    else none
  magnitude.map fun magnitude => if 2 ^ 63 ≤ bits.toNat then -(magnitude : Int) else magnitude
/-- The float next to an integer from `2 ^ 63` on. -/
def nearestFloat (value : Nat) : Nat :=
  if value % 2048 < 1024 ∨ (value % 2048 = 1024 ∧ value / 2048 % 2 = 0) then value / 2048 * 2048 else (value / 2048 + 1) * 2048

/-- A number that is not an `i64`, as `as_f64` has it: no number, not whole, or a
    whole number. -/
def floatOf : Value → Option Int
  | .Number (.Float bits) => wholeFloat bits
  | .Number (.PosInt value) => some (nearestFloat value)
  | .Number (.NegInt value) => some value
  | _ => none

def blockInteger (call : ToolCall) (value : Value) : Except Error Int :=
  match as_i64 value with
  | some value => .ok value
  | none =>
    match floatOf value with
    | none => .error (.Protocol s!"{call.name} block_until_ms must be an integer")
    | some value =>
      if value < -2 ^ 63 ∨ 2 ^ 63 < value then .error (.Protocol s!"{call.name} block_until_ms is out of range")
      else .ok (min value (2 ^ 63 - 1))

/-- A whole float in the place of the time is replaced by the integer. -/
def normalize_block_until_ms (name : String) (call : ToolCall) : Except Error ToolCall :=
  if is_shell_tool name then
    match argument call "block_until_ms" with
    | none => .ok call
    | some value => do
      let integer ← blockInteger call value
      if integer < 0 then .error (.Protocol s!"{call.name} block_until_ms is out of range")
      else if (as_i64 value).isSome then .ok call
      else match call.arguments with
        | .Object members =>
          .ok { call with arguments := .Object (CheckpointCodec.insert members "block_until_ms" (.Number (.PosInt integer.toNat))) }
        | _ => .error (.Protocol s!"{call.name} arguments must be a JSON object")
  else .ok call

def EXECUTED : List String :=
  ["shell","bash","read","delete","grep","glob","readlints","task","callmcptool","fetchmcpresource","getmcptools"]
def EDITS : List String := ["write","strreplace","editnotebook"]
def ASKED : List String := ["askquestion","websearch","webfetch","switchmode","createplan","generateimage"]

def dispatch (r : Runtime) (name : String) (call : ToolCall) (message_index : Nat) (context : ExecContext) :
    Except Error ToolStart × Runtime :=
  let key := normalized name
  if key ∈ EXECUTED then exec_start r name call context
  else if key ∈ EDITS then edit_start r name call context
  else if key ∈ ASKED then interaction_start r name call
  else if key = "todowrite" ∨ key = "updatecurrentstep" then answered r (localResult name call message_index)
  else if key = "semblesearch" ∨ key = "semblefindrelated" then (.ok (search_start name call),r)
  else answered r (.ok (compat_failure name call))

/-- `tool_call_dispatch::start`. -/
def dispatch_start (r : Runtime) (name : String) (call : ToolCall) (message_index : Nat)
    (dynamic_mcp : String → Option McpToolDefinition) (context : ExecContext) : Except Error ToolStart × Runtime :=
  match dynamic_mcp name with
  | some definition => start_dynamic r call definition context
  | none =>
    if is_mcp_auth name call then interaction_start r name call
    else if task_disabled context name then answered r (subagents_disabled name call)
    else match normalize_block_until_ms name call with
      | .error error => (.error error,r)
      | .ok call => dispatch r name call message_index context

def shownFirst (name : String) (call : ToolCall) (publish_started : Bool) (dynamic_mcp : String → Option McpToolDefinition) :
    Except Error (List ServerMessage) :=
  if publish_started then
    (tool_started name call (dynamic_mcp name)).map fun card => [.ToolCallStarted call.call_id card call.model_call_id]
  else .ok []

/-- `ToolDispatcher::start`. -/
def start (r : Runtime) (name : String) (call : ToolCall) (message_index : Nat) (publish_started : Bool)
    (dynamic_mcp : String → Option McpToolDefinition) (context : ExecContext) : Except Error ToolStart × Runtime :=
  match prepare_call context name call with
  | .error error => (.error error,r)
  | .ok call =>
    match shownFirst name call publish_started dynamic_mcp with
    | .error error => (.error error,r)
    | .ok shown =>
      let (started,r) := dispatch_start r name call message_index dynamic_mcp context
      (started.map fun started => { started with messages := shown ++ started.messages },r)

end Dispatch

def waiting (r : Runtime) : List Nat := keys r.execs ++ keys r.interactions

/-- The message is about the execution or the question of the id. -/
def names (id : Nat) : ServerMessage → Bool
  | .ToolCallStarted _ _ _ => false
  | .ExecServerMessage message => message.id = id
  | .InteractionQuery query => query.id = id

/-- A start that fails leaves what waits as it was, and every id that a start adds
    is named by one of its messages. -/
structure LeavesNothing (before : Runtime) (outcome : Except Error ToolStart × Runtime) : Prop where
  failed : ∀ error, outcome.1 = .error error → outcome.2.execs = before.execs ∧ outcome.2.interactions = before.interactions
  named : ∀ started, outcome.1 = .ok started → ∀ id ∈ waiting outcome.2, id ∉ waiting before → started.messages.countP (names id) = 1

def Has (call : ToolCall) (name : String) : Prop := (optional_string call name).isSome = true
def HasAny (call : ToolCall) (fields : List String) : Prop := ∃ name ∈ fields, Has call name

/-- An approval that is asked for has a reason. -/
def ApprovalGiven (call : ToolCall) (request_field reason_field : String) : Prop :=
  boolArgument call request_field = some true → Has call reason_field
def TimeInRange (call : ToolCall) : Prop :=
  ∀ value, argument call "block_until_ms" = some value → ∃ time, as_i64 value = some time ∧ 0 ≤ time ∧ time < 2 ^ 31
def StringIn (value : Value) (name : String) : Prop := ((Json.get value name).bind Json.as_str).isSome = true
def NotificationGiven (call : ToolCall) : Prop :=
  ∀ value, argument call "notify_on_output" = some value →
    (as_object value).isSome = true ∧ StringIn value "pattern" ∧ StringIn value "reason"
def QuestionsGiven (call : ToolCall) : Prop :=
  ∀ question ∈ arrayOf (argument call "questions"), StringIn question "id" ∧ StringIn question "prompt" ∧
    ∀ option ∈ arrayOf (Json.get question "options"), StringIn option "id" ∧ StringIn option "label"

/-- The arguments are those that the request of the tool is made of. -/
@[mk_iff] structure Accepted (name : String) (call : ToolCall) (context : ExecContext) : Prop where
  shell : normalized name ∈ ["shell","bash"] → Has call "command" ∧ TimeInRange call ∧ NotificationGiven call ∧
    ApprovalGiven call "request_smart_mode_approval" "smart_mode_block_reason"
  file : normalized name ∈ ["read","delete"] → HasAny call PATHS
  grep : normalized name = "grep" → Has call "pattern"
  task : normalized name = "task" → Has call "model" ∧ Has call "prompt" ∧
    ∀ value, optional_string call "environment" = some value → value = "cloud" ∨ value = "local"
  resource : normalized name = "fetchmcpresource" → Has call "server" ∧ Has call "uri" ∧
    ApprovalGiven call "requestSmartModeApproval" "smartModeBlockReason"
  mcp : normalized name = "callmcptool" → is_mcp_auth name call = false → ∀ server tool route,
    optional_string call "server" = some server → optional_string call "toolName" = some tool →
      context.mcp_routes (server,tool) = some route → route.name ≠ "" ∧ route.provider_identifier ≠ "" ∧
        route.tool_name = tool ∧ ApprovalGiven call "requestSmartModeApproval" "smartModeBlockReason"
  auth : is_mcp_auth name call = true → Has call "server"
  notebook : normalized name = "editnotebook" → Has call "target_notebook"
  edit : normalized name ∈ ["write","strreplace"] → HasAny call PATHS
  questions : normalized name = "askquestion" → QuestionsGiven call
  search : normalized name = "websearch" → HasAny call ["search_term","query"]
  fetch : normalized name = "webfetch" → Has call "url" ∧ ApprovalGiven call "requestSmartModeApproval" "smartModeBlockReason"
  mode : normalized name = "switchmode" → Has call "target_mode_id"
  plan : normalized name = "createplan" → Has call "plan" ∧ Has call "overview"
  image : normalized name = "generateimage" → Has call "description"

/-- The call is one whose start reserves an id; a call of an MCP tool with a known
    route. -/
structure Reserving (name : String) (call : ToolCall) (context : ExecContext) : Prop where
  handled : normalized name ∈ EXECUTED ++ EDITS ++ ASKED
  routed : normalized name = "callmcptool" → ∃ server tool route, required call "server" = .ok server ∧
    required call "toolName" = .ok tool ∧ context.mcp_routes (server,tool) = some route

structure Handed (name : String) (prepared reserved : ToolCall) (context : ExecContext) : Prop where
  auth : is_mcp_auth name prepared = true → reserved = prepared
  allowed : is_mcp_auth name prepared = false → task_disabled context name = false
  normal : is_mcp_auth name prepared = false → normalize_block_until_ms name prepared = .ok reserved
  reserving : is_mcp_auth name prepared = false → Reserving name reserved context

/-- The start comes to a reservation for the call, which was prepared, shown where
    it is to be, and is not refused. -/
structure Reserves [Paths] (r : Runtime) (name : String) (call prepared reserved : ToolCall) (publish_started : Bool)
    (dynamic_mcp : String → Option McpToolDefinition) (context : ExecContext) : Prop where
  room : r.next_id < u32Max
  builtin : dynamic_mcp name = none
  prepares : prepare_call context name call = .ok prepared
  shown : publish_started = true → ∃ card, tool_started name prepared none = .ok card
  handed : Handed name prepared reserved context

section Encoders
variable {call : ToolCall} {context : ExecContext} {name : String} {fields : List String} {request_field reason_field : String}

theorem string_succeeds : Succeeds (string call name) ↔ Has call name := by
  unfold string Has
  split
  · rename_i value isValue
    simp [isValue,succeeds_ok]
  · rename_i isNone
    simp [isNone,succeeds_error]
theorem hasAny_iff : (firstString call fields).isSome = true ↔ HasAny call fields := by
  rw [firstString,List.findSome?_isSome_iff]
  rfl
theorem aliased_succeeds : Succeeds (string_aliased call fields) ↔ HasAny call fields := by
  rw [← hasAny_iff]
  unfold string_aliased
  split
  · rename_i value isValue
    simp [isValue,succeeds_ok]
  · rename_i isNone
    simp [isNone,succeeds_error]
theorem approval_succeeds : Succeeds (smart_mode_approval call request_field reason_field) ↔
    ApprovalGiven call request_field reason_field := by
  unfold smart_mode_approval ApprovalGiven Has
  cases isRequest : boolArgument call request_field with
  | none => simp [succeeds_ok]
  | some asked =>
    cases asked with
    | false => simp [succeeds_ok]
    | true =>
      cases isReason : optional_string call reason_field with
      | none => simp [succeeds_error]
      | some reason => simp [succeeds_ok]
theorem timeout_succeeds : Succeeds (shell_timeout call) ↔ TimeInRange call := by
  have range : ∀ time : Int, Succeeds (if 0 ≤ time ∧ time < 2 ^ 31 then .ok (Int32.ofInt time)
      else .error (.Protocol "Shell block_until_ms is out of range") : Except Error Int32) ↔ 0 ≤ time ∧ time < 2 ^ 31 := by
    intro time
    split
    · simpa [succeeds_ok]
    · rename_i outside
      exact iff_of_false succeeds_error outside
  unfold shell_timeout TimeInRange
  rw [succeeds_bind]
  simp only [range]
  unfold blockTime
  cases argument call "block_until_ms" with
  | none => exact ⟨fun _ => nofun,fun _ => ⟨30000,rfl,by decide⟩⟩
  | some value =>
    cases isInteger : as_i64 value with
    | none => simp [isInteger]
    | some time => simp [isInteger]

variable {value : Value}

theorem notification_string_succeeds : Succeeds (notificationString value name) ↔ StringIn value name := by
  unfold notificationString StringIn
  split
  · rename_i text isText
    simp [isText,succeeds_ok]
  · rename_i isNone
    simp [isNone,succeeds_error]
theorem notification_succeeds : Succeeds (shell_notification call) ↔ NotificationGiven call := by
  unfold shell_notification NotificationGiven
  cases argument call "notify_on_output" with
  | none => exact ⟨fun _ => nofun,fun _ => succeeds_ok⟩
  | some value =>
    cases isObject : as_object value with
    | none => simp [isObject,succeeds_error]
    | some members =>
      simp only [isObject]
      rw [succeeds_bind_and fun pattern => (succeeds_bind_ok fun reason => succeeds_ok).trans notification_string_succeeds,
        notification_string_succeeds]
      simp [isObject]
theorem string_in_succeeds {owner : String} : Succeeds (stringIn value owner name) ↔ StringIn value name := by
  unfold stringIn StringIn
  split
  · rename_i text isText
    simp [isText,succeeds_ok]
  · rename_i isNone
    simp [isNone,succeeds_error]
theorem environment_succeeds : Succeeds (taskEnvironment call) ↔
    ∀ value, optional_string call "environment" = some value → value = "cloud" ∨ value = "local" := by
  unfold taskEnvironment
  cases optional_string call "environment" with
  | none => exact ⟨fun _ => nofun,fun _ => succeeds_ok⟩
  | some value =>
    dsimp only
    by_cases cloud : value = "cloud"
    · simp [cloud,succeeds_ok]
    · by_cases local_ : value = "local"
      · simp [local_,succeeds_ok]
      · simp [cloud,local_,succeeds_error]

theorem shell_succeeds : Succeeds (shellMessage call context) ↔ Has call "command" ∧ TimeInRange call ∧ NotificationGiven call ∧
    ApprovalGiven call "request_smart_mode_approval" "smart_mode_block_reason" := by
  unfold shellMessage
  rw [succeeds_bind_and fun command => succeeds_bind_and fun timeout => succeeds_bind_and fun notification =>
    (succeeds_bind_ok fun approval => succeeds_ok).trans approval_succeeds,string_succeeds,timeout_succeeds,notification_succeeds]
theorem read_succeeds : Succeeds (readMessage call) ↔ HasAny call PATHS :=
  (succeeds_bind_ok fun _ => succeeds_ok).trans aliased_succeeds
theorem delete_succeeds : Succeeds (deleteMessage call) ↔ HasAny call PATHS :=
  (succeeds_bind_ok fun _ => succeeds_ok).trans aliased_succeeds
theorem grep_succeeds : Succeeds (grepMessage call) ↔ Has call "pattern" :=
  (succeeds_bind_ok fun _ => succeeds_ok).trans string_succeeds
theorem task_succeeds [Paths] : Succeeds (taskMessage call context) ↔ Has call "model" ∧ Has call "prompt" ∧
    ∀ value, optional_string call "environment" = some value → value = "cloud" ∨ value = "local" := by
  unfold taskMessage
  rw [succeeds_bind_and fun model => succeeds_bind_and fun prompt =>
    (succeeds_bind_ok fun environment => succeeds_ok).trans environment_succeeds,string_succeeds,string_succeeds]
theorem resource_succeeds : Succeeds (fetchMcpResourceMessage call) ↔ Has call "server" ∧ Has call "uri" ∧
    ApprovalGiven call "requestSmartModeApproval" "smartModeBlockReason" := by
  unfold fetchMcpResourceMessage
  rw [succeeds_bind_and fun server => succeeds_bind_and fun uri =>
    (succeeds_bind_ok fun approval => succeeds_ok).trans approval_succeeds,string_succeeds,string_succeeds]

theorem path_succeeds : Succeeds (path name call) ↔
    if normalized name = "editnotebook" then Has call "target_notebook" else HasAny call PATHS := by
  unfold path
  split
  · rw [aliased_succeeds]
    simp [HasAny]
  · exact aliased_succeeds

theorem question_succeeds : Succeeds (question value) ↔ StringIn value "id" ∧ StringIn value "prompt" ∧
    ∀ option ∈ arrayOf (Json.get value "options"), StringIn option "id" ∧ StringIn option "label" := by
  have option_ : ∀ option, Succeeds (questionOption option) ↔ StringIn option "id" ∧ StringIn option "label" := by
    intro option
    unfold questionOption
    rw [succeeds_bind_and fun id => (succeeds_bind_ok fun label => succeeds_ok).trans string_in_succeeds,string_in_succeeds]
  unfold question
  rw [succeeds_bind_and fun options => succeeds_bind_and fun id =>
    (succeeds_bind_ok fun prompt => succeeds_ok).trans string_in_succeeds,succeeds_mapM,string_in_succeeds]
  simp only [option_]
  tauto
theorem ask_succeeds : Succeeds (askQuestion call) ↔ QuestionsGiven call := by
  unfold askQuestion
  rw [succeeds_bind_ok fun _ => succeeds_ok,succeeds_mapM]
  exact forall₂_congr fun _ _ => question_succeeds
theorem search_succeeds : Succeeds (webSearch call) ↔ HasAny call ["search_term","query"] :=
  (succeeds_bind_ok fun _ => succeeds_ok).trans aliased_succeeds
theorem fetch_succeeds : Succeeds (webFetch call) ↔ Has call "url" ∧
    ApprovalGiven call "requestSmartModeApproval" "smartModeBlockReason" := by
  unfold webFetch
  rw [succeeds_bind_and fun url => (succeeds_bind_ok fun approval => succeeds_ok).trans approval_succeeds,string_succeeds]
theorem mode_succeeds : Succeeds (switchMode call) ↔ Has call "target_mode_id" :=
  (succeeds_bind_ok fun _ => succeeds_ok).trans string_succeeds
theorem plan_succeeds : Succeeds (createPlan call) ↔ Has call "plan" ∧ Has call "overview" := by
  unfold createPlan
  rw [succeeds_bind_and fun plan => (succeeds_bind_ok fun overview => succeeds_ok).trans string_succeeds,string_succeeds]
theorem image_succeeds : Succeeds (generateImage call) ↔ Has call "description" :=
  (succeeds_bind_ok fun _ => succeeds_ok).trans string_succeeds
theorem auth_succeeds : Succeeds (mcpAuth call) ↔ Has call "server" :=
  (succeeds_bind_ok fun _ => succeeds_ok).trans string_succeeds

theorem meta_succeeds {id : Nat} {server tool : String} {route : McpRoute} (asked : optional_string call "toolName" = some tool)
    (named : tool ≠ "") : Succeeds (mcp_meta_request id call server route) ↔ route.name ≠ "" ∧ route.provider_identifier ≠ "" ∧
      route.tool_name = tool ∧ ApprovalGiven call "requestSmartModeApproval" "smartModeBlockReason" := by
  unfold mcp_meta_request
  by_cases complete : route.name ≠ "" ∧ route.provider_identifier ≠ "" ∧ route.tool_name ≠ ""
  · have known : (route.name.isEmpty || route.provider_identifier.isEmpty || route.tool_name.isEmpty) = false := by
      simpa [String.isEmpty_iff,and_assoc] using complete
    by_cases same : tool = route.tool_name
    · simp only [known,asked,Bool.false_eq_true,if_false,if_neg (not_not_intro same)]
      rw [(succeeds_bind_ok fun _ => succeeds_ok).trans approval_succeeds]
      simp [complete.1,complete.2.1,same]
    · simp only [known,asked,Bool.false_eq_true,if_false,if_pos same]
      exact iff_of_false succeeds_error fun given => same given.2.2.1.symm
  · have unknown : (route.name.isEmpty || route.provider_identifier.isEmpty || route.tool_name.isEmpty) = true := by
      rw [Bool.or_eq_true,Bool.or_eq_true,String.isEmpty_iff,String.isEmpty_iff,String.isEmpty_iff]
      tauto
    simp only [unknown,if_true]
    exact iff_of_false succeeds_error fun given => complete ⟨given.1,given.2.1,by rw [given.2.2.1]; exact named⟩

end Encoders

section Reservation
variable {r : Runtime} {call : ToolCall} {context : ExecContext} {name : String}

variable {r' : Runtime}

theorem leaves_error {error : Error} : LeavesNothing r (.error error,r') ↔ r'.execs = r.execs ∧ r'.interactions = r.interactions :=
  ⟨fun leaves => leaves.failed error rfl,fun same => ⟨fun _ _ => same,fun _ isStarted => by simp only [reduceCtorEq] at isStarted⟩⟩
theorem leaves_ok {started : ToolStart} :
    LeavesNothing r (.ok started,r') ↔ ∀ id ∈ waiting r', id ∉ waiting r → started.messages.countP (names id) = 1 := by
  refine ⟨fun leaves => leaves.named started rfl,fun named => ⟨fun _ failed => ?_,fun started' isStarted => ?_⟩⟩
  · simp only [reduceCtorEq] at failed
  · rw [← Except.ok.inj isStarted]
    exact named
theorem unchanged_leaves {outcome : Except Error ToolStart × Runtime} (same : outcome.2 = r) : LeavesNothing r outcome := by
  refine ⟨fun _ _ => ?_,fun _ _ id member fresh => ?_⟩
  · rw [same]
    exact ⟨rfl,rfl⟩
  · rw [same] at member
    exact absurd member fresh

structure Adds (r r' : Runtime) : Prop where
  changed : ¬ (r'.execs = r.execs ∧ r'.interactions = r.interactions)
  added : ∀ id ∈ waiting r', id ∉ waiting r → id = r.next_id + 1

theorem exec_adds (call : ToolCall) (context : ExecContext) (room : r.next_id < u32Max) (stage : ExecStage) :
    ∃ r', reserve_exec_stage r call context stage = (.ok (r.next_id + 1),r') ∧ Adds r r' := by
  refine ⟨_,if_pos room,fun ⟨same,_⟩ => List.cons_ne_self _ _ same,fun id member fresh => ?_⟩
  rcases List.mem_append.mp member with exec | question
  · rcases List.mem_cons.mp exec with same | exec
    · exact same
    · exact absurd (List.mem_append_left _ exec) fresh
  · exact absurd (List.mem_append_right _ question) fresh
theorem interaction_adds (call : ToolCall) (room : r.next_id < u32Max) :
    ∃ r', reserve_interaction r call = (.ok (r.next_id + 1),r') ∧ Adds r r' := by
  refine ⟨_,if_pos room,fun ⟨_,same⟩ => List.cons_ne_self _ _ same,fun id member fresh => ?_⟩
  rcases List.mem_append.mp member with exec | question
  · exact absurd (List.mem_append_left _ exec) fresh
  · rcases List.mem_cons.mp question with same | question
    · exact same
    · exact absurd (List.mem_append_right _ question) fresh

variable {encode : Nat → Except Error ServerMessage}

theorem reserved_leaves (adds : Adds r r') (named : ∀ id message, encode id = .ok message → names id message = true) :
    LeavesNothing r (sendReserved encode (.ok (r.next_id + 1),r')) ↔ Succeeds (encode (r.next_id + 1)) := by
  cases isMessage : encode (r.next_id + 1) with
  | error e =>
    simp only [sendReserved,isMessage,Except.map]
    rw [leaves_error]
    exact iff_of_false adds.changed succeeds_error
  | ok message =>
    simp only [sendReserved,isMessage,Except.map]
    rw [leaves_ok]
    refine iff_of_true (fun id member fresh => ?_) succeeds_ok
    rw [adds.added id member fresh]
    simp [named _ _ isMessage]

theorem exec_leaves (stage : ExecStage) (named : ∀ id message, encode id = .ok message → names id message = true) :
    LeavesNothing r (sendReserved encode (reserve_exec_stage r call context stage)) ↔
      (r.next_id < u32Max → Succeeds (encode (r.next_id + 1))) := by
  by_cases room : r.next_id < u32Max
  · obtain ⟨r',reserved,adds⟩ := exec_adds call context room stage
    rw [reserved,reserved_leaves adds named]
    simp [room]
  · have full : reserve_exec_stage r call context stage = (.error exhausted,r) := if_neg room
    rw [full]
    exact iff_of_true (unchanged_leaves rfl) fun less => absurd less room
theorem interaction_leaves (named : ∀ id message, encode id = .ok message → names id message = true) :
    LeavesNothing r (sendReserved encode (reserve_interaction r call)) ↔ (r.next_id < u32Max → Succeeds (encode (r.next_id + 1))) := by
  by_cases room : r.next_id < u32Max
  · obtain ⟨r',reserved,adds⟩ := interaction_adds call room
    rw [reserved,reserved_leaves adds named]
    simp [room]
  · have full : reserve_interaction r call = (.error exhausted,r) := if_neg room
    rw [full]
    exact iff_of_true (unchanged_leaves rfl) fun less => absurd less room

variable {id : Nat} {message : ServerMessage}

theorem names_exec {x : Except Error ExecServerMessage} (isId : ∀ m, x = .ok m → m.id = id)
    (isMessage : x.map .ExecServerMessage = .ok message) : names id message = true := by
  cases x with
  | error e => cases isMessage
  | ok m =>
    cases isMessage
    exact decide_eq_true (isId m rfl)
theorem bound_id {α : Type} {x : Except Error α} {f : α → Except Error ExecServerMessage} {m : ExecServerMessage}
    (isMessage : (x >>= f) = .ok m) (same : ∀ a m, f a = .ok m → m.id = id) : m.id = id := by
  cases x with
  | error e => cases isMessage
  | ok a => exact same a m isMessage
theorem names_request [Paths] (isMessage : (request name id call context).map .ExecServerMessage = .ok message) :
    names id message = true := by
  refine names_exec (fun m isRequest => ?_) isMessage
  unfold request at isRequest
  exact bound_id isRequest fun a m same => by rw [← Except.ok.inj same]
theorem names_edit (isMessage : (edit_read_request name id call).map .ExecServerMessage = .ok message) : names id message = true := by
  refine names_exec (fun m isRequest => ?_) isMessage
  unfold edit_read_request at isRequest
  exact bound_id isRequest fun a m same => by rw [← Except.ok.inj same]
theorem names_meta {server : String} {route : McpRoute}
    (isMessage : (mcp_meta_request id call server route).map .ExecServerMessage = .ok message) : names id message = true := by
  refine names_exec (fun m isRequest => ?_) isMessage
  unfold mcp_meta_request at isRequest
  split at isRequest
  · cases isRequest
  · split at isRequest
    · cases isRequest
    · split at isRequest
      · cases isRequest
      · exact bound_id isRequest fun a m same => by rw [← Except.ok.inj same]
theorem names_query (isMessage : (tool_query name id call).map .InteractionQuery = .ok message) : names id message = true := by
  unfold tool_query at isMessage
  cases isQuery : queryOf name call with
  | error e =>
    rw [isQuery] at isMessage
    cases isMessage
  | ok query =>
    rw [isQuery] at isMessage
    cases isMessage
    exact decide_eq_true rfl

end Reservation

section Branches
variable {r : Runtime} {name : String} {call : ToolCall} {context : ExecContext} {message_index : Nat}

theorem request_succeeds [Paths] (executed : normalized name ∈ EXECUTED) (plain : normalized name ≠ "getmcptools")
    (direct : normalized name ≠ "callmcptool") {id : Nat} :
    Succeeds ((request name id call context).map ServerMessage.ExecServerMessage) ↔ Accepted name call context := by
  rw [succeeds_map,request,succeeds_bind_ok fun _ => succeeds_ok,accepted_iff,execMessage]
  simp only [EXECUTED,List.mem_cons,List.not_mem_nil,or_false] at executed
  rcases executed with key | key | key | key | key | key | key | key | key | key | key
  · simp [key,is_mcp_auth,shell_succeeds]
  · simp [key,is_mcp_auth,shell_succeeds]
  · simp [key,is_mcp_auth,read_succeeds]
  · simp [key,is_mcp_auth,delete_succeeds]
  · simp [key,is_mcp_auth,grep_succeeds]
  · simp [key,is_mcp_auth,succeeds_ok]
  · simp [key,is_mcp_auth,succeeds_ok]
  · simp [key,is_mcp_auth,task_succeeds]
  · exact absurd key direct
  · simp [key,is_mcp_auth,resource_succeeds]
  · exact absurd key plain

theorem required_string {field value : String} (isRequired : required call field = .ok value) :
    optional_string call field = some value ∧ value ≠ "" := by
  unfold required at isRequired
  split at isRequired
  · rename_i found isFound
    cases isRequired
    obtain ⟨isString,filled⟩ := Option.filter_eq_some_iff.mp isFound
    exact ⟨isString,fun empty => by simp [empty] at filled⟩
  · cases isRequired

theorem meta_accepted {server tool : String} {route : McpRoute} (direct : normalized name = "callmcptool")
    (plain : is_mcp_auth name call = false) (isServer : required call "server" = .ok server)
    (isTool : required call "toolName" = .ok tool) (known : context.mcp_routes (server,tool) = some route) {id : Nat} :
    Succeeds ((mcp_meta_request id call server route).map ServerMessage.ExecServerMessage) ↔ Accepted name call context := by
  obtain ⟨hasServer,_⟩ := required_string isServer
  obtain ⟨hasTool,filled⟩ := required_string isTool
  have ofRoute : (∀ server' tool' route', optional_string call "server" = some server' → optional_string call "toolName" = some tool' →
      context.mcp_routes (server',tool') = some route' → route'.name ≠ "" ∧ route'.provider_identifier ≠ "" ∧
        route'.tool_name = tool' ∧ ApprovalGiven call "requestSmartModeApproval" "smartModeBlockReason") ↔
      (route.name ≠ "" ∧ route.provider_identifier ≠ "" ∧ route.tool_name = tool ∧
        ApprovalGiven call "requestSmartModeApproval" "smartModeBlockReason") := by
    constructor
    · exact fun given => given server tool route hasServer hasTool known
    · intro given server' tool' route' isServer' isTool' known'
      rw [hasServer] at isServer'
      rw [hasTool] at isTool'
      cases isServer'
      cases isTool'
      rw [known] at known'
      cases known'
      exact given
  rw [succeeds_map,meta_succeeds hasTool filled,accepted_iff,ofRoute]
  simp [direct,plain]

theorem reserving_mcp (direct : normalized name = "callmcptool") :
    Reserving name call context ↔ ∃ server tool route, required call "server" = .ok server ∧
      required call "toolName" = .ok tool ∧ context.mcp_routes (server,tool) = some route :=
  ⟨fun reserving => reserving.routed direct,fun routed => ⟨by rw [direct]; decide,fun _ => routed⟩⟩
theorem reserving_plain (direct : normalized name ≠ "callmcptool") :
    Reserving name call context ↔ normalized name ∈ EXECUTED ++ EDITS ++ ASKED :=
  ⟨Reserving.handled,fun handled => ⟨handled,fun same => absurd same direct⟩⟩

theorem exec_start_leaves [Paths] (executed : normalized name ∈ EXECUTED) (plain : is_mcp_auth name call = false) :
    LeavesNothing r (exec_start r name call context) ↔
      (r.next_id < u32Max → Reserving name call context → Accepted name call context) := by
  unfold exec_start
  by_cases state : normalized name = "getmcptools"
  · have accepted : Accepted name call context := by
      rw [accepted_iff]
      simp [state,plain]
    rw [if_pos state,exec_leaves _ fun id message isMessage => by cases isMessage; exact decide_eq_true rfl]
    exact iff_of_true (fun _ => succeeds_ok) fun _ _ => accepted
  · rw [if_neg state]
    by_cases direct : normalized name = "callmcptool"
    · rw [if_pos direct,reserving_mcp direct]
      cases isServer : required call "server" with
      | error e => exact iff_of_true (unchanged_leaves rfl) (by simp)
      | ok server =>
        cases isTool : required call "toolName" with
        | error e => exact iff_of_true (unchanged_leaves rfl) (by simp)
        | ok tool =>
          cases known : context.mcp_routes (server,tool) with
          | none =>
            refine iff_of_true (by simp only [known]; exact unchanged_leaves rfl) fun _ given => ?_
            obtain ⟨server',tool',route,sameServer,sameTool,isRoute⟩ := given
            cases sameServer
            cases sameTool
            rw [known] at isRoute
            cases isRoute
          | some route =>
            simp only [known]
            rw [exec_leaves _ fun _ _ => names_meta,meta_accepted direct plain isServer isTool known]
            simp [known]
    · rw [if_neg direct,reserving_plain direct,exec_leaves _ fun _ _ => names_request,request_succeeds executed state direct]
      simp [executed]

theorem edit_start_leaves (edits : normalized name ∈ EDITS) : LeavesNothing r (edit_start r name call context) ↔
      (r.next_id < u32Max → Reserving name call context → Accepted name call context) := by
  unfold edit_start
  have accepted : ∀ id, Succeeds ((edit_read_request name id call).map ServerMessage.ExecServerMessage) ↔ Accepted name call context := by
    intro id
    rw [succeeds_map,edit_read_request,succeeds_bind_ok fun _ => succeeds_ok,path_succeeds,accepted_iff]
    simp only [EDITS,List.mem_cons,List.not_mem_nil,or_false] at edits
    rcases edits with key | key | key <;> simp [key,is_mcp_auth]
  have direct : normalized name ≠ "callmcptool" := fun same => by
    rw [same] at edits
    exact absurd edits (by decide)
  rw [exec_leaves _ fun _ _ => names_edit,accepted,reserving_plain direct]
  simp [edits]

theorem query_accepted (asked : normalized name ∈ ASKED ∨ is_mcp_auth name call = true) {id : Nat} :
    Succeeds ((tool_query name id call).map ServerMessage.InteractionQuery) ↔ Accepted name call context := by
  rw [succeeds_map,tool_query,succeeds_bind_ok fun _ => succeeds_ok,accepted_iff,queryOf]
  rcases asked with asked | auth
  · simp only [ASKED,List.mem_cons,List.not_mem_nil,or_false] at asked
    rcases asked with key | key | key | key | key | key
    · simp [key,is_mcp_auth,ask_succeeds]
    · simp [key,is_mcp_auth,search_succeeds]
    · simp [key,is_mcp_auth,fetch_succeeds]
    · simp [key,is_mcp_auth,mode_succeeds]
    · simp [key,is_mcp_auth,plan_succeeds]
    · simp [key,is_mcp_auth,image_succeeds]
  · have key : normalized name = "callmcptool" := by
      rw [is_mcp_auth,Bool.and_eq_true,decide_eq_true_eq] at auth
      exact auth.1
    simp [key,auth,auth_succeeds]

theorem interaction_start_leaves (context : ExecContext) (asked : normalized name ∈ ASKED ∨ is_mcp_auth name call = true) :
    LeavesNothing r (interaction_start r name call) ↔ (r.next_id < u32Max → Accepted name call context) := by
  unfold interaction_start
  rw [interaction_leaves fun _ _ => names_query,query_accepted asked]

theorem served_frame [SerdeText] (r : Runtime) (name : String) (call : ToolCall) (message_index : Nat) :
    (if normalized name = "todowrite" ∨ normalized name = "updatecurrentstep" then
        answered r (localResult name call message_index)
      else if normalized name = "semblesearch" ∨ normalized name = "semblefindrelated" then (.ok (search_start name call),r)
      else answered r (.ok (compat_failure name call))).2 = r := by
  have frame : ∀ completion, (answered r completion).2 = r := fun _ => rfl
  rw [apply_ite Prod.snd,apply_ite Prod.snd,frame,frame,ite_self,ite_self]

theorem dispatch_leaves [Paths] [SerdeText] (plain : is_mcp_auth name call = false) :
    LeavesNothing r (dispatch r name call message_index context) ↔
      (r.next_id < u32Max → Reserving name call context → Accepted name call context) := by
  unfold dispatch
  dsimp only
  by_cases executed : normalized name ∈ EXECUTED
  · rw [if_pos executed]
    exact exec_start_leaves executed plain
  · have direct : normalized name ≠ "callmcptool" := fun same => executed (by rw [same]; decide)
    rw [if_neg executed]
    by_cases edits : normalized name ∈ EDITS
    · rw [if_pos edits]
      exact edit_start_leaves edits
    · rw [if_neg edits]
      by_cases asked : normalized name ∈ ASKED
      · rw [if_pos asked,interaction_start_leaves context (.inl asked),reserving_plain direct]
        simp [asked]
      · have unreserved : ¬ Reserving name call context := by
          rw [reserving_plain direct]
          simp [executed,edits,asked]
        rw [if_neg asked]
        refine iff_of_true ?_ fun _ reserving => absurd reserving unreserved
        exact unchanged_leaves (served_frame r name call message_index)

theorem normalize_plain {reserved : ToolCall} (isNormal : normalize_block_until_ms name call = .ok reserved)
    (plain : is_mcp_auth name call = false) : is_mcp_auth name reserved = false := by
  by_cases shell : is_shell_tool name = true
  · have direct : normalized name ≠ "callmcptool" := by
      intro same
      rw [is_shell_tool,same] at shell
      exact absurd shell (by decide)
    rw [is_mcp_auth,decide_eq_false direct,Bool.false_and]
  · rw [normalize_block_until_ms,if_neg shell] at isNormal
    cases isNormal
    exact plain

theorem dispatch_start_leaves [Paths] [SerdeText] {dynamic_mcp : String → Option McpToolDefinition} :
    LeavesNothing r (dispatch_start r name call message_index dynamic_mcp context) ↔
      ∀ reserved, r.next_id < u32Max → dynamic_mcp name = none → Handed name call reserved context → Accepted name reserved context := by
  unfold dispatch_start
  cases isDynamic : dynamic_mcp name with
  | some definition =>
    refine iff_of_true ?_ fun _ _ builtin => nomatch builtin
    unfold start_dynamic
    rw [exec_leaves _ fun id message isMessage => by cases isMessage; exact decide_eq_true rfl]
    exact fun _ => succeeds_ok
  | none =>
    dsimp only
    cases isAuth : is_mcp_auth name call with
    | true =>
      rw [if_pos rfl,interaction_start_leaves context (.inr isAuth)]
      constructor
      · intro accepted reserved room _ handed
        rw [handed.auth isAuth]
        exact accepted room
      · intro accepted room
        refine accepted call room rfl ⟨fun _ => rfl,?_,?_,?_⟩ <;>
        · intro plain
          cases isAuth.symm.trans plain
    | false =>
      rw [if_neg Bool.false_ne_true]
      cases disabled : task_disabled context name with
      | true =>
        rw [if_pos rfl]
        refine iff_of_true (unchanged_leaves rfl) fun _ _ _ handed => ?_
        cases disabled.symm.trans (handed.allowed isAuth)
      | false =>
        rw [if_neg Bool.false_ne_true]
        cases isNormal : normalize_block_until_ms name call with
        | error error =>
          refine iff_of_true (unchanged_leaves rfl) fun _ _ _ handed => ?_
          have normal := handed.normal isAuth
          simp only [isNormal,reduceCtorEq] at normal
        | ok normalCall =>
          dsimp only
          rw [dispatch_leaves (normalize_plain isNormal isAuth)]
          constructor
          · intro accepted reserved room _ handed
            have same := Except.ok.inj (isNormal.symm.trans (handed.normal isAuth))
            subst same
            exact accepted room (handed.reserving isAuth)
          · intro accepted room reserving
            refine accepted normalCall room rfl ⟨fun auth => ?_,fun _ => disabled,fun _ => isNormal,fun _ => reserving⟩
            cases isAuth.symm.trans auth

end Branches

section Start
variable {r : Runtime} {outcome : Except Error ToolStart × Runtime} {shown : List ServerMessage}

theorem shown_leaves (cards : ∀ id, shown.countP (names id) = 0) :
    LeavesNothing r (outcome.1.map (fun started => { started with messages := shown ++ started.messages }),outcome.2) ↔
      LeavesNothing r outcome := by
  have sameCount : ∀ id (messages : List ServerMessage), (shown ++ messages).countP (names id) = messages.countP (names id) := by
    intro id messages
    rw [List.countP_append,cards,Nat.zero_add]
  obtain ⟨result,r'⟩ := outcome
  cases result with
  | error error =>
    simp only [Except.map,leaves_error]
  | ok started =>
    simp only [Except.map,leaves_ok,sameCount]

variable {name : String} {call : ToolCall} {publish_started : Bool} {dynamic_mcp : String → Option McpToolDefinition}

theorem shown_cards (isShown : shownFirst name call publish_started dynamic_mcp = .ok shown) (id : Nat) :
    shown.countP (names id) = 0 := by
  unfold shownFirst at isShown
  cases publish_started with
  | false =>
    rw [if_neg Bool.false_ne_true] at isShown
    cases isShown
    rfl
  | true =>
    rw [if_pos rfl] at isShown
    cases isCard : tool_started name call (dynamic_mcp name) with
    | error error =>
      rw [isCard] at isShown
      cases isShown
    | ok card =>
      rw [isCard] at isShown
      cases isShown
      rfl
theorem shown_iff : (∃ shown, shownFirst name call publish_started dynamic_mcp = .ok shown) ↔
    (publish_started = true → ∃ card, tool_started name call (dynamic_mcp name) = .ok card) := by
  unfold shownFirst
  cases publish_started with
  | false => simp
  | true =>
    cases tool_started name call (dynamic_mcp name) <;> simp [Except.map]

end Start

/-- A start leaves nothing behind exactly if the call whose start comes to a
    reservation has the arguments that its request is made of. -/
theorem start_leaves [Paths] [SerdeText] (r : Runtime) (call : ToolCall) (message_index : Nat) (publish_started : Bool)
    (dynamic_mcp : String → Option McpToolDefinition) (context : ExecContext) :
    LeavesNothing r (start r call.name call message_index publish_started dynamic_mcp context) ↔
      ∀ prepared reserved, Reserves r call.name call prepared reserved publish_started dynamic_mcp context →
        Accepted call.name reserved context := by
  unfold start
  cases isPrepared : prepare_call context call.name call with
  | error error =>
    refine iff_of_true (unchanged_leaves rfl) fun prepared reserved reserves => ?_
    simp only [reserves.prepares,reduceCtorEq] at isPrepared
  | ok prepared =>
    dsimp only
    cases isShown : shownFirst call.name prepared publish_started dynamic_mcp with
    | error error =>
      refine iff_of_true (unchanged_leaves rfl) fun prepared' reserved reserves => ?_
      cases isPrepared.symm.trans reserves.prepares
      obtain ⟨shown,same⟩ := shown_iff.mpr fun published => reserves.builtin ▸ reserves.shown published
      cases isShown.symm.trans same
    | ok shown =>
      dsimp only
      rw [shown_leaves (shown_cards isShown),dispatch_start_leaves]
      constructor
      · intro accepted prepared' reserved reserves
        have same := Except.ok.inj (isPrepared.symm.trans reserves.prepares)
        subst same
        exact accepted reserved reserves.room reserves.builtin reserves.handed
      · intro accepted reserved room builtin handed
        have published := shown_iff.mp ⟨shown,isShown⟩
        rw [builtin] at published
        exact accepted prepared reserved ⟨room,builtin,isPrepared,published,handed⟩

section Counterexample

local instance : Paths := ⟨fun _ => none,fun _ => none⟩
local instance : SerdeText := ⟨fun _ => "{}",fun _ => "",fun _ => ""⟩

def emptyShell : ToolCall := ⟨0,"call_1","model_1","Shell","{}",.Object [],none⟩
def plainContext : ExecContext := ⟨"","","",none,true,false,"",[],fun _ => none⟩
def idle : Runtime := ⟨0,[],[],nofun⟩

theorem empty_shell_waits : let outcome := start idle "Shell" emptyShell 0 false (fun _ => none) plainContext
    outcome.1 = .error (.Protocol "Shell is missing command") ∧ outcome.2.execs = [(1,⟨emptyShell,plainContext,.Direct⟩)] :=
  ⟨rfl,rfl⟩

theorem failed_start_keeps_reservation : ¬ ∀ (r : Runtime) (call : ToolCall) (message_index : Nat) (publish_started : Bool)
    (dynamic_mcp : String → Option McpToolDefinition) (context : ExecContext),
    LeavesNothing r (start r call.name call message_index publish_started dynamic_mcp context) := by
  intro leaves
  obtain ⟨failed,waits⟩ := empty_shell_waits
  have unchanged := ((leaves idle emptyShell 0 false (fun _ => none) plainContext).failed _ failed).1
  cases waits.symm.trans unchanged

end Counterexample

end MyCursor.ToolStarts

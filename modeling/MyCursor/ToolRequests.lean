import MyCursor.CheckpointCodec

/-!
# The requests of tool calls

`cursor/tools/codec/request.rs` with `ExecContext` of `cursor/tools/runtime.rs`:
how a call and what is known of its conversation are turned into the request
that the client executes. The name that a call is dispatched by is passed beside
the call; texts print the name that the call has.
-/
namespace MyCursor.ToolRequests
open Message Text
open CheckpointCodec (insert)

def normalized (name : String) : String := to_ascii_lowercase (String.ofList (name.toList.filter is_ascii_alphanumeric))
def eq_ignore_ascii_case (a b : String) : Bool := to_ascii_lowercase a = to_ascii_lowercase b

/-- `Value::as_i64`. -/
def as_i64 : Value → Option Int
  | .Number (.PosInt value) => if value < 2 ^ 63 then some value else none
  | .Number (.NegInt value) => some value
  | _ => none
def as_object : Value → Option (List (String × Value))
  | .Object members => some members
  | _ => none

def argument (call : ToolCall) (name : String) : Option Value := Json.get call.arguments name
def optional_string (call : ToolCall) (name : String) : Option String := (argument call name).bind Json.as_str
def boolArgument (call : ToolCall) (name : String) : Option Bool := (argument call name).bind Json.as_bool
def int (call : ToolCall) (name : String) : Option Int32 := ((argument call name).bind as_i64).map Int32.ofInt

def missing (call : ToolCall) (name : String) : Error := .Protocol s!"{call.name} is missing {name}"
def string (call : ToolCall) (name : String) : Except Error String :=
  match optional_string call name with
  | some value => .ok value
  | none => .error (missing call name)

def firstString (call : ToolCall) (names : List String) : Option String := names.findSome? (optional_string call)
def string_aliased (call : ToolCall) (names : List String) : Except Error String :=
  match firstString call names with
  | some value => .ok value
  | none => .error (missing call (names.headD ""))

/-- `json_object_to_prost` keeps the members of an object. -/
def argsOf (value : Option Value) : List (String × Value) := (value.bind as_object).getD []

structure McpRoute where
  name : String
  provider_identifier : String
  tool_name : String
  description : String
deriving DecidableEq

inductive SubagentModel where
  | Model (model : String)
  | Disabled
deriving DecidableEq

structure ExecContext where
  conversation_id : String
  root_conversation_id : String
  default_subagent_model : String
  subagent_model : Option SubagentModel
  allow_subagents : Bool
  subagents_disabled : Bool
  terminals_folder : String
  admin_command_denylist : List String
  mcp_routes : String × String → Option McpRoute

structure McpToolDefinition where
  name : String
  provider_identifier : String
  tool_name : String
  description : String
deriving DecidableEq

def task_disabled (context : ExecContext) (name : String) : Bool :=
  eq_ignore_ascii_case name "Task" && (context.subagents_disabled || context.subagent_model = some .Disabled)

def taskModel (context : ExecContext) (members : List (String × Value)) : String :=
  match context.subagent_model with
  | some (.Model model) => model
  | _ => (((Json.get (.Object members) "model").bind Json.as_str).filter (· ≠ "inherit")).getD context.default_subagent_model

/-- A task gets its model; other calls stay as they are. -/
def prepare_call (context : ExecContext) (name : String) (call : ToolCall) : Except Error ToolCall :=
  if eq_ignore_ascii_case name "Task" then
    match call.arguments with
    | .Object members =>
      let subagent_type := ((Json.get call.arguments "subagent_type").bind Json.as_str).getD "generalPurpose"
      if task_disabled context name then .ok call
      else
        let model := taskModel context members
        if model.isEmpty then .error (.Protocol s!"Task subagent type {subagent_type} has no model")
        else .ok { call with arguments := .Object (insert members "model" (.String model)) }
    | _ => .error (.Protocol "Task arguments must be a JSON object")
  else .ok call

structure SmartModeApproval where
  request_id : String
  reason : String
deriving DecidableEq

/-- The parsing of a shell command: its first word and the others. -/
structure ShellCommandParsingResult where
  name : String
  args : List String
  full_text : String
deriving DecidableEq

/-- `debounce` is the number as JSON has it. -/
structure ShellOutputNotificationConfig where
  pattern : String
  reason : String
  debounce : Option Number
deriving DecidableEq

inductive SandboxType where
  | InsecureNone
  | WorkspaceReadwrite
deriving DecidableEq

structure SandboxPolicy where
  type : SandboxType
  network_access : Option Bool
deriving DecidableEq

structure ShellArgs where
  command : String
  working_directory : String
  timeout : Int32
  tool_call_id : String
  simple_commands : List String
  parsing_result : Option ShellCommandParsingResult
  file_output_threshold_bytes : Nat
  hard_timeout : Nat
  description : Option String
  output_notification : Option ShellOutputNotificationConfig
  smart_mode_approval : Option SmartModeApproval
  requested_sandbox_policy : Option SandboxPolicy
  close_stdin : Bool
  conversation_id : Option String
  admin_command_denylist : List String
deriving DecidableEq

structure ReadArgs where
  path : String
  tool_call_id : String
  offset : Option Int32 := none
  limit : Option UInt32 := none
  encoding_hint : Option String := none
deriving DecidableEq

structure DeleteArgs where
  path : String
  tool_call_id : String
deriving DecidableEq

structure GrepArgs where
  pattern : String
  path : Option String
  glob : Option String
  output_mode : Option String
  context_before : Option Int32 := none
  context_after : Option Int32 := none
  context : Option Int32 := none
  case_insensitive : Option Bool := none
  type : Option String := none
  head_limit : Option Int32 := none
  multiline : Option Bool := none
  sort : Option String := none
  sort_ascending : Option Bool := none
  tool_call_id : String
  offset : Option Int32 := none
deriving DecidableEq

inductive SubagentExecutionEnvironment where
  | Unspecified
  | Local
  | Cloud
deriving DecidableEq

structure SelectedVideo where
  path : String
  filename : String
  materialize_to_filesystem : Bool
deriving DecidableEq

structure SelectedContext where
  selected_videos : List SelectedVideo
  selected_images : List String
deriving DecidableEq

structure SubagentArgs where
  tool_call_id : String
  subagent_type : String
  model_id : String
  prompt : String
  readonly : Bool
  resume_agent_id : Option String
  run_in_background : Option Bool
  parent_conversation_id : Option String
  interrupt : Option Bool
  root_parent_conversation_id : Option String
  selected_context : Option SelectedContext
  environment : SubagentExecutionEnvironment
  cloud_base_branch : Option String
deriving DecidableEq

structure ReadMcpResourceExecArgs where
  server : String
  uri : String
  download_path : Option String
  tool_call_id : String
  smart_mode_approval : Option SmartModeApproval
deriving DecidableEq

structure McpArgs where
  name : String
  args : List (String × Value)
  tool_call_id : String
  provider_identifier : String
  tool_name : String
  smart_mode_approval : Option SmartModeApproval := none
  server_identifier : String := ""
deriving DecidableEq

inductive ExecMessage where
  | ShellStreamArgs (args : ShellArgs)
  | ReadArgs (args : ReadArgs)
  | DeleteArgs (args : DeleteArgs)
  | GrepArgs (args : GrepArgs)
  | DiagnosticsArgs (path tool_call_id : String)
  | SubagentArgs (args : SubagentArgs)
  | ReadMcpResourceExecArgs (args : ReadMcpResourceExecArgs)
  | WriteArgs (path file_text tool_call_id : String)
  | McpArgs (args : McpArgs)
  | McpStateExecArgs (server_identifiers : List String) (kick_only : Bool)
deriving DecidableEq

structure ExecServerMessage where
  id : Nat
  exec_id : String
  accept_hook_additional_contexts : Option Bool
  message : ExecMessage
deriving DecidableEq

/-- `std::path::Path`. -/
class Paths where
  extension : String → Option String
  file_name : String → Option String
variable [Paths]

/-- `str::split_whitespace`. -/
def words : List Char → List Char → List String
  | [], [] => []
  | [], word => [String.ofList word]
  | c :: rest, word =>
    if is_whitespace c then (if word = [] then words rest [] else String.ofList word :: words rest [])
    else words rest (word ++ [c])
def split_whitespace (text : String) : List String := words text.toList []

def shell_command_metadata (command : String) : List String × Option ShellCommandParsingResult :=
  let command := trim command
  match split_whitespace command with
  | [] => ([],none)
  | name :: args => ([command],some ⟨name,args,command⟩)

def blockTime (call : ToolCall) : Except Error Int :=
  match argument call "block_until_ms" with
  | none => .ok 30000
  | some value =>
    match as_i64 value with
    | some value => .ok value
    | none => .error (.Protocol "Shell block_until_ms must be an integer")
def shell_timeout (call : ToolCall) : Except Error Int32 := do
  let value ← blockTime call
  if 0 ≤ value ∧ value < 2 ^ 31 then .ok (Int32.ofInt value)
  else .error (.Protocol "Shell block_until_ms is out of range")

def smart_mode_approval (call : ToolCall) (request_field reason_field : String) : Except Error (Option SmartModeApproval) :=
  if (boolArgument call request_field).getD false then
    match optional_string call reason_field with
    | some reason => .ok (some ⟨call.call_id,reason⟩)
    | none => .error (.Protocol s!"{call.name} requires {reason_field}")
  else .ok none

def notificationString (value : Value) (field : String) : Except Error String :=
  match (Json.get value field).bind Json.as_str with
  | some value => .ok value
  | none => .error (.Protocol s!"Shell notify_on_output is missing {field}")
def asNumber : Value → Option Number
  | .Number value => some value
  | _ => none
def shell_notification (call : ToolCall) : Except Error (Option ShellOutputNotificationConfig) :=
  match argument call "notify_on_output" with
  | none => .ok none
  | some value =>
    match as_object value with
    | none => .error (.Protocol "Shell notify_on_output must be an object")
    | some _ => do
      let pattern ← notificationString value "pattern"
      let reason ← notificationString value "reason"
      .ok (some ⟨pattern,reason,(Json.get value "debounce_ms").bind asNumber⟩)

def shell_sandbox_policy (call : ToolCall) : Option SandboxPolicy :=
  ((argument call "required_permissions").bind Json.as_array).bind fun permissions =>
    let perms := permissions.filterMap Json.as_str
    if "all" ∈ perms then some ⟨.InsecureNone,some true⟩
    else if "full_network" ∈ perms then some ⟨.WorkspaceReadwrite,some true⟩
    else none

def VIDEOS : List String := ["mp4","mov","webm","mkv"]
def task_attachments (call : ToolCall) : Option SelectedContext :=
  ((argument call "file_attachments").bind Json.as_array).map fun paths =>
    let paths := paths.filterMap Json.as_str
    let isVideo (path : String) : Bool := to_ascii_lowercase ((Paths.extension path).getD "") ∈ VIDEOS
    ⟨(paths.filter isVideo).map fun path => ⟨path,(Paths.file_name path).getD "",true⟩,paths.filter (! isVideo ·)⟩

/-- The environment of a task: another text than these two is refused. -/
def taskEnvironment (call : ToolCall) : Except Error SubagentExecutionEnvironment :=
  match optional_string call "environment" with
  | none => .ok .Local
  | some value =>
    if value = "cloud" then .ok .Cloud
    else if value = "local" then .ok .Local
    else .error (.Protocol s!"unknown Task environment: {value}")

def PATHS : List String := ["path","file_path","filePath"]

def shellMessage (call : ToolCall) (context : ExecContext) : Except Error ExecMessage := do
  let command ← string call "command"
  let (simple_commands,parsing_result) := shell_command_metadata command
  let timeout ← shell_timeout call
  let output_notification ← shell_notification call
  let approval ← smart_mode_approval call "request_smart_mode_approval" "smart_mode_block_reason"
  .ok (.ShellStreamArgs {
    command
    working_directory := (optional_string call "working_directory").getD ""
    timeout
    tool_call_id := call.call_id
    simple_commands, parsing_result
    file_output_threshold_bytes := 40000
    hard_timeout := 86400000
    description := optional_string call "description"
    output_notification
    smart_mode_approval := approval
    requested_sandbox_policy := shell_sandbox_policy call
    close_stdin := true
    conversation_id := some context.conversation_id
    admin_command_denylist := context.admin_command_denylist })

def readMessage (call : ToolCall) : Except Error ExecMessage := do
  let path ← string_aliased call PATHS
  .ok (.ReadArgs {
    path
    tool_call_id := call.call_id
    offset := int call "offset"
    limit := ((argument call "limit").bind Json.as_u64).map UInt32.ofNat
    encoding_hint := optional_string call "encoding_hint" })

def deleteMessage (call : ToolCall) : Except Error ExecMessage := do
  let path ← string_aliased call PATHS
  .ok (.DeleteArgs ⟨path,call.call_id⟩)

def grepMessage (call : ToolCall) : Except Error ExecMessage := do
  let pattern ← string call "pattern"
  .ok (.GrepArgs {
    pattern
    path := optional_string call "path"
    glob := optional_string call "glob"
    output_mode := optional_string call "output_mode"
    context_before := int call "-B"
    context_after := int call "-A"
    context := int call "-C"
    case_insensitive := boolArgument call "-i"
    type := optional_string call "type"
    head_limit := int call "head_limit"
    multiline := boolArgument call "multiline"
    sort := optional_string call "sort"
    sort_ascending := boolArgument call "sort_ascending"
    tool_call_id := call.call_id
    offset := int call "offset" })

def globMessage (call : ToolCall) : ExecMessage :=
  .GrepArgs {
    pattern := ""
    path := optional_string call "target_directory"
    glob := optional_string call "glob_pattern"
    output_mode := some "files_with_matches"
    tool_call_id := call.call_id }

def readLintsMessage (call : ToolCall) : ExecMessage :=
  let paths := (argument call "paths").bind Json.as_array
  .DiagnosticsArgs (((paths.bind (·.head?)).bind Json.as_str).getD "") call.call_id

def taskMessage (call : ToolCall) (context : ExecContext) : Except Error ExecMessage := do
  let model_id ← string call "model"
  let prompt ← string call "prompt"
  let environment ← taskEnvironment call
  .ok (.SubagentArgs {
    tool_call_id := call.call_id
    subagent_type := (optional_string call "subagent_type").getD ""
    model_id, prompt
    readonly := false
    resume_agent_id := optional_string call "resume"
    run_in_background := boolArgument call "run_in_background"
    parent_conversation_id := some context.conversation_id
    interrupt := boolArgument call "interrupt"
    root_parent_conversation_id := some context.root_conversation_id
    selected_context := task_attachments call
    environment
    cloud_base_branch := optional_string call "cloud_base_branch" })

def fetchMcpResourceMessage (call : ToolCall) : Except Error ExecMessage := do
  let server ← string call "server"
  let uri ← string call "uri"
  let approval ← smart_mode_approval call "requestSmartModeApproval" "smartModeBlockReason"
  .ok (.ReadMcpResourceExecArgs ⟨server,uri,optional_string call "downloadPath",call.call_id,approval⟩)

def execMessage (name : String) (call : ToolCall) (context : ExecContext) : Except Error ExecMessage :=
  let key := normalized name
  if key = "shell" ∨ key = "bash" then shellMessage call context
  else if key = "read" then readMessage call
  else if key = "delete" then deleteMessage call
  else if key = "grep" then grepMessage call
  else if key = "glob" then .ok (globMessage call)
  else if key = "readlints" then .ok (readLintsMessage call)
  else if key = "task" then taskMessage call context
  else if key = "fetchmcpresource" then fetchMcpResourceMessage call
  else .error (.Protocol s!"tool {key} is not executed through ExecServerMessage")

def isSubagent : ExecMessage → Bool
  | .SubagentArgs _ => true
  | _ => false

def request (name : String) (id : Nat) (call : ToolCall) (context : ExecContext) : Except Error ExecServerMessage := do
  let message ← execMessage name call context
  .ok ⟨id,call.call_id,some (!isSubagent message),message⟩

def path (name : String) (call : ToolCall) : Except Error String :=
  if normalized name = "editnotebook" then string_aliased call ["target_notebook"] else string_aliased call PATHS

def edit_read_request (name : String) (id : Nat) (call : ToolCall) : Except Error ExecServerMessage := do
  let path ← path name call
  .ok ⟨id,call.call_id,some true,.ReadArgs { path, tool_call_id := call.call_id }⟩

def edit_write_request (name : String) (id : Nat) (call : ToolCall) (after : String) : Except Error ExecServerMessage := do
  let path ← path name call
  .ok ⟨id,call.call_id,some true,.WriteArgs path after call.call_id⟩

def mcp_request (id : Nat) (call : ToolCall) (definition : McpToolDefinition) : ExecServerMessage :=
  ⟨id,call.call_id,none,.McpArgs {
    name := definition.name
    args := argsOf (some call.arguments)
    tool_call_id := call.call_id
    provider_identifier := definition.provider_identifier
    tool_name := definition.tool_name }⟩

def mcp_meta_request (id : Nat) (call : ToolCall) (server_identifier : String) (route : McpRoute) : Except Error ExecServerMessage :=
  if route.name.isEmpty || route.provider_identifier.isEmpty || route.tool_name.isEmpty then
    .error (.Protocol s!"MCP definition for {server_identifier} is incomplete")
  else match optional_string call "toolName" with
    | none => .error (.Protocol "CallMcpTool is missing toolName")
    | some requested_tool =>
      if requested_tool ≠ route.tool_name then
        .error (.Protocol s!"MCP definition mismatch: requested {requested_tool}, resolved {route.tool_name}")
      else do
        let approval ← smart_mode_approval call "requestSmartModeApproval" "smartModeBlockReason"
        .ok ⟨id,call.call_id,some true,.McpArgs {
          name := route.name
          args := argsOf (argument call "arguments")
          tool_call_id := call.call_id
          provider_identifier := route.provider_identifier
          tool_name := route.tool_name
          smart_mode_approval := approval
          server_identifier }⟩

def mcp_state_request (id : Nat) (call : ToolCall) : ExecServerMessage :=
  ⟨id,call.call_id,some false,.McpStateExecArgs (optional_string call "server").toList false⟩

end MyCursor.ToolRequests

import MyCursor.ToolRequests

/-!
# The cards and questions of tool calls

`cursor/tools/codec/render.rs`, `codec/query.rs` and `compat.rs`: the card that the
client shows for a call, and the question that it puts to the user before the call
goes on. Times are left out of the cards.
-/
namespace MyCursor.ToolCards
open Message Text ToolRequests

inductive TodoStatus where
  | Pending
  | InProgress
  | Completed
  | Cancelled
deriving DecidableEq

structure TodoItem where
  id : String
  content : String
  status : TodoStatus
  dependencies : List String
deriving DecidableEq

inductive SubagentType where
  | Unspecified
  | Explore
  | BrowserUse
  | Shell
  | Bash
  | Debug
  | CursorGuide
  | ComputerUse
  | Custom (name : String)
deriving DecidableEq

structure CreatePlanArgs where
  plan : String
  todos : List TodoItem
  overview : String
  name : String
deriving DecidableEq

structure GenerateImageArgs where
  description : String
  file_path : Option String
  reference_image_paths : List String
  aspect_ratio : Option String
deriving DecidableEq

structure TaskArgs where
  description : String
  prompt : String
  subagent_type : SubagentType
  model : Option String
  resume : Option String
  attachments : List String
  environment : SubagentExecutionEnvironment
deriving DecidableEq

structure CommunicateUpdateArgs where
  current_step : Option String
  final_summary : Option String
  completed_subtitle : Option String
deriving DecidableEq

inductive Card where
  | ShellToolCall (command working_directory : String) (description : Option String)
  | DeleteToolCall (path : String)
  | GlobToolCall (target_directory : Option String) (glob_pattern : String)
  | GrepToolCall (pattern : String) (path glob output_mode : Option String)
  | ReadToolCall (path : String) (offset limit : Option Int32) (include_line_numbers : Option Bool)
  | UpdateTodosToolCall (todos : List TodoItem) (merge : Bool)
  | EditToolCall (path : String) (stream_content : Option String)
  | ReadLintsToolCall (paths : List String)
  | McpToolCall (args : McpArgs) (description : Option String)
  | McpAuthToolCall (server_identifier : String)
  | CreatePlanToolCall (args : CreatePlanArgs)
  | WebSearchToolCall (search_term : String)
  | TaskToolCall (args : TaskArgs)
  | ReadMcpResourceToolCall (server uri : String) (download_path : Option String)
  | AskQuestionToolCall
  | WebFetchToolCall (url : String)
  | SwitchModeToolCall (target_mode_id : String) (explanation : Option String)
  | GenerateImageToolCall (args : GenerateImageArgs)
  | CommunicateUpdateToolCall (args : CommunicateUpdateArgs)
  | GetMcpToolsToolCall (server tool_name pattern : Option String)
deriving DecidableEq

def textOf (value : Value) (name : String) : String := ((Json.get value name).bind Json.as_str).getD ""
def arrayOf (value : Option Value) : List Value := (value.bind Json.as_array).getD []
def stringsOf (value : Option Value) : List String := (arrayOf value).filterMap Json.as_str

def todoStatus (todo : Value) : TodoStatus :=
  match ((Json.get todo "status").bind Json.as_str).getD "pending" with
  | "in_progress" => .InProgress
  | "completed" => .Completed
  | "cancelled" => .Cancelled
  | _ => .Pending
def todo_items (arguments : Value) : List TodoItem := (arrayOf (Json.get arguments "todos")).map fun todo =>
  ⟨textOf todo "id",textOf todo "content",todoStatus todo,stringsOf (Json.get todo "dependencies")⟩

def subagent_type (name : String) : SubagentType :=
  let key := to_ascii_lowercase name
  if key = "" ∨ key = "generalpurpose" then .Unspecified
  else if key = "explore" then .Explore
  else if key = "browser-use" ∨ key = "browseruse" then .BrowserUse
  else if key = "shell" then .Shell
  else if key = "bash" then .Bash
  else if key = "debug" then .Debug
  else if key = "cursor-guide" ∨ key = "cursorguide" then .CursorGuide
  else if key = "computer-use" ∨ key = "computeruse" then .ComputerUse
  else .Custom name

def execution_environment : Option String → SubagentExecutionEnvironment
  | none => .Local
  | some value => if value = "cloud" then .Cloud else if value = "local" then .Local else .Unspecified

/-- `edit::normalize_newlines`: every line ends with a line feed. -/
def unixLines : List Char → List Char
  | '\r' :: '\n' :: rest => '\n' :: unixLines rest
  | '\r' :: rest => '\n' :: unixLines rest
  | c :: rest => c :: unixLines rest
  | [] => []
def normalize_newlines (value : String) : String := String.ofList (unixLines value.toList)

def is_mcp_auth (name : String) (call : ToolCall) : Bool :=
  normalized name = "callmcptool" && (optional_string call "toolName").any fun tool => normalized tool = "mcpauth"

def semble_tool_name (name : String) : Option String :=
  if normalized name = "semblesearch" then some "search"
  else if normalized name = "semblefindrelated" then some "find_related"
  else none

def stringOrEmpty (call : ToolCall) (name : String) : String := (optional_string call name).getD ""
def aliased (call : ToolCall) (names : List String) : String := (firstString call names).getD ""

def mcpCard (name : String) (call : ToolCall) : Card :=
  match semble_tool_name name with
  | some tool_name => .McpToolCall {
      name := tool_name
      args := (argsOf (some call.arguments)).filter (·.1 ≠ "description")
      tool_call_id := call.call_id
      provider_identifier := "builtin-semble"
      tool_name
      server_identifier := "builtin-semble" } (optional_string call "description")
  | none => .McpToolCall {
      name := stringOrEmpty call "toolName"
      args := argsOf (argument call "arguments")
      tool_call_id := call.call_id
      provider_identifier := ""
      tool_name := stringOrEmpty call "toolName"
      server_identifier := stringOrEmpty call "server" } (optional_string call "description")

def editCard (name : String) (call : ToolCall) : Card :=
  let stream_content := if normalized name = "write" then aliased call ["contents","content"] else stringOrEmpty call "new_string"
  .EditToolCall (if normalized name = "editnotebook" then stringOrEmpty call "target_notebook" else aliased call PATHS)
    (some (normalize_newlines stream_content))

def taskCard (call : ToolCall) : Card := .TaskToolCall {
  description := stringOrEmpty call "description"
  prompt := stringOrEmpty call "prompt"
  subagent_type := subagent_type (stringOrEmpty call "subagent_type")
  model := optional_string call "model"
  resume := optional_string call "resume"
  attachments := stringsOf (argument call "file_attachments")
  environment := execution_environment (optional_string call "environment") }

/-- The card of a tool that the server knows, by its normalized name. -/
def knownCard (name : String) (call : ToolCall) : Option Card :=
  let key := normalized name
  if key = "shell" ∨ key = "bash" then
    some (.ShellToolCall (stringOrEmpty call "command") (stringOrEmpty call "working_directory") (optional_string call "description"))
  else if key = "delete" then some (.DeleteToolCall (aliased call PATHS))
  else if key = "glob" then some (.GlobToolCall (optional_string call "target_directory") (stringOrEmpty call "glob_pattern"))
  else if key = "grep" then some (.GrepToolCall (stringOrEmpty call "pattern") (optional_string call "path")
    (optional_string call "glob") (optional_string call "output_mode"))
  else if key = "read" then
    some (.ReadToolCall (aliased call PATHS) (int call "offset") (int call "limit") (boolArgument call "include_line_numbers"))
  else if key = "todowrite" then
    some (.UpdateTodosToolCall (todo_items call.arguments) ((boolArgument call "merge").getD false))
  else if key = "strreplace" ∨ key = "editnotebook" ∨ key = "write" then some (editCard name call)
  else if key = "readlints" then some (.ReadLintsToolCall (stringsOf (argument call "paths")))
  else if key = "callmcptool" ∨ key = "semblesearch" ∨ key = "semblefindrelated" then some (mcpCard name call)
  else if key = "createplan" then some (.CreatePlanToolCall
    ⟨stringOrEmpty call "plan",todo_items call.arguments,stringOrEmpty call "overview",stringOrEmpty call "name"⟩)
  else if key = "websearch" then some (.WebSearchToolCall (aliased call ["search_term","query"]))
  else if key = "task" then some (taskCard call)
  else if key = "fetchmcpresource" then some (.ReadMcpResourceToolCall (stringOrEmpty call "server") (stringOrEmpty call "uri")
    (optional_string call "downloadPath"))
  else if key = "askquestion" then some .AskQuestionToolCall
  else if key = "webfetch" then some (.WebFetchToolCall (stringOrEmpty call "url"))
  else if key = "switchmode" then
    some (.SwitchModeToolCall (stringOrEmpty call "target_mode_id") (optional_string call "explanation"))
  else if key = "generateimage" then some (.GenerateImageToolCall ⟨stringOrEmpty call "description",
    optional_string call "filename",stringsOf (argument call "reference_image_paths"),optional_string call "aspect_ratio"⟩)
  else if key = "updatecurrentstep" then some (.CommunicateUpdateToolCall ⟨optional_string call "current_step",
    optional_string call "final_summary",optional_string call "completed_subtitle"⟩)
  else if key = "getmcptools" then some (.GetMcpToolsToolCall (optional_string call "server") (optional_string call "toolName")
    (optional_string call "pattern"))
  else none

def unsupported (call : ToolCall) : Error := .Protocol s!"unsupported tool: {call.name}"

/-- `render_tool_call` of `render.rs`. -/
def render_builtin (name : String) (call : ToolCall) : Except Error Card :=
  if is_mcp_auth name call then
    match (optional_string call "server").filter (! ·.isEmpty) with
    | some server_identifier => .ok (.McpAuthToolCall server_identifier)
    | none => .error (.Protocol "CallMcpTool mcp_auth is missing server")
  else match knownCard name call with
    | some card => .ok card
    | none => .error (unsupported call)

def COMPAT_PROVIDER : String := "cursor-byok-compat"
/-- `compat::render`: the card of a tool that the server does not know. -/
def compatCard (call : ToolCall) : Card := .McpToolCall {
  name := call.name
  args := argsOf (some call.arguments)
  tool_call_id := call.call_id
  provider_identifier := COMPAT_PROVIDER
  tool_name := call.name
  server_identifier := COMPAT_PROVIDER } (some "Unavailable legacy or unsupported tool")

/-- `render_tool_call` of `codec/mod.rs`. -/
def render_tool_call (name : String) (call : ToolCall) : Except Error Card :=
  match render_builtin name call with
  | .ok card => .ok card
  | .error error => if error = unsupported call then .ok (compatCard call) else .error error

def render_dynamic_mcp (call : ToolCall) (definition : McpToolDefinition) : Card := .McpToolCall {
  name := definition.name
  args := argsOf (some call.arguments)
  tool_call_id := call.call_id
  provider_identifier := definition.provider_identifier
  tool_name := definition.tool_name } (some definition.description)

def tool_started (name : String) (call : ToolCall) : Option McpToolDefinition → Except Error Card
  | some definition => .ok (render_dynamic_mcp call definition)
  | none => render_tool_call name call

structure QuestionOption where
  id : String
  label : String
deriving DecidableEq

structure Question where
  id : String
  prompt : String
  options : List QuestionOption
  allow_multiple : Bool
deriving DecidableEq

inductive Query where
  | AskQuestion (title : String) (questions : List Question) (tool_call_id : String)
  | WebSearchRequest (search_term tool_call_id : String)
  | WebFetchRequest (url tool_call_id : String) (smart_mode_approval : Option SmartModeApproval)
  | SwitchModeRequest (target_mode_id : String) (explanation : Option String) (tool_call_id : String)
  | CreatePlanRequest (args : CreatePlanArgs) (tool_call_id : String)
  | GenerateImageRequest (args : GenerateImageArgs) (tool_call_id : String)
  | McpAuthRequest (server_identifier tool_call_id : String)
deriving DecidableEq

structure InteractionQuery where
  id : Nat
  query : Query
deriving DecidableEq

def stringIn (value : Value) (owner name : String) : Except Error String :=
  match (Json.get value name).bind Json.as_str with
  | some value => .ok value
  | none => .error (.Protocol s!"{owner} is missing {name}")

def questionOption (option : Value) : Except Error QuestionOption := do
  let id ← stringIn option "question option" "id"
  let label ← stringIn option "question option" "label"
  .ok ⟨id,label⟩
def question (question : Value) : Except Error Question := do
  let options ← (arrayOf (Json.get question "options")).mapM questionOption
  let id ← stringIn question "question" "id"
  let prompt ← stringIn question "question" "prompt"
  .ok ⟨id,prompt,options,((Json.get question "allow_multiple").bind Json.as_bool).getD false⟩

def askQuestion (call : ToolCall) : Except Error Query := do
  let questions ← (arrayOf (argument call "questions")).mapM question
  .ok (.AskQuestion (stringOrEmpty call "title") questions call.call_id)

def webSearch (call : ToolCall) : Except Error Query := do
  let search_term ← string_aliased call ["search_term","query"]
  .ok (.WebSearchRequest search_term call.call_id)

def webFetch (call : ToolCall) : Except Error Query := do
  let url ← string call "url"
  let approval ← smart_mode_approval call "requestSmartModeApproval" "smartModeBlockReason"
  .ok (.WebFetchRequest url call.call_id approval)

def switchMode (call : ToolCall) : Except Error Query := do
  let target_mode_id ← string call "target_mode_id"
  .ok (.SwitchModeRequest target_mode_id (optional_string call "explanation") call.call_id)

def createPlan (call : ToolCall) : Except Error Query := do
  let todos := (arrayOf (argument call "todos")).map fun todo => ⟨textOf todo "id",textOf todo "content",.Pending,[]⟩
  let plan ← string call "plan"
  let overview ← string call "overview"
  .ok (.CreatePlanRequest ⟨plan,todos,overview,stringOrEmpty call "name"⟩ call.call_id)

def generateImage (call : ToolCall) : Except Error Query := do
  let description ← string call "description"
  .ok (.GenerateImageRequest ⟨description,optional_string call "filename",stringsOf (argument call "reference_image_paths"),
    optional_string call "aspect_ratio"⟩ call.call_id)

def mcpAuth (call : ToolCall) : Except Error Query := do
  let server_identifier ← string call "server"
  .ok (.McpAuthRequest server_identifier call.call_id)

def queryOf (name : String) (call : ToolCall) : Except Error Query :=
  let key := normalized name
  if key = "askquestion" then askQuestion call
  else if key = "websearch" then webSearch call
  else if key = "webfetch" then webFetch call
  else if key = "switchmode" then switchMode call
  else if key = "createplan" then createPlan call
  else if key = "generateimage" then generateImage call
  else if is_mcp_auth name call then mcpAuth call
  else .error (.Protocol s!"tool {key} is not an InteractionQuery")

def tool_query (name : String) (id : Nat) (call : ToolCall) : Except Error InteractionQuery := do
  let query ← queryOf name call
  .ok ⟨id,query⟩

end MyCursor.ToolCards

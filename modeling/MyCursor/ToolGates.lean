import MyCursor.GrepGate
import MyCursor.McpGate
import MyCursor.ShellGate

/-!
# The gates of completions

`gate::tool_completion`: a result passes the gate of its tool, and the content is cut.
No card of the server is one of `ListMcpResources`.
-/
namespace MyCursor.ToolGates
open Text Message Compaction ToolRequests ToolCards ToolResults Truncation GrepGate McpGate ShellGate

def READ_CONTENT_LIMIT : Nat := 64 * KIB
def READ_BINARY_LIMIT : Nat := 32 * KIB
def GLOB_FILE_LIMIT : Nat := 200
def MCP_BINARY_LIMIT : Nat := 32 * KIB
def WEB_FETCH_LIMIT : Nat := 32 * KIB

inductive ReadOutput where
  | Content (value : String)
  | Data (value : List UInt8)
structure ReadSuccess where
  output : Option ReadOutput
  exceeded_limit : Bool
def gate_read (success : ReadSuccess) : ReadSuccess :=
  match success.output with
  | some (.Content value) =>
    let next := shownText "Read" value READ_CONTENT_LIMIT
    if next ≠ value then ⟨some (.Content next),true⟩ else success
  | some (.Data value) =>
    if READ_BINARY_LIMIT < value.length then
      ⟨some (.Content (truncation_notice "Read binary data" READ_BINARY_LIMIT 0 value.length)),true⟩
    else success
  | none => success

structure GlobSuccess where
  files : List String
  total_files : Int32
  client_truncated : Bool
def gate_glob (success : GlobSuccess) : GlobSuccess :=
  let original := success.files.length
  if original ≤ GLOB_FILE_LIMIT then
    if success.total_files ≤ 0 then { success with total_files := Int32.ofNat original } else success
  else ⟨success.files.take GLOB_FILE_LIMIT,max success.total_files (Int32.ofNat original),true⟩

inductive ResourceContent where
  | Text (text : String)
  | Blob (blob : List UInt8)
def gate_mcp_resource : ResourceContent → ResourceContent
  | .Text text => .Text (shownText "FetchMcpResource" text MCP_TEXT_LIMIT)
  | .Blob blob =>
    if MCP_BINARY_LIMIT < blob.length then .Text (truncation_notice "FetchMcpResource blob" MCP_BINARY_LIMIT 0 blob.length) else .Blob blob

def gate_mcp_tools (content : String) : String := shownText "GetMcpTools" content MCP_TEXT_LIMIT
def gate_web_fetch (markdown : String) : String := shownText "WebFetch" markdown WEB_FETCH_LIMIT
def gate_generate_image (image_data : String) : String :=
  if trim image_data ≠ "" ∧ starts_with image_data IMAGE_OMITTED = false then IMAGE_OMITTED ++ s!"{(trim image_data).utf8ByteSize}]"
  else image_data

/-- What `prost` finds of a result in its bytes, and the bytes with another in its place. -/
structure Part (Result : Type) where
  found : List UInt8 → Option Result
  replaced : Result → List UInt8 → List UInt8
def Part.gated {Result : Type} (part : Part Result) (gate : Result → Option Result) (bytes : List UInt8) : Option (List UInt8) :=
  match part.found bytes with
  | none => some bytes
  | some result => (gate result).map fun gated => part.replaced gated bytes

/-- What the gates look at in the results of the cards. -/
class Parts where
  shell : Part (Option ShellOutcome)
  grep : Part GrepSuccess
  glob : Part GlobSuccess
  read : Part ReadSuccess
  mcp : Part McpSuccess
  resource : Part ResourceContent
  tools : Part String
  fetch : Part String
  search : Part (List WebSearchReference)
  image : Part String

section Gates
variable [SerdeText] [Parts]

def gateBytes (turns : Nat) (card : Card) (bytes : List UInt8) : Option (List UInt8) :=
  match card with
  | .ShellToolCall _ _ _ => Parts.shell.gated (gate_shell_result turns) bytes
  | .GrepToolCall _ _ _ _ => Parts.grep.gated (some ∘ gate_grep) bytes
  | .GlobToolCall _ _ => Parts.glob.gated (some ∘ gate_glob) bytes
  | .ReadToolCall _ _ _ _ => Parts.read.gated (some ∘ gate_read) bytes
  | .McpToolCall _ _ => Parts.mcp.gated (some ∘ gate_mcp) bytes
  | .ReadMcpResourceToolCall _ _ _ => Parts.resource.gated (some ∘ gate_mcp_resource) bytes
  | .GetMcpToolsToolCall _ _ _ => Parts.tools.gated (some ∘ gate_mcp_tools) bytes
  | .WebFetchToolCall _ => Parts.fetch.gated (some ∘ gate_web_fetch) bytes
  | .WebSearchToolCall _ => Parts.search.gated (some ∘ gate_web_search) bytes
  | .GenerateImageToolCall _ => Parts.image.gated (some ∘ gate_generate_image) bytes
  | _ => some bytes

def gateTool (turns : Nat) (name : String) (call : ToolCall) (tool : Tool) : Option Tool :=
  match tool.card, tool.result with
  | .EditToolCall _ _, some (.EditSuccess success) =>
    (gate_edit turns name call success).map fun success => { tool with result := some (.EditSuccess success) }
  | card, some (.Encoded bytes) => (gateBytes turns card bytes).map fun bytes => { tool with result := some (.Encoded bytes) }
  | _, _ => some tool

variable [ReplayText]

/-- `gate::tool_completion`. -/
def tool_completion (turns : Nat) (name : String) (call : ToolCall) (tool : Tool) (content : String) : Option (Tool × String) := do
  let tool ← gateTool turns name call tool
  let content ← limit_tool_result_text turns name call content
  some (tool,content)

end Gates

end MyCursor.ToolGates

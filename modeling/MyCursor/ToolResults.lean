import MyCursor.Compaction
import MyCursor.ToolCards

/-!
# The results of tool calls

`cursor/tools/tool_call_result` with `compat.rs`, and the limits of
`model/tool_result_replay.rs`: what a call is answered with where the server
answers it by itself, and how every answer is cut to the limit of its tool. As in
`MyCursor.ToolRequests` the name that is compared stands beside the call.
-/
namespace MyCursor.ToolResults
open Message Text Compaction ToolRequests ToolCards

structure EditSuccess where
  path : String
  lines_added : Option Int32
  lines_removed : Option Int32
  diff_string : Option String
  before_full_file_content : Option String
  after_full_file_content : String
deriving DecidableEq

/-- The result on a card; those that the server does not look at by their bytes. -/
inductive Outcome where
  | EditSuccess (success : EditSuccess)
  | TaskError (error : String)
  | UpdateTodosSuccess (todos : List TodoItem) (total_count : Int32) (was_merge : Bool)
  | CommunicateUpdateSuccess (current_step : String) (message_index : UInt32)
  | McpToolError (error : String)
  | Encoded (bytes : List UInt8)
deriving DecidableEq

structure Tool where
  card : Card
  result : Option Outcome
deriving DecidableEq

/-- What a completion is made of, before its content is limited. -/
structure ToolCompletion where
  call_id : String
  content : String
  is_error : Bool
  tool : Tool
deriving DecidableEq

section Completions
variable [SerdeText]

def SUBAGENTS_DISABLED_REMINDER : String :=
  "<system_reminder>The user has disabled the subagent model. Please remind the user to enable it in Cursor Settings → Models → " ++
    "Explore Subagent Model.</system_reminder>"

def subagents_disabled (name : String) (call : ToolCall) : Except Error ToolCompletion := do
  let card ← render_tool_call name call
  match card with
  | .TaskToolCall _ => .ok ⟨call.call_id,SUBAGENTS_DISABLED_REMINDER,true,card,some (.TaskError SUBAGENTS_DISABLED_REMINDER)⟩
  | _ => .error (.Protocol "Task has no Cursor representation")

def todo_write (name : String) (call : ToolCall) : Except Error ToolCompletion := do
  let todos := todo_items call.arguments
  let card ← render_tool_call name call
  match card with
  | .UpdateTodosToolCall _ _ => .ok ⟨call.call_id,SerdeText.value call.arguments,false,card,
      some (.UpdateTodosSuccess todos (Int32.ofNat todos.length) ((boolArgument call "merge").getD false))⟩
  | _ => .error (.Protocol "TodoWrite has no Cursor representation")

def update_current_step (name : String) (call : ToolCall) (message_index : Nat) : Except Error ToolCompletion := do
  let current_step := stringOrEmpty call "current_step"
  let card ← render_tool_call name call
  match card with
  | .CommunicateUpdateToolCall _ =>
    if message_index < 2 ^ 32 then
      let success := Value.Object [("current_step",.String current_step),("message_index",.Number (.PosInt message_index))]
      .ok ⟨call.call_id,SerdeText.value (.Object [("success",success)]),false,card,
        some (.CommunicateUpdateSuccess current_step (UInt32.ofNat message_index))⟩
    else .error (.Protocol "Cursor message index space exhausted")
  | _ => .error (.Protocol "UpdateCurrentStep has no Cursor representation")

/-- `tool_call_result::local`. -/
def localResult (name : String) (call : ToolCall) (message_index : Nat) : Except Error ToolCompletion :=
  if normalized name = "todowrite" then todo_write name call
  else if normalized name = "updatecurrentstep" then update_current_step name call message_index
  else .error (unsupported call)

end Completions

/-- `tool_call_result::mcp_failure`. -/
def mcp_failure (call : ToolCall) (error : String) : ToolCompletion :=
  let server := stringOrEmpty call "server"
  let tool_name := stringOrEmpty call "toolName"
  ⟨call.call_id,error,true,.McpToolCall {
      name := s!"{server}-{tool_name}"
      args := argsOf (argument call "arguments")
      tool_call_id := call.call_id
      provider_identifier := server
      tool_name
      server_identifier := server } (optional_string call "description"),some (.McpToolError error)⟩

def failure_message (name : String) (call : ToolCall) : String :=
  if normalized name = "awaitshell" then
    "Tool \"AwaitShell\" is no longer available in this My Cursor version. The model emitted a tool name that is not part of " ++
      "the current advertised tool set. Treat the tool call as failed and continue using only tools advertised in the current " ++
      "prompt; for background shell work, use the current Shell/background completion flow."
  else "Tool \"" ++ call.name ++ "\" is not available in this My Cursor version. The model emitted a tool name that is not part " ++
    "of the current advertised tool set. Treat the tool call as failed and continue using a tool advertised in the current prompt."

/-- `compat::failure`. -/
def compat_failure (name : String) (call : ToolCall) : ToolCompletion :=
  let error := failure_message name call
  ⟨call.call_id,error,true,compatCard call,some (.McpToolError error)⟩

/-- The longest front of the characters within the limit of bytes. -/
def frontWithin (limit : Nat) : List Char → List Char
  | [] => []
  | c :: rest => if c.utf8Size ≤ limit then c :: frontWithin (limit - c.utf8Size) rest else []
def utf8Prefix (value : String) (limit : Nat) : String := String.ofList (frontWithin limit value.toList)
def utf8_suffix (value : String) (limit : Nat) : String :=
  String.ofList (frontWithin limit value.toList.reverse).reverse

def truncation_notice (tool_name : String) (limit shown original : Nat) : String :=
  s!"[truncated: {tool_name} result exceeded {limit} bytes; showing {shown} of {original} bytes]"
def trim_end_newlines (value : String) : String := String.ofList (value.toList.reverse.dropWhile (· = '\n')).reverse

/-- The loop of `truncated_prefix_with_notice`, for so many turns. -/
def noticeTurns (tool_name content : String) (limit : Nat) : Nat → Nat → Option String
  | 0, _ => none
  | turns + 1, cap =>
    let kept := trim_end_newlines (utf8Prefix content cap)
    let notice := "\n\n" ++ truncation_notice tool_name limit kept.utf8ByteSize content.utf8ByteSize
    if limit ≤ notice.utf8ByteSize then some (utf8Prefix content limit)
    else if kept.utf8ByteSize ≤ limit - notice.utf8ByteSize then some (kept ++ notice)
    else noticeTurns tool_name content limit turns (limit - notice.utf8ByteSize)

/-- The loop of `gate::truncate_text`, for so many turns. -/
def gateTurns (tool_name content : String) (limit : Nat) : Nat → Nat → Option Nat → Option String
  | 0, _, _ => none
  | turns + 1, shown, previous =>
    let notice := "\n\n" ++ truncation_notice tool_name limit shown content.utf8ByteSize
    if limit ≤ notice.utf8ByteSize then some (utf8Prefix content limit)
    else
      let kept := utf8Prefix content (limit - notice.utf8ByteSize)
      if kept.utf8ByteSize = shown ∨ previous = some kept.utf8ByteSize then
        noticeTurns tool_name content limit (turns + 1) kept.utf8ByteSize
      else gateTurns tool_name content limit turns kept.utf8ByteSize (some shown)
def truncate_text (turns : Nat) (tool_name content : String) (limit : Nat) : Option String :=
  if content.utf8ByteSize ≤ limit then some content else gateTurns tool_name content limit turns limit none

/-- The loop of `truncate_replay_text`, for so many turns. -/
def replayTurns (name content : String) (limit : Nat) : Nat → Nat → Option String
  | 0, _ => none
  | turns + 1, shown =>
    let notice := "\n\n" ++ truncation_notice name limit shown content.utf8ByteSize
    let kept := utf8Prefix content (limit - notice.utf8ByteSize)
    if kept.utf8ByteSize = shown then some (trim_end_newlines kept ++ notice)
    else replayTurns name content limit turns kept.utf8ByteSize
def truncate_replay_text (turns : Nat) (name content : String) (limit : Nat) : Option String :=
  if content.utf8ByteSize ≤ limit then some content else replayTurns name content limit turns limit

def middleNotice (name : String) (limit shown original : Nat) : String :=
  s!"\n\n[truncated: {name} result exceeded {limit} bytes; omitted middle; showing {shown} of {original} bytes]\n\n"
/-- The loop of `truncate_middle`, for so many turns. -/
def middleTurns (name content : String) (limit : Nat) : Nat → Nat → Option String
  | 0, _ => none
  | turns + 1, shown =>
    let notice := middleNotice name limit shown content.utf8ByteSize
    let available := limit - notice.utf8ByteSize
    let head := utf8Prefix content (available / 2)
    let tail := utf8_suffix content (available - head.utf8ByteSize)
    let next_shown := head.utf8ByteSize + tail.utf8ByteSize
    let next_notice := middleNotice name limit next_shown content.utf8ByteSize
    let output := head ++ next_notice ++ tail
    if output.utf8ByteSize ≤ limit ∨ next_notice = notice then some output else middleTurns name content limit turns next_shown
def truncate_middle (turns : Nat) (name content : String) (limit : Nat) : Option String :=
  if content.utf8ByteSize ≤ limit then some content else middleTurns name content limit turns limit

/-! ## The limits of replayed results -/

def KIB : Nat := 1024

inductive Compacting where
  | GenerateImage
  | Shell
  | Edit
  | Nothing
deriving DecidableEq

def PATCHES : List String := ["PatchEdit","PatchEditLines","PatchEditSpan","StrReplace"]
/-- The names of `replay_limit` with their limits. -/
def REPLAYED : List (String × Nat) :=
  [("GenerateImage",16 * KIB),("WebSearch",16 * KIB),("Read",64 * KIB),("Shell",128 * KIB),("Grep",32 * KIB),("Glob",32 * KIB),
    ("PatchEdit",4 * KIB),("PatchEditLines",4 * KIB),("PatchEditSpan",4 * KIB),("StrReplace",4 * KIB),("Edit",32 * KIB),
    ("EditNotebook",32 * KIB),("Write",32 * KIB),("WebFetch",32 * KIB),("CallMcpTool",32 * KIB),("FetchMcpResource",32 * KIB),
    ("ListMcpResources",32 * KIB),("GetMcpTools",32 * KIB),("SembleSearch",32 * KIB),("SembleFindRelated",32 * KIB)]

def replay_limit (name : String) : Option Nat := (REPLAYED.find? (·.1 = trim name)).map (·.2)
def compacting (name : String) : Compacting :=
  let name := trim name
  if name = "GenerateImage" then .GenerateImage
  else if name = "Shell" then .Shell
  else if name ∈ PATCHES ∨ name = "Edit" ∨ name = "Write" then .Edit
  else .Nothing
def edit_limit (name : String) : Nat := if trim name ∈ PATCHES then 4 * KIB else 32 * KIB

class ReplayText where
  from_str : String → Option Value
  to_string : Value → String
variable [ReplayText]

/-- The texts of a value's members are rewritten where the member is one of those
    meant; of an array, the first item that changes. The loops take so many turns
    as they are given. -/
def rewriteTexts (rewritten : String → String → Option (Option String)) : Nat → Value → Option (Value × Bool)
  | 0, _ => none
  | depth + 1, .Object members => do
    let members ← members.mapM fun (key,child) => do
      match child with
      | .String text =>
        match ← rewritten key text with
        | some next => some ((key,Value.String next),decide (next ≠ text))
        | none => some ((key,child),false)
      | child =>
        let (next,changed) ← rewriteTexts rewritten depth child
        some ((key,next),changed)
    some (.Object (members.map (·.1)),members.any (·.2))
  | depth + 1, .Array items => do
    let (items,changed) ← items.foldlM (fun (done,changed) item =>
      if changed then some (done ++ [item],true)
      else do
        let (next,changes) ← rewriteTexts rewritten depth item
        some (done ++ [next],changes)) (([] : List Value),false)
    some (.Array items,changed)
  | _ + 1, value => some (value,false)

def IMAGE_OMITTED : String := "[base64 image data omitted from replay; bytes="
def omitImage (key data : String) : Option (Option String) :=
  if key = "image_data" ∨ key = "imageData" then
    if starts_with data IMAGE_OMITTED then some (some data)
    else some (some (IMAGE_OMITTED ++ s!"{(trim data).utf8ByteSize}]"))
  else some none
def shortenStream (turns : Nat) (key text : String) : Option (Option String) :=
  if key = "stdout" ∨ key = "stderr" then (truncate_middle turns s!"Shell {key}" text (16 * KIB)).map some
  else if key = "interleaved_output" ∨ key = "interleavedOutput" then
    (truncate_middle turns s!"Shell {key}" text (32 * KIB)).map some
  else some none

def changedText (rewritten : Option (Value × Bool)) : Option (Option String) :=
  rewritten.map fun (value,changed) => if changed then some (ReplayText.to_string value) else none

/-- The diff or the content after an edit, cut to the limit of its tool. -/
def compact_edit (turns : Nat) (name : String) (call : ToolCall) (value : Value) : Option (Option String) :=
  match (Json.get value "success").bind fun success => (as_object success).map fun _ => success with
  | none => some none
  | some success =>
    let field (snake camel : String) : Option String :=
      (((Json.get success snake).or (Json.get success camel)).bind Json.as_str).filter (· ≠ "")
    let shown (member text : String) : Option (Option String) := (truncate_replay_text turns call.name text (edit_limit name)).map
      fun text => some (ReplayText.to_string (.Object [("success",.Object [(member,.String text)])]))
    match field "diff_string" "diffString" with
    | some diff => shown "diff_string" diff
    | none =>
      match field "after_full_file_content" "afterFullFileContent" with
      | some after => shown "after_full_file_content" after
      | none => some none

/-- The content as it is before it is cut; nothing where a loop takes more turns. -/
def compacted (turns : Nat) (name : String) (call : ToolCall) (content : String) : Option String :=
  let compact (next : Value → Option (Option String)) : Option String :=
    match ReplayText.from_str (trim content) with
    | none => some content
    | some value => (next value).map (·.getD content)
  match compacting name with
  | .GenerateImage => compact fun value => changedText (rewriteTexts omitImage turns value)
  | .Shell => compact fun value => changedText (rewriteTexts (shortenStream turns) turns value)
  | .Edit => compact (compact_edit turns name call)
  | .Nothing => some content

def limit_tool_result_text (turns : Nat) (name : String) (call : ToolCall) (content : String) : Option String :=
  match replay_limit name with
  | none => some content
  | some limit => do
    let content ← compacted turns name call content
    truncate_replay_text turns call.name content limit

/-- A result without its content before the edit, and with the rest cut. -/
def gate_edit (turns : Nat) (name : String) (call : ToolCall) (success : EditSuccess) : Option EditSuccess :=
  let limit := edit_limit name
  match success.diff_string with
  | some diff => (truncate_text turns call.name diff limit).map fun diff =>
      { success with diff_string := some diff, before_full_file_content := none, after_full_file_content := "" }
  | none => (truncate_text turns call.name success.after_full_file_content limit).map fun after =>
      { success with before_full_file_content := none, after_full_file_content := after }

end MyCursor.ToolResults

import MyCursor.Fallible
import MyCursor.ToolResults

/-!
# What is shown and what is executed

`start_web_search` and `start_web_fetch` of `tool_call_dispatch/interaction.rs` and
`cursor/tools/edit.rs` beside the questions and cards of `MyCursor.ToolCards`: what
the user sees of a search, a fetch or an edit, and what is done for the call.
-/
namespace MyCursor.Approvals
open Message Text ToolRequests ToolCards Fallible
open CheckpointCodec (insert)

/-- An answer of the client, as far as it decides how a call goes on. -/
inductive InteractionResult where
  | WebSearchRequestResponse (approved : Bool)
  | WebFetchRequestResponse (approved : Bool)
  | Other
deriving DecidableEq

inductive Running where
  | Search (query : String)
  | Fetch (url : String)
deriving DecidableEq

def filledString (call : ToolCall) (name : String) : Option String :=
  (optional_string call name).filter fun value => !(trim value).isEmpty

def start_web_fetch (call : ToolCall) : Except Error String :=
  match filledString call "url" with
  | some url => .ok url
  | none => .error (.Protocol "WebFetch is missing url")
def start_web_search (call : ToolCall) : Except Error String :=
  match ["search_term","query"].findSome? (filledString call) with
  | some query => .ok query
  | none => .error (.Protocol "WebSearch is missing search_term")

/-- `WebSearch::search`: what the engines are asked for. Only a blank is refused. -/
def engineQuery (query : String) : String := trim query

/-- `interaction::resume`; nothing is run where the answer completes the call. -/
def resume (name : String) (call : ToolCall) (response : InteractionResult) : Except Error (Option Running) :=
  if normalized name = "websearch" ∧ response = .WebSearchRequestResponse true then
    (start_web_search call).map fun query => some (.Search (engineQuery query))
  else if normalized name = "webfetch" ∧ response = .WebFetchRequestResponse true then
    (start_web_fetch call).map fun url => some (.Fetch url)
  else .ok none

section Searches
variable {name : String} {call : ToolCall} {response : InteractionResult}

theorem filled_iff {field value : String} :
    filledString call field = some value ↔ optional_string call field = some value ∧ trim value ≠ "" := by
  rw [filledString,Option.filter_eq_some_iff]
  simp

theorem resume_search {asked : String} (running : resume name call response = .ok (some (.Search asked))) :
    normalized name = "websearch" ∧ ∃ query, start_web_search call = .ok query ∧ trim query = asked := by
  unfold resume at running
  by_cases search : normalized name = "websearch" ∧ response = .WebSearchRequestResponse true
  · rw [if_pos search] at running
    obtain ⟨query,isQuery,same⟩ := map_ok.mp running
    cases same
    exact ⟨search.1,query,isQuery,rfl⟩
  · rw [if_neg search] at running
    by_cases fetch : normalized name = "webfetch" ∧ response = .WebFetchRequestResponse true
    · rw [if_pos fetch] at running
      obtain ⟨_,_,same⟩ := map_ok.mp running
      cases same
    · rw [if_neg fetch] at running
      cases running
theorem resume_fetch {url : String} (running : resume name call response = .ok (some (.Fetch url))) :
    normalized name = "webfetch" ∧ start_web_fetch call = .ok url := by
  unfold resume at running
  by_cases search : normalized name = "websearch" ∧ response = .WebSearchRequestResponse true
  · rw [if_pos search] at running
    obtain ⟨_,_,same⟩ := map_ok.mp running
    cases same
  · rw [if_neg search] at running
    by_cases fetch : normalized name = "webfetch" ∧ response = .WebFetchRequestResponse true
    · rw [if_pos fetch] at running
      obtain ⟨found,isUrl,same⟩ := map_ok.mp running
      cases same
      exact ⟨fetch.1,isUrl⟩
    · rw [if_neg fetch] at running
      cases running

theorem fetch_url {url : String} (isUrl : start_web_fetch call = .ok url) : optional_string call "url" = some url := by
  unfold start_web_fetch at isUrl
  cases isFilled : filledString call "url" with
  | none =>
    rw [isFilled] at isUrl
    cases isUrl
  | some found =>
    rw [isFilled] at isUrl
    cases isUrl
    exact (filled_iff.mp isFilled).1

theorem search_found {query : String} : start_web_search call = .ok query ↔
    (filledString call "search_term").or (filledString call "query") = some query := by
  have found : ["search_term","query"].findSome? (filledString call) = (filledString call "search_term").or (filledString call "query") := by
    cases isTerm : filledString call "search_term" <;> cases isQuery : filledString call "query" <;>
      simp [List.findSome?,isTerm,isQuery]
  rw [start_web_search,found]
  cases (filledString call "search_term").or (filledString call "query") <;> simp

/-- What is searched is the first string, unless the first is blank and the second
    is not. -/
theorem search_first {query : String} (isQuery : start_web_search call = .ok query)
    (plain : ¬ ((∃ term, optional_string call "search_term" = some term ∧ trim term = "") ∧
      ∃ query, optional_string call "query" = some query ∧ trim query ≠ "")) :
    firstString call ["search_term","query"] = some query := by
  rw [search_found] at isQuery
  cases isTerm : optional_string call "search_term" with
  | none =>
    have noTerm : filledString call "search_term" = none := by rw [filledString,isTerm,Option.filter_none]
    rw [noTerm,Option.none_or] at isQuery
    simp [firstString,List.findSome?,isTerm,(filled_iff.mp isQuery).1]
  | some term =>
    by_cases blank : trim term = ""
    · have noTerm : filledString call "search_term" = none := by
        rw [filledString,isTerm,Option.filter_some,if_neg (by simp [blank])]
      rw [noTerm,Option.none_or] at isQuery
      exact absurd ⟨⟨term,isTerm,blank⟩,query,filled_iff.mp isQuery⟩ plain
    · have isFilled : filledString call "search_term" = some term := filled_iff.mpr ⟨isTerm,blank⟩
      rw [isFilled,Option.some_or] at isQuery
      simp [firstString,List.findSome?,isTerm,Option.some.inj isQuery]

end Searches

structure EditWrite where
  before : String
  after : String
deriving DecidableEq

inductive ReadOutput where
  | Content (content : String)
  | Data (data : List UInt8)
deriving DecidableEq

inductive ReadResult where
  | Success (output : Option ReadOutput) (truncated : Bool)
  | FileNotFound
  | Error (error : String)
  | Rejected (reason : String)
  | PermissionDenied
  | InvalidFile (reason : String)
  | Empty
deriving DecidableEq

def textRead (name : String) : ReadResult → Except String String
  | .Success output truncated =>
    if truncated then .error "cannot edit a truncated Read result"
    else match output with
      | some (.Content content) => .ok (normalize_newlines content)
      | some (.Data _) => .error "cannot edit a binary file"
      | none => .error "Read result has no file content"
  | .FileNotFound => if normalized name = "write" then .ok "" else .error "file not found"
  | .Error error => .error error
  | .Rejected reason => .error reason
  | .PermissionDenied => .error "read permission denied"
  | .InvalidFile reason => .error reason
  | .Empty => .error "Read result is empty"

/-- The number of occurrences that do not overlap; so many characters are passed
    over first. -/
def occurrences (old : List Char) : Nat → List Char → Nat
  | _, [] => 0
  | skipped + 1, _ :: rest => occurrences old skipped rest
  | 0, c :: rest => if old <+: c :: rest then occurrences old (old.length - 1) rest + 1 else occurrences old 0 rest
/-- `str::match_indices` of a text that is not empty, counted. -/
def match_count (text old : String) : Nat := occurrences old.toList 0 text.toList

def replaceChars (old new : List Char) : Nat → Nat → List Char → List Char
  | _, _, [] => []
  | most, skipped + 1, _ :: rest => replaceChars old new most skipped rest
  | 0, 0, c :: rest => c :: rest
  | most + 1, 0, c :: rest =>
    if old <+: c :: rest then new ++ replaceChars old new most (old.length - 1) rest
    else c :: replaceChars old new (most + 1) 0 rest
def replacen (text old new : String) (most : Nat) : String := String.ofList (replaceChars old.toList new.toList most 0 text.toList)
def replace (text old new : String) : String := replacen text old new text.length

def textArgument (call : ToolCall) (name : String) : Except String String := (string call name).mapError Error.to_string
def newText (call : ToolCall) (name : String) : Except String String := (textArgument call name).map normalize_newlines

def replace_string (call : ToolCall) (before : String) : Except String String := do
  let old ← newText call "old_string"
  let new ← newText call "new_string"
  if old = "" then .error "old_string must not be empty"
  else
    let found := match_count before old
    let replace_all := (boolArgument call "replace_all").getD false
    if found = 0 then .error "old_string was not found"
    else if replace_all then .ok (replace before old new)
    else if found = 1 then .ok (replacen before old new 1)
    else .error s!"old_string is not unique; found {found} occurrences"

/-- `str::split_inclusive('\n')` after the characters of a line. -/
def lines : List Char → List Char → List String
  | [], [] => []
  | [], line => [String.ofList line]
  | c :: rest, line => if c = '\n' then String.ofList (line ++ [c]) :: lines rest [] else lines rest (line ++ [c])
def source_lines (value : String) : Value := .Array ((lines value.toList []).map .String)

def NOT_TEXT : String := "notebook cell source is not text"
def notebook_source : Value → Except String String
  | .String value => .ok (normalize_newlines value)
  | .Array items =>
    match items.mapM Json.as_str with
    | some texts => .ok (normalize_newlines (String.join texts))
    | none => .error "notebook cell source contains a non-string"
  | _ => .error NOT_TEXT

def newCell (language new : String) : Value :=
  let cell_type := if language = "markdown" ∨ language = "raw" then language else "code"
  let members : List (String × Value) :=
    [("cell_type",.String cell_type),("metadata",.Object []),("source",source_lines new)]
  .Object (if cell_type = "code" then members ++ [("execution_count",.Null),("outputs",.Array [])] else members)

/-- A cell without a source has no occurrence, so the edited cell is an object. -/
def withSource (cell : Value) (source : String) : Value :=
  match cell with
  | .Object members => .Object (insert members "source" (source_lines source))
  | cell => cell

def cellSource (cell : Value) : Except String String :=
  match Json.get cell "source" with
  | some source => notebook_source source
  | none => .ok ""
def editCell (call : ToolCall) (cell : Value) (new : String) : Except String Value := do
  let source ← cellSource cell
  let old ← newText call "old_string"
  if old = "" then .error "old_string must not be empty"
  else
    let found := match_count source old
    if found = 0 then .error "old_string was not found in the notebook cell"
    else if found = 1 then .ok (withSource cell (replacen source old new 1))
    else .error s!"old_string is not unique in the notebook cell; found {found} occurrences"

def editCells (call : ToolCall) (cells : List Value) (index : Nat) (new : String) : Except String (List Value) :=
  if (boolArgument call "is_new_cell").getD false then
    if cells.length < index then .error s!"cell_idx {index} is past the end of the notebook"
    else (textArgument call "cell_language").map fun language => cells.insertIdx index (newCell language new)
  else match cells[index]? with
    | none => .error s!"cell_idx {index} does not exist"
    | some cell => (editCell call cell new).map (cells.set index)

class NotebookText where
  from_str : String → Except String Value
  to_string_pretty : Value → String

section Notebooks
variable [NotebookText]

def edit_notebook (call : ToolCall) (before : String) : Except String String := do
  let notebook ← (NotebookText.from_str before).mapError fun error => s!"invalid notebook JSON: {error}"
  match notebook, (Json.get notebook "cells").bind Json.as_array with
  | .Object members, some cells =>
    match (argument call "cell_idx").bind Json.as_u64 with
    | none => .error "EditNotebook is missing cell_idx"
    | some index => do
      let new ← newText call "new_string"
      let cells ← editCells call cells index new
      .ok (NotebookText.to_string_pretty (.Object (insert members "cells" (.Array cells))) ++ "\n")
  | _, _ => .error "notebook has no cells array"

def editText (name : String) (call : ToolCall) (before : String) : Except String String :=
  if normalized name = "write" then ((string_aliased call ["contents","content"]).mapError Error.to_string).map normalize_newlines
  else if normalized name = "strreplace" then replace_string call before
  else if normalized name = "editnotebook" then edit_notebook call before
  else .error s!"{call.name} is not an edit tool"
def after_read (name : String) (call : ToolCall) (result : ReadResult) : Except String EditWrite := do
  let before ← textRead name result
  let after ← editText name call before
  .ok ⟨before,after⟩

/-- What a file is after an edit that puts in the shown text: the text, the file with
    it for one or for every occurrence of another, or the notebook with a cell whose
    source has it. -/
inductive Writes (shown before : String) : String → Prop where
  | whole : Writes shown before shown
  | once (old : String) (given : old ≠ "") (occurs : match_count before old = 1) : Writes shown before (replacen before old shown 1)
  | everywhere (old : String) (given : old ≠ "") (occurs : match_count before old ≠ 0) : Writes shown before (replace before old shown)
  | added (members : List (String × Value)) (cells : List Value) (index : Nat) (language : String)
      (isNotebook : NotebookText.from_str before = .ok (.Object members))
      (hasCells : Json.get (.Object members) "cells" = some (.Array cells)) :
      Writes shown before (NotebookText.to_string_pretty (.Object (insert members "cells"
        (.Array (cells.insertIdx index (newCell language shown))))) ++ "\n")
  | edited (members : List (String × Value)) (cells : List Value) (index : Nat) (cell : Value) (source old : String)
      (isNotebook : NotebookText.from_str before = .ok (.Object members))
      (hasCells : Json.get (.Object members) "cells" = some (.Array cells)) (isCell : cells[index]? = some cell) :
      Writes shown before (NotebookText.to_string_pretty (.Object (insert members "cells"
        (.Array (cells.set index (withSource cell (replacen source old shown 1)))))) ++ "\n")

def Shows (call : ToolCall) (card : Card) : Prop := tool_started call.name call none = .ok card
def Asks (call : ToolCall) (asked : Query → Prop) : Prop :=
  ∀ id message, tool_query call.name id call = .ok message → asked message.query

/-- What is executed for a call is what is shown of it. -/
structure ShownIsExecuted (call : ToolCall) : Prop where
  searched : ∀ response query, resume call.name call response = .ok (some (.Search query)) →
    Shows call (.WebSearchToolCall query) ∧ Asks call (· = .WebSearchRequest query call.call_id)
  fetched : ∀ response url, resume call.name call response = .ok (some (.Fetch url)) →
    Shows call (.WebFetchToolCall url) ∧ Asks call fun query => ∃ approval, query = .WebFetchRequest url call.call_id approval
  written : ∀ read write, after_read call.name call read = .ok write → ∀ id message,
    edit_write_request call.name id call write.after = .ok message → ∃ file shown,
      message.message = .WriteArgs file write.after call.call_id ∧ Shows call (.EditToolCall file (some shown)) ∧
        Writes shown write.before write.after

/-- A search whose first string has white space at an end, but is not blank. -/
structure Padded (call : ToolCall) : Prop where
  search : normalized call.name = "websearch"
  padded : ∃ term, firstString call ["search_term","query"] = some term ∧ trim term ≠ "" ∧ trim term ≠ term
/-- A search whose first argument is a blank string and whose second is not. -/
structure BlankFirst (call : ToolCall) : Prop where
  search : normalized call.name = "websearch"
  blank : ∃ term, optional_string call "search_term" = some term ∧ trim term = ""
  filled : ∃ query, optional_string call "query" = some query ∧ trim query ≠ ""

end Notebooks

section Cards
variable {call : ToolCall}

theorem plain_auth (direct : normalized call.name ≠ "callmcptool") : is_mcp_auth call.name call = false := by
  rw [is_mcp_auth,decide_eq_false direct,Bool.false_and]
theorem shows_known {card : Card} (direct : normalized call.name ≠ "callmcptool") (known : knownCard call.name call = some card) :
    Shows call card := by
  unfold Shows tool_started render_tool_call render_builtin
  rw [plain_auth direct,if_neg Bool.false_ne_true,known]

theorem search_card (search : normalized call.name = "websearch") :
    Shows call (.WebSearchToolCall (aliased call ["search_term","query"])) :=
  shows_known (by rw [search]; decide) (by simp [knownCard,search])
theorem fetch_card (fetch : normalized call.name = "webfetch") : Shows call (.WebFetchToolCall (stringOrEmpty call "url")) :=
  shows_known (by rw [fetch]; decide) (by simp [knownCard,fetch])
theorem edit_card (edits : normalized call.name ∈ ["write","strreplace","editnotebook"]) : Shows call (editCard call.name call) := by
  have direct : normalized call.name ≠ "callmcptool" := fun same => by
    rw [same] at edits
    exact absurd edits (by decide)
  refine shows_known direct ?_
  simp only [List.mem_cons,List.not_mem_nil,or_false] at edits
  rcases edits with key | key | key <;> simp [knownCard,key]

theorem search_question (search : normalized call.name = "websearch") {term : String}
    (first : firstString call ["search_term","query"] = some term) : Asks call (· = .WebSearchRequest term call.call_id) := by
  intro id message isMessage
  have isQuery : queryOf call.name call = .ok (.WebSearchRequest term call.call_id) := by
    simp [queryOf,search,webSearch,string_aliased,first,bind,Except.bind]
  rw [tool_query,isQuery] at isMessage
  rw [← Except.ok.inj isMessage]

theorem fetch_question (fetch : normalized call.name = "webfetch") {url : String} (isUrl : optional_string call "url" = some url) :
    Asks call fun query => ∃ approval, query = .WebFetchRequest url call.call_id approval := by
  intro id message isMessage
  have isQuery : queryOf call.name call = webFetch call := by simp [queryOf,fetch]
  obtain ⟨query,made,same⟩ := bind_ok.mp isMessage
  rw [isQuery] at made
  obtain ⟨shown,isShown,rest⟩ := bind_ok.mp made
  obtain ⟨approval,_,isAsked⟩ := bind_ok.mp rest
  have sameUrl : shown = url := by
    rw [string,isUrl] at isShown
    exact (Except.ok.inj isShown).symm
  rw [← Except.ok.inj same,← Except.ok.inj isAsked,sameUrl]
  exact ⟨approval,rfl⟩

end Cards

section Arguments
variable {call : ToolCall} {text : String}

theorem read_aliased {names : List String} (isText : string_aliased call names = .ok text) : text = aliased call names := by
  rw [string_aliased] at isText
  rw [aliased]
  cases first : firstString call names with
  | none =>
    rw [first] at isText
    cases isText
  | some found =>
    rw [first] at isText
    exact (Except.ok.inj isText).symm
theorem aliased_single (field : String) : aliased call [field] = stringOrEmpty call field := by
  rw [aliased,firstString,stringOrEmpty,List.findSome?_singleton]
theorem new_text {field : String} (isNew : newText call field = .ok text) : text = normalize_newlines (stringOrEmpty call field) := by
  obtain ⟨found,isText,same⟩ := map_ok.mp isNew
  have isString := mapError_ok.mp isText
  rw [string] at isString
  cases isFound : optional_string call field with
  | none =>
    rw [isFound] at isString
    cases isString
  | some value =>
    rw [isFound] at isString
    rw [stringOrEmpty,isFound,Option.getD_some,← same,← Except.ok.inj isString]

theorem written_path {id : Nat} {message : ExecServerMessage} (isMessage : edit_write_request call.name id call text = .ok message) :
    message.message = .WriteArgs (if normalized call.name = "editnotebook" then stringOrEmpty call "target_notebook"
      else aliased call PATHS) text call.call_id := by
  obtain ⟨file,isFile,same⟩ := bind_ok.mp isMessage
  rw [← Except.ok.inj same]
  unfold path at isFile
  by_cases notebook : normalized call.name = "editnotebook"
  · rw [if_pos notebook] at isFile ⊢
    rw [read_aliased isFile,aliased_single]
  · rw [if_neg notebook] at isFile ⊢
    rw [read_aliased isFile]

end Arguments

section Cells
variable {call : ToolCall} {new : String}

theorem edited_cell {cell edited : Value} (isEdited : editCell call cell new = .ok edited) :
    ∃ source old, edited = withSource cell (replacen source old new 1) := by
  obtain ⟨source,_,rest⟩ := bind_ok.mp isEdited
  obtain ⟨old,_,rest⟩ := bind_ok.mp rest
  dsimp only at rest
  split at rest
  · cases rest
  · split at rest
    · cases rest
    · split at rest
      · exact ⟨source,old,(Except.ok.inj rest).symm⟩
      · cases rest

theorem edited_cells {cells edited : List Value} {index : Nat} (isEdited : editCells call cells index new = .ok edited) :
    (∃ language, edited = cells.insertIdx index (newCell language new)) ∨
      ∃ cell source old, cells[index]? = some cell ∧ edited = cells.set index (withSource cell (replacen source old new 1)) := by
  unfold editCells at isEdited
  split at isEdited
  · split at isEdited
    · cases isEdited
    · obtain ⟨language,_,same⟩ := map_ok.mp isEdited
      exact .inl ⟨language,same.symm⟩
  · split at isEdited
    · cases isEdited
    · rename_i cell isCell
      obtain ⟨changed,isChanged,same⟩ := map_ok.mp isEdited
      obtain ⟨source,old,isSource⟩ := edited_cell isChanged
      exact .inr ⟨cell,source,old,isCell,by rw [← same,isSource]⟩

end Cells

section Writing
variable [NotebookText] {call : ToolCall} {before after : String}

theorem replace_writes (isAfter : replace_string call before = .ok after) :
    Writes (normalize_newlines (stringOrEmpty call "new_string")) before after := by
  obtain ⟨old,_,rest⟩ := bind_ok.mp isAfter
  obtain ⟨new,isNew,rest⟩ := bind_ok.mp rest
  rw [← new_text isNew]
  dsimp only at rest
  split at rest
  · cases rest
  · rename_i given
    split at rest
    · cases rest
    · rename_i occurs
      split at rest
      · rw [← Except.ok.inj rest]
        exact .everywhere old given occurs
      · split at rest
        · rename_i single
          rw [← Except.ok.inj rest]
          exact .once old given single
        · cases rest

theorem notebook_writes (isAfter : edit_notebook call before = .ok after) :
    Writes (normalize_newlines (stringOrEmpty call "new_string")) before after := by
  obtain ⟨notebook,isRead,rest⟩ := bind_ok.mp isAfter
  have isNotebook := mapError_ok.mp isRead
  split at rest
  · rename_i members cells hasCells
    split at rest
    · cases rest
    · rename_i index isIndex
      obtain ⟨new,isNew,rest⟩ := bind_ok.mp rest
      obtain ⟨edited,isEdited,same⟩ := bind_ok.mp rest
      obtain ⟨value,isValue,isArray⟩ := Option.bind_eq_some_iff.mp hasCells
      have isCells : Json.get (.Object members) "cells" = some (.Array cells) := by
        cases value <;> cases isArray
        exact isValue
      rw [← new_text isNew,← Except.ok.inj same]
      rcases edited_cells isEdited with ⟨language,isInserted⟩ | ⟨cell,source,old,isCell,isSet⟩
      · rw [isInserted]
        exact .added members cells index language isNotebook isCells
      · rw [isSet]
        exact .edited members cells index cell source old isNotebook isCells isCell
  · cases rest

def shownText (call : ToolCall) : String := normalize_newlines
  (if normalized call.name = "write" then aliased call ["contents","content"] else stringOrEmpty call "new_string")

theorem edit_writes (isAfter : editText call.name call before = .ok after) :
    normalized call.name ∈ ["write","strreplace","editnotebook"] ∧ Writes (shownText call) before after := by
  unfold editText at isAfter
  unfold shownText
  by_cases whole : normalized call.name = "write"
  · rw [if_pos whole] at isAfter ⊢
    obtain ⟨text,isText,isNormal⟩ := map_ok.mp isAfter
    refine ⟨List.mem_cons.mpr (.inl whole),?_⟩
    rw [← isNormal,← read_aliased (mapError_ok.mp isText)]
    exact .whole
  · rw [if_neg whole] at isAfter ⊢
    by_cases replaces : normalized call.name = "strreplace"
    · rw [if_pos replaces] at isAfter
      exact ⟨by simp [replaces],replace_writes isAfter⟩
    · rw [if_neg replaces] at isAfter
      by_cases notebook : normalized call.name = "editnotebook"
      · rw [if_pos notebook] at isAfter
        exact ⟨by simp [notebook],notebook_writes isAfter⟩
      · rw [if_neg notebook] at isAfter
        cases isAfter
theorem after_writes {read : ReadResult} {write : EditWrite} (isWrite : after_read call.name call read = .ok write) :
    normalized call.name ∈ ["write","strreplace","editnotebook"] ∧ Writes (shownText call) write.before write.after := by
  obtain ⟨before,_,rest⟩ := bind_ok.mp isWrite
  obtain ⟨after,isAfter,same⟩ := bind_ok.mp rest
  rw [← Except.ok.inj same]
  exact edit_writes isAfter

end Writing

section Counterexample

local instance : NotebookText := ⟨fun _ => .error "EOF while parsing a value at line 1 column 0",fun _ => "null"⟩

def blankSearch : ToolCall :=
  ⟨0,"call_1","model_1","WebSearch","",.Object [("search_term",.String " "),("query",.String "rust")],none⟩

theorem blank_asked : (tool_query "WebSearch" 1 blankSearch = .ok ⟨1,.WebSearchRequest " " "call_1"⟩ ∧
    Shows blankSearch (.WebSearchToolCall " ")) ∧
      resume "WebSearch" blankSearch (.WebSearchRequestResponse true) = .ok (some (.Search "rust")) :=
  ⟨⟨rfl,rfl⟩,rfl⟩

end Counterexample

end MyCursor.Approvals

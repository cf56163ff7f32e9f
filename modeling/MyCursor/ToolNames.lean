import MyCursor.ToolGates
import MyCursor.ToolStarts

/-!
# The spelling of a tool name

The dispatch compares the letters and digits of a name in lower case,
`ExecContext` the name up to ASCII case, and the limits of replayed results the
trimmed name as it stands.
-/
namespace MyCursor.ToolNames
open Message Text Compaction ToolRequests ToolCards ToolResults ToolGates
  MyCursor.ToolStarts

section Handling
variable [Paths] [SerdeText] [ReplayText] [Parts]

/-- Calls of the two names are handled alike: the names stand where names are
    compared, and texts print the name that the call has. -/
structure SameHandling (a b : String) : Prop where
  refused : ∀ context, task_disabled context a = task_disabled context b
  prepared : ∀ context call, prepare_call context a call = prepare_call context b call
  started : ∀ r call message_index publish_started (dynamic_mcp : String → Option McpToolDefinition) context,
    dynamic_mcp a = none → dynamic_mcp b = none → start r a call message_index publish_started dynamic_mcp context =
        start r b call message_index publish_started dynamic_mcp context
  limited : replay_limit a = replay_limit b
  completed : ∀ turns call tool content, tool_completion turns a call tool content = tool_completion turns b call tool content

end Handling

/-- The name is a task for `ExecContext`. -/
def IsTask (name : String) : Prop := eq_ignore_ascii_case name "Task" = true
instance (name : String) : Decidable (IsTask name) := inferInstanceAs (Decidable (_ = true))
/-- The name is one that the limits of replayed results know. -/
def Replayed (name : String) : Prop := trim name ∈ REPLAYED.map (·.1)
instance (name : String) : Decidable (Replayed name) := inferInstanceAs (Decidable (_ ∈ _))

theorem filter_dropWhile {α : Type} {kept dropped : α → Bool} (apart : ∀ x, dropped x = true → kept x = false) (items : List α) :
    (items.dropWhile dropped).filter kept = items.filter kept := by
  induction items with
  | nil => rfl
  | cons item rest ih =>
    cases isDropped : dropped item with
    | true => rw [List.dropWhile_cons_of_pos isDropped,ih,List.filter_cons_of_neg (by simp [apart item isDropped])]
    | false => rw [List.dropWhile_cons_of_neg (by simp [isDropped])]

theorem normalized_trim (name : String) : normalized (trim name) = normalized name := by
  have blank : ∀ c, is_whitespace c = true → is_ascii_alphanumeric c = false := fun _ => blank_plain
  unfold normalized trim
  rw [String.toList_ofList,List.filter_reverse,filter_dropWhile blank,List.filter_reverse,List.reverse_reverse,filter_dropWhile blank]

theorem replayed_distinct : ((REPLAYED.map (·.1)).map normalized).Nodup := by decide +kernel

theorem trim_same {a b : String} (same : normalized a = normalized b) (knownA : Replayed a) (knownB : Replayed b) : trim a = trim b := by
  have normal : normalized (trim a) = normalized (trim b) := by rw [normalized_trim,normalized_trim,same]
  exact List.inj_on_of_nodup_map replayed_distinct knownA knownB normal

section Same
variable {a b : String} (same : normalized a = normalized b)
include same

theorem auth_same (call : ToolCall) : is_mcp_auth a call = is_mcp_auth b call := by rw [is_mcp_auth,is_mcp_auth,same]
theorem card_same (call : ToolCall) : render_tool_call a call = render_tool_call b call := by
  have known : knownCard a call = knownCard b call := by
    unfold knownCard mcpCard semble_tool_name editCard
    rw [same]
  have builtin : render_builtin a call = render_builtin b call := by
    unfold render_builtin
    rw [auth_same same,known]
  rw [render_tool_call,render_tool_call,builtin]
theorem request_same [Paths] (id : Nat) (call : ToolCall) (context : ExecContext) :
    request a id call context = request b id call context := by
  have message : execMessage a call context = execMessage b call context := by
    unfold execMessage
    rw [same]
  rw [request,request,message]
theorem edit_same (id : Nat) (call : ToolCall) : edit_read_request a id call = edit_read_request b id call := by
  have samePath : path a call = path b call := by rw [path,path,same]
  rw [edit_read_request,edit_read_request,samePath]
theorem query_same (id : Nat) (call : ToolCall) : tool_query a id call = tool_query b id call := by
  have query : queryOf a call = queryOf b call := by
    unfold queryOf
    rw [same,auth_same same]
  rw [tool_query,tool_query,query]
theorem interaction_same (r : Runtime) (call : ToolCall) : interaction_start r a call = interaction_start r b call := by
  unfold interaction_start
  simp only [query_same same]
theorem local_same [SerdeText] (call : ToolCall) (message_index : Nat) :
    localResult a call message_index = localResult b call message_index := by
  unfold localResult todo_write update_current_step
  rw [same,card_same same]
theorem failure_same (call : ToolCall) : compat_failure a call = compat_failure b call := by
  unfold compat_failure failure_message
  rw [same]
theorem normalize_same (call : ToolCall) : normalize_block_until_ms a call = normalize_block_until_ms b call := by
  unfold normalize_block_until_ms is_shell_tool
  rw [same]
theorem dispatch_same [Paths] [SerdeText] (r : Runtime) (call : ToolCall) (message_index : Nat) (context : ExecContext) :
    dispatch r a call message_index context = dispatch r b call message_index context := by
  have executed : exec_start r a call context = exec_start r b call context := by
    unfold exec_start
    simp only [same,request_same same]
  have edited : edit_start r a call context = edit_start r b call context := by
    unfold edit_start
    simp only [edit_same same]
  have searched : search_start a call = search_start b call := by rw [search_start,search_start,same]
  unfold dispatch
  rw [same,executed,edited,interaction_same same,local_same same,searched,failure_same same]

end Same

section Task
variable {a b : String} (task : eq_ignore_ascii_case a "Task" = eq_ignore_ascii_case b "Task")
include task

theorem disabled_same (context : ExecContext) : task_disabled context a = task_disabled context b := by
  rw [task_disabled,task_disabled,task]
theorem prepare_same (context : ExecContext) (call : ToolCall) : prepare_call context a call = prepare_call context b call := by
  unfold prepare_call
  rw [task,disabled_same task]

variable (same : normalized a = normalized b)
include same

theorem start_same [Paths] [SerdeText] (r : Runtime) (call : ToolCall) (message_index : Nat) (publish_started : Bool)
    (dynamic_mcp : String → Option McpToolDefinition) (context : ExecContext) (plainA : dynamic_mcp a = none)
    (plainB : dynamic_mcp b = none) :
    start r a call message_index publish_started dynamic_mcp context =
      start r b call message_index publish_started dynamic_mcp context := by
  have shown : ∀ prepared, shownFirst a prepared publish_started dynamic_mcp = shownFirst b prepared publish_started dynamic_mcp := by
    intro prepared
    unfold shownFirst tool_started
    rw [plainA,plainB]
    simp only [card_same same]
  have refused : ∀ prepared, subagents_disabled a prepared = subagents_disabled b prepared := by
    intro prepared
    unfold subagents_disabled
    rw [card_same same]
  have dispatched : ∀ prepared, dispatch_start r a prepared message_index dynamic_mcp context =
      dispatch_start r b prepared message_index dynamic_mcp context := by
    intro prepared
    unfold dispatch_start
    rw [plainA,plainB]
    simp only [auth_same same,interaction_same same,disabled_same task,refused,normalize_same same,dispatch_same same]
  unfold start
  rw [prepare_same task]
  simp only [shown,dispatched]

end Task

theorem limit_trimmed {a b : String} (same : trim a = trim b) : replay_limit a = replay_limit b := by
  rw [replay_limit,replay_limit,same]
theorem unknown_limit {name : String} (unknown : ¬ Replayed name) : replay_limit name = none := by
  unfold replay_limit
  rw [List.find?_eq_none.mpr,Option.map_none]
  intro entry member same
  refine unknown ?_
  rw [Replayed,← of_decide_eq_true same]
  exact List.mem_map_of_mem member
theorem known_limit {name : String} (known : Replayed name) : (replay_limit name).isSome = true := by
  obtain ⟨entry,member,same⟩ := List.mem_map.mp known
  rw [replay_limit,Option.isSome_map,List.find?_isSome]
  exact ⟨entry,member,decide_eq_true same⟩

theorem unknown_edit {name : String} (unknown : ¬ Replayed name) : edit_limit name = 32 * KIB := by
  have patches : PATCHES ⊆ REPLAYED.map (·.1) := by decide
  exact if_neg fun member => unknown (patches member)

section Completions
variable [SerdeText] [ReplayText] [Parts] {a b : String}

theorem completion_trimmed (same : trim a = trim b) (turns : Nat) (call : ToolCall) (tool : Tool) (content : String) :
    tool_completion turns a call tool content = tool_completion turns b call tool content := by
  unfold tool_completion gateTool gate_edit limit_tool_result_text compacted compacting compact_edit replay_limit edit_limit
  rw [same]
theorem completion_unknown (unknownA : ¬ Replayed a) (unknownB : ¬ Replayed b) (turns : Nat) (call : ToolCall) (tool : Tool)
    (content : String) : tool_completion turns a call tool content = tool_completion turns b call tool content := by
  unfold tool_completion gateTool gate_edit limit_tool_result_text
  rw [unknown_limit unknownA,unknown_limit unknownB,unknown_edit unknownA,unknown_edit unknownB]

end Completions

/-- Two spellings of a name are handled alike exactly if both or neither are a task
    up to ASCII case, and both or neither are, trimmed, a name with a replay limit. -/
theorem handling_same [Paths] [SerdeText] [ReplayText] [Parts] {a b : String} (same : normalized a = normalized b) :
    SameHandling a b ↔ (IsTask a ↔ IsTask b) ∧ (Replayed a ↔ Replayed b) := by
  constructor
  · intro handled
    constructor
    · let context : ExecContext := ⟨"","","",none,true,true,"",[],fun _ => none⟩
      have refused := handled.refused context
      have ofName : ∀ name, task_disabled context name = eq_ignore_ascii_case name "Task" := fun name => Bool.and_true _
      rw [ofName,ofName] at refused
      rw [IsTask,IsTask,refused]
    · have isKnown : ∀ name, Replayed name ↔ (replay_limit name).isSome = true := by
        intro name
        refine ⟨known_limit,fun known => ?_⟩
        by_contra unknown
        rw [unknown_limit unknown] at known
        cases known
      rw [isKnown,isKnown,handled.limited]
  · rintro ⟨sameTask,sameReplay⟩
    have task : eq_ignore_ascii_case a "Task" = eq_ignore_ascii_case b "Task" := Bool.eq_iff_iff.mpr sameTask
    have started := fun r call message_index publish_started dynamic_mcp context plainA plainB =>
      start_same task same r call message_index publish_started dynamic_mcp context plainA plainB
    by_cases known : Replayed a
    · have trimmed := trim_same same known (sameReplay.mp known)
      exact ⟨disabled_same task,prepare_same task,started,limit_trimmed trimmed,completion_trimmed trimmed⟩
    · have unknown : ¬ Replayed b := fun knownB => known (sameReplay.mpr knownB)
      refine ⟨disabled_same task,prepare_same task,started,?_,completion_unknown known unknown⟩
      rw [unknown_limit known,unknown_limit unknown]

section Counterexample

local instance : Paths := ⟨fun _ => none,fun _ => none⟩
local instance : SerdeText := ⟨fun _ => "{}",fun _ => "",fun _ => ""⟩
local instance : ReplayText := ⟨fun _ => none,fun _ => "{}"⟩
def noPart {Result : Type} : ToolGates.Part Result := ⟨fun _ => none,fun _ bytes => bytes⟩
local instance : Parts := ⟨noPart,noPart,noPart,noPart,noPart,noPart,noPart,noPart,noPart,noPart⟩

/-- Both calls read a file. What a model asks for as `Read` is cut at 64 KiB, what it
    asks for as `read` is not cut. -/
theorem lower_read_uncut : normalized "read" = normalized "Read" ∧ replay_limit "Read" = some (64 * KIB) ∧ replay_limit "read" = none :=
  by decide +kernel

theorem spellings_differ : ¬ ∀ a b : String, normalized a = normalized b → SameHandling a b := by
  intro always
  obtain ⟨same,limited,uncut⟩ := lower_read_uncut
  have limits := (always "read" "Read" same).limited
  rw [limited,uncut] at limits
  cases limits

/-- Two spellings of a shell call in different case, neither with a limit. -/
theorem lower_shell_same : SameHandling "shell" "SHELL" :=
  (handling_same (by decide +kernel)).mpr ⟨by decide +kernel,by decide +kernel⟩

end Counterexample

end MyCursor.ToolNames

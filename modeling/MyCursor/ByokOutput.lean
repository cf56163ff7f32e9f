import MyCursor.CheckpointCodec
import MyCursor.CycleProgress
import MyCursor.Keyed

/-!
# Answers of the external API

`api/byok/output.rs`: the events of a model call become one JSON answer in the form
of one of three protocols.
-/
namespace MyCursor.ByokOutput
open Message Store Run ModelCycle CycleProgress Text
open CheckpointCodec (Serde object)

inductive Protocol where
  | Chat
  | Responses
  | Messages
deriving DecidableEq

structure ToolOutput where
  id : String
  name : String
  arguments : String
deriving DecidableEq

structure Output where
  text : String := ""
  thinking : String := ""
  tools : List (Nat × ToolOutput) := []
  usage : Option Usage := none
  finish : Option FinishReason := none
deriving DecidableEq

def ToolOutput.push (delta : String) (tool : ToolOutput) : ToolOutput := { tool with arguments := tool.arguments ++ delta }
def Output.update (output : Output) : ModelEvent → Output
  | .TextDelta delta => { output with text := output.text ++ delta }
  | .ThinkingDelta delta => { output with thinking := output.thinking ++ delta }
  | .ToolCallStart index call_id name =>
    { output with tools := Keyed.insertOrdered index ⟨call_id,name,""⟩ output.tools }
  | .ToolCallArgumentsDelta index delta =>
    { output with tools := output.tools.map fun entry => if entry.1 = index then (index,entry.2.push delta) else entry }
  | .Usage usage => { output with usage := some usage }
  | .Done reason => { output with finish := some reason }
  | _ => output

section Json
variable [Serde] [ArgumentText]

def number (value : Nat) : Value := .Number (.PosInt value)
def optional (name : String) (value : Option Value) : List (String × Value) := value.toList.map fun value => (name,value)

def Output.usage_json (output : Output) (protocol : Protocol) : Value :=
  let usage := output.usage.getD {}
  let input := (usage.context_input_tokens.or usage.input_tokens).getD 0
  let tokens := usage.output_tokens.getD 0
  let total := usage.total_tokens.getD (saturating_add input tokens)
  let details (name : String) (count : Option Nat) : Option Value := count.map fun count => object [(name,number count)]
  match protocol with
  | .Chat =>
    object ([("prompt_tokens",number input),("completion_tokens",number tokens),("total_tokens",number total)] ++
      optional "prompt_tokens_details" (details "cached_tokens" usage.cache_read_tokens) ++
      optional "completion_tokens_details" (details "reasoning_tokens" usage.reasoning_tokens))
  | .Responses =>
    object ([("input_tokens",number input),("output_tokens",number tokens),("total_tokens",number total)] ++
      optional "input_tokens_details" (details "cached_tokens" usage.cache_read_tokens) ++
      optional "output_tokens_details" (details "reasoning_tokens" usage.reasoning_tokens))
  | .Messages =>
    let uncached := match usage.context_input_tokens with
      | some total => total - usage.cache_read_tokens.getD 0 - usage.cache_write_tokens.getD 0
      | none => usage.input_tokens.getD 0
    object ([("input_tokens",number uncached),("output_tokens",number tokens)] ++
      optional "cache_read_input_tokens" (usage.cache_read_tokens.map number) ++
      optional "cache_creation_input_tokens" (usage.cache_write_tokens.map number))

def finishName : FinishReason → String
  | .Stop => "stop"
  | .Length => "length"
  | .ToolUse => "tool_calls"
def chatCall (tool : ToolOutput) : Value :=
  object [("id",.String tool.id),("type",.String "function"),
    ("function",object [("name",.String tool.name),("arguments",.String tool.arguments)])]
def Output.chatMessage (output : Output) : Value :=
  object [("role",.String "assistant"),("content",.String output.text),
    ("tool_calls",.Array (output.tools.map fun entry => chatCall entry.2))]
def outputText (text : String) : Value :=
  object [("type",.String "output_text"),("text",.String text),("annotations",.Array [])]
def messageItem (id status : String) (content : List Value) : Value :=
  object [("id",.String ("msg_" ++ id)),("type",.String "message"),("status",.String status),("role",.String "assistant"),
    ("content",.Array content)]
def callItem (tool : ToolOutput) (status : String) : Value :=
  object [("type",.String "function_call"),("id",.String ("fc_" ++ tool.id)),("call_id",.String tool.id),("name",.String tool.name),
    ("arguments",.String tool.arguments),("status",.String status)]
def Output.items (output : Output) (id : String) : List Value :=
  (if output.text = "" then [] else [messageItem id "completed" [outputText output.text]]) ++
    output.tools.map fun entry => callItem entry.2 "completed"
def inputOf (arguments : String) : Value :=
  match ArgumentText.from_str arguments with
  | .ok value => value
  | .error _ => object []
def toolUse (tool : ToolOutput) : Value :=
  object [("type",.String "tool_use"),("id",.String tool.id),("name",.String tool.name),("input",inputOf tool.arguments)]
def Output.blocks (output : Output) : List Value :=
  (if output.text = "" then [] else [object [("type",.String "text"),("text",.String output.text)]]) ++
    output.tools.map fun entry => toolUse entry.2
def Output.stop_reason (output : Output) : String :=
  if output.tools.isEmpty then (if output.finish = some .Length then "max_tokens" else "end_turn") else "tool_use"
def Output.json (output : Output) (protocol : Protocol) (id model : String) : Value :=
  let usage := output.usage_json protocol
  match protocol with
  | .Chat =>
    object [("id",.String id),("object",.String "chat.completion"),("created",number 0),("model",.String model),
      ("choices",.Array [object [("index",number 0),("message",output.chatMessage),
        ("finish_reason",.String (finishName (output.finish.getD .Stop)))]]),("usage",usage)]
  | .Responses =>
    object [("id",.String id),("object",.String "response"),("created_at",number 0),("status",.String "completed"),
      ("model",.String model),("output",.Array (output.items id)),("output_text",.String output.text),("usage",usage)]
  | .Messages =>
    object [("id",.String id),("type",.String "message"),("role",.String "assistant"),("model",.String model),
      ("content",.Array output.blocks),("stop_reason",.String output.stop_reason),("stop_sequence",.Null),("usage",usage)]

def collect (output : Output) : List (Except Error ModelEvent) → Except Error Output
  | [] => .ok output
  | .error e :: _ => .error e
  | .ok event :: rest => collect (output.update event) rest
def complete (protocol : Protocol) (stream : List (Except Error ModelEvent)) (id model : String) : Except Error Value :=
  match collect {} stream with
  | .error e => .error e
  | .ok output =>
    if output.finish.isNone then .error (.Provider "model stream ended without completion")
    else .ok (output.json protocol id model)

end Json

def toolOf (tool : Tool) : ToolOutput := ⟨tool.call_id,tool.name,tool.arguments⟩
structure Tracks (output : Output) (p : Progress) : Prop where
  text : output.text = p.text
  ordered : Keyed.Ordered output.tools
  tools : ∀ index, Keyed.lookup output.tools index = (p.tools index).map toolOf
  usage : output.usage = p.usage
  finish : output.finish = p.finish

section Tracks
variable {output : Output} {p q : Progress} {tools : List (Nat × ToolOutput)}

theorem tracks_nothing : Tracks {} {} := ⟨rfl,List.Pairwise.nil,fun _ => rfl,rfl,rfl⟩

theorem lookup_push (delta : String) (index other : Nat) :
    Keyed.lookup (tools.map fun entry => if entry.1 = index then (index,entry.2.push delta) else entry) other =
      if other = index then (Keyed.lookup tools other).map (.push delta) else Keyed.lookup tools other := by
  induction tools with
  | nil => simp
  | cons first rest ih =>
    rw [List.map_cons,Keyed.lookup_cons,Keyed.lookup_cons,ih]
    by_cases here : first.1 = other
    · subst here
      by_cases same : first.1 = index <;> simp [same]
    · have there : (if first.1 = index then (index,first.2.push delta) else first).1 ≠ other := by
        by_cases same : first.1 = index
        · rw [if_pos same]
          exact same ▸ here
        · rwa [if_neg same]
      rw [if_neg there,if_neg here]
theorem push_ordered (ordered : Keyed.Ordered tools) (index : Nat) (delta : String) :
    Keyed.Ordered (tools.map fun entry => if entry.1 = index then (index,entry.2.push delta) else entry) := by
  have same : ∀ entry : Nat × ToolOutput, (if entry.1 = index then (index,entry.2.push delta) else entry).1 = entry.1 := by
    intro entry
    split_ifs with here
    · exact here.symm
    · rfl
  exact ordered.map _ fun a b less => by simpa only [same] using less

theorem Tracks.step (tracks : Tracks output p) (event : ModelEvent) : Tracks (output.update event) (p.after event) := by
  obtain ⟨text,ordered,tools,usage,finish⟩ := tracks
  cases event with
  | TextDelta delta => exact ⟨by rw [Output.update,Progress.after,text],ordered,tools,usage,finish⟩
  | ToolCallStart index call_id name =>
    refine ⟨text,ordered.insert _ _,fun other => ?_,usage,finish⟩
    rw [Output.update,Keyed.lookup_insertOrdered,tools,Progress.after]
    by_cases same : other = index
    · subst same
      simp [toolOf]
    · simp [same]
  | ToolCallArgumentsDelta index delta =>
    refine ⟨text,push_ordered ordered _ _,fun other => ?_,usage,finish⟩
    have pushed : (p.after (.ToolCallArgumentsDelta index delta)).tools other = _ := changeTool_apply p.tools index other (.push delta)
    rw [Output.update,lookup_push,tools,pushed]
    split_ifs
    · simp [Function.comp_def,toolOf,Tool.push,ToolOutput.push]
    · rfl
  | ToolCallEnd index =>
    refine ⟨text,ordered,fun other => ?_,usage,finish⟩
    have ended : (p.after (.ToolCallEnd index)).tools other = _ := changeTool_apply p.tools index other .end
    rw [ended]
    refine (tools other).trans ?_
    split_ifs
    · cases p.tools other <;> rfl
    · rfl
  | Usage _ => exact ⟨text,ordered,tools,rfl,finish⟩
  | Done _ => exact ⟨text,ordered,tools,usage,rfl⟩
  | _ => exact ⟨text,ordered,tools,usage,finish⟩
theorem Tracks.run {events : List ModelEvent} : ∀ {output : Output} {p : Progress}, Tracks output p → Leads p events q →
    Tracks (events.foldl Output.update output) q := by
  induction events with
  | nil =>
    rintro output p tracks rfl
    exact tracks
  | cons event rest ih => exact fun tracks leads => ih (tracks.step event) leads.2.2

theorem Tracks.known (tracks : Tracks output p) (index : Nat) (tool : ToolOutput) :
    (index,tool) ∈ output.tools ↔ ∃ one, p.tools index = some one ∧ toolOf one = tool := by
  rw [Keyed.mem_iff tracks.ordered.distinct,tracks.tools,Option.map_eq_some_iff]

theorem collect_events [Serde] [ArgumentText] (events : List ModelEvent) (output : Output) :
    collect output (events.map .ok) = .ok (events.foldl Output.update output) := by
  induction events generalizing output with
  | nil => rfl
  | cons event rest ih => exact ih _

end Tracks

end MyCursor.ByokOutput

import MyCursor.ChatConformance
import MyCursor.Wire

/-!
# The Chat adapter of the plugin SDK

`plugin/sdk/protocol/openai_chat.ts` runs the loop of the built-in adapter in
JavaScript. Its events are read by the server; the two adapters have the same
outcome exactly if they read the same of every chunk, wherever one of them
succeeds.
-/
namespace MyCursor.SdkChat
open Message Store Run ModelCycle CycleProgress Text Wire Chat
open ProviderEvents (Source stringOf provider_event_error)
open CheckpointCodec (Serde object)
open CheckpointRoundTrip (printed printing)
set_option linter.unusedSectionVars false

def isRecord : Value → Bool
  | .Object _ => true
  | _ => false

section Adapter
variable [JavaScript]

def count : Value → Option Number
  | .Number number => some (JavaScript.through number)
  | _ => none
def usageEvent (usage : Value) : ModelUsage :=
  let tokens (path : List String) : Option Number := (Json.pointer usage path).bind count
  { inputTokens := tokens ["prompt_tokens"]
    outputTokens := tokens ["completion_tokens"]
    totalTokens := tokens ["total_tokens"]
    cacheReadTokens := tokens ["prompt_tokens_details","cached_tokens"]
    cacheWriteTokens := none
    reasoningTokens := tokens ["completion_tokens_details","reasoning_tokens"] }

def readTool (tool : Value) (position : Nat) : Option (ToolDelta Number) :=
  if isRecord tool then
    let function := member tool "function"
    some
      { index := ((Json.get tool "index").bind count).getD (JavaScript.through (.PosInt position))
        id := stringOf tool "id"
        name := stringOf function "name"
        arguments := stringOf function "arguments" }
  else none
def readChoice (choice : Value) : Choice Number :=
  let delta := member choice "delta"
  { reasoning := nonEmpty ((stringOf delta "reasoning_content").or (stringOf delta "reasoning"))
    content := nonEmpty (stringOf delta "content")
    tools := (toolCalls delta).zipIdx.filterMap fun (tool,position) => readTool tool position
    finish_reason := stringOf choice "finish_reason" }
def readChunk (value : Value) : Chunk Number ModelUsage :=
  { usage := ((Json.get value "usage").filter (· ≠ .Null)).map usageEvent
    choice := ((firstChoice value).filter isRecord).map readChoice }

def eventError (value : Value) : Option String :=
  match Json.get value "error" with
  | none | some .Null => none
  | some (.String error) => some error
  | some error => some ((stringOf error "message").getD (JavaScript.stringify error))

def mapFinish (reason : String) (hasTools : Bool) : FinishReason :=
  if reason = "tool_calls" ∨ reason = "function_call" then .ToolUse
  else if reason = "length" then .Length
  else if reason = "stop" ∨ reason = "content_filter" then .Stop
  else if hasTools then .ToolUse
  else .Stop

/-- A `Map` remembers in which order its keys were inserted. -/
def sdk : Dialect Number := ⟨Keyed.insertLast,JavaScript.text,mapFinish⟩

section Stream
variable [Serde] [JsonParse]

def emitted : Event Number ModelUsage → SdkEvent
  | .TextStart => .TextStart
  | .TextDelta delta => .TextDelta delta
  | .TextEnd => .TextEnd
  | .ThinkingStart => .ThinkingStart
  | .ThinkingDelta delta => .ThinkingDelta delta
  | .ThinkingEnd => .ThinkingEnd
  | .ToolCallStart index callId name => .ToolCallStart index callId name
  | .ToolCallArgumentsDelta index delta => .ToolCallArgumentsDelta index delta
  | .ToolCallEnd index => .ToolCallEnd index
  | .Usage usage => .Usage usage
  | .Replay reasoning => .ReplayState "openai_chat" (object [("reasoning_content",.String reasoning)])
  | .Done reason => .Done reason
def emit (output : List (Event Number ModelUsage) × Option String) : List SdkEvent × Option String :=
  (output.1.map emitted,output.2)

def streamFrom (a : Loop Number ModelUsage) : List String → List SdkEvent × Option String
  | [] => emit (finishLoop sdk a false)
  | payload :: rest =>
    if payload = "" then streamFrom a rest
    else if payload = "[DONE]" then emit (finishLoop sdk a true)
    else
      match JsonParse.parse payload with
      | .error _ => ([],some "OpenAI Chat SSE returned invalid JSON")
      | .ok value =>
        match eventError value with
        | some error => ([],some s!"OpenAI Chat error: {error}")
        | none =>
          let (a,events) := step sdk a (readChunk value)
          let (more,thrown) := streamFrom a rest
          (events.map emitted ++ more,thrown)
def streamOpenAiChat (payloads : List String) : List SdkEvent × Option String := streamFrom {} payloads

end Stream

end Adapter

section Keys
variable {κ κ' υ υ' : Type} [DecidableEq κ] [DecidableEq κ'] (f : κ → κ') (g : υ → υ')

def mapDelta (delta : ToolDelta κ) : ToolDelta κ' := ⟨f delta.index,delta.id,delta.name,delta.arguments⟩
def mapChoice (choice : Choice κ) : Choice κ' :=
  ⟨choice.reasoning,choice.content,choice.tools.map (mapDelta f),choice.finish_reason⟩
def mapChunk (chunk : Chunk κ υ) : Chunk κ' υ' := ⟨chunk.usage.map g,chunk.choice.map (mapChoice f)⟩
def mapTools (tools : List (κ × ChatToolState)) : List (κ' × ChatToolState) := tools.map fun entry => (f entry.1,entry.2)
def mapLoop (a : Loop κ υ) : Loop κ' υ' :=
  ⟨a.text_open,a.thinking_open,a.reasoning,mapTools f a.tools,a.final_usage.map g,a.finish⟩
def mapEvent : Event κ υ → Event κ' υ'
  | .TextStart => .TextStart
  | .TextDelta delta => .TextDelta delta
  | .TextEnd => .TextEnd
  | .ThinkingStart => .ThinkingStart
  | .ThinkingDelta delta => .ThinkingDelta delta
  | .ThinkingEnd => .ThinkingEnd
  | .ToolCallStart index call_id name => .ToolCallStart (f index) call_id name
  | .ToolCallArgumentsDelta index delta => .ToolCallArgumentsDelta (f index) delta
  | .ToolCallEnd index => .ToolCallEnd (f index)
  | .Usage usage => .Usage (g usage)
  | .Replay reasoning => .Replay reasoning
  | .Done reason => .Done reason

structure Renames (d : Dialect κ) (d' : Dialect κ') : Prop where
  injective : Function.Injective f
  insert : ∀ index tool tools, d'.insert (f index) tool (mapTools f tools) = mapTools f (d.insert index tool tools)
  label : ∀ index, d'.label (f index) = d.label index
  map_finish : d'.map_finish = d.map_finish

variable {f g} {d : Dialect κ} {d' : Dialect κ'}

theorem updateTool_map (delta : ToolDelta κ) (tool : ChatToolState) : updateTool (υ := υ') (mapDelta f delta) tool =
      ((updateTool (υ := υ) delta tool).1,(updateTool (υ := υ) delta tool).2.map (mapEvent f g)) := by
  have merged : mergeTool (mapDelta f delta) tool = mergeTool delta tool := rfl
  have isIndex : (mapDelta f delta).index = f delta.index := rfl
  unfold updateTool
  rw [merged,isIndex]
  generalize mergeTool delta tool = merged
  have starts : Chat.startTool (υ := υ') (f delta.index) merged =
      ((Chat.startTool (υ := υ) delta.index merged).1,(Chat.startTool (υ := υ) delta.index merged).2.map (mapEvent f g)) := by
    unfold Chat.startTool
    split_ifs <;> rfl
  rw [starts]
  generalize Chat.startTool (υ := υ) delta.index merged = started
  have emits : emitArguments (υ := υ') (f delta.index) started.1 =
      ((emitArguments (υ := υ) delta.index started.1).1,(emitArguments (υ := υ) delta.index started.1).2.map (mapEvent f g)) := by
    unfold emitArguments
    split_ifs <;> rfl
  simp only [emits,List.map_append]
section
variable (renames : Renames f d d')
include renames

theorem update_chat_tools_map (more : List (ToolDelta κ)) : ∀ a : Loop κ υ,
    update_chat_tools d' (mapLoop f g a) (more.map (mapDelta f)) =
      (mapLoop f g (update_chat_tools d a more).1,(update_chat_tools d a more).2.map (mapEvent f g)) := by
  induction more with
  | nil => exact fun a => rfl
  | cons delta rest ih =>
    intro a
    have one : update_chat_tool d' (mapLoop f g a) (mapDelta f delta) =
        (mapLoop f g (update_chat_tool d a delta).1,(update_chat_tool d a delta).2.map (mapEvent f g)) := by
      have found : Keyed.lookup (mapLoop f g a).tools (mapDelta f delta).index = Keyed.lookup a.tools delta.index :=
        Keyed.lookup_rename renames.injective a.tools delta.index
      unfold update_chat_tool
      rw [found,updateTool_map (g := g)]
      simp only [mapLoop,mapDelta,renames.insert]
    rw [List.map_cons,update_chat_tools,update_chat_tools,one]
    simp only [ih,List.map_append]
theorem step_map (a : Loop κ υ) (chunk : Chunk κ υ) :
    step d' (mapLoop f g a) (mapChunk f g chunk) = (mapLoop f g (step d a chunk).1,(step d a chunk).2.map (mapEvent f g)) := by
  obtain ⟨usage,choice⟩ := chunk
  have used : ({ mapLoop f g a with final_usage := (usage.map g).or (mapLoop f g a).final_usage } : Loop κ' υ') =
      mapLoop f g { a with final_usage := usage.or a.final_usage } := by
    cases usage <;> rfl
  cases choice with
  | none => exact Prod.ext used rfl
  | some choice =>
    simp only [Chat.step,mapChunk,Option.map_some,Option.elim_some,used]
    generalize ({ a with final_usage := usage.or a.final_usage } : Loop κ υ) = a
    have thinks : takeReasoning (mapLoop f g a) (mapChoice f choice).reasoning =
        (mapLoop f g (takeReasoning a choice.reasoning).1,(takeReasoning a choice.reasoning).2.map (mapEvent f g)) := by
      cases isReasoning : choice.reasoning with
      | none => simp [takeReasoning,mapChoice,isReasoning]
      | some delta => cases isOpen : a.thinking_open <;> simp [takeReasoning,mapChoice,isReasoning,mapLoop,isOpen,mapEvent]
    unfold takeChoice
    rw [thinks]
    generalize takeReasoning a choice.reasoning = thought
    have spoken : takeContent (mapLoop f g thought.1) (mapChoice f choice).content =
        (mapLoop f g (takeContent thought.1 choice.content).1,(takeContent thought.1 choice.content).2.map (mapEvent f g)) := by
      cases isContent : choice.content with
      | none => simp [takeContent,mapChoice,isContent]
      | some content =>
        cases isOpen : thought.1.text_open <;> cases isThinking : thought.1.thinking_open <;>
          simp [takeContent,mapChoice,isContent,mapLoop,isOpen,isThinking,mapEvent]
    simp only [spoken]
    generalize takeContent thought.1 choice.content = said
    have calls := update_chat_tools_map (g := g) renames choice.tools said.1
    have isTools : (mapChoice f choice).tools = choice.tools.map (mapDelta f) := rfl
    rw [isTools,calls]
    generalize update_chat_tools d said.1 choice.tools = called
    have empty : (mapLoop f g called.1).tools.isEmpty = called.1.tools.isEmpty := by
      simp [mapLoop,mapTools]
    simp only [List.map_append,empty,renames.map_finish]
    rfl

theorem closeTools_map (tools : List (κ × ChatToolState)) : closeTools (υ := υ') d' (mapTools f tools) =
      ((closeTools (υ := υ) d tools).1.map (mapEvent f g),(closeTools (υ := υ) d tools).2) := by
  induction tools with
  | nil => rfl
  | cons entry rest ih =>
    have late : lateStart (υ := υ') d' (f entry.1) entry.2 = (lateStart (υ := υ) d entry.1 entry.2).map (mapEvent f g) := by
      unfold lateStart
      rw [renames.label]
      split_ifs <;> rfl
    rw [mapTools,List.map_cons,closeTools,closeTools]
    split_ifs
    · rfl
    · rw [mapTools] at ih
      rw [ih,late]
      simp [mapEvent]
theorem finishLoop_map (a : Loop κ υ) (marked : Bool) :
    finishLoop d' (mapLoop f g a) marked = ((finishLoop d a marked).1.map (mapEvent f g),(finishLoop d a marked).2) := by
  have tools : closeTools (υ := υ') d' (mapLoop f g a).tools =
      ((closeTools (υ := υ) d a.tools).1.map (mapEvent f g),(closeTools (υ := υ) d a.tools).2) := closeTools_map renames a.tools
  have reason : finalReason (mapLoop f g a) marked = finalReason a marked := by simp [finalReason,mapLoop,mapTools]
  unfold finishLoop
  rw [tools,reason]
  generalize finalReason a marked = last
  generalize closeTools (υ := υ) d a.tools = closed
  obtain ⟨text_open,thinking_open,reasoning,_,final_usage,_⟩ := a
  rcases closed with ⟨ended,_ | error⟩
  · cases last <;> cases thinking_open <;> cases text_open <;> cases final_usage <;> by_cases none_ : reasoning = "" <;>
      simp [mapLoop,mapEvent,none_]
  · cases thinking_open <;> cases text_open <;> simp [mapLoop,mapEvent]
theorem runFrom_map (marked : Bool) (chunks : List (Chunk κ υ)) : ∀ a : Loop κ υ,
    runFrom d' (mapLoop f g a) marked (chunks.map (mapChunk f g)) =
      ((runFrom d a marked chunks).1.map (mapEvent f g),(runFrom d a marked chunks).2) := by
  induction chunks with
  | nil => exact fun a => finishLoop_map renames a marked
  | cons chunk rest ih =>
    intro a
    rw [List.map_cons,runFrom,step_map renames]
    simp only [ih,runFrom,List.map_append]

end

end Keys

end MyCursor.SdkChat

import MyCursor.SdkChatAgreement
import MyCursor.SdkResponses

/-!
# Agreement of the two Responses adapters

The SDK's adapter goes through the states of the built-in one, with its tools in
another order. Where JavaScript keeps the numbers of a stream, both have the same
outcome; where it keeps those of a history, both send the same input.
-/
namespace MyCursor.SdkResponses
open Message Projection Store Run ModelCycle CycleProgress Text
open Wire
open ProviderEvents (stringOf Source provider_event_error)
open CheckpointCodec (Serde object)
open CheckpointRoundTrip (printed printing)
open Compaction (SerdeText)
open Responses (Incoming ResponseToolState ResponseToolArguments sliceFrom)
open Requests (map_ok)
open SdkChat (count mark posInt_injective)
set_option linter.unusedSectionVars false

def SameLeads (first second : List ModelEvent) : Prop := ∀ p q, Leads p first q ↔ Leads p second q

theorem SameLeads.refl (events : List ModelEvent) : SameLeads events events := fun _ _ => Iff.rfl
theorem SameLeads.append {first second more other : List ModelEvent} (same : SameLeads first second) (later : SameLeads more other) :
    SameLeads (first ++ more) (second ++ other) := by
  intro p q
  rw [leads_append,leads_append]
  exact exists_congr fun middle => and_congr (same p middle) (later middle q)

theorem changeTool_comm (tools : Nat → Option Tool) {i j : Nat} (different : i ≠ j) (change : Tool → Tool) :
    CycleProgress.changeTool (CycleProgress.changeTool tools i change) j change =
      CycleProgress.changeTool (CycleProgress.changeTool tools j change) i change := by
  funext index
  simp only [changeTool_apply]
  by_cases first : index = i
  · subst first
    simp [different]
  · simp [first]
theorem ends_swap {p q : Progress} {i j : Nat} {rest : List ModelEvent}
    (leads : Leads p (.ToolCallEnd i :: .ToolCallEnd j :: rest) q) : Leads p (.ToolCallEnd j :: .ToolCallEnd i :: rest) q := by
  by_cases same : i = j
  · rwa [same] at leads ⊢
  · obtain ⟨going,⟨first,isFirst,running⟩,_,⟨second,isSecond,running'⟩,later⟩ := leads
    simp only [Progress.after,changeTool_apply,if_neg (Ne.symm same)] at isSecond
    refine ⟨going,⟨second,isSecond,running'⟩,going,⟨first,?_,running⟩,?_⟩
    · simp only [Progress.after,changeTool_apply,if_neg same,isFirst]
    · simpa only [Progress.after,changeTool_comm p.tools same] using later
theorem ends_perm {first second : List Nat} (perm : first.Perm second) :
    SameLeads (first.map .ToolCallEnd) (second.map .ToolCallEnd) := by
  induction perm with
  | nil => exact .refl []
  | cons index _ ih => exact fun p q => and_congr_right fun _ => and_congr_right fun _ => ih _ q
  | swap i j rest => exact fun p q => ⟨ends_swap,ends_swap⟩
  | trans _ _ first second => exact fun p q => (first p q).trans (second p q)

def Reads (events : List SdkEvent) (read : List ModelEvent) : Prop := events.map SdkEvent.read = read.map some

variable {events : List SdkEvent} {read : List ModelEvent}

theorem Reads.append {more : List SdkEvent} {later : List ModelEvent} (first : Reads events read)
    (second : Reads more later) : Reads (events ++ more) (read ++ later) := by
  rw [Reads,List.map_append,List.map_append,first,second]
theorem Reads.either {condition : Bool} (reads : Reads events read) :
    Reads (if condition then events else []) (if condition then read else []) := by
  cases condition
  · rfl
  · exact reads
theorem Reads.unless {condition : Bool} (reads : Reads events read) :
    Reads (if condition then [] else events) (if condition then [] else read) := by
  cases condition
  · exact reads
  · rfl

def Both {ε ε' α β : Type} (related : α → β → Prop) : Except ε α → Except ε' β → Prop
  | .ok a, .ok b => related a b
  | .error _, .error _ => True
  | _, _ => False

theorem takeArguments_both (tool : ResponseToolState) (args : ResponseToolArguments) :
    Both (· = ·) (takeArguments tool args) (Responses.takeArguments tool args) := by
  cases args with
  | None | Delta delta => exact rfl
  | Snapshot snapshot =>
    simp only [takeArguments,Responses.takeArguments]
    split_ifs
    · exact rfl
    · exact rfl
    · exact trivial
theorem startTool_reads (index : Nat) (tool : ResponseToolState) :
    (startTool (.PosInt index) tool).1 = (Responses.startTool index tool).1 ∧
      Reads (startTool (.PosInt index) tool).2 (Responses.startTool index tool).2 := by
  obtain ⟨call_id,name,arguments,emitted,started,ended⟩ := tool
  cases started <;> cases call_id <;> cases name <;> exact ⟨rfl,rfl⟩
theorem emitArguments_reads (index : Nat) (tool : ResponseToolState) :
    (emitArguments (.PosInt index) tool).1 = (Responses.emitArguments index tool).1 ∧
      Reads (emitArguments (.PosInt index) tool).2 (Responses.emitArguments index tool).2 := by
  unfold emitArguments Responses.emitArguments
  split_ifs <;> exact ⟨rfl,rfl⟩
def Alike {α : Type} (sdk : α × List SdkEvent) (builtIn : α × List ModelEvent) : Prop :=
  sdk.1 = builtIn.1 ∧ Reads sdk.2 builtIn.2
theorem endTool_both (index : Nat) (done : Bool) (tool : ResponseToolState) :
    Both Alike (endTool (.PosInt index) done tool) (Responses.endTool index done tool) := by
  unfold endTool Responses.endTool
  split_ifs
  · exact trivial
  · exact ⟨rfl,rfl⟩
  · exact ⟨rfl,rfl⟩
theorem changeTool_both (index : Nat) (call_id name : Option String) (args : ResponseToolArguments) (done : Bool)
    (tool : ResponseToolState) :
    Both Alike (changeTool (.PosInt index) call_id name args done tool) (Responses.updateTool index call_id name args done tool) := by
  unfold changeTool Responses.updateTool
  have taken := takeArguments_both { tool with call_id := tool.call_id.or call_id, name := tool.name.or name } args
  generalize takeArguments { tool with call_id := tool.call_id.or call_id, name := tool.name.or name } args = first at taken ⊢
  generalize Responses.takeArguments { tool with call_id := tool.call_id.or call_id, name := tool.name.or name } args = second
    at taken ⊢
  rcases first with _ | first <;> rcases second with _ | second
  · exact trivial
  · exact taken.elim
  · exact taken.elim
  · obtain rfl : first = second := taken
    obtain ⟨sameStarted,started⟩ := startTool_reads index first
    simp only [bind,Except.bind,sameStarted]
    obtain ⟨sameEmitted,emitted⟩ := emitArguments_reads index (Responses.startTool index first).1
    simp only [sameEmitted]
    have ended := endTool_both index done (Responses.emitArguments index (Responses.startTool index first).1).1
    generalize endTool (.PosInt index) done (Responses.emitArguments index (Responses.startTool index first).1).1 = one at ended ⊢
    generalize Responses.endTool index done (Responses.emitArguments index (Responses.startTool index first).1).1 = other at ended ⊢
    rcases one with _ | one <;> rcases other with _ | other
    · exact trivial
    · exact ended.elim
    · exact ended.elim
    · exact ⟨ended.1,(started.append emitted).append ended.2⟩

def itemOf (value : Value) : Value := (Json.get value "item").getD .Null
def Indexed (value : Value) : Prop :=
  stringOf value "type" = some "response.function_call_arguments.delta" ∨
    stringOf value "type" = some "response.function_call_arguments.done" ∨
    (stringOf value "type" = some "response.output_item.added" ∨ stringOf value "type" = some "response.output_item.done") ∧
      stringOf (itemOf value) "type" = some "function_call"
/-- An event of the API that is not an error. -/
structure Legal (value : Value) : Prop where
  typed : stringOf value "type" ≠ none
  plain : stringOf value "type" ≠ some "error" ∧ (Json.get value "error").filter (· ≠ .Null) = none
  indexed : Indexed value → ∃ index, Json.get value "output_index" = some (.Number (.PosInt index))
  arguments : stringOf value "type" = some "response.function_call_arguments.done" → stringOf value "arguments" ≠ none
/-- The last event of a response. -/
def Terminal (value : Value) : Prop :=
  stringOf value "type" = some "response.completed" ∨ stringOf value "type" = some "response.incomplete"

def usagePaths : List (List String) :=
  [["input_tokens"],["output_tokens"],["total_tokens"],["input_tokens_details","cached_tokens"],
    ["output_tokens_details","reasoning_tokens"]]

section Simulation
variable [JavaScript]

/-- JavaScript keeps the numbers of an event that matter: its index, the counts of
    the usage, and all numbers of a reasoning item. -/
structure Kept (value : Value) : Prop where
  index : Indexed value → ∀ index, Json.get value "output_index" = some (.Number index) → JavaScript.through index = index
  usage : stringOf value "type" = some "response.completed" → ∀ usage, Json.pointer value ["response","usage"] = some usage →
    ∀ path ∈ usagePaths, ∀ number, Json.pointer usage path = some (.Number number) → JavaScript.through number = number
  item : stringOf value "type" = some "response.output_item.done" → stringOf (itemOf value) "type" = some "reasoning" →
    held (itemOf value) = itemOf value

/-- What the SDK's adapter reads where the built-in one reads this. -/
def seenOf : Incoming → Seen
  | .OutputTextDelta delta => .OutputTextDelta delta
  | .OutputTextDone text => .OutputTextDone text
  | .ReasoningDelta delta => .ReasoningDelta delta
  | .ReasoningDone => .ReasoningDone
  | .CallAdded index call_id name => .CallAdded (.PosInt index) call_id name
  | .ReasoningItemDone item => .ReasoningItemDone item
  | .MessageItemDone text => .MessageItemDone text
  | .CallDone index call_id name arguments => .CallDone (.PosInt index) call_id name arguments
  | .ArgumentsDelta index (some delta) => .ArgumentsDelta (.PosInt index) delta
  | .ArgumentsDone index arguments => .ArgumentsDone (.PosInt index) arguments
  | .Completed usage => .Completed (usage.map usageEvent)
  | .Incomplete _ => .Incomplete
  | .ArgumentsDelta _ none | .Other => .Other
def Comparable : Incoming → Prop
  | .Completed (some usage) => readUsage (usageEvent usage) = Responses.responses_usage usage
  | .ArgumentsDone _ arguments => arguments ≠ none
  | _ => True

structure Simulates (s : Adapter) (a : Responses.Adapter) : Prop where
  textOpen : s.textOpen = a.text_open
  streamedText : s.streamedText = a.text
  thinkingOpen : s.thinkingOpen = a.thinking_open
  tools : ∃ entries, s.tools = Keyed.rename .PosInt entries ∧ entries.Perm a.tools
  ordered : Keyed.Ordered a.tools
  reasoningItems : s.reasoningItems = a.reasoning_items
  sawTool : s.sawTool = a.saw_tool
  sawCompletedItem : s.sawCompletedItem = a.saw_completed_item
  terminal : s.terminal = a.terminal

def SameEvents (events : List SdkEvent) (yielded : List ModelEvent) : Prop := ∃ read, Reads events read ∧ SameLeads read yielded

theorem Reads.same {events : List SdkEvent} {read : List ModelEvent} (reads : Reads events read) : SameEvents events read :=
  ⟨read,reads,.refl read⟩
theorem SameEvents.append {events more : List SdkEvent} {yielded later : List ModelEvent} (first : SameEvents events yielded)
    (second : SameEvents more later) : SameEvents (events ++ more) (yielded ++ later) := by
  obtain ⟨read,reads,same⟩ := first
  obtain ⟨read',reads',same'⟩ := second
  exact ⟨read ++ read',reads.append reads',same.append same'⟩

structure StepsAlike (emit : Emit) (yield : Responses.Yield) : Prop where
  fails : emit.2.2 = none ↔ yield.2.2 = none
  simulates : yield.2.2 = none → Simulates emit.1 yield.1
  events : yield.2.2 = none → SameEvents emit.2.1 yield.2.1

variable {s : Adapter} {a : Responses.Adapter}

section
variable (simulates : Simulates s a)
include simulates

theorem Simulates.lookup (index : Nat) : Keyed.lookup s.tools (.PosInt index) = Keyed.lookup a.tools index := by
  obtain ⟨entries,isTools,perm⟩ := simulates.tools
  rw [isTools,Keyed.lookup_rename posInt_injective,Keyed.lookup_perm perm simulates.ordered.distinct]
theorem updateTool_alike (index : Nat) (call_id name : Option String) (args : ResponseToolArguments) (done : Bool) :
    StepsAlike (updateTool s (.PosInt index) call_id name args done)
      (Responses.update_response_tool a index call_id name args done) := by
  have both := changeTool_both index call_id name args done ((Keyed.lookup a.tools index).getD {})
  unfold updateTool Responses.update_response_tool
  rw [simulates.lookup]
  generalize changeTool (.PosInt index) call_id name args done ((Keyed.lookup a.tools index).getD {}) = one at both ⊢
  generalize Responses.updateTool index call_id name args done ((Keyed.lookup a.tools index).getD {}) = other at both ⊢
  rcases one with _ | ⟨tool,events⟩ <;> rcases other with _ | ⟨tool',events'⟩
  · exact ⟨by simp,fun failed => (by cases failed),fun failed => by cases failed⟩
  · exact both.elim
  · exact both.elim
  · obtain ⟨rfl,reads⟩ := both
    refine ⟨by simp,fun _ => ?_,fun _ => reads.same⟩
    obtain ⟨entries,isTools,perm⟩ := simulates.tools
    refine { simulates with tools := ⟨Keyed.insertLast index tool entries,?_,?_⟩, ordered := simulates.ordered.insert index tool }
    · dsimp only
      rw [isTools,Keyed.insertLast_rename posInt_injective]
    · exact Keyed.insert_perm perm simulates.ordered index tool

theorem closeThinking_reads : Simulates (closeThinking s).1 (Responses.closeThinking a).1 ∧
      Reads (closeThinking s).2 (Responses.closeThinking a).2 := by
  refine ⟨{ simulates with thinkingOpen := rfl },?_⟩
  unfold closeThinking Responses.closeThinking
  rw [simulates.thinkingOpen]
  exact Reads.either rfl
theorem closeText_reads : Simulates (closeText s).1 (Responses.closeText a).1 ∧ Reads (closeText s).2 (Responses.closeText a).2 := by
  refine ⟨{ simulates with textOpen := rfl },?_⟩
  unfold closeText Responses.closeText
  rw [simulates.textOpen]
  exact Reads.either rfl
theorem reconcileText_reads (text : String) : Simulates (reconcileText s text).1 (Responses.reconcile_response_text a text).1 ∧
      Reads (reconcileText s text).2 (Responses.reconcile_response_text a text).2 := by
  unfold reconcileText Responses.reconcile_response_text
  rw [simulates.streamedText,simulates.textOpen]
  by_cases longer : (starts_with text a.text && a.text.length < text.length) = true
  · rw [if_pos longer,if_pos longer]
    rw [Bool.and_eq_true] at longer
    refine ⟨{ simulates with textOpen := rfl, streamedText := (Responses.starts_slice longer.1).symm },Reads.append ?_ rfl⟩
    exact Reads.unless rfl
  · rw [if_neg longer,if_neg longer]
    exact ⟨simulates,rfl⟩
theorem finishText_reads (text : Option String) : Simulates (finishText s text).1 (Responses.finishText a text).1 ∧
      Reads (finishText s text).2 (Responses.finishText a text).2 := by
  cases text with
  | none =>
    obtain ⟨simulates',reads⟩ := closeText_reads simulates
    exact ⟨simulates',reads⟩
  | some text =>
    obtain ⟨first,added⟩ := reconcileText_reads simulates text
    obtain ⟨second,closed⟩ := closeText_reads first
    exact ⟨second,added.append closed⟩

theorem endStartedTools_same :
    (∃ entries, (endStartedTools s.tools).1 = Keyed.rename .PosInt entries ∧ entries.Perm (Responses.endTools a.tools).1) ∧
      Keyed.Ordered (Responses.endTools a.tools).1 ∧ SameEvents (endStartedTools s.tools).2 (Responses.endTools a.tools).2 := by
  obtain ⟨entries,isTools,perm⟩ := simulates.tools
  refine ⟨⟨entries.map fun entry => (entry.1,if entry.2.started then { entry.2 with ended := true } else entry.2),?_,?_⟩,?_,?_⟩
  · rw [isTools]
    simp [endStartedTools,Keyed.rename,Function.comp_def]
  · exact perm.map _
  · exact simulates.ordered.map _ fun _ _ less => less
  · have reads : Reads (endStartedTools s.tools).2
        (((entries.filter fun entry => entry.2.started && !entry.2.ended).map (·.1)).map .ToolCallEnd) := by
      rw [isTools]
      simp [Reads,endStartedTools,Keyed.rename,List.filter_map,Function.comp_def,SdkEvent.read,asNat]
    refine ⟨_,reads,?_⟩
    have yielded : (Responses.endTools a.tools).2 =
        ((a.tools.filter fun entry => entry.2.started && !entry.2.ended).map (·.1)).map .ToolCallEnd := by
      simp [Responses.endTools,Function.comp_def]
    rw [yielded]
    exact ends_perm ((perm.filter _).map _)
theorem closeAll_same : Simulates (closeAll s).1 (Responses.closeAll a).1 ∧ SameEvents (closeAll s).2 (Responses.closeAll a).2 := by
  obtain ⟨first,thinking⟩ := closeThinking_reads simulates
  obtain ⟨second,text⟩ := closeText_reads first
  obtain ⟨tools,ordered,ended⟩ := endStartedTools_same second
  exact ⟨{ second with tools := tools, ordered := ordered },(thinking.append text).same.append ended⟩
theorem Simulates.any (condition : ResponseToolState → Bool) :
    s.tools.any (fun (_,tool) => condition tool) = a.tools.any fun (_,tool) => condition tool := by
  obtain ⟨entries,isTools,perm⟩ := simulates.tools
  rw [isTools,Keyed.rename,List.any_map]
  exact perm.any_eq

end

section Serde
variable [Serde] [ArgumentText] [JsonParse]

theorem replay_reads (items : List Value) : Reads (emitReplayState items) (Responses.replayState items) := by
  unfold emitReplayState Responses.replayState
  split_ifs <;> rfl
theorem doneReason_same (simulates : Simulates s a) : doneReason s = Responses.finalReason a := by
  rw [doneReason,Responses.finalReason,simulates.sawTool]

theorem complete_alike (simulates : Simulates s a) (usage : Option Value) (comparable : Comparable (.Completed usage)) :
    StepsAlike (step s (seenOf (.Completed usage))) (Responses.step a (.Completed usage)) := by
  obtain ⟨closed,ends⟩ := closeAll_same simulates
  have used : Reads ((usage.map usageEvent).toList.map .Usage) (usage.toList.map fun usage => .Usage (Responses.responses_usage usage)) := by
    cases usage with
    | none => rfl
    | some usage =>
      have same : readUsage (usageEvent usage) = Responses.responses_usage usage := comparable
      simp [Reads,SdkEvent.read,same]
  simp only [step,seenOf,Responses.step,Responses.complete]
  rw [closed.any fun tool => !tool.started]
  split_ifs
  · exact ⟨by simp,fun failed => (by cases failed),fun failed => by cases failed⟩
  · refine ⟨by simp,fun _ => { closed with terminal := rfl, reasoningItems := rfl },fun _ => ?_⟩
    rw [closed.reasoningItems,doneReason_same closed]
    exact ((used.same.append ends).append (replay_reads _).same).append (Reads.same rfl)
theorem step_alike (simulates : Simulates s a) (incoming : Incoming) (comparable : Comparable incoming) :
    StepsAlike (step s (seenOf incoming)) (Responses.step a incoming) := by
  have goes : ∀ {s' : Adapter} {a' : Responses.Adapter} {events : List SdkEvent} {yielded : List ModelEvent},
      Simulates s' a' → SameEvents events yielded → StepsAlike (s',events,none) (a',yielded,none) :=
    fun simulates same => ⟨iff_of_true rfl rfl,fun _ => simulates,fun _ => same⟩
  have tool : Simulates { s with sawTool := true } { a with saw_tool := true } := { simulates with sawTool := rfl }
  cases incoming with
  | OutputTextDelta delta =>
    obtain ⟨closed,ended⟩ := closeThinking_reads simulates
    have opened : Reads (if s.textOpen then [] else [.TextStart]) (if a.text_open then [] else [.TextStart]) := by
      rw [simulates.textOpen]
      exact Reads.unless rfl
    cases delta with
    | none => exact goes { closed with textOpen := rfl } (ended.append opened).same
    | some delta =>
      have said : Reads [.TextDelta delta] [.TextDelta delta] := rfl
      exact goes { closed with textOpen := rfl, streamedText := congrArg (· ++ delta) simulates.streamedText }
        ((ended.append opened).append said).same
  | OutputTextDone text =>
    obtain ⟨finished,reads⟩ := finishText_reads simulates text
    exact goes finished reads.same
  | ReasoningDelta delta =>
    refine goes { simulates with thinkingOpen := rfl } (Reads.append ?_ ?_).same
    · rw [simulates.thinkingOpen]
      exact Reads.unless rfl
    · cases delta <;> rfl
  | ReasoningDone =>
    obtain ⟨closed,reads⟩ := closeThinking_reads simulates
    exact goes closed reads.same
  | CallAdded index call_id name => exact updateTool_alike tool index call_id name .None false
  | ReasoningItemDone item =>
    obtain ⟨closed,reads⟩ := closeThinking_reads simulates
    exact goes { closed with reasoningItems := congrArg (· ++ [item]) simulates.reasoningItems } reads.same
  | MessageItemDone text =>
    have completed : Simulates { s with sawCompletedItem := true } { a with saw_completed_item := true } :=
      { simulates with sawCompletedItem := rfl }
    obtain ⟨finished,reads⟩ := finishText_reads completed text
    exact goes finished reads.same
  | CallDone index call_id name arguments =>
    have completed : Simulates { s with sawCompletedItem := true, sawTool := true }
        { a with saw_completed_item := true, saw_tool := true } := { tool with sawCompletedItem := rfl }
    exact updateTool_alike completed index call_id name (.ofSnapshot arguments) true
  | ArgumentsDelta index delta =>
    cases delta with
    | none => exact goes simulates (Reads.same rfl)
    | some delta => exact updateTool_alike tool index none none (.Delta delta) false
  | ArgumentsDone index arguments =>
    have present : arguments ≠ none := comparable
    simp only [seenOf,step,Responses.step,present,false_or]
    split_ifs
    · exact updateTool_alike simulates index none none .None false
    · exact updateTool_alike simulates index none none (.ofSnapshot arguments) true
  | Completed usage => exact complete_alike simulates usage comparable
  | Incomplete usage =>
    obtain ⟨closed,ends⟩ := closeAll_same simulates
    exact goes { closed with terminal := rfl } (ends.append (Reads.same rfl))
  | Other => exact goes simulates (Reads.same rfl)

structure RunsAlike (output : List SdkEvent × Option String) (yielded : List ModelEvent × Option Error) : Prop where
  fails : output.2 = none ↔ yielded.2 = none
  events : yielded.2 = none → SameEvents output.1 yielded.1

theorem finishStream_alike (simulates : Simulates s a) : RunsAlike (finishStream s) (Responses.finishStream a) := by
  unfold finishStream Responses.finishStream
  rw [simulates.terminal,simulates.sawCompletedItem]
  split_ifs
  · exact ⟨iff_of_true rfl rfl,fun _ => Reads.same rfl⟩
  · obtain ⟨first,thinking⟩ := closeThinking_reads simulates
    obtain ⟨second,text⟩ := closeText_reads first
    dsimp only
    rw [second.any fun tool => !tool.ended]
    split_ifs
    · exact ⟨by simp,fun failed => by cases failed⟩
    · refine ⟨iff_of_true rfl rfl,fun _ => ?_⟩
      rw [second.reasoningItems,doneReason_same second]
      exact ((thinking.append text).append (replay_reads _)).same.append (Reads.same rfl)
  · exact ⟨by simp,fun failed => by cases failed⟩

variable {value : Value}

theorem count_kept {value : Option Value} (kept : ∀ number, value = some (.Number number) → JavaScript.through number = number) :
    (value.bind count).bind asNat = value.bind Json.as_u64 := by
  cases value with
  | none => rfl
  | some value =>
    cases value with
    | Number number =>
      have same := kept number rfl
      simp only [Option.bind_some,count,same]
      exact (as_u64_number number).symm
    | _ => rfl
theorem usage_kept {usage : Value} (kept : ∀ path ∈ usagePaths, ∀ number, Json.pointer usage path = some (.Number number) →
    JavaScript.through number = number) : readUsage (usageEvent usage) = Responses.responses_usage usage := by
  have tokens : ∀ path ∈ usagePaths, ((Json.pointer usage path).bind count).bind asNat = (Json.pointer usage path).bind Json.as_u64 :=
    fun path member => count_kept (kept path member)
  simp only [readUsage,usageEvent,Responses.responses_usage]
  rw [tokens ["input_tokens"] (by decide),tokens ["output_tokens"] (by decide),tokens ["total_tokens"] (by decide),
    tokens ["input_tokens_details","cached_tokens"] (by decide),tokens ["output_tokens_details","reasoning_tokens"] (by decide)]
  rfl
theorem itemText_same (item : Value) : itemText item = Responses.response_item_text item := by
  have joined : ∀ parts : List Value, String.join (parts.map fun part => (stringOf part "text").getD "") =
      String.join (parts.filterMap fun part => stringOf part "text") := by
    intro parts
    induction parts with
    | nil => rfl
    | cons part rest ih =>
      rw [List.map_cons,String.join_cons,ih]
      cases isText : stringOf part "text" with
      | none => simp [isText]
      | some text => simp [isText]
  unfold itemText Responses.response_item_text
  cases Json.get item "content" with
  | none => rfl
  | some content =>
    cases isArray : Json.as_array content with
    | none => simp [isArray]
    | some parts => simp [isArray,joined]

theorem index_both (legal : Legal value) (kept : Kept value) (indexed : Indexed value) :
    ∃ index, requiredIndex value = .ok (.PosInt index) ∧ Responses.required_u64 value "output_index" = .ok index := by
  obtain ⟨index,isIndex⟩ := legal.indexed indexed
  have same := kept.index indexed _ isIndex
  refine ⟨index,?_,?_⟩
  · simp [requiredIndex,isIndex,count,same]
  · simp [Responses.required_u64,isIndex,Json.as_u64]

def SeenAs (seen : Seen) (incoming : Incoming) : Prop := seen = seenOf incoming ∧ Comparable incoming

theorem readAdded_both (legal : Legal value) (kept : Kept value) (isKind : stringOf value "type" = some "response.output_item.added") :
    Both SeenAs (readAdded value (itemOf value)) (Responses.readAdded value (itemOf value)) := by
  unfold readAdded Responses.readAdded
  split_ifs with isCall
  · obtain ⟨index,sdk,builtIn⟩ := index_both legal kept (.inr (.inr ⟨.inl isKind,isCall⟩))
    rw [sdk,builtIn]
    exact ⟨rfl,trivial⟩
  · exact ⟨rfl,trivial⟩
theorem readItemDone_both (legal : Legal value) (kept : Kept value) (isKind : stringOf value "type" = some "response.output_item.done") :
    Both SeenAs (readItemDone value (itemOf value)) (Responses.readItemDone value (itemOf value)) := by
  unfold readItemDone Responses.readItemDone
  cases isItem : stringOf (itemOf value) "type" with
  | none => exact ⟨rfl,trivial⟩
  | some kind =>
    simp only [Option.some.injEq]
    split_ifs with isReasoning isMessage isCall
    · subst isReasoning
      rw [kept.item isKind isItem]
      exact ⟨rfl,trivial⟩
    · rw [itemText_same]
      exact ⟨rfl,trivial⟩
    · subst isCall
      obtain ⟨index,sdk,builtIn⟩ := index_both legal kept (.inr (.inr ⟨.inr isKind,isItem⟩))
      rw [sdk,builtIn]
      exact ⟨rfl,trivial⟩
    · exact ⟨rfl,trivial⟩

theorem read_both (legal : Legal value) (kept : Kept value) (payload event : String) :
    Both SeenAs (readSeen payload value) (Responses.readEvent event value) := by
  obtain ⟨kind,isKind⟩ := Option.ne_none_iff_exists'.mp legal.typed
  have notError : kind ≠ "error" := by
    rintro rfl
    exact legal.plain.1 isKind
  by_cases failed : kind = "response.failed"
  · subst failed
    have sdk : readSeen payload value = .error s!"OpenAI Responses failed: {payload}" := by simp [readSeen,isKind]
    have builtIn : ∃ error, Responses.readEvent event value = .error error := by
      have reported : ∃ error, provider_event_error "OpenAI Responses" value = some error := by
        simp [provider_event_error,isKind]
      obtain ⟨error,isError⟩ := reported
      exact ⟨error,by rw [Responses.readEvent,isError]⟩
    obtain ⟨error,isError⟩ := builtIn
    rw [sdk,isError]
    exact trivial
  · have unreported : provider_event_error "OpenAI Responses" value = none := by
      unfold provider_event_error
      dsimp only
      rw [legal.plain.2,isKind]
      simp [notError,failed]
    unfold readSeen Responses.readEvent
    rw [unreported,isKind]
    dsimp only [Option.getD_some]
    by_cases text : kind = "response.output_text.delta"
    · rw [if_pos text,if_pos text]
      exact ⟨rfl,trivial⟩
    rw [if_neg text,if_neg text]
    by_cases textDone : kind = "response.output_text.done"
    · rw [if_pos textDone,if_pos textDone]
      exact ⟨rfl,trivial⟩
    rw [if_neg textDone,if_neg textDone]
    by_cases reasoning : kind = "response.reasoning_summary_text.delta" ∨ kind = "response.reasoning_text.delta"
    · rw [if_pos reasoning,if_pos reasoning]
      exact ⟨rfl,trivial⟩
    rw [if_neg reasoning,if_neg reasoning]
    by_cases reasoningDone : kind = "response.reasoning_summary_text.done" ∨ kind = "response.reasoning_text.done"
    · rw [if_pos reasoningDone,if_pos reasoningDone]
      exact ⟨rfl,trivial⟩
    rw [if_neg reasoningDone,if_neg reasoningDone]
    by_cases added : kind = "response.output_item.added"
    · rw [if_pos added,if_pos added]
      exact readAdded_both legal kept (added ▸ isKind)
    rw [if_neg added,if_neg added]
    by_cases done : kind = "response.output_item.done"
    · rw [if_pos done,if_pos done]
      exact readItemDone_both legal kept (done ▸ isKind)
    rw [if_neg done,if_neg done]
    by_cases delta : kind = "response.function_call_arguments.delta"
    · rw [if_pos delta,if_pos delta]
      obtain ⟨index,sdk,builtIn⟩ := index_both legal kept (.inl (delta ▸ isKind))
      rw [sdk,builtIn]
      cases stringOf value "delta" <;> exact ⟨rfl,trivial⟩
    rw [if_neg delta,if_neg delta]
    by_cases argumentsDone : kind = "response.function_call_arguments.done"
    · rw [if_pos argumentsDone,if_pos argumentsDone]
      obtain ⟨index,sdk,builtIn⟩ := index_both legal kept (.inr (.inl (argumentsDone ▸ isKind)))
      rw [sdk,builtIn]
      exact ⟨rfl,legal.arguments (argumentsDone ▸ isKind)⟩
    rw [if_neg argumentsDone,if_neg argumentsDone]
    by_cases completed : kind = "response.completed"
    · rw [if_pos completed,if_pos completed]
      refine ⟨rfl,?_⟩
      cases isUsage : Json.pointer value ["response","usage"] with
      | none => trivial
      | some usage => exact usage_kept (kept.usage (completed ▸ isKind) usage isUsage)
    rw [if_neg completed,if_neg completed]
    by_cases incomplete : kind = "response.incomplete"
    · rw [if_pos incomplete,if_pos incomplete]
      exact ⟨rfl,trivial⟩
    rw [if_neg incomplete,if_neg incomplete,if_neg failed]
    exact ⟨rfl,trivial⟩

variable {seen : Seen}

theorem updateTool_terminal (s : Adapter) (index : Number) (callId name : Option String) (args : ResponseToolArguments) (done : Bool) :
    (updateTool s index callId name args done).1.terminal = s.terminal := by
  unfold updateTool
  split <;> rfl
theorem finishText_terminal (s : Adapter) (text : Option String) : (finishText s text).1.terminal = s.terminal := by
  cases text with
  | none => rfl
  | some text =>
    have kept : (reconcileText s text).1.terminal = s.terminal := by
      unfold reconcileText
      split_ifs <;> rfl
    exact kept
theorem step_terminal (s : Adapter) (other : ∀ usage, seen ≠ .Completed usage) (other' : seen ≠ .Incomplete) :
    (step s seen).1.terminal = s.terminal := by
  cases seen with
  | OutputTextDelta delta => cases delta <;> rfl
  | OutputTextDone text => exact finishText_terminal s text
  | MessageItemDone text => exact finishText_terminal _ text
  | CallAdded index callId name => exact updateTool_terminal _ index callId name _ _
  | CallDone index callId name arguments => exact updateTool_terminal _ index callId name _ _
  | ArgumentsDelta index delta => exact updateTool_terminal _ index none none _ _
  | ArgumentsDone index arguments =>
    simp only [step]
    split_ifs
    · exact updateTool_terminal s index none none _ _
    · exact updateTool_terminal s index none none _ _
  | Completed usage => exact absurd rfl (other usage)
  | Incomplete => exact absurd rfl other'
  | ReasoningDelta delta | ReasoningDone | ReasoningItemDone item | Other => rfl
def GoesOn (seen : Seen) : Prop := (∀ usage, seen ≠ .Completed usage) ∧ seen ≠ .Incomplete

theorem readAdded_goesOn {item : Value} (isSeen : readAdded value item = .ok seen) : GoesOn seen := by
  unfold readAdded at isSeen
  split_ifs at isSeen
  · obtain ⟨index,_,rfl⟩ := map_ok.mp isSeen
    exact ⟨by simp,by simp⟩
  · obtain rfl := Except.ok.inj isSeen
    exact ⟨by simp,by simp⟩
theorem readItemDone_goesOn {item : Value} (isSeen : readItemDone value item = .ok seen) : GoesOn seen := by
  unfold readItemDone at isSeen
  split_ifs at isSeen
  · obtain rfl := Except.ok.inj isSeen
    exact ⟨by simp,by simp⟩
  · obtain rfl := Except.ok.inj isSeen
    exact ⟨by simp,by simp⟩
  · obtain ⟨index,_,rfl⟩ := map_ok.mp isSeen
    exact ⟨by simp,by simp⟩
  · obtain rfl := Except.ok.inj isSeen
    exact ⟨by simp,by simp⟩
theorem readSeen_goesOn {payload : String} (isSeen : readSeen payload value = .ok seen) (going : ¬ Terminal value) : GoesOn seen := by
  have one : ∀ {other : Seen}, (.ok other : Except String Seen) = .ok seen → GoesOn other → GoesOn seen :=
    fun same goes => Except.ok.inj same ▸ goes
  unfold readSeen at isSeen
  cases isKind : stringOf value "type" with
  | none =>
    rw [isKind] at isSeen
    exact one isSeen ⟨by simp,by simp⟩
  | some kind =>
    have notCompleted : kind ≠ "response.completed" := fun same => going (.inl (same ▸ isKind))
    have notIncomplete : kind ≠ "response.incomplete" := fun same => going (.inr (same ▸ isKind))
    rw [isKind] at isSeen
    dsimp only at isSeen
    split_ifs at isSeen
    · exact one isSeen ⟨by simp,by simp⟩
    · exact one isSeen ⟨by simp,by simp⟩
    · exact one isSeen ⟨by simp,by simp⟩
    · exact one isSeen ⟨by simp,by simp⟩
    · exact readAdded_goesOn isSeen
    · exact readItemDone_goesOn isSeen
    · cases isDelta : stringOf value "delta" with
      | none =>
        rw [isDelta] at isSeen
        exact one isSeen ⟨by simp,by simp⟩
      | some delta =>
        rw [isDelta] at isSeen
        obtain ⟨index,_,rfl⟩ := map_ok.mp isSeen
        exact ⟨by simp,by simp⟩
    · obtain ⟨index,_,rfl⟩ := map_ok.mp isSeen
      exact ⟨by simp,by simp⟩
    · exact one isSeen ⟨by simp,by simp⟩

theorem streamFrom_alike (marked : Bool) {sources : List (String × String)} : ∀ {values : List Value} {s : Adapter}
    {a : Responses.Adapter}, Simulates s a → s.terminal = false →
    sources.map (fun source => ArgumentText.from_str source.2) = values.map .ok →
    (∀ source ∈ sources, JsonParse.parse source.2 = ArgumentText.from_str source.2) →
    (∀ source ∈ sources, source.2 ≠ "" ∧ source.2 ≠ "[DONE]") → (∀ value ∈ values, Legal value ∧ Kept value) →
    (∀ value ∈ values.dropLast, ¬ Terminal value) →
    RunsAlike (streamFrom s (sources.map (·.2) ++ mark marked))
      (Responses.streamFrom a ((sources.map fun source => .Event source.1 source.2) ++ (mark marked).map (.Event "" ·))) := by
  induction sources with
  | nil =>
    intro values s a simulates _ _ _ _ _ _
    have finished := finishStream_alike simulates
    cases marked with
    | false => exact finished
    | true => simpa [streamFrom,Responses.streamFrom,mark] using finished
  | cons source rest ih =>
    intro values s a simulates going parses alike payloads legal last
    cases values with
    | nil => cases parses
    | cons value values =>
      obtain ⟨parsed,others⟩ := List.cons.inj parses
      obtain ⟨nonempty,notDone⟩ := payloads source (by simp)
      obtain ⟨isLegal,isKept⟩ := legal value (by simp)
      have read := read_both isLegal isKept source.2 source.1
      have readSource : Responses.readSource source.1 source.2 = Responses.readEvent source.1 value := by
        have parsed : ArgumentText.from_str source.2 = .ok value := parsed
        rw [Responses.readSource,parsed]
        rfl
      simp only [List.map_cons,List.cons_append,streamFrom,if_neg nonempty,if_neg notDone,Responses.streamFrom,readSource]
      rw [alike source List.mem_cons_self,show ArgumentText.from_str source.2 = .ok value from parsed]
      dsimp only
      cases isSeen : readSeen source.2 value with
      | error error =>
        cases isIncoming : Responses.readEvent source.1 value with
        | error error' => exact ⟨by simp,fun failed => by cases failed⟩
        | ok incoming =>
          rw [isSeen,isIncoming] at read
          exact read.elim
      | ok seen =>
        cases isIncoming : Responses.readEvent source.1 value with
        | error error' =>
          rw [isSeen,isIncoming] at read
          exact read.elim
        | ok incoming =>
          rw [isSeen,isIncoming] at read
          obtain ⟨rfl,comparable⟩ := read
          have alike := step_alike simulates incoming comparable
          have stays : rest ≠ [] → (step s (seenOf incoming)).1.terminal = false := by
            intro more
            have early : ¬ Terminal value := by
              refine last value ?_
              cases values with
              | nil =>
                cases rest with
                | nil => exact absurd rfl more
                | cons _ _ => cases others
              | cons _ _ => simp
            obtain ⟨first,second⟩ := readSeen_goesOn isSeen early
            rw [step_terminal s first second,going]
          dsimp only
          generalize step s (seenOf incoming) = emit at alike stays ⊢
          generalize Responses.step a incoming = yield at alike ⊢
          obtain ⟨s',events,thrown⟩ := emit
          obtain ⟨a',yielded,ending⟩ := yield
          obtain ⟨fails,simulates',same⟩ := alike
          dsimp only at fails simulates' same stays
          cases thrown with
          | some error =>
            cases ending with
            | some error' => exact ⟨by simp,fun failed => by cases failed⟩
            | none => cases fails.mpr rfl
          | none =>
            obtain rfl := fails.mp rfl
            have later : RunsAlike (if s'.terminal then finishStream s' else streamFrom s' (rest.map (·.2) ++ mark marked))
                (Responses.streamFrom a' ((rest.map fun source => .Event source.1 source.2) ++ (mark marked).map (.Event "" ·))) := by
              cases rest with
              | nil =>
                have finished := finishStream_alike (simulates' rfl)
                cases marked <;> simpa [streamFrom,Responses.streamFrom,mark] using finished
              | cons next rest =>
                rw [stays (by simp),if_neg (by simp)]
                refine ih (simulates' rfl) (stays (by simp)) others (fun other member => alike other (List.mem_cons_of_mem _ member))
                  (fun other member => payloads other (List.mem_cons_of_mem _ member))
                  (fun other member => legal other (List.mem_cons_of_mem _ member)) fun other member => ?_
                cases values with
                | nil => cases others
                | cons first values => exact last other (List.mem_cons_of_mem _ member)
            have joined : RunsAlike
                (events ++ (if s'.terminal then finishStream s' else streamFrom s' (rest.map (·.2) ++ mark marked)).1,
                  (if s'.terminal then finishStream s' else streamFrom s' (rest.map (·.2) ++ mark marked)).2)
                (yielded ++ (Responses.streamFrom a' ((rest.map fun source => .Event source.1 source.2) ++
                    (mark marked).map (.Event "" ·))).1,
                  (Responses.streamFrom a' ((rest.map fun source => .Event source.1 source.2) ++ (mark marked).map (.Event "" ·))).2) :=
              ⟨later.fails,fun ended => (same rfl).append (later.events ended)⟩
            cases isTerminal : s'.terminal <;> simpa [isTerminal] using joined

theorem streams_agree (call_id : String) {sources : List (String × String)} {values : List Value} (marked : Bool)
    (parses : sources.map (fun source => ArgumentText.from_str source.2) = values.map .ok)
    (readers : ∀ source ∈ sources, JsonParse.parse source.2 = ArgumentText.from_str source.2)
    (payloads : ∀ source ∈ sources, source.2 ≠ "" ∧ source.2 ≠ "[DONE]") (legal : ∀ value ∈ values, Legal value ∧ Kept value)
    (last : ∀ value ∈ values.dropLast, ¬ Terminal value) :
    SameOutcome (stream_model call_id (streamOpenAiResponses (sources.map (·.2) ++ mark marked)))
      (Responses.stream call_id ((sources.map fun source => .Event source.1 source.2) ++ (mark marked).map (.Event "" ·))) := by
  have nothing : Simulates {} {} := ⟨rfl,rfl,rfl,⟨[],rfl,.nil⟩,.nil,rfl,rfl,rfl,rfl⟩
  have alike := streamFrom_alike marked nothing rfl parses readers payloads legal last
  rw [sameOutcome_iff,streamOpenAiResponses]
  intro result
  unfold Responses.stream stream_model
  generalize streamFrom {} (sources.map (·.2) ++ mark marked) = output at alike ⊢
  generalize Responses.streamFrom {} ((sources.map fun source => .Event source.1 source.2) ++ (mark marked).map (.Event "" ·)) =
    yielded at alike ⊢
  obtain ⟨events,thrown⟩ := output
  obtain ⟨yielded,ending⟩ := yielded
  by_cases ended : ending = none
  · subst ended
    obtain rfl : thrown = none := alike.fails.mpr rfl
    obtain ⟨read,reads,same⟩ := alike.events rfl
    rw [readEvents_all none reads]
    have leads : ∀ p, Leads {} (.Start call_id :: read) p ↔ Leads {} (.Start call_id :: yielded) p :=
      fun p => and_congr_right fun _ => and_congr_right fun _ => same _ p
    exact and_congr (iff_of_true rfl rfl) (exists_congr fun p => and_congr_left fun _ => leads p)
  · refine iff_of_false ?_ fun results => ended results.1
    rintro ⟨read,_⟩
    exact ended (alike.fails.mp (readEvents_ok read).1)

end Serde

end Simulation

/-- The contents of a message fit its role, an assistant's parts are one text, and
    JavaScript keeps the numbers that are sent on; what it writes of the arguments
    of a call is read as what serde_json writes of them. -/
structure Fitting [SerdeText] [ArgumentText] [JavaScript] (message : ProjectedMessage) : Prop where
  parts : ∀ parts, message.content = .Parts parts → message.role ≠ .Tool
  single : ∀ parts, message.content = .Parts parts → message.role = .Assistant → ∃ text, parts = [.Text text]
  assistant : ∀ text thinking replay_state calls, message.content = .Assistant text thinking replay_state calls →
    message.role = .Assistant
  replay : ∀ text thinking state calls, message.content = .Assistant text thinking (some state) calls →
    state.provider_kind = "openai_responses" → held state.value = state.value
  calls : ∀ text thinking replay_state calls, message.content = .Assistant text thinking replay_state calls →
    ∀ call ∈ calls, held call.arguments = call.arguments ∧
      ArgumentText.from_str (JavaScript.stringify call.arguments) = ArgumentText.from_str (SerdeText.value call.arguments)

/-- Two items of an input are the same, or are calls whose arguments denote the
    same value. -/
def SameItem [ArgumentText] (sdk builtIn : Value) : Prop :=
  sdk = builtIn ∨ stringOf sdk "type" = some "function_call" ∧ (∀ name, name ≠ "arguments" → Json.get sdk name = Json.get builtIn name) ∧
    ∃ one other, stringOf sdk "arguments" = some one ∧ stringOf builtIn "arguments" = some other ∧
      ArgumentText.from_str one = ArgumentText.from_str other
/-- Both inputs can be built and are the same, or neither can. -/
def SameInput [ArgumentText] : Except String (List Value) → Except Error (List Value) → Prop := Both (List.Forall₂ SameItem)

section Held
variable [JavaScript]

theorem heldItems_map (items : List Value) : heldItems items = items.map held := by
  induction items with
  | nil => rw [heldItems,List.map_nil]
  | cons item rest ih => rw [heldItems,ih,List.map_cons]
theorem get_held (value : Value) (name : String) : Json.get (held value) name = (Json.get value name).map held := by
  cases value with
  | Object members =>
    rw [held]
    induction members with
    | nil => simp [heldMembers]
    | cons member rest ih =>
      obtain ⟨key,value⟩ := member
      rw [heldMembers,Json.get_cons,Json.get_cons,ih]
      split_ifs <;> rfl
  | Array items => simp [held,Json.get]
  | Number number => simp [held,Json.get]
  | Null | Bool _ | String _ => rfl
theorem as_str_held (value : Value) : Json.as_str (held value) = Json.as_str value := by
  cases value with
  | Array items => simp [held,Json.as_str]
  | Object members => simp [held,Json.as_str]
  | Number number => simp [held,Json.as_str]
  | Null | Bool _ | String _ => rfl
theorem stringOf_held (value : Value) (name : String) : stringOf (held value) name = stringOf value name := by
  rw [stringOf,stringOf,get_held]
  cases Json.get value name with
  | none => rfl
  | some member => exact as_str_held member
theorem as_array_held (value : Value) : Json.as_array (held value) = (Json.as_array value).map (List.map held) := by
  cases value with
  | Array items => simp [held,Json.as_array,heldItems_map]
  | Object members => simp [held,Json.as_array]
  | Number number => simp [held,Json.as_array]
  | Null | Bool _ | String _ => rfl
theorem arrayOf_held (value : Value) (name : String) : arrayOf (held value) name = (arrayOf value name).map held := by
  rw [arrayOf,arrayOf,get_held]
  cases Json.get value name with
  | none => rfl
  | some member =>
    simp only [Option.map_some,Option.bind_some,as_array_held]
    cases Json.as_array member <;> rfl

end Held

section Items
variable [Serde] [SerdeText] [ArgumentText] [JavaScript] [JsonParse]

theorem contentParts_wire (parts : List ContentPart) (textType : String) :
    contentParts ((parts.map wire_part).map held) textType = Requests.responses_content parts textType := by
  rw [contentParts,Requests.responses_content,List.map_map,List.filterMap_map]
  congr 1
  funext part
  cases part with
  | Text text =>
    simp only [Function.comp_apply,stringOf_held]
    simp [wire_part,stringOf,Json.as_str,Requests.textBlock]
  | Image mime_type data =>
    simp only [Function.comp_apply,stringOf_held]
    simp [wire_part,stringOf,Json.as_str,Requests.dataUrl]
theorem mapM_both {ε ε' α β : Type} {f : α → Except ε β} {g : α → Except ε' β} (items : List α)
    (same : ∀ item, Both (· = ·) (f item) (g item)) : Both (· = ·) (items.mapM f) (items.mapM g) := by
  induction items with
  | nil => exact rfl
  | cons item rest ih =>
    have first := same item
    rw [List.mapM_cons,List.mapM_cons]
    cases isFirst : f item <;> cases isSecond : g item <;> rw [isFirst,isSecond] at first
    · exact trivial
    · exact first.elim
    · exact first.elim
    · cases isRest : rest.mapM f <;> cases isOther : rest.mapM g <;> rw [isRest,isOther] at ih
      · exact trivial
      · exact ih.elim
      · exact ih.elim
      · obtain rfl := show _ = _ from first
        obtain rfl := show _ = _ from ih
        exact rfl
theorem replayItems_both (state : ProviderReplayState) (isKind : state.provider_kind = "openai_responses") :
    Both (· = ·) (replayItems state.value) (Requests.replayItems (some state)) := by
  have one : ∀ item, Both (· = ·) (replayItem item) (Requests.response_reasoning_input item) := by
    intro item
    unfold replayItem Requests.response_reasoning_input
    split_ifs
    · exact rfl
    · exact trivial
  unfold replayItems Requests.replayItems
  rw [Option.filter_some_pos (by simpa using isKind)]
  dsimp only
  cases (Json.get state.value "items").bind Json.as_array with
  | none => exact trivial
  | some items => exact mapM_both items one

theorem replayed_both {replay_state : Option ProviderReplayState}
    (replay : ∀ state, replay_state = some state → state.provider_kind = "openai_responses" → held state.value = state.value) :
    Both (· = ·)
      (if stringOf (held (wire_replay replay_state)) "providerKind" = some "openai_responses" then
        replayItems ((Json.get (held (wire_replay replay_state)) "value").getD .Null) else .ok [])
      (Requests.replayItems replay_state) := by
  rw [stringOf_held,get_held]
  cases replay_state with
  | none => exact rfl
  | some state =>
    by_cases isKind : state.provider_kind = "openai_responses"
    · simpa [wire_replay,stringOf,Json.as_str,isKind,replay state rfl isKind] using replayItems_both state isKind
    · have other : Requests.replayItems (some state) = .ok [] := by
        rw [Requests.replayItems,Option.filter_some_neg (by simpa using isKind)]
      rw [other]
      simp [wire_replay,stringOf,Json.as_str,isKind,Both]

theorem parts_same (role : String) (parts : List ContentPart) (notAssistant : role ≠ "assistant") (notTool : role ≠ "tool") :
    inputItems (held (object [("role",.String role),("content",wire_parts parts)])) =
      .ok (if (Requests.responses_content parts "input_text").isEmpty then []
        else [messageItem role (Requests.responses_content parts "input_text")]) := by
  generalize isWire : object [("role",.String role),("content",wire_parts parts)] = wire
  have isRole : stringOf (held wire) "role" = some role := by
    rw [stringOf_held,← isWire]
    simp [stringOf,Json.as_str]
  have isContent : arrayOf (held wire) "content" = (parts.map wire_part).map held := by
    rw [arrayOf_held,← isWire]
    simp [arrayOf,wire_parts,Json.as_array]
  unfold inputItems
  simp only [isRole,Option.getD_some]
  rw [if_neg notAssistant,if_neg notTool,isContent,contentParts_wire]
theorem result_same (result : ProjectedToolResult) :
    inputItems (held (object [("role",.String "tool"),("callId",.String result.call_id),("name",.String result.name),
      ("content",.String result.content),("isError",.Bool result.is_error),("parts",wire_parts result.provider_parts)])) =
      .ok [object [("type",.String "function_call_output"),("call_id",.String result.call_id),
        ("output",if result.provider_parts.isEmpty then Value.String result.content
          else .Array (Requests.responses_content result.provider_parts "input_text"))]] := by
  generalize isWire : object [("role",.String "tool"),("callId",.String result.call_id),("name",.String result.name),
      ("content",.String result.content),("isError",.Bool result.is_error),("parts",wire_parts result.provider_parts)] = wire
  have isRole : stringOf (held wire) "role" = some "tool" := by
    rw [stringOf_held,← isWire]
    simp [stringOf,Json.as_str]
  have isCall : Json.get (held wire) "callId" = some (.String result.call_id) := by
    rw [get_held,← isWire]
    simp [held]
  have isContent : Json.get (held wire) "content" = some (.String result.content) := by
    rw [get_held,← isWire]
    simp [held]
  have isParts : arrayOf (held wire) "parts" = (result.provider_parts.map wire_part).map held := by
    rw [arrayOf_held,← isWire]
    simp [arrayOf,wire_parts,Json.as_array]
  unfold inputItems
  simp only [isRole,isCall,isContent,isParts,Option.getD_some,contentParts_wire]
  rw [if_neg (by decide),if_pos trivial,List.isEmpty_map,List.isEmpty_map]

theorem call_same (call : ToolCallContent) (kept : held call.arguments = call.arguments)
    (written : ArgumentText.from_str (JavaScript.stringify call.arguments) = ArgumentText.from_str (SerdeText.value call.arguments)) :
    SameItem (callItem (held (wire_call call))) (Requests.functionCall call) := by
  have wired : callItem (held (wire_call call)) =
      object [("type",.String "function_call"),("call_id",.String call.call_id),("name",.String call.name),
        ("arguments",.String (JavaScript.stringify call.arguments))] := by
    simp [callItem,get_held,wire_call,kept,held]
  rw [wired]
  refine .inr ⟨by simp [stringOf,Json.as_str],?_,JavaScript.stringify call.arguments,SerdeText.value call.arguments,?_,?_,
    written⟩
  · intro name other
    rw [Requests.functionCall,CheckpointCodec.get_object (by simp),CheckpointCodec.get_object (by simp)]
    simp [Ne.symm other]
  · simp [stringOf,Json.as_str]
  · simp [Requests.functionCall,stringOf,Json.as_str]

theorem calls_same (calls : List ToolCallContent) (kept : ∀ call ∈ calls, held call.arguments = call.arguments ∧
    ArgumentText.from_str (JavaScript.stringify call.arguments) = ArgumentText.from_str (SerdeText.value call.arguments)) :
    List.Forall₂ SameItem (((calls.map wire_call).map held).map callItem) (calls.map Requests.functionCall) := by
  induction calls with
  | nil => exact .nil
  | cons call rest ih =>
    obtain ⟨isKept,written⟩ := kept call (List.mem_cons_self ..)
    exact .cons (call_same call isKept written)
      (ih fun other member => kept other (List.mem_cons_of_mem _ member))

theorem assistant_same (text thinking : String) {replay_state : Option ProviderReplayState} {calls : List ToolCallContent}
    (replay : ∀ state, replay_state = some state → state.provider_kind = "openai_responses" → held state.value = state.value)
    (kept : ∀ call ∈ calls, held call.arguments = call.arguments ∧
      ArgumentText.from_str (JavaScript.stringify call.arguments) = ArgumentText.from_str (SerdeText.value call.arguments)) :
    SameInput
      (inputItems (held (object [("role",.String "assistant"),("text",.String text),("thinking",.String thinking),
        ("replayState",wire_replay replay_state),("toolCalls",.Array (calls.map wire_call))])))
      ((Requests.replayItems replay_state).map fun items =>
        items ++ (if text = "" then [] else [Requests.responsesMessage .Assistant [Requests.textBlock "output_text" text]]) ++
          calls.map Requests.functionCall) := by
  generalize isWire : object [("role",.String "assistant"),("text",.String text),("thinking",.String thinking),
    ("replayState",wire_replay replay_state),("toolCalls",.Array (calls.map wire_call))] = wire
  have role : stringOf (held wire) "role" = some "assistant" := by
    rw [stringOf_held,← isWire]
    simp [stringOf,Json.as_str]
  have isText : stringOf (held wire) "text" = some text := by
    rw [stringOf_held,← isWire]
    simp [stringOf,Json.as_str]
  have isReplay : Json.get (held wire) "replayState" = some (held (wire_replay replay_state)) := by
    rw [get_held,← isWire]
    simp
  have isCalls : arrayOf (held wire) "toolCalls" = (calls.map wire_call).map held := by
    rw [arrayOf_held,← isWire]
    simp [arrayOf,Json.as_array]
  have replayed := replayed_both replay
  have sameCalls := calls_same calls kept
  have refl : ∀ items : List Value, List.Forall₂ SameItem items items := fun items => List.forall₂_same.mpr fun _ _ => .inl rfl
  unfold inputItems
  simp only [role,isText,isReplay,isCalls,Option.getD_some,if_pos]
  generalize (if stringOf (held (wire_replay replay_state)) "providerKind" = some "openai_responses" then
    replayItems ((Json.get (held (wire_replay replay_state)) "value").getD .Null) else .ok []) = sdk at replayed ⊢
  cases sdk <;> cases isBuiltIn : Requests.replayItems replay_state <;> rw [isBuiltIn] at replayed
  case error.error => exact trivial
  case error.ok => exact replayed.elim
  case ok.error => exact replayed.elim
  case ok.ok items others =>
    obtain rfl := show items = others from replayed
    exact List.rel_append (refl _) sameCalls

theorem items_agree {message : ProjectedMessage} (fitting : Fitting message) :
    ∃ wire, wire_message message = .ok wire ∧ SameInput (inputItems (held wire)) (Requests.responses_items message) := by
  obtain ⟨message_id,role,content⟩ := message
  have refl : ∀ items : List Value, List.Forall₂ SameItem items items := fun items => List.forall₂_same.mpr fun _ _ => .inl rfl
  cases content with
  | Parts parts =>
    cases role with
    | Tool => exact absurd rfl (fitting.parts parts rfl)
    | Assistant =>
      obtain ⟨text,rfl⟩ := fitting.single parts rfl rfl
      refine ⟨_,rfl,?_⟩
      have same := assistant_same text "" (show ∀ state, none = some state → _ from nofun) (show ∀ call ∈ [], _ from nofun)
      have joined : joined_text [.Text text] = text := by
        show String.join [text] = text
        simp
      have items : Requests.responses_items { message_id, role := .Assistant, content := .Parts [.Text text] } =
          .ok (if text = "" then [] else [Requests.responsesMessage .Assistant [Requests.textBlock "output_text" text]]) := by
        by_cases empty : text = "" <;>
          simp [Requests.responses_items,Requests.responses_content,Requests.text_type,empty]
      rw [joined,items]
      simpa [Requests.replayItems,Except.map,wire_replay] using same
    | System =>
      refine ⟨_,rfl,?_⟩
      rw [if_pos rfl,parts_same "system" parts (by decide) (by decide)]
      exact refl _
    | User =>
      refine ⟨_,rfl,?_⟩
      rw [if_neg nofun,parts_same "user" parts (by decide) (by decide)]
      exact refl _
  | Assistant text thinking replay_state calls =>
    obtain rfl : role = .Assistant := fitting.assistant text thinking replay_state calls rfl
    refine ⟨_,rfl,?_⟩
    exact assistant_same text thinking (fun state isState => fitting.replay text thinking state calls (by rw [isState]))
      (fitting.calls text thinking replay_state calls rfl)
  | ToolResult result =>
    refine ⟨_,rfl,?_⟩
    rw [result_same]
    exact refl _

theorem inputs_agree {history : List ProjectedMessage} (fitting : ∀ message ∈ history, Fitting message) :
    ∃ messages, llm_messages history = .ok messages ∧ SameInput (buildInput messages) (Requests.responses_input history) := by
  induction history with
  | nil => exact ⟨[],rfl,.nil⟩
  | cons message rest ih =>
    obtain ⟨wire,isWire,same⟩ := items_agree (fitting message (List.mem_cons_self ..))
    obtain ⟨messages,areMessages,later⟩ := ih fun other member => fitting other (List.mem_cons_of_mem _ member)
    refine ⟨wire :: messages,?_,?_⟩
    · rw [llm_messages] at areMessages
      rw [llm_messages,List.mapM_cons,isWire,areMessages]
      rfl
    · rw [buildInput,Requests.responses_input]
      cases isFirst : inputItems (held wire) <;> cases isSecond : Requests.responses_items message <;>
        rw [isFirst,isSecond] at same
      case error.error => exact trivial
      case error.ok => exact same.elim
      case ok.error => exact same.elim
      case ok.ok items others =>
        cases isInput : buildInput messages <;> cases isOther : Requests.responses_input rest <;> rw [isInput,isOther] at later
        case error.error => exact trivial
        case error.ok => exact later.elim
        case ok.error => exact later.elim
        case ok.ok input other => exact List.rel_append same later

/-- The two adapters have the same outcome on every stream that both languages read
    alike and whose numbers JavaScript keeps, and send the same input for every history that fits. -/
theorem responses_adapters_agree : (∀ (call_id : String) (sources : List (String × String)) (values : List Value) (marked : Bool),
      sources.map (fun source => ArgumentText.from_str source.2) = values.map .ok →
      (∀ source ∈ sources, JsonParse.parse source.2 = ArgumentText.from_str source.2) →
      (∀ source ∈ sources, source.2 ≠ "" ∧ source.2 ≠ "[DONE]") → (∀ value ∈ values, Legal value ∧ Kept value) →
      (∀ value ∈ values.dropLast, ¬ Terminal value) →
      SameOutcome (stream_model call_id (streamOpenAiResponses (sources.map (·.2) ++ mark marked)))
        (Responses.stream call_id ((sources.map fun source => .Event source.1 source.2) ++ (mark marked).map (.Event "" ·)))) ∧
    ∀ history : List ProjectedMessage, (∀ message ∈ history, Fitting message) →
      ∃ messages, llm_messages history = .ok messages ∧ SameInput (buildInput messages) (Requests.responses_input history) :=
  ⟨fun call_id _ _ marked parses readers payloads legal last => streams_agree call_id marked parses readers payloads legal last,
    fun _ fitting => inputs_agree fitting⟩

end Items

section Example
local instance : Serde := printing

def completed (tokens : Nat) : Value :=
  object [("type",.String "response.completed"),
    ("response",object [("usage",object [("input_tokens",.Number (.PosInt tokens))])])]
def completedText (tokens : Nat) : String :=
  "\x7b\"type\":\"response.completed\",\"response\":\x7b\"usage\":\x7b\"input_tokens\":" ++ toString tokens ++ "\x7d\x7d\x7d"
def large : Nat := 2 ^ 53 + 1
def toolParts : ProjectedMessage := { message_id := "t", role := .Tool, content := .Parts [.Text "done"] }
def answered : List ProjectedMessage :=
  [{ message_id := "a", role := .Assistant, content := .Assistant "" "" none [⟨0,"c","Read",.Object []⟩] },
    { message_id := "t", role := .Tool, content := .ToolResult
        { call_id := "c", name := "Read", content := "ok", is_error := false, image := none } }]

theorem completed_type (tokens : Nat) : stringOf (completed tokens) "type" = some "response.completed" := by
  simp [completed,stringOf,Json.as_str]
theorem completed_plain (tokens : Nat) : ¬ Indexed (completed tokens) := by simp [Indexed,completed_type]
theorem completed_legal (tokens : Nat) : Legal (completed tokens) := by
  have noError : Json.get (completed tokens) "error" = none := by simp [completed]
  exact ⟨by simp [completed_type],⟨by simp [completed_type],by rw [noError]; rfl⟩,fun indexed => absurd indexed (completed_plain tokens),
    by simp [completed_type]⟩

/-- The texts of the two events are read, and those of the arguments. -/
local instance : ArgumentText where
  from_str text :=
    if text = completedText large then .ok (completed large)
    else if text = completedText 12 then .ok (completed 12)
    else if text = "\x7b\x7d" then .ok (.Object [])
    else .error "expected value at line 1 column 1"
local instance : SerdeText where
  value value := String.ofList (printed value)
  tool _ := ""
  messages _ := ""
local instance : JavaScript where
  through number := (asNat number).elim number fun value => .PosInt (min value (2 ^ 53))
  text number := (asNat number).elim "NaN" toString
  stringify value := String.ofList (printed value)
  exact n small := congrArg Number.PosInt (Nat.min_eq_left small)
  mono m n m' n' less first second := by
    rw [← Number.PosInt.inj first,← Number.PosInt.inj second]
    omega
  text_nat _ _ := rfl

local instance : JsonParse := ⟨ArgumentText.from_str⟩

/-- The SDK rounds the usage, and a message of the tool's role cannot be sent. -/
theorem usage_rounded : Legal (completed large) ∧ ArgumentText.from_str (completedText large) = .ok (completed large) ∧
      ¬ SameOutcome (stream_model "m" (streamOpenAiResponses [completedText large]))
        (Responses.stream "m" [.Event "" (completedText large)]) ∧
      llm_messages [toolParts] = .error (.Protocol "tool messages must carry a tool result") ∧
      Requests.responses_input [toolParts] = .ok [Requests.responsesMessage .Tool [Requests.textBlock "input_text" "done"]] := by
  refine ⟨completed_legal large,by decide +kernel,?_,by decide +kernel,by decide +kernel⟩
  have first : (consume_model_cycle (SdkChat.nextOf (stream_model "m" (streamOpenAiResponses [completedText large]))) none).1 =
      .ok ⟨"m","","",none,[],some { input_tokens := some (2 ^ 53), context_input_tokens := some (2 ^ 53) },.Stop⟩ := by
    decide +kernel
  have second : (consume_model_cycle (SdkChat.nextOf (Responses.stream "m" [.Event "" (completedText large)])) none).1 =
      .ok ⟨"m","","",none,[],some { input_tokens := some large, context_input_tokens := some large },.Stop⟩ := by
    decide +kernel
  have timed : ∀ output : List ModelEvent × Option Error, Timed output (SdkChat.nextOf output) :=
    fun output => ⟨output.1.map fun event => (event,0),by simp [Function.comp_def],by simp [SdkChat.nextOf]⟩
  intro same
  have both := (same _ _ (timed _) (timed _) _).mp first
  rw [second] at both
  revert both
  decide

theorem responses_adapters_agree_answered :
    SameOutcome (stream_model "m" (streamOpenAiResponses ([("",completedText 12)].map (·.2) ++ mark false)))
        (Responses.stream "m" (([("",completedText 12)].map fun source => .Event source.1 source.2) ++ (mark false).map (.Event "" ·))) ∧
      ∃ messages, llm_messages answered = .ok messages ∧ SameInput (buildInput messages) (Requests.responses_input answered) := by
  have kept : Kept (completed 12) := by
    refine ⟨fun indexed => absurd indexed (completed_plain 12),?_,by simp [completed_type]⟩
    intro _ usage isUsage path member number isNumber
    have known : Json.pointer (completed 12) ["response","usage"] = some (object [("input_tokens",.Number (.PosInt 12))]) := by
      decide +kernel
    obtain rfl := Option.some.inj (isUsage.symm.trans known)
    have counts : ∀ path ∈ usagePaths, Json.pointer (object [("input_tokens",.Number (.PosInt 12))]) path ∈
        [some (.Number (.PosInt 12)),none] := by
      decide +kernel
    have count := counts path member
    rw [isNumber] at count
    simp only [List.mem_cons,Option.some.injEq,Value.Number.injEq,reduceCtorEq,List.not_mem_nil,or_false] at count
    rw [count]
    rfl
  refine ⟨responses_adapters_agree.1 "m" [("",completedText 12)] [completed 12] false (by decide +kernel) (fun _ _ => rfl)
    (by decide +kernel) ?_ (by simp),responses_adapters_agree.2 answered ?_⟩
  · simpa using ⟨completed_legal 12,kept⟩
  · intro message member
    simp only [answered,List.mem_cons,List.not_mem_nil,or_false] at member
    rcases member with rfl | rfl
    · refine ⟨nofun,nofun,fun _ _ _ _ _ => rfl,?_,?_⟩
      · rintro _ _ _ _ ⟨⟩
      · rintro _ _ _ _ ⟨⟩ call member
        simp only [List.mem_singleton] at member
        rw [member]
        exact ⟨rfl,rfl⟩
    · exact ⟨nofun,nofun,nofun,nofun,nofun⟩

end Example

end MyCursor.SdkResponses

import Mathlib.Data.Finset.Card
import MyCursor.SdkChat

/-!
# Agreement of the Chat adapters

The adapter of the plugin SDK and the built-in one have the same outcome for a
stream exactly if, where one of them completes it, no chunk is read differently:
no event type that only one of them knows as an error, no reasoning beside a field
that is not a text, no tool delta that is not an object, no number that JavaScript
changes and no ordinary `stop` after tool calls.
-/
namespace MyCursor.SdkChat
open Message Store Run ModelCycle CycleProgress Text Wire Chat
open ProviderEvents (Source stringOf provider_event_error)
open CheckpointCodec (Serde object)
open CheckpointRoundTrip (printed printing)
set_option linter.unusedSectionVars false

section Agreement
variable [JavaScript]

def natural (number : Number) : Nat := (asNat number).getD 0
def naturally : Dialect Nat := ⟨Keyed.insertLast,fun index => JavaScript.text (.PosInt index),mapFinish⟩
/-- A chunk of the SDK's adapter as the server sees it. -/
def asRead (value : Value) : Chunk Nat Usage := mapChunk natural readUsage (readChunk value)
def Indexed (values : List Value) : Prop := ∀ delta ∈ deltas (values.map readChunk), asNat delta.index ≠ none

theorem naturally_lawful : Lawful naturally Keyed.Distinct where
  nil := List.nodup_nil
  insert index tool _ distinct := distinct.insert index tool
  distinct _ distinct := distinct
  found index tool tools other := Keyed.lookup_insertLast tools index tool other

theorem posInt_injective : Function.Injective Number.PosInt := fun _ _ same => Number.PosInt.inj same
theorem natural_renames : Renames Number.PosInt naturally sdk where
  injective := posInt_injective
  insert index tool tools := Keyed.insertLast_rename posInt_injective index tool tools
  label _ := rfl
  map_finish := rfl
theorem same_renames : Renames id naturally naturally where
  injective := Function.injective_id
  insert index tool tools := Keyed.insertLast_rename Function.injective_id index tool tools
  label _ := rfl
  map_finish := rfl

theorem posInt_natural {number : Number} (isNat : asNat number ≠ none) : Number.PosInt (natural number) = number := by
  cases number with
  | PosInt value => rfl
  | NegInt value => exact absurd rfl isNat
  | Float bits => exact absurd rfl isNat

theorem mapChunk_self {υ : Type} (chunk : Chunk Number υ) (indexed : ∀ delta ∈ chunk.tools, asNat delta.index ≠ none) :
    mapChunk Number.PosInt id (mapChunk natural id chunk) = chunk := by
  obtain ⟨usage,choice⟩ := chunk
  cases choice with
  | none => simp [mapChunk]
  | some choice =>
    obtain ⟨reasoning,content,tools,finish_reason⟩ := choice
    have same : (tools.map (mapDelta natural)).map (mapDelta Number.PosInt) = tools := by
      rw [List.map_map]
      refine (List.map_congr_left fun delta member => ?_).trans (List.map_id _)
      have isNat := indexed delta member
      obtain ⟨index,callId,name,arguments⟩ := delta
      simp only [Function.comp_apply,mapDelta,posInt_natural isNat,id]
    simp [mapChunk,mapChoice,same]
theorem mapChunk_twice {υ υ' : Type} (g : υ → υ') (chunk : Chunk Number υ) :
    mapChunk id g (mapChunk natural id chunk) = mapChunk natural g chunk := by
  obtain ⟨usage,choice⟩ := chunk
  cases choice with
  | none => simp [mapChunk]
  | some choice => simp [mapChunk,mapChoice,mapDelta,Function.comp_def]

variable [Serde]

theorem emitted_read (event : Event Nat ModelUsage) :
    (emitted (mapEvent Number.PosInt id event)).read = some (yielded (mapEvent id readUsage event)) := by
  cases event <;> rfl

theorem mapLoop_nothing {κ κ' υ υ' : Type} (f : κ → κ') (g : υ → υ') : mapLoop f g {} = {} := rfl

theorem run_natural (values : List Value) (marked : Bool) (indexed : Indexed values) :
    readEvents (emit (runFrom sdk {} marked (values.map readChunk))).1 (emit (runFrom sdk {} marked (values.map readChunk))).2 =
      provider (runFrom naturally {} marked (values.map asRead)) := by
  have isChunks : values.map readChunk =
      (values.map fun value => mapChunk natural id (readChunk value)).map (mapChunk Number.PosInt id) := by
    rw [List.map_map]
    refine List.map_congr_left fun value member => (mapChunk_self _ ?_).symm
    exact fun delta isDelta => indexed delta (List.mem_flatMap.mpr ⟨_,List.mem_map_of_mem member,isDelta⟩)
  have isRead : values.map asRead = (values.map fun value => mapChunk natural id (readChunk value)).map (mapChunk id readUsage) := by
    rw [List.map_map]
    exact List.map_congr_left fun value _ => (mapChunk_twice readUsage _).symm
  have one := runFrom_map (g := id) natural_renames marked (values.map fun value => mapChunk natural id (readChunk value)) {}
  have two := runFrom_map (g := readUsage) same_renames marked (values.map fun value => mapChunk natural id (readChunk value)) {}
  rw [mapLoop_nothing] at one two
  rw [isChunks,one,isRead,two,emit,provider]
  refine readEvents_all _ ?_
  rw [List.map_map,List.map_map,List.map_map,List.map_map]
  exact List.map_congr_left fun event _ => emitted_read event

theorem closeTools_ends {κ υ : Type} [DecidableEq κ] {d : Dialect κ} (tools : List (κ × ChatToolState))
    (ended : (closeTools (υ := υ) d tools).2 = none) : ∀ entry ∈ tools, Event.ToolCallEnd entry.1 ∈ (closeTools (υ := υ) d tools).1 := by
  induction tools with
  | nil => exact fun entry member => by cases member
  | cons first rest ih =>
    obtain ⟨index,tool⟩ := first
    rw [closeTools] at ended ⊢
    split_ifs at ended ⊢
    intro entry member
    rcases List.mem_cons.mp member with rfl | later
    · simp
    · have earlier := ih ended entry later
      simp only [List.mem_append,List.mem_cons]
      exact .inr (.inr earlier)
theorem run_indexed (values : List Value) (marked : Bool) (ended : (readEvents (emit (runFrom sdk {} marked (values.map readChunk))).1
      (emit (runFrom sdk {} marked (values.map readChunk))).2).2 = none) : Indexed values := by
  obtain ⟨unthrown,reads⟩ := readEvents_ok ended
  have lawful : Lawful sdk Keyed.Distinct :=
    ⟨List.nodup_nil,fun index tool _ distinct => distinct.insert index tool,fun _ distinct => distinct,
      fun index tool tools other => Keyed.lookup_insertLast tools index tool other⟩
  have follows := follows_run lawful (values.map readChunk)
  intro delta isDelta
  have found := follows.tools.found delta.index
  have some_ : deltasOf delta.index (deltas (values.map readChunk)) ≠ [] := by
    intro none_
    have member : delta ∈ deltasOf delta.index (deltas (values.map readChunk)) := by simpa [deltasOf] using isDelta
    rw [none_] at member
    cases member
  have isTool : Keyed.lookup (runSteps sdk {} (values.map readChunk)).1.tools delta.index =
      some (stateOf (deltasOf delta.index (deltas (values.map readChunk)))) := by
    rw [found,Chat.found]
    simp [some_]
  have entry := Keyed.lookup_mem isTool
  -- The end of the tool is among the events.
  have last : Event.ToolCallEnd delta.index ∈ (runFrom sdk {} marked (values.map readChunk)).1 := by
    rw [emit,runFrom_eq] at unthrown
    rw [runFrom_eq]
    dsimp only at unthrown ⊢
    rw [finishLoop] at unthrown ⊢
    rcases isClosed : closeTools (υ := ModelUsage) sdk (runSteps sdk {} (values.map readChunk)).1.tools with ⟨closed,_ | error⟩
    · have member := closeTools_ends _ (by rw [isClosed]) _ entry
      rw [isClosed] at member unthrown
      dsimp only at member unthrown ⊢
      cases isReason : finalReason (runSteps sdk {} (values.map readChunk)).1 marked with
      | none =>
        rw [isReason] at unthrown
        cases unthrown
      | some reason => simp [member]
    · rw [isClosed] at unthrown
      cases unthrown
  have read := reads _ (List.mem_map_of_mem last)
  intro none_
  exact read (by simp [emitted,SdkEvent.read,none_])

section Settles
variable [ArgumentText] {d : Dialect Nat} {Keeps : List (Nat × ChatToolState) → Prop} {chunks : List (Chunk Nat Usage)} {marked : Bool}

/-- A stream is completed if every tool has a name, the ids of the tools are
    different and the last finish reason, or the marker, agrees with the tools. -/
structure Settles (d : Dialect Nat) (chunks : List (Chunk Nat Usage)) (marked : Bool) : Prop where
  named : Named chunks
  distinct : ∀ first second one other, toolsOf d chunks first = some one → toolsOf d chunks second = some other →
    one.call_id = other.call_id → first = second
  ends : ∃ reason, reasonOf d chunks marked = some reason ∧ reason ≠ .Length ∧ (reason = .ToolUse ↔ deltas chunks ≠ [])

def outputOf (call_id : String) (output : List ModelEvent × Option Error) : List ModelEvent × Option Error :=
  (.Start call_id :: output.1,output.2)

theorem results_iff (lawful : Lawful d Keeps) (call_id : String) (result : ModelCycleResult) :
    Results (outputOf call_id (provider (runFrom d {} marked chunks))) result ↔
      Settles d chunks marked ∧ ∃ reason, reasonOf d chunks marked = some reason ∧ Yields (made call_id d chunks reason) result := by
  constructor
  · rintro ⟨ended,p,leads,yields⟩
    obtain ⟨named,isSome⟩ := (run_ok lawful chunks marked).mp (Option.map_eq_none_iff.mp ended)
    obtain ⟨reason,isReason⟩ := Option.isSome_iff_exists.mp isSome
    obtain ⟨distinct,rfl⟩ := (run_leads lawful call_id chunks marked named isReason).mp leads
    have isFinish : reason = result.finish_reason := Option.some.inj yields.finish
    refine ⟨⟨named,distinct,reason,isReason,?_,?_⟩,reason,isReason,yields⟩
    · rw [isFinish]
      exact yields.complete
    · rw [isFinish,yields.agrees]
      exact some_tools
  · rintro ⟨settles,reason,isReason,yields⟩
    have finished : (runFrom d {} marked chunks).2 = none :=
      (run_ok lawful chunks marked).mpr ⟨settles.named,by rw [isReason]; rfl⟩
    refine ⟨by rw [outputOf,provider,finished]; rfl,_,?_,yields⟩
    exact (run_leads lawful call_id chunks marked settles.named isReason).mpr ⟨settles.distinct,rfl⟩
theorem Settles.result (lawful : Lawful d Keeps) (call_id : String) (settles : Settles d chunks marked) :
    ∃ result, Results (outputOf call_id (provider (runFrom d {} marked chunks))) result := by
  obtain ⟨reason,isReason,complete,agrees⟩ := settles.ends
  have leads := (run_leads (q := made call_id d chunks reason) lawful call_id chunks marked settles.named isReason).mpr
    ⟨settles.distinct,rfl⟩
  obtain ⟨result,yields⟩ := leads.yields rfl complete (agrees.trans some_tools.symm) rfl
  exact ⟨result,(results_iff lawful call_id _).mpr ⟨settles,reason,isReason,yields⟩⟩

end Settles

/-- An event type that only the built-in adapter knows as an error. -/
def Failed (value : Value) : Prop := stringOf value "type" = some "error" ∨ stringOf value "type" = some "response.failed"
/-- A finish reason that says nothing about tools. -/
def Ordinary (label : String) : Prop := label ∉ ["tool_calls","function_call","length","content_filter"]
def lastUsage (values : List Value) : Option Value :=
  values.foldl (fun known value => ((Json.get value "usage").filter (· ≠ .Null)).or known) none
def usagePaths : List (List String) :=
  [["prompt_tokens"],["completion_tokens"],["total_tokens"],["prompt_tokens_details","cached_tokens"],
    ["completion_tokens_details","reasoning_tokens"]]
def entries (value : Value) : List (Value × Nat) := (toolCalls (deltaOf value)).zipIdx

/-- No chunk is read differently: no event type that is an error, no hidden
    reasoning, no tool delta that is not an object unless it stands where a tool
    is, no number that JavaScript changes; and where there are tools, an ordinary
    finish reason is not `stop` and does not come before them. -/
structure Alike (values : List Value) : Prop where
  unfailed : ∀ value ∈ values, ¬ Failed value
  reasoning : ∀ value ∈ values, ¬ Hidden value
  objects : ∀ value ∈ values, ∀ entry ∈ entries value, isRecord entry.1 = false →
    ∃ delta ∈ deltas (values.map asRead), delta.index = entry.2
  indices : ∀ value ∈ values, ∀ entry ∈ entries value, isRecord entry.1 = true →
    JavaScript.through (.PosInt (Chat.readTool entry.1 entry.2).index) = .PosInt (Chat.readTool entry.1 entry.2).index
  usage : ∀ usage, lastUsage values = some usage → ∀ path ∈ usagePaths,
    ((Json.pointer usage path).bind count).bind asNat = (Json.pointer usage path).bind Json.as_u64
  label : deltas (values.map asRead) ≠ [] → ∀ label seen, labelOf (values.map asRead) = some (label,seen) →
    Ordinary label → label ≠ "stop" ∧ seen = true

/-- All indices are natural numbers. -/
def Natural (values : List Value) : Prop := ∀ value ∈ values, ∀ tool ∈ toolCalls (deltaOf value), ∀ number,
  Json.get tool "index" = some (.Number number) → asNat number ≠ none

inductive Thins : List (ToolDelta Nat) → List (ToolDelta Nat) → Prop where
  | nil : Thins [] []
  | keep {all rest : List (ToolDelta Nat)} (delta : ToolDelta Nat) : Thins all rest → Thins (delta :: all) (delta :: rest)
  | drop {all rest : List (ToolDelta Nat)} (index : Nat) : Thins all rest → Thins ({ index } :: all) rest

theorem Thins.append {first one second other : List (ToolDelta Nat)} (thins : Thins first one) (later : Thins second other) :
    Thins (first ++ second) (one ++ other) := by
  induction thins with
  | nil => exact later
  | keep delta _ ih => exact .keep delta ih
  | drop index _ ih => exact .drop index ih

variable {all rest : List (ToolDelta Nat)}

theorem Thins.own (thins : Thins all rest) (index : Nat) : Thins (deltasOf index all) (deltasOf index rest) := by
  induction thins with
  | nil => exact .nil
  | keep delta _ ih =>
    by_cases here : delta.index = index
    · simpa [deltasOf,here] using Thins.keep delta ih
    · simpa [deltasOf,here] using ih
  | drop other _ ih =>
    by_cases here : other = index
    · simpa [deltasOf,here] using Thins.drop index ih
    · simpa [deltasOf,here] using ih
theorem Thins.opening (thins : Thins all rest) : Chat.opening all = Chat.opening rest := by
  have general : ∀ known, all.foldl openStep known = rest.foldl openStep known := by
    induction thins with
    | nil => exact fun _ => rfl
    | keep delta _ ih => exact fun known => ih (openStep known delta)
    | drop index _ ih =>
      intro known
      have same : openStep known ({ index } : ToolDelta Nat) = known := by
        unfold openStep
        split_ifs <;> rfl
      rw [List.foldl_cons,same]
      exact ih known
  exact general ("","")
theorem Thins.arguments (thins : Thins all rest) : argumentsOf all = argumentsOf rest := by
  induction thins with
  | nil => rfl
  | keep delta _ ih =>
    rw [argumentsOf,argumentsOf] at ih
    simp [argumentsOf,ih]
  | drop index _ ih =>
    rw [← ih]
    simp [argumentsOf]
theorem Thins.some_ (thins : Thins all rest) (none_ : all = []) : rest = [] := by
  cases thins with
  | nil => rfl
  | keep delta _ => cases none_
  | drop index _ => cases none_

theorem get_record {value : Value} (other : isRecord value = false) (name : String) : Json.get value name = none := by
  cases value with
  | Object members => cases other
  | _ => rfl
theorem readChoice_other {choice : Value} (other : isRecord choice = false) : readChoice choice = {} := by
  have delta : member choice "delta" = .Null := by rw [member,get_record other]; rfl
  have label : stringOf choice "finish_reason" = none := by rw [stringOf,get_record other]; rfl
  rw [readChoice,delta,label]
  rfl

theorem sdk_choice (value : Value) : (readChunk value).choice.getD {} = readChoice ((firstChoice value).getD .Null) := by
  rw [readChunk]
  cases firstChoice value with
  | none => exact (readChoice_other rfl).symm
  | some choice =>
    cases isObject : isRecord choice with
    | false => simp [Option.filter,isObject,readChoice_other isObject]
    | true => simp [Option.filter,isObject]
theorem builtIn_choice (value : Value) : (Chat.readChunk value).choice.getD {} = Chat.readChoice ((firstChoice value).getD .Null) := by
  rw [Chat.readChunk]
  cases firstChoice value <;> rfl

section Choices
variable {κ υ : Type} (chunk : Chunk κ υ)
theorem tools_getD : chunk.tools = (chunk.choice.getD {}).tools := by
  unfold Chunk.tools
  cases chunk.choice <;> rfl
theorem content_getD : chunk.content = (chunk.choice.getD {}).content.getD "" := by
  unfold Chunk.content
  cases chunk.choice <;> rfl
theorem reasoning_getD : chunk.reasoning = (chunk.choice.getD {}).reasoning.getD "" := by
  unfold Chunk.reasoning
  cases chunk.choice <;> rfl
theorem label_getD : chunk.label = (chunk.choice.getD {}).finish_reason := by
  unfold Chunk.label
  cases chunk.choice <;> rfl
end Choices

section
variable (value : Value)
include value

theorem asRead_choice : (asRead value).choice.getD {} = mapChoice natural (readChoice ((firstChoice value).getD .Null)) := by
  rw [← sdk_choice,asRead,mapChunk]
  cases (readChunk value).choice <;> rfl

theorem sdk_tools : (readChunk value).tools = (entries value).filterMap fun entry => readTool entry.1 entry.2 := by
  rw [tools_getD,sdk_choice]
  rfl
theorem builtIn_tools : (Chat.readChunk value).tools = (entries value).map fun entry => Chat.readTool entry.1 entry.2 := by
  rw [tools_getD,builtIn_choice]
  rfl
theorem asRead_tools : (asRead value).tools = (readChunk value).tools.map (mapDelta natural) := by
  rw [tools_getD,tools_getD,asRead_choice,sdk_choice]
  rfl
theorem asRead_content : (asRead value).content = contentOf value := by
  rw [content_getD,asRead_choice]
  exact nonEmpty_getD _
theorem asRead_reasoning : (asRead value).reasoning = thoughtOf value := by
  rw [reasoning_getD,asRead_choice]
  exact nonEmpty_getD _
theorem asRead_label : (asRead value).label = (Chat.readChunk value).label := by
  rw [label_getD,label_getD,asRead_choice,builtIn_choice]
  rfl

end

theorem foldl_usage {υ : Type} (read : Value → υ) (values : List Value) : ∀ known : Option Value,
    values.foldl (fun usage value => (((Json.get value "usage").filter (· ≠ .Null)).map read).or usage) (known.map read) =
      (values.foldl (fun usage value => ((Json.get value "usage").filter (· ≠ .Null)).or usage) known).map read := by
  induction values with
  | nil => exact fun known => rfl
  | cons value rest ih =>
    intro known
    rw [List.foldl_cons,List.foldl_cons,← ih]
    cases (Json.get value "usage").filter (· ≠ .Null) <;> rfl
theorem builtIn_usage (values : List Value) : Chat.usageOf (values.map Chat.readChunk) = (lastUsage values).map openai_usage := by
  rw [Chat.usageOf,List.foldl_map]
  exact foldl_usage openai_usage values none
theorem asRead_usage (values : List Value) :
    Chat.usageOf (values.map asRead) = (lastUsage values).map fun usage => readUsage (usageEvent usage) := by
  rw [Chat.usageOf,List.foldl_map]
  refine Eq.trans ?_ (foldl_usage (fun usage => readUsage (usageEvent usage)) values none)
  refine congrArg (fun step => List.foldl step none values) ?_
  funext usage value
  simp [asRead,mapChunk,readChunk,Function.comp_def]
theorem usage_same (usage : Value) : openai_usage usage = readUsage (usageEvent usage) ↔
    ∀ path ∈ usagePaths, ((Json.pointer usage path).bind count).bind asNat = (Json.pointer usage path).bind Json.as_u64 := by
  simp only [openai_usage,readUsage,usageEvent,usagePaths,Usage.mk.injEq,List.mem_cons,List.not_mem_nil,or_false,forall_eq_or_imp,
    forall_eq]
  simp only [eq_comm]
  tauto

variable {values : List Value}

theorem readTool_index {tool : Value} {position : Nat} {delta : ToolDelta Number} (natural_ : ∀ number,
    Json.get tool "index" = some (.Number number) → asNat number ≠ none) (isDelta : readTool tool position = some delta) :
    delta.index = JavaScript.through (.PosInt (Chat.readTool tool position).index) ∧
      mapDelta (fun _ => (Chat.readTool tool position).index) delta = Chat.readTool tool position := by
  unfold readTool at isDelta
  split_ifs at isDelta with isObject
  obtain rfl := Option.some.inj isDelta
  refine ⟨?_,rfl⟩
  unfold Chat.readTool
  cases isIndex : Json.get tool "index" with
  | none => rfl
  | some index =>
    cases index with
    | Number number =>
      cases number with
      | PosInt value => rfl
      | NegInt value => exact absurd rfl (natural_ _ isIndex)
      | Float bits => exact absurd rfl (natural_ _ isIndex)
    | _ => rfl
theorem readTool_blank {tool : Value} {position : Nat} (other : isRecord tool = false) :
    Chat.readTool tool position = { index := position } := by
  have function : member tool "function" = .Null := by rw [member,get_record other]; rfl
  have texts : ∀ name, stringOf tool name = none := by
    intro name
    rw [stringOf,get_record other]
    rfl
  rw [Chat.readTool,function,texts,get_record other]
  rfl

theorem entries_tool {value : Value} {entry : Value × Nat} (member : entry ∈ entries value) : entry.1 ∈ toolCalls (deltaOf value) :=
  (List.mem_zipIdx' member).2 ▸ List.getElem_mem _

theorem entries_thin {listed : List (Value × Nat)} (natural_ : ∀ entry ∈ listed, ∀ number,
      Json.get entry.1 "index" = some (.Number number) → asNat number ≠ none)
    (passes : ∀ entry ∈ listed, isRecord entry.1 = true →
      JavaScript.through (.PosInt (Chat.readTool entry.1 entry.2).index) = .PosInt (Chat.readTool entry.1 entry.2).index) :
    Thins (listed.map fun entry => Chat.readTool entry.1 entry.2)
      ((listed.filterMap fun entry => readTool entry.1 entry.2).map (mapDelta natural)) := by
  induction listed with
  | nil => exact .nil
  | cons entry rest ih =>
    have later := ih (fun other member => natural_ other (List.mem_cons_of_mem _ member))
      fun other member => passes other (List.mem_cons_of_mem _ member)
    cases isObject : isRecord entry.1 with
    | false =>
      have skipped : readTool entry.1 entry.2 = none := by simp [readTool,isObject]
      rw [List.map_cons,List.filterMap_cons,skipped,readTool_blank isObject]
      exact .drop entry.2 later
    | true =>
      obtain ⟨delta,isDelta⟩ : ∃ delta, readTool entry.1 entry.2 = some delta := by simp [readTool,isObject]
      obtain ⟨isIndex,same⟩ := readTool_index (natural_ entry List.mem_cons_self) isDelta
      rw [passes entry List.mem_cons_self isObject] at isIndex
      have isRead : mapDelta natural delta = Chat.readTool entry.1 entry.2 := by
        rw [← same]
        obtain ⟨index,callId,name,arguments⟩ := delta
        dsimp only at isIndex
        rw [isIndex]
        rfl
      rw [List.map_cons,List.filterMap_cons,isDelta,List.map_cons,isRead]
      exact .keep _ later
theorem values_thin (natural_ : Natural values) (passes : ∀ value ∈ values, ∀ entry ∈ entries value, isRecord entry.1 = true →
      JavaScript.through (.PosInt (Chat.readTool entry.1 entry.2).index) = .PosInt (Chat.readTool entry.1 entry.2).index) :
    Thins (deltas (values.map Chat.readChunk)) (deltas (values.map asRead)) := by
  induction values with
  | nil => exact .nil
  | cons value rest ih =>
    have later := ih (fun other member => natural_ other (List.mem_cons_of_mem _ member))
      fun other member => passes other (List.mem_cons_of_mem _ member)
    have first := entries_thin (fun entry member => natural_ value List.mem_cons_self entry.1 (entries_tool member))
      (passes value List.mem_cons_self)
    rw [← builtIn_tools,← sdk_tools,← asRead_tools] at first
    rw [List.map_cons,List.map_cons,deltas,deltas,List.flatMap_cons,List.flatMap_cons]
    exact first.append later

theorem Alike.keys (alike : Alike values) (natural_ : Natural values) (index : Nat) :
    deltasOf index (deltas (values.map Chat.readChunk)) = [] ↔ deltasOf index (deltas (values.map asRead)) = [] := by
  have thins := values_thin natural_ alike.indices
  refine ⟨(thins.own index).some_,fun none_ => ?_⟩
  refine List.filter_eq_nil_iff.mpr fun delta isDelta here => ?_
  have missing : ∀ other ∈ deltas (values.map asRead), other.index ≠ index := by
    intro other member same
    have own : other ∈ deltasOf index (deltas (values.map asRead)) := List.mem_filter.mpr ⟨member,by simpa using same⟩
    rw [none_] at own
    cases own
  have here : delta.index = index := by simpa using here
  obtain ⟨chunk,isChunk,isTool⟩ := List.mem_flatMap.mp isDelta
  obtain ⟨value,member,rfl⟩ := List.mem_map.mp isChunk
  rw [builtIn_tools] at isTool
  obtain ⟨entry,isEntry,rfl⟩ := List.mem_map.mp isTool
  cases isObject : isRecord entry.1 with
  | false =>
    obtain ⟨other,isOther,same⟩ := alike.objects value member entry isEntry isObject
    rw [readTool_blank isObject] at here
    exact missing other isOther (same.trans here)
  | true =>
    obtain ⟨read,isRead⟩ : ∃ read, readTool entry.1 entry.2 = some read := by simp [readTool,isObject]
    obtain ⟨isIndex,_⟩ := readTool_index (natural_ value member entry.1 (entries_tool isEntry)) isRead
    rw [alike.indices value member entry isEntry isObject] at isIndex
    refine missing (mapDelta natural read) (List.mem_flatMap.mpr ⟨_,List.mem_map_of_mem member,?_⟩) ?_
    · rw [asRead_tools,sdk_tools]
      exact List.mem_map_of_mem (List.mem_filterMap.mpr ⟨entry,isEntry,isRead⟩)
    · rw [mapDelta,isIndex]
      exact here

theorem Alike.deltas_empty (alike : Alike values) (natural_ : Natural values) :
    deltas (values.map Chat.readChunk) = [] ↔ deltas (values.map asRead) = [] := by
  refine ⟨(values_thin natural_ alike.indices).some_,fun none_ => ?_⟩
  by_contra some_
  obtain ⟨delta,rest,isDeltas⟩ := List.exists_cons_of_ne_nil some_
  have missing := (alike.keys natural_ delta.index).mpr (by rw [none_]; rfl)
  rw [isDeltas] at missing
  simp [deltasOf] at missing

theorem Alike.same_tools (alike : Alike values) (natural_ : Natural values) :
    toolsOf builtIn (values.map Chat.readChunk) = toolsOf naturally (values.map asRead) := by
  funext index
  have thins := (values_thin natural_ alike.indices).own index
  have keys := alike.keys natural_ index
  by_cases none_ : deltasOf index (deltas (values.map asRead)) = []
  · rw [toolsOf_none.mpr none_,toolsOf_none.mpr (keys.mpr none_)]
  · have some_ : deltasOf index (deltas (values.map Chat.readChunk)) ≠ [] := fun missing => none_ (keys.mp missing)
    have label : naturally.label index = builtIn.label index := by
      obtain ⟨delta,rest,isOwn⟩ := List.exists_cons_of_ne_nil none_
      have own : delta ∈ deltasOf index (deltas (values.map asRead)) := by rw [isOwn]; exact List.mem_cons_self
      obtain ⟨isDelta,here⟩ := List.mem_filter.mp own
      obtain ⟨chunk,isChunk,isTool⟩ := List.mem_flatMap.mp isDelta
      obtain ⟨value,member,rfl⟩ := List.mem_map.mp isChunk
      rw [asRead_tools,sdk_tools] at isTool
      obtain ⟨read,isRead,rfl⟩ := List.mem_map.mp isTool
      obtain ⟨entry,isEntry,isRead⟩ := List.mem_filterMap.mp isRead
      have isObject : isRecord entry.1 = true := by
        by_contra other
        simp [readTool,other] at isRead
      obtain ⟨isIndex,_⟩ := readTool_index (natural_ value member entry.1 (entries_tool isEntry)) isRead
      have passes := alike.indices value member entry isEntry isObject
      rw [passes] at isIndex
      have same : (Chat.readTool entry.1 entry.2).index = index := by
        have here : natural read.index = index := of_decide_eq_true here
        rw [← here,isIndex]
        rfl
      rw [same] at passes
      exact JavaScript.text_nat index passes
    unfold toolsOf
    simp only [List.isEmpty_iff,none_,some_,if_false,endedAs,thins.opening,thins.arguments,label]

theorem labels (thins : ∀ some_ : List Value, some_ <+: values →
      deltas (some_.map Chat.readChunk) = [] → deltas (some_.map asRead) = []) :
    (labelOf (values.map Chat.readChunk)).map (·.1) = (labelOf (values.map asRead)).map (·.1) ∧
      ∀ label seen label' seen', labelOf (values.map Chat.readChunk) = some (label,seen) →
        labelOf (values.map asRead) = some (label',seen') → seen' = true → seen = true := by
  induction values using List.reverseRecOn with
  | nil => exact ⟨rfl,fun _ _ _ _ known => by cases known⟩
  | append_singleton rest value ih =>
    obtain ⟨same,earlier⟩ := ih fun some_ isPrefix => thins some_ (isPrefix.trans (List.prefix_append _ _))
    have whole := thins (rest ++ [value]) (List.prefix_refl _)
    rw [List.map_append,List.map_append,List.map_cons,List.map_cons,List.map_nil,List.map_nil] at whole ⊢
    rw [labelOf_snoc,labelOf_snoc,asRead_label]
    cases (Chat.readChunk value).label with
    | none => exact ⟨same,earlier⟩
    | some text =>
      refine ⟨rfl,?_⟩
      intro label seen label' seen' isFirst isSecond isSeen
      have isFirst : seen = !(deltas (rest.map Chat.readChunk ++ [Chat.readChunk value])).isEmpty := by
        simpa using (congrArg (Option.map Prod.snd) isFirst).symm
      have isSecond : seen' = !(deltas (rest.map asRead ++ [asRead value])).isEmpty := by
        simpa using (congrArg (Option.map Prod.snd) isSecond).symm
      rw [isSecond] at isSeen
      rw [isFirst]
      cases none_ : deltas (rest.map Chat.readChunk ++ [Chat.readChunk value]) with
      | nil =>
        rw [whole none_] at isSeen
        cases isSeen
      | cons delta more => rfl

theorem special_same {label : String} (special : ¬ Ordinary label) (seen seen' : Bool) :
    map_finish label seen = mapFinish label seen' := by
  unfold Ordinary at special
  simp only [List.mem_cons,List.not_mem_nil,or_false,not_not] at special
  rcases special with rfl | rfl | rfl | rfl <;> rfl
theorem ordinary_finish {label : String} (ordinary : Ordinary label) (seen : Bool) :
    map_finish label seen = (if seen then .ToolUse else .Stop) ∧
      mapFinish label seen = if label = "stop" then .Stop else if seen then .ToolUse else .Stop := by
  unfold Ordinary at ordinary
  simp only [List.mem_cons,List.not_mem_nil,or_false,not_or] at ordinary
  obtain ⟨calls,function,length,filter⟩ := ordinary
  unfold map_finish mapFinish
  simp [calls,function,length,filter]

section
variable (alike : Alike values)
include alike

theorem Alike.prefixes (natural_ : Natural values) (some_ : List Value) (isPrefix : some_ <+: values) :
    deltas (some_.map Chat.readChunk) = [] → deltas (some_.map asRead) = [] := by
  have within : ∀ value ∈ some_, value ∈ values := fun value member => isPrefix.subset member
  exact (values_thin (fun value member => natural_ value (within value member))
    fun value member => alike.indices value (within value member)).some_

theorem Alike.same_reason (natural_ : Natural values) (marked : Bool) :
    reasonOf builtIn (values.map Chat.readChunk) marked = reasonOf naturally (values.map asRead) marked := by
  obtain ⟨same,earlier⟩ := labels (alike.prefixes natural_)
  have empty : (deltas (values.map Chat.readChunk)).isEmpty = (deltas (values.map asRead)).isEmpty := by
    have both := alike.deltas_empty natural_
    cases isFirst : deltas (values.map Chat.readChunk) <;> cases isSecond : deltas (values.map asRead) <;>
      simp [isFirst,isSecond] at both ⊢
  unfold reasonOf
  cases isFirst : labelOf (values.map Chat.readChunk) with
  | none =>
    rw [isFirst] at same
    rw [Option.map_eq_none_iff.mp same.symm,empty]
    rfl
  | some first =>
    obtain ⟨label,seen⟩ := first
    rw [isFirst] at same
    obtain ⟨⟨label',seen'⟩,isSecond,sameLabel⟩ := Option.map_eq_some_iff.mp same.symm
    obtain rfl : label' = label := sameLabel
    rw [isSecond]
    refine congrArg some ?_
    change map_finish label' seen = mapFinish label' seen'
    by_cases ordinary : Ordinary label'
    · by_cases none_ : deltas (values.map asRead) = []
      · -- Without tools none were seen.
        have unseen : seen = false ∧ seen' = false := by
          constructor
          · cases seen with
            | false => rfl
            | true =>
              have known := label_seen _ isFirst
              rw [(alike.deltas_empty natural_).mpr none_] at known
              cases known
          · cases seen' with
            | false => rfl
            | true =>
              have known := label_seen _ isSecond
              rw [none_] at known
              cases known
        rw [unseen.1,unseen.2,(ordinary_finish ordinary false).1,(ordinary_finish ordinary false).2]
        simp
      · obtain ⟨other,rfl⟩ := alike.label none_ label' seen' isSecond ordinary
        rw [earlier label' seen label' true isFirst isSecond rfl,(ordinary_finish ordinary true).1,(ordinary_finish ordinary true).2]
        simp [other]
    · exact special_same ordinary seen seen'

theorem Alike.same_usage : Chat.usageOf (values.map Chat.readChunk) = Chat.usageOf (values.map asRead) := by
  rw [builtIn_usage,asRead_usage]
  cases isUsage : lastUsage values with
  | none => rfl
  | some usage => exact congrArg some ((usage_same usage).mpr (alike.usage usage isUsage))

theorem Alike.same_made (natural_ : Natural values) (call_id : String) (reason : FinishReason) :
    made call_id builtIn (values.map Chat.readChunk) reason = made call_id naturally (values.map asRead) reason := by
  have reasoning : reasoningOf (values.map Chat.readChunk) = reasoningOf (values.map asRead) := by
    rw [(reasoning_iff values).mpr alike.reasoning,reasoningOf,List.map_map]
    exact congrArg String.join (List.map_congr_left fun value _ => (asRead_reasoning value).symm)
  have text : textOf (values.map Chat.readChunk) = textOf (values.map asRead) := by
    rw [text_eq,textOf,List.map_map]
    exact congrArg String.join (List.map_congr_left fun value _ => (asRead_content value).symm)
  rw [made,made,reasoning,text,alike.same_tools natural_,alike.same_usage]
theorem Alike.same_named (natural_ : Natural values) : Named (values.map Chat.readChunk) ↔ Named (values.map asRead) := by
  refine forall_congr' fun index => ?_
  rw [((values_thin natural_ alike.indices).own index).opening,ne_eq,ne_eq,alike.keys natural_ index]
theorem Alike.same_settles (natural_ : Natural values) (marked : Bool) :
    Settles builtIn (values.map Chat.readChunk) marked ↔ Settles naturally (values.map asRead) marked := by
  have none_ := alike.deltas_empty natural_
  constructor
  · rintro ⟨named,distinct,reason,isReason,complete,agrees⟩
    refine ⟨(alike.same_named natural_).mp named,by rwa [alike.same_tools natural_] at distinct,reason,?_,complete,?_⟩
    · rw [← alike.same_reason natural_,isReason]
    · rw [agrees,ne_eq,ne_eq,none_]
  · rintro ⟨named,distinct,reason,isReason,complete,agrees⟩
    refine ⟨(alike.same_named natural_).mpr named,by rwa [← alike.same_tools natural_] at distinct,reason,?_,complete,?_⟩
    · rw [alike.same_reason natural_,isReason]
    · rw [agrees,ne_eq,ne_eq,none_]
theorem Alike.indexed (natural_ : Natural values) : Indexed values := by
  intro delta isDelta
  obtain ⟨chunk,isChunk,isTool⟩ := List.mem_flatMap.mp isDelta
  obtain ⟨value,member,rfl⟩ := List.mem_map.mp isChunk
  rw [sdk_tools] at isTool
  obtain ⟨entry,isEntry,isRead⟩ := List.mem_filterMap.mp isTool
  have isObject : isRecord entry.1 = true := by
    by_contra other
    simp [readTool,other] at isRead
  obtain ⟨isIndex,_⟩ := readTool_index (natural_ value member entry.1 (entries_tool isEntry)) isRead
  rw [isIndex,alike.indices value member entry isEntry isObject]
  simp [asNat]

end

/-! ## Numbers that JavaScript changes -/

/-- A monotone map that reaches all of a set from some of its numbers changes none
    of them. -/
theorem fixed_of_image {some_ all : Finset Nat} {g : Nat → Nat} (within : some_ ⊆ all) (reaches : some_.image g = all)
    (mono : ∀ m ∈ some_, ∀ n ∈ some_, m ≤ n → g m ≤ g n) : ∀ n ∈ some_, g n = n := by
  have count : all.card ≤ some_.card := by
    rw [← reaches]
    exact Finset.card_image_le
  obtain rfl := Finset.eq_of_subset_of_card_le within count
  have injective : Set.InjOn g some_ := Finset.card_image_iff.mp (by rw [reaches])
  intro n
  induction n using Nat.strongRecOn with
  | ind n ih =>
    intro member
    have target : g n ∈ some_ := by
      rw [← reaches]
      exact Finset.mem_image_of_mem g member
    rcases Nat.lt_trichotomy (g n) n with less | same | more
    · exact injective target member (ih (g n) less target)
    · exact same
    · -- What reaches n is neither smaller nor larger.
      rw [← reaches] at member
      obtain ⟨m,isMember,isSource⟩ := Finset.mem_image.mp member
      rw [reaches] at member
      rcases Nat.lt_trichotomy m n with less | rfl | later
      · have fixed := ih m less isMember
        omega
      · omega
      · have ordered := mono n member m isMember later.le
        omega

def indexSet (values : List Value) : Finset Nat :=
  (((values.flatMap entries).filter fun entry => isRecord entry.1).map fun entry => (Chat.readTool entry.1 entry.2).index).toFinset
def keySet (chunks : List (Chunk Nat Usage)) : Finset Nat := ((deltas chunks).map (·.index)).toFinset

variable {index : Nat}

theorem mem_indexSet : index ∈ indexSet values ↔
    ∃ value ∈ values, ∃ entry ∈ entries value, isRecord entry.1 = true ∧ (Chat.readTool entry.1 entry.2).index = index := by
  simp only [indexSet,List.mem_toFinset,List.mem_map,List.mem_filter,List.mem_flatMap]
  constructor
  · rintro ⟨entry,⟨⟨value,member,isEntry⟩,isObject⟩,same⟩
    exact ⟨value,member,entry,isEntry,isObject,same⟩
  · rintro ⟨value,member,entry,isEntry,isObject,same⟩
    exact ⟨entry,⟨⟨value,member,isEntry⟩,isObject⟩,same⟩
theorem mem_keySet {chunks : List (Chunk Nat Usage)} : index ∈ keySet chunks ↔ ∃ delta ∈ deltas chunks, delta.index = index := by
  simp [keySet]
theorem mem_deltas {υ κ : Type} {read : Value → Chunk κ υ} {delta : ToolDelta κ} :
    delta ∈ deltas (values.map read) ↔ ∃ value ∈ values, delta ∈ (read value).tools := by
  simp [deltas]
theorem keySet_tools {d : Dialect Nat} {chunks : List (Chunk Nat Usage)} : index ∈ keySet chunks ↔ toolsOf d chunks index ≠ none := by
  rw [mem_keySet,ne_eq,toolsOf_none,deltasOf,List.filter_eq_nil_iff]
  simp

theorem indexSet_within : indexSet values ⊆ keySet (values.map Chat.readChunk) := by
  intro index member
  obtain ⟨value,isValue,entry,isEntry,_,same⟩ := mem_indexSet.mp member
  refine mem_keySet.mpr ⟨_,mem_deltas.mpr ⟨value,isValue,?_⟩,same⟩
  rw [builtIn_tools]
  exact List.mem_map_of_mem (f := fun entry : Value × Nat => Chat.readTool entry.1 entry.2) isEntry
theorem keySet_image (natural_ : Natural values) :
    (indexSet values).image (fun index => natural (JavaScript.through (.PosInt index))) = keySet (values.map asRead) := by
  ext index
  rw [Finset.mem_image,mem_keySet]
  constructor
  · rintro ⟨source,isSource,rfl⟩
    obtain ⟨value,member,entry,isEntry,isObject,rfl⟩ := mem_indexSet.mp isSource
    obtain ⟨read,isRead⟩ : ∃ read, readTool entry.1 entry.2 = some read := by simp [readTool,isObject]
    obtain ⟨isIndex,_⟩ := readTool_index (natural_ value member entry.1 (entries_tool isEntry)) isRead
    refine ⟨mapDelta natural read,mem_deltas.mpr ⟨value,member,?_⟩,by rw [mapDelta,isIndex]⟩
    rw [asRead_tools,sdk_tools]
    exact List.mem_map_of_mem (List.mem_filterMap.mpr ⟨entry,isEntry,isRead⟩)
  · rintro ⟨delta,isDelta,rfl⟩
    obtain ⟨value,member,isTool⟩ := mem_deltas.mp isDelta
    rw [asRead_tools,sdk_tools] at isTool
    obtain ⟨read,isRead,rfl⟩ := List.mem_map.mp isTool
    obtain ⟨entry,isEntry,isRead⟩ := List.mem_filterMap.mp isRead
    have isObject : isRecord entry.1 = true := by
      by_contra other
      simp [readTool,other] at isRead
    obtain ⟨isIndex,_⟩ := readTool_index (natural_ value member entry.1 (entries_tool isEntry)) isRead
    exact ⟨_,mem_indexSet.mpr ⟨value,member,entry,isEntry,isObject,rfl⟩,by rw [mapDelta,isIndex]⟩
theorem Indexed.reads (indexed : Indexed values) (natural_ : Natural values) (member : index ∈ indexSet values) :
    JavaScript.through (.PosInt index) = .PosInt (natural (JavaScript.through (.PosInt index))) := by
  obtain ⟨value,isValue,entry,isEntry,isObject,rfl⟩ := mem_indexSet.mp member
  obtain ⟨read,isRead⟩ : ∃ read, readTool entry.1 entry.2 = some read := by simp [readTool,isObject]
  obtain ⟨isIndex,_⟩ := readTool_index (natural_ value isValue entry.1 (entries_tool isEntry)) isRead
  have isNat := indexed read (mem_deltas.mpr ⟨value,isValue,by
    rw [sdk_tools]
    exact List.mem_filterMap.mpr ⟨entry,isEntry,isRead⟩⟩)
  rw [isIndex] at isNat
  exact (posInt_natural isNat).symm

section Outcome
variable [ArgumentText] [JsonParse]

/-- The built-in adapter reads of every text what it reads of the value that
    `JSON.parse` makes of it. -/
def ReadAlike (texts : List String) (values : List Value) : Prop :=
  texts.map readSource = (values.map Chat.readChunk).map .ok

/-- One of the adapters completes the stream. -/
def Completes (texts : List String) (values : List Value) (marked : Bool) : Prop :=
  (ReadAlike texts values ∧ Settles builtIn (values.map Chat.readChunk) marked) ∨
    (Indexed values ∧ Settles naturally (values.map asRead) marked)

theorem alike_of_results {call_id : String} {marked : Bool} {result : ModelCycleResult} (natural_ : Natural values)
    (unfailed : ∀ value ∈ values, ¬ Failed value) (indexed : Indexed values)
    (first : Results (outputOf call_id (provider (runFrom builtIn {} marked (values.map Chat.readChunk)))) result)
    (second : Results (outputOf call_id (provider (runFrom naturally {} marked (values.map asRead)))) result) : Alike values := by
  obtain ⟨_,reason,isReason,yields⟩ := (results_iff builtIn_lawful call_id result).mp first
  obtain ⟨_,reason',isReason',yields'⟩ := (results_iff naturally_lawful call_id result).mp second
  have sameKeys : keySet (values.map Chat.readChunk) = keySet (values.map asRead) := by
    ext index
    have known := yields.known index
    have known' := yields'.known index
    rw [made_tools] at known known'
    rw [keySet_tools (d := builtIn),keySet_tools (d := naturally),known,known']
  have passes : ∀ index ∈ indexSet values, natural (JavaScript.through (.PosInt index)) = index := by
    refine fixed_of_image indexSet_within ((keySet_image natural_).trans sameKeys.symm) ?_
    intro m isM n isN less
    exact JavaScript.mono m n _ _ less (indexed.reads natural_ isM) (indexed.reads natural_ isN)
  refine ⟨unfailed,?_,?_,?_,?_,?_⟩
  · have same : reasoningOf (values.map Chat.readChunk) = reasoningOf (values.map asRead) :=
      yields.reasoning.symm.trans yields'.reasoning
    refine (reasoning_iff values).mp (same.trans ?_)
    rw [reasoningOf,List.map_map]
    exact congrArg String.join (List.map_congr_left fun value _ => asRead_reasoning value)
  · intro value member entry isEntry other
    have key : entry.2 ∈ keySet (values.map Chat.readChunk) := by
      refine mem_keySet.mpr ⟨_,mem_deltas.mpr ⟨value,member,?_⟩,congrArg ToolDelta.index (readTool_blank other)⟩
      rw [builtIn_tools]
      exact List.mem_map_of_mem (f := fun entry : Value × Nat => Chat.readTool entry.1 entry.2) isEntry
    rw [sameKeys] at key
    exact mem_keySet.mp key
  · intro value member entry isEntry isObject
    have isIndex := mem_indexSet.mpr ⟨value,member,entry,isEntry,isObject,rfl⟩
    have reads := indexed.reads natural_ isIndex
    rwa [passes _ isIndex] at reads
  · intro usage isUsage
    have same : Chat.usageOf (values.map Chat.readChunk) = Chat.usageOf (values.map asRead) := yields.usage.symm.trans yields'.usage
    rw [builtIn_usage,asRead_usage,isUsage] at same
    exact (usage_same usage).mp (Option.some.inj same)
  · intro some_ label seen isLabel ordinary
    have isToolUse : reason' = .ToolUse := by
      have isFinish : reason' = result.finish_reason := Option.some.inj yields'.finish
      rw [isFinish,yields'.agrees]
      exact some_tools.mpr some_
    rw [reasonOf,isLabel] at isReason'
    have mapped : mapFinish label seen = .ToolUse := (Option.some.inj isReason').trans isToolUse
    rw [(ordinary_finish ordinary seen).2] at mapped
    split_ifs at mapped with stop isSeen
    exact ⟨stop,isSeen⟩

def mark (marked : Bool) : List String := if marked then ["[DONE]"] else []

theorem sdk_run {texts : List String} (marked : Bool) : ∀ {values : List Value} {a : Loop Number ModelUsage},
    texts.map JsonParse.parse = values.map .ok → (∀ text ∈ texts, text ≠ "" ∧ text ≠ "[DONE]") →
    (∀ value ∈ values, Json.get value "error" = none) →
    streamFrom a (texts ++ mark marked) = emit (runFrom sdk a marked (values.map readChunk)) := by
  induction texts with
  | nil =>
    intro values a parses _ _
    obtain rfl : [] = values := by simpa using parses
    cases marked with
    | false => rfl
    | true => simp [mark,streamFrom,runFrom]
  | cons text rest ih =>
    intro values a parses payloads plain
    cases values with
    | nil => cases parses
    | cons value more =>
      obtain ⟨isValue,others⟩ := List.cons.inj parses
      have later := fun a => ih (a := a) others (fun other member => payloads other (List.mem_cons_of_mem _ member))
        fun other member => plain other (List.mem_cons_of_mem _ member)
      have fine : eventError value = none := by rw [eventError,plain value List.mem_cons_self]
      obtain ⟨nonempty,unmarked⟩ := payloads text List.mem_cons_self
      rw [List.cons_append,streamFrom,if_neg nonempty,if_neg unmarked,isValue]
      simp only [fine,later,List.map_cons,runFrom,emit,List.map_append]

theorem builtIn_fails {texts : List String} {marker : List Source} : ∀ {a : Loop Nat Usage},
    (∀ text ∈ texts, text ≠ "[DONE]") → (∃ text ∈ texts, ∀ chunk, readSource text ≠ .ok chunk) →
    (Chat.streamFrom a ((texts.map fun text => .Event "" text) ++ marker)).2 ≠ none := by
  induction texts with
  | nil => simp
  | cons text rest ih =>
    rintro a unmarked ⟨one,member,unread⟩
    rw [List.map_cons,List.cons_append,Chat.streamFrom,if_neg (unmarked text List.mem_cons_self)]
    cases isRead : readSource text with
    | error error => simp
    | ok chunk =>
      refine ih (fun other isOther => unmarked other (List.mem_cons_of_mem _ isOther)) ⟨one,?_,unread⟩
      exact (List.mem_cons.mp member).resolve_left fun same => unread chunk (same ▸ isRead)

theorem readAlike_of_reads {texts : List String} : ∀ {values : List Value}, texts.map JsonParse.parse = values.map .ok →
    (∀ text ∈ texts, ∃ chunk, readSource text = .ok chunk) →
    (∀ text ∈ texts, ∀ value chunk, JsonParse.parse text = .ok value → readSource text = .ok chunk →
      chunk = Chat.readChunk value ∧ ¬ Failed value) →
    ReadAlike texts values ∧ ∀ value ∈ values, ¬ Failed value := by
  induction texts with
  | nil =>
    intro values parses _ _
    obtain rfl : [] = values := by simpa using parses
    exact ⟨rfl,by simp⟩
  | cons text rest ih =>
    intro values parses reads readers
    cases values with
    | nil => cases parses
    | cons value more =>
      obtain ⟨isValue,others⟩ := List.cons.inj parses
      obtain ⟨chunk,isRead⟩ := reads text List.mem_cons_self
      obtain ⟨rfl,fine⟩ := readers text List.mem_cons_self value chunk isValue isRead
      obtain ⟨alike,unfailed⟩ := ih others (fun other member => reads other (List.mem_cons_of_mem _ member))
        fun other member => readers other (List.mem_cons_of_mem _ member)
      exact ⟨congrArg₂ List.cons isRead alike,List.forall_mem_cons.mpr ⟨fine,unfailed⟩⟩

/-- For every stream of chunks without an error field and with natural indices, with
    or without its end marker: the two adapters have the same outcome exactly if,
    where one of them completes the stream, no chunk is read differently. What
    serde_json does not refuse has the strings and integers that `JSON.parse` reads. -/
theorem sdk_chat_agrees (call_id : String) (texts : List String) (values : List Value) (marked : Bool)
    (parses : texts.map JsonParse.parse = values.map .ok)
    (readers : ∀ text ∈ texts, ∀ value chunk, JsonParse.parse text = .ok value → readSource text = .ok chunk →
      chunk = Chat.readChunk value ∧ ¬ Failed value) (payloads : ∀ text ∈ texts, text ≠ "" ∧ text ≠ "[DONE]")
    (plain : ∀ value ∈ values, Json.get value "error" = none) (natural_ : Natural values) :
    SameOutcome (stream_model call_id (streamOpenAiChat (texts ++ mark marked)))
        (Chat.stream call_id ((texts ++ mark marked).map fun text => .Event "" text)) ↔
      (Completes texts values marked → ReadAlike texts values ∧ Alike values) := by
  rw [sameOutcome_iff]
  -- What the SDK's adapter makes of the stream, where the server can read it.
  have isSdk : stream_model call_id (streamOpenAiChat (texts ++ mark marked)) = outputOf call_id
      (readEvents (emit (runFrom sdk {} marked (values.map readChunk))).1 (emit (runFrom sdk {} marked (values.map readChunk))).2) := by
    rw [stream_model,streamOpenAiChat,sdk_run marked parses payloads plain]
    rfl
  have sdkResults : ∀ result, Results (stream_model call_id (streamOpenAiChat (texts ++ mark marked))) result ↔
      Indexed values ∧ Results (outputOf call_id (provider (runFrom naturally {} marked (values.map asRead)))) result := by
    intro result
    rw [isSdk]
    constructor
    · intro results
      have indexed := run_indexed values marked results.1
      rw [run_natural values marked indexed] at results
      exact ⟨indexed,results⟩
    · rintro ⟨indexed,results⟩
      rwa [run_natural values marked indexed]
  have isMarked : (texts ++ mark marked).map (fun text => Source.Event "" text) =
      (texts.map fun text => .Event "" text) ++ (mark marked).map fun text => .Event "" text := List.map_append
  have unfailed : ReadAlike texts values → ∀ value ∈ values, ¬ Failed value := by
    intro alike
    refine (readAlike_of_reads parses (fun text member => ?_) readers).2
    obtain ⟨chunk,-,isRead⟩ := List.mem_map.mp (alike ▸ List.mem_map_of_mem member)
    exact ⟨chunk,isRead.symm⟩
  have builtInResults : ∀ result, Results (Chat.stream call_id ((texts ++ mark marked).map fun text => .Event "" text)) result ↔
      ReadAlike texts values ∧ Results (outputOf call_id (provider (runFrom builtIn {} marked (values.map Chat.readChunk)))) result := by
    intro result
    by_cases alike : ReadAlike texts values
    · have marks : Marks ((mark marked).map fun text => .Event "" text) marked := by
        cases marked with
        | false => exact .inl ⟨rfl,rfl⟩
        | true => exact .inr ⟨⟨_,_,rfl⟩,rfl⟩
      have reads : (texts.map fun text => ("",text)).map (fun source => readSource source.2) = (values.map Chat.readChunk).map .ok := by
        rw [List.map_map]
        exact alike
      have run := streamFrom_run marks (a := {}) reads (by
        intro source member
        obtain ⟨text,isText,rfl⟩ := List.mem_map.mp member
        exact (payloads text isText).2)
      rw [List.map_map] at run
      have isStream : Chat.stream call_id ((texts ++ mark marked).map fun text => .Event "" text) =
          outputOf call_id (provider (runFrom builtIn {} marked (values.map Chat.readChunk))) := by
        rw [isMarked,Chat.stream]
        refine congrArg (fun output : List ModelEvent × Option Error => (ModelEvent.Start call_id :: output.1,output.2)) ?_
        exact run
      rw [isStream]
      exact ⟨fun results => ⟨alike,results⟩,fun both => both.2⟩
    · refine iff_of_false ?_ fun both => alike both.1
      rintro ⟨ended,_⟩
      refine builtIn_fails (fun text member => (payloads text member).2) ?_ (by rwa [isMarked,Chat.stream] at ended)
      by_contra read
      push Not at read
      exact alike (readAlike_of_reads parses read readers).1
  simp only [sdkResults,builtInResults]
  constructor
  · rintro same (⟨alike,settles⟩ | ⟨indexed,settles⟩)
    · obtain ⟨result,first⟩ := settles.result builtIn_lawful call_id
      obtain ⟨indexed,second⟩ := (same result).mpr ⟨alike,first⟩
      exact ⟨alike,alike_of_results natural_ (unfailed alike) indexed first second⟩
    · obtain ⟨result,second⟩ := settles.result naturally_lawful call_id
      obtain ⟨alike,first⟩ := (same result).mp ⟨indexed,second⟩
      exact ⟨alike,alike_of_results natural_ (unfailed alike) indexed first second⟩
  · intro condition result
    rw [results_iff builtIn_lawful,results_iff naturally_lawful]
    constructor
    · rintro ⟨indexed,settles,reason,isReason,yields⟩
      obtain ⟨alike,agrees⟩ := condition (.inr ⟨indexed,settles⟩)
      refine ⟨alike,(agrees.same_settles natural_ marked).mpr settles,reason,?_,?_⟩
      · rw [agrees.same_reason natural_,isReason]
      · rwa [agrees.same_made natural_]
    · rintro ⟨alike,settles,reason,isReason,yields⟩
      obtain ⟨-,agrees⟩ := condition (.inl ⟨alike,settles⟩)
      refine ⟨agrees.indexed natural_,(agrees.same_settles natural_ marked).mp settles,reason,?_,?_⟩
      · rw [← agrees.same_reason natural_,isReason]
      · rwa [← agrees.same_made natural_]

end Outcome

end Agreement

/-! ## Tools that stop, and a call with its answer -/

def stops : List Value := [chunkOf (callDelta [("id",.String "c")] [("name",.String "Read")]) [],finished "stop"]
def textsOf (values : List Value) : List String := values.map fun value => String.ofList (printed value)

section Example
local instance : Serde := printing
local instance : ArgumentText where
  from_str text :=
    ((stops ++ fetch).find? (fun value => String.ofList (printed value) = text)).elim
      (.error "expected value at line 1 column 1") .ok
local instance : JavaScript := .plain fun value => String.ofList (printed value)
local instance : JsonParse := ⟨ArgumentText.from_str⟩

def nextOf (output : List ModelEvent × Option Error) : List Next :=
  (output.1.map fun event => nextEvent (event,0)) ++ (output.2.map Next.Failed).toList
/-- The built-in adapter calls the tool; with the SDK's the cycle fails. -/
theorem stop_differs : (textsOf stops).map ArgumentText.from_str = stops.map .ok ∧ (∀ value ∈ stops, Json.get value "error" = none) ∧
      Natural stops ∧
      (consume_model_cycle (nextOf (Chat.stream "m" ((textsOf stops).map fun text => .Event "" text))) none).1 =
        .ok ⟨"m","","",none,[⟨0,"c","m","Read","",.Object [],none⟩],none,.ToolUse⟩ ∧
      (consume_model_cycle (nextOf (stream_model "m" (streamOpenAiChat (textsOf stops)))) none).1 =
        .error ⟨.Protocol "finish reason and tool calls disagree","","",none,true⟩ ∧
      ¬ SameOutcome (stream_model "m" (streamOpenAiChat (textsOf stops)))
        (Chat.stream "m" ((textsOf stops).map fun text => .Event "" text)) := by
  have first : (consume_model_cycle (nextOf (Chat.stream "m" ((textsOf stops).map fun text => .Event "" text))) none).1 =
      .ok ⟨"m","","",none,[⟨0,"c","m","Read","",.Object [],none⟩],none,.ToolUse⟩ := by
    decide +kernel
  have second : (consume_model_cycle (nextOf (stream_model "m" (streamOpenAiChat (textsOf stops)))) none).1 =
      .error ⟨.Protocol "finish reason and tool calls disagree","","",none,true⟩ := by
    decide +kernel
  refine ⟨by decide +kernel,by decide +kernel,?_,first,second,?_⟩
  · have indices : ∀ value ∈ stops, ∀ tool ∈ toolCalls (deltaOf value), Json.get tool "index" = some (.Number (.PosInt 0)) := by
      decide +kernel
    intro value member tool isTool number isNumber
    rw [indices value member tool isTool] at isNumber
    obtain rfl : Number.PosInt 0 = number := by simpa using isNumber
    simp [asNat]
  · intro same
    have timed : ∀ output : List ModelEvent × Option Error, Timed output (nextOf output) :=
      fun output => ⟨output.1.map fun event => (event,0),by simp [Function.comp_def],by simp [nextOf]⟩
    have both := (same _ _ (timed _) (timed _) _).mpr first
    rw [second] at both
    cases both

theorem sdk_chat_agrees_fetch : SameOutcome (stream_model "m" (streamOpenAiChat (textsOf fetch ++ mark true)))
      (Chat.stream "m" ((textsOf fetch ++ mark true).map fun text => .Event "" text)) := by
  have indices : ∀ value ∈ fetch, ∀ tool ∈ toolCalls (deltaOf value), Json.get tool "index" = some (.Number (.PosInt 0)) := by
    decide +kernel
  have natural_ : Natural fetch := by
    intro value member tool isTool number isNumber
    rw [indices value member tool isTool] at isNumber
    obtain rfl : Number.PosInt 0 = number := by simpa using isNumber
    simp [asNat]
  have alike : Alike fetch := by
    refine ⟨?_,?_,?_,fun _ _ _ _ _ => rfl,?_,?_⟩
    · have untyped : ∀ value ∈ fetch, stringOf value "type" = none := by decide +kernel
      rintro value member (failed | failed) <;> rw [untyped value member] at failed <;> cases failed
    · rintro value member ⟨⟨other,isContent,_⟩,_⟩
      have missing : ∀ value ∈ fetch, Json.get (deltaOf value) "reasoning_content" = none := by decide +kernel
      rw [missing value member] at isContent
      cases isContent
    · intro value member entry isEntry other
      have records : ∀ value ∈ fetch, ∀ entry ∈ entries value, isRecord entry.1 = true := by decide +kernel
      rw [records value member entry isEntry] at other
      cases other
    · intro usage isUsage
      have missing : lastUsage fetch = none := by decide +kernel
      rw [missing] at isUsage
      cases isUsage
    · intro _ label seen isLabel ordinary
      have isSome : labelOf (fetch.map asRead) = some ("tool_calls",true) := by decide +kernel
      rw [isSome] at isLabel
      obtain ⟨rfl,rfl⟩ := Prod.mk.inj (Option.some.inj isLabel)
      exact absurd ordinary (by simp [Ordinary])
  have readers : ∀ text ∈ textsOf fetch, ∀ value chunk, JsonParse.parse text = .ok value → readSource text = .ok chunk →
      chunk = Chat.readChunk value ∧ ¬ Failed value := by
    intro text _ value chunk isValue isRead
    rw [readSource,show ArgumentText.from_str text = .ok value from isValue] at isRead
    simp only [Except.mapError,bind,Except.bind] at isRead
    split at isRead
    · cases isRead
    · rename_i fine
      refine ⟨(Except.ok.inj isRead).symm,?_⟩
      rintro (failed | failed) <;> simp [provider_event_error,failed] at fine
  refine (sdk_chat_agrees "m" (textsOf fetch) fetch true (by decide +kernel) readers (by decide +kernel) (by decide +kernel)
    natural_).mpr fun _ => ⟨?_,alike⟩
  unfold ReadAlike
  decide +kernel

end Example

end MyCursor.SdkChat

import MyCursor.CheckpointRoundTrip
import MyCursor.Run

/-!
# Pending tool rounds

While the calls of a round are executed, the client keeps the message that
`staged_tool_round` writes, and a run that is resumed reads the round back with
`decode_pending`.
-/
namespace MyCursor.PendingRound
open Message Projection Text CheckpointCodec CheckpointRoundTrip
open Compaction Run
set_option linter.unusedSectionVars false

section Codec
variable [Serde]

def callContent (call : ToolCall) : ToolCallContent := ⟨call.index,call.call_id,call.name,call.arguments⟩
def stagedMessage (assistant : ToolRoundAssistant) (calls : List ToolCall) : ProjectedMessage :=
  ⟨assistant.model_call_id,.Assistant,
    .Assistant assistant.text assistant.thinking assistant.replay_state (calls.map callContent)⟩
def stagedContext (calls : List ToolCall) (allowed_tools dynamic_tools : List String) (started_at_ms : Nat) :
    PendingContext := ⟨allowed_tools,dynamic_tools,started_at_ms,some calls⟩

def staged_tool_round (assistant : ToolRoundAssistant) (calls : List ToolCall) (model : String)
    (allowed_tools dynamic_tools : List String) (started_at_ms : Nat) : Except Error (List UInt8) := do
  let value ← wire_message (stagedMessage assistant calls) model
    (some (stagedContext calls allowed_tools dynamic_tools started_at_ms))
  .ok (Serde.to_vec value)

variable [SerdeText]

def recoveredError (wire : Value) (call_id : String) : Option String :=
  (((Json.pointer wire ["providerOptions","cursor","pendingToolExecutionContracts"]).bind (Json.get · call_id)).bind
    (Json.get · "argumentError")).bind Json.as_str
def recoveredCall (wire : Value) (model_call_id : String) (call : ToolCallContent) (index : Nat) : ToolCall :=
  ⟨index,call.call_id,model_call_id,call.name,SerdeText.value call.arguments,call.arguments,recoveredError wire call.call_id⟩

def decode_pending (value : List UInt8) : Except Error RecoveredToolRound := do
  let wire ← (Serde.from_slice value).mapError .Json
  match (Json.pointer wire ["providerOptions","cursor","pendingToolCallStartedAtMs"]).bind Json.as_u64 with
  | none => .error (.Protocol "Cursor pending assistant is missing pendingToolCallStartedAtMs")
  | some started_at_ms =>
    let internal_id := s!"cursor-pending:{Base64.encode (Serde.digest value)}"
    let message ← decode value internal_id
    match message.content with
    | .Assistant text thinking _ replay_state tool_calls =>
      if tool_calls.isEmpty then
        .error (.Protocol "Cursor resume contains a pending assistant without tool calls")
      else
        let model_call_id := (((Json.pointer wire ["providerOptions","cursor","modelProviderMessageId"]).bind Json.as_str).filter
          (!·.isEmpty)).getD internal_id
        .ok ⟨⟨text,thinking,model_call_id,replay_state⟩,
          tool_calls.zipIdx.map fun (call,index) => recoveredCall wire model_call_id call index,started_at_ms⟩
    | _ => .error (.Protocol "Cursor pending message is not an assistant message")

variable {calls : List ToolCall}

theorem insert_fresh {members : List (String × Value)} {name : String} (fresh : name ∉ members.map (·.1)) (value : Value) :
    CheckpointCodec.insert members name value = members ++ [(name,value)] := by
  rw [CheckpointCodec.insert,if_neg]
  intro found
  obtain ⟨member,isMember,sameName⟩ := List.any_eq_true.mp found
  exact fresh (List.mem_map.mpr ⟨member,isMember,by simpa using sameName⟩)

theorem contracts_distinct (contract : ToolCallContent → Value) (calls : List ToolCallContent) :
    ∀ members : List (String × Value), (members.map (·.1) ++ calls.map (·.call_id)).Nodup →
      calls.foldl (fun contracts call => CheckpointCodec.insert contracts call.call_id (contract call)) members =
        members ++ calls.map fun call => (call.call_id,contract call) := by
  induction calls with
  | nil => simp
  | cons call rest ih =>
    intro members distinct
    rw [List.map_cons] at distinct
    have fresh : call.call_id ∉ members.map (·.1) := by
      intro present
      exact List.disjoint_of_nodup_append distinct present List.mem_cons_self
    rw [List.foldl_cons,insert_fresh fresh,ih]
    · simp
    · simpa using distinct

theorem find_call (distinct : (calls.map (·.call_id)).Nodup) {call : ToolCall}
    (member : call ∈ calls) : calls.find? (·.call_id = call.call_id) = some call := by
  induction calls with
  | nil => cases member
  | cons first rest ih =>
    rw [List.map_cons,List.nodup_cons] at distinct
    rcases List.mem_cons.mp member with rfl | later
    · simp
    · have different : first.call_id ≠ call.call_id := fun same => distinct.1 (same ▸ List.mem_map_of_mem later)
      rw [List.find?_cons_of_neg (by simpa using different)]
      exact ih distinct.2 later

theorem contract_error (pending : PendingContext) (call : ToolCallContent) :
    (Json.get (executionContract pending call) "argumentError").bind Json.as_str = argumentError pending call.call_id := by
  unfold executionContract
  cases argumentError pending call.call_id with
  | none => simp
  | some error => simp [Json.as_str]

/-! ## What was written is recovered -/

def stagedWire (content : Value) (pending : PendingContext) (calls : List ToolCall) : Value :=
  object [("role",.String "assistant"),("content",content),("id",.String "1"),
    ("providerOptions",object [("cursor",pendingOptions pending (calls.map callContent))])]

theorem staged_written {assistant : ToolRoundAssistant} (kept : ∀ state, assistant.replay_state = some state → ReplayKept state)
    (calls : List ToolCall) (model : String) (pending : PendingContext) :
    ∃ signature content, assistant.replay_state.mapM encode_replay_state = .ok signature ∧
      content = .Array ((if assistant.thinking.isEmpty && assistant.replay_state.isNone then []
        else [reasoningPart assistant.thinking signature model]) ++
        (if assistant.text.isEmpty then [] else [wirePart (.Text assistant.text)]) ++ (calls.map callContent).map wireCall) ∧
      wire_message (stagedMessage assistant calls) model (some pending) = .ok (stagedWire content pending calls) := by
  have signs : ∃ signature, assistant.replay_state.mapM encode_replay_state = .ok signature := by
    cases isState : assistant.replay_state with
    | none => exact ⟨none,rfl⟩
    | some state =>
      obtain ⟨text,encoded⟩ := encode_replay_state_total (kept state isState)
      exact ⟨some text,by simp [encoded,Functor.map,Except.map]⟩
  obtain ⟨signature,signed⟩ := signs
  refine ⟨signature,_,signed,rfl,?_⟩
  simp only [wire_message,stagedMessage,wire_content,signed,bind,Except.bind]
  rfl

theorem staged_decodes {assistant : ToolRoundAssistant} (kept : ∀ state, assistant.replay_state = some state → ReplayKept state)
    {model : String} {pending : PendingContext} {value : Value}
    (written : wire_message (stagedMessage assistant calls) model (some pending) = .ok value) (reads : ReadsBack value)
    (internal_id : String) : ∃ message, decode (Serde.to_vec value) internal_id = .ok message ∧
      message.content = restoredContent (stagedMessage assistant calls) internal_id := by
  obtain ⟨signature,content,signed,isContent,isValue⟩ := staged_written kept calls model pending
  obtain rfl : stagedWire content pending calls = value := Except.ok.inj (isValue.symm.trans written)
  have parts := @decode_assistant_parts _ assistant.text assistant.thinking model _ _ (calls.map callContent)
    (signature_decodes kept signed)
  have decodes : decode_content .Assistant (stagedWire content pending calls) internal_id =
      .ok (restoredContent (stagedMessage assistant calls) internal_id) := by
    have found : Json.get (stagedWire content pending calls) "content" = some content := by simp [stagedWire]
    simp only [decode_content,decode_assistant,found]
    rw [isContent]
    simp only [Option.bind_some,Json.as_array,Option.getD_some]
    rw [parts]
    simp [restoredContent,stagedMessage,reindex,bind,Except.bind]
  have role : required_string (stagedWire content pending calls) "role" = .ok "assistant" := by
    simp [stagedWire,required_string,Json.as_str]
  have assistantRole : decode_role "assistant" = .ok .Assistant := rfl
  unfold decode
  rw [show Serde.from_slice (Serde.to_vec (stagedWire content pending calls)) = .ok _ from reads]
  simp only [Except.mapError,bind,Except.bind,role,assistantRole,decodes]
  exact ⟨_,rfl,rfl⟩

theorem options_started (pending : PendingContext) (calls : List ToolCallContent) :
    (Json.get (pendingOptions pending calls) "pendingToolCallStartedAtMs").bind Json.as_u64 = some pending.started_at_ms := by
  simp [pendingOptions,Json.as_u64]

theorem options_error (distinct : (calls.map (·.call_id)).Nodup) {pending : PendingContext}
    (isCalls : pending.tool_calls = some calls) {call : ToolCall} (member : call ∈ calls) :
    (((Json.get (pendingOptions pending (calls.map callContent)) "pendingToolExecutionContracts").bind
      (Json.get · call.call_id)).bind (Json.get · "argumentError")).bind Json.as_str = call.argument_error := by
  let contracts := (calls.map callContent).map fun call => (call.call_id,executionContract pending call)
  have names : (contracts.map (·.1)).Nodup := by simpa [contracts,callContent,Function.comp_def] using distinct
  have options : Json.get (pendingOptions pending (calls.map callContent)) "pendingToolExecutionContracts" = some (object contracts) := by
    rw [pendingOptions,contracts_distinct (executionContract pending) _ []]
    · simp [contracts]
    · simpa [callContent,Function.comp_def] using distinct
  have found : Json.get (object contracts) call.call_id = some (executionContract pending (callContent call)) := by
    have isMember : (call.call_id,executionContract pending (callContent call)) ∈ contracts :=
      List.mem_map_of_mem (List.mem_map_of_mem member)
    rw [get_object names]
    simp only [Json.get]
    rw [(Json.find_name_iff names _ _).mpr ⟨isMember,rfl⟩]
    rfl
  rw [options,Option.bind_some,found,Option.bind_some,contract_error,argumentError,isCalls,Option.bind_some]
  show (calls.find? (·.call_id = call.call_id)).bind (·.argument_error) = call.argument_error
  rw [find_call distinct member]
  rfl

def essentials (call : ToolCall) : String × String × Value × Option String :=
  (call.call_id,call.name,call.arguments,call.argument_error)

theorem recovered_calls {wire : Value} (model_call_id : String)
    (errors : ∀ call ∈ calls, recoveredError wire call.call_id = call.argument_error) : ∀ first : Nat,
    ((reindex first (calls.map callContent)).zipIdx first).map (fun (call,index) =>
      essentials (recoveredCall wire model_call_id call index)) = calls.map essentials ∧
    ((reindex first (calls.map callContent)).zipIdx first).map (fun (call,index) =>
      (recoveredCall wire model_call_id call index).index) = List.range' first calls.length := by
  induction calls with
  | nil => exact fun first => ⟨rfl,rfl⟩
  | cons call rest ih =>
    intro first
    obtain ⟨later,indices⟩ := ih (fun call member => errors call (List.mem_cons_of_mem _ member)) (first + 1)
    have same := errors call List.mem_cons_self
    simp only [reindex,List.map_cons,List.zipIdx_cons] at later indices ⊢
    refine ⟨?_,?_⟩
    · rw [later]
      simp [essentials,recoveredCall,callContent,same]
    · rw [indices]
      simp [recoveredCall,List.range'_succ]

/-- A round that was staged is recovered: its text, thinking and replay state,
    its calls in their order with ids, names, arguments and errors, and the time
    at which it was started. -/
theorem pending_round_recovered (assistant : ToolRoundAssistant) (calls : List ToolCall) (model : String)
    (allowed_tools dynamic_tools : List String) (started_at_ms : Nat) (someCall : calls ≠ [])
    (distinct : (calls.map (·.call_id)).Nodup) (kept : ∀ state, assistant.replay_state = some state → ReplayKept state)
    (reads : ∀ value, wire_message (stagedMessage assistant calls) model
      (some (stagedContext calls allowed_tools dynamic_tools started_at_ms)) = .ok value → ReadsBack value) :
    ∃ staged recovered, staged_tool_round assistant calls model allowed_tools dynamic_tools started_at_ms = .ok staged ∧
      decode_pending staged = .ok recovered ∧ recovered.assistant.text = assistant.text ∧
      recovered.assistant.thinking = assistant.thinking ∧ recovered.assistant.replay_state = assistant.replay_state ∧
      recovered.calls.map essentials = calls.map essentials ∧
      recovered.calls.map (·.index) = List.range calls.length ∧ recovered.started_at_ms = started_at_ms := by
  let pending := stagedContext calls allowed_tools dynamic_tools started_at_ms
  obtain ⟨signature,content,_,_,written⟩ := staged_written kept calls model pending
  have readsBack := reads _ written
  obtain ⟨staged,isStaged⟩ : ∃ staged, Serde.to_vec (stagedWire content pending calls) = staged := ⟨_,rfl⟩
  obtain ⟨message,decoded,isContent⟩ :=
    staged_decodes kept written readsBack s!"cursor-pending:{Base64.encode (Serde.digest staged)}"
  have options (name : String) : Json.pointer (stagedWire content pending calls) ["providerOptions","cursor",name] =
      Json.get (pendingOptions pending (calls.map callContent)) name := by
    simp [Json.pointer,stagedWire]
  have started : (Json.pointer (stagedWire content pending calls) ["providerOptions","cursor","pendingToolCallStartedAtMs"]).bind
      Json.as_u64 = some started_at_ms := by
    rw [options,options_started]
    rfl
  have errors : ∀ call ∈ calls, recoveredError (stagedWire content pending calls) call.call_id = call.argument_error := by
    intro call member
    rw [recoveredError,options]
    exact options_error distinct rfl member
  have notEmpty : (reindex 0 (calls.map callContent)).isEmpty = false := by
    rw [List.isEmpty_eq_false_iff,Ne,reindex_nil_iff,List.map_eq_nil_iff]
    exact someCall
  have isPending : ∃ recovered, decode_pending staged = .ok recovered ∧ recovered.assistant.text = assistant.text ∧
      recovered.assistant.thinking = assistant.thinking ∧ recovered.assistant.replay_state = assistant.replay_state ∧
      (∃ model_call_id, recovered.calls = (reindex 0 (calls.map callContent)).zipIdx.map fun (call,index) =>
        recoveredCall (stagedWire content pending calls) model_call_id call index) ∧
      recovered.started_at_ms = started_at_ms := by
    rw [isStaged] at decoded
    rw [ReadsBack,isStaged] at readsBack
    unfold decode_pending
    simp only [readsBack]
    simp only [Except.mapError,bind,Except.bind,started,decoded,isContent,restoredContent,stagedMessage,notEmpty,
      Bool.false_eq_true,if_false]
    exact ⟨_,rfl,rfl,rfl,rfl,⟨_,rfl⟩,rfl⟩
  obtain ⟨recovered,recovers,text,thinking,replay_state,⟨model_call_id,isCalls⟩,isStarted⟩ := isPending
  obtain ⟨same,indices⟩ := recovered_calls model_call_id errors 0
  refine ⟨staged,recovered,?_,recovers,text,thinking,replay_state,?_,?_,isStarted⟩
  · rw [staged_tool_round,written,← isStaged]
    rfl
  · rw [isCalls,List.map_map]
    exact same
  · rw [isCalls,List.map_map,List.range_eq_range']
    exact indices

end Codec

def reader : ToolCall := ⟨0,"a","model-call","Read","\x7b\"path\":\"/a\"\x7d",.Object [("path",.String "/a")],
  some "Read arguments are not valid JSON"⟩
def grep : ToolCall := ⟨1,"b","model-call","Grep","\x7b\"pattern\":\"x\"\x7d",.Object [("pattern",.String "x")],none⟩
def searching : ToolRoundAssistant := ⟨"before tools","why","model-call",some signature⟩
def disguised : ToolRoundAssistant := { searching with replay_state := some ⟨"cursor_opaque",.String REPLAY_ENVELOPE_PREFIX⟩ }
def unsigned : ToolRoundAssistant := { searching with replay_state := some ⟨"cursor_opaque",.Null⟩ }

def stagedValues : List Value :=
  [searching,disguised].filterMap fun assistant => (@wire_message printing (stagedMessage assistant [reader,grep]) "claude"
    (some (stagedContext [reader,grep] ["Read","Grep"] [] 0))).toOption
def stagedDigests : List String := ["2/OZ2OD+pElzG2slZON74Tvs/uYW9baZukTUYJbZ7sg=",
  "i8jYO9lh2UIknIrkm3LzIAFxghCP2CNWHEC3/BHVmsg="]
@[reducible] def staging : Serde :=
  { printing with
    from_slice := fun data =>
      match stagedValues.find? (fun value => printing.to_vec value = data) with
      | some value => .ok value
      | none => printing.from_slice data
    replay_from_slice := fun data =>
      if data = printing.replay_to_vec signature then .ok signature else printing.replay_from_slice data
    digest := fun data => (((stagedValues.zip stagedDigests).find? fun entry => printing.to_vec entry.1 = data).bind
      fun entry => Base64.decode entry.2).getD [] }

section Example
local instance : Serde := staging
local instance : SerdeText where
  value value := String.ofList (printed value)
  tool _ := ""
  messages _ := ""

theorem pending_round_recovered_search : ∃ staged recovered,
    staged_tool_round searching [reader,grep] "claude" ["Read","Grep"] [] 0 = .ok staged ∧
      decode_pending staged = .ok recovered ∧ recovered.assistant.replay_state = some signature ∧
      recovered.calls.map essentials = [reader,grep].map essentials := by
  have kept : ReplayKept signature := by
    rw [ReplayKept,if_neg (by decide)]
    decide +kernel
  have reads : ∀ value, wire_message (stagedMessage searching [reader,grep]) "claude"
      (some (stagedContext [reader,grep] ["Read","Grep"] [] 0)) = .ok value → ReadsBack value := by
    have checked : (wire_message (stagedMessage searching [reader,grep]) "claude"
        (some (stagedContext [reader,grep] ["Read","Grep"] [] 0))).toOption.all
        (fun value => Serde.from_slice (Serde.to_vec value) = .ok value) = true := by
      decide +kernel
    intro value isValue
    rw [isValue] at checked
    have reads : Serde.from_slice (Serde.to_vec value) = .ok value := by simpa [Except.toOption] using checked
    exact reads
  obtain ⟨staged,recovered,isStaged,recovers,_,_,replay_state,same,_⟩ :=
    pending_round_recovered searching [reader,grep] "claude" ["Read","Grep"] [] 0 (by decide) (by decide)
      (fun state isState => Option.some.inj isState ▸ kept) reads
  exact ⟨staged,recovered,isStaged,recovers,replay_state,same⟩

/-- A signature that begins like an envelope is staged and cannot be read, and
    an opaque state that is no signature is not staged. -/
theorem opaque_round_lost : (∃ staged, staged_tool_round disguised [reader,grep] "claude" ["Read","Grep"] [] 0 = .ok staged ∧
      decode_pending staged = .error
        (.Protocol "invalid My Cursor replay envelope: EOF while parsing a value at line 1 column 0")) ∧
    staged_tool_round unsigned [reader,grep] "claude" ["Read","Grep"] [] 0 =
      .error (.Protocol "Cursor opaque replay state is not a string") := by
  refine ⟨⟨(staged_tool_round disguised [reader,grep] "claude" ["Read","Grep"] [] 0).toOption.getD [],?_,?_⟩,?_⟩
  · decide +kernel
  · decide +kernel
  · decide +kernel

end Example

end MyCursor.PendingRound

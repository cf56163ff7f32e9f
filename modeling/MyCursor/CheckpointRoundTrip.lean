import MyCursor.CheckpointCodec

/-!
# Round trip of checkpoint messages

A history that was encoded for the client and decoded again is projected for
the provider as before, and it is encoded as before again, apart from the ids
of user messages that the client's messages do not keep. What a tool result
refers to as its image is not written.
-/
namespace MyCursor.CheckpointRoundTrip
open Message Projection Text CheckpointCodec
set_option linter.unusedSectionVars false

theorem normalize_tool_name_normalized (name : String) : normalize_tool_name (normalize_tool_name name) = normalize_tool_name name := by
  have keeps : ∀ c : Char, ∀ d, d = (if is_ascii_alphanumeric c || c = '_' || c = '-' then c else '_') →
      (if is_ascii_alphanumeric d || d = '_' || d = '-' then d else '_') = d := by
    intro c d same
    split_ifs at same with allowed
    · rw [same,if_pos allowed]
    · rw [same]
      decide
  unfold normalize_tool_name
  dsimp only
  cases letters : name.toList with
  | nil => decide
  | cons c rest =>
    simp only [List.map_cons,List.isEmpty_cons,Bool.false_eq_true,if_false,String.toList_ofList,List.map_map]
    congr 2
    · exact keeps c _ rfl
    · exact List.map_congr_left fun d _ => keeps d _ rfl

theorem starts_with_append (start text : String) : starts_with (start ++ text) start = true := by
  simp [starts_with,String.toList_append]
theorem stripPrefix_append (start text : String) : stripPrefix (start ++ text) start = some text := by
  rw [stripPrefix,if_pos (starts_with_append start text),String.toList_append,List.drop_left,String.ofList_toList]
theorem stripPrefix_isSome (text start : String) : (stripPrefix text start).isSome = starts_with text start := by
  unfold stripPrefix
  split_ifs with starts
  · simp [starts]
  · simp [starts]

section Codec
variable [Serde]

def reindex (first : Nat) (calls : List ToolCallContent) : List ToolCallContent :=
  (calls.zipIdx first).map fun (call,index) => { call with index }

def restoredId (p : ProjectedMessage) (internal_id : String) : String :=
  match p.content with
  | .Parts _ =>
    if starts_with p.message_id "runtime:" || (decide (p.role = .User) && starts_with p.message_id "request-context:") then
      p.message_id
    else internal_id
  | .Assistant _ _ _ _ => internal_id
  | .ToolResult result => if starts_with result.call_id "runtime:" then result.call_id else internal_id
def restoredContent (p : ProjectedMessage) (internal_id : String) : MessageContent :=
  match p.content with
  | .Parts parts => .Parts parts
  | .Assistant text thinking replay_state calls =>
    .Assistant text thinking (if calls.isEmpty then none else some s!"{internal_id}:tool-round") replay_state
      (reindex 0 calls)
  | .ToolResult result => .ToolResult { result.toToolResultContent with image := none }
/-- The message that is decoded from what is written of a projected one. -/
def restored (p : ProjectedMessage) (internal_id : String) : CanonicalMessage :=
  { message_id := restoredId p internal_id, role := p.role, origin := decode_origin p.role (wire_message_id p),
    content := restoredContent p internal_id, runtime_event_id := stripPrefix (wire_message_id p) "runtime:" }

/-- The text of a JSON value is read back as the value. -/
def ReadsBack (value : Value) : Prop := Serde.from_slice (Serde.to_vec value) = .ok value
/-- An opaque signature of the client is not taken for an envelope, and another
    replay state is read back from its envelope. -/
def ReplayKept (replay_state : ProviderReplayState) : Prop :=
  if replay_state.provider_kind = "cursor_opaque" then
    ∃ signature, replay_state.value = .String signature ∧ starts_with signature REPLAY_ENVELOPE_PREFIX = false
  else Serde.replay_from_slice (Serde.replay_to_vec replay_state) = .ok replay_state

def Shaped (p : ProjectedMessage) : Prop :=
  match p.content with
  | .Parts _ => p.role = .User ∨ p.role = .System
  | .Assistant _ _ replay_state calls => p.role = .Assistant ∧ (∀ state, replay_state = some state → ReplayKept state) ∧
      ∀ call ∈ calls, normalize_tool_name call.name = call.name
  | .ToolResult result => p.role = .Tool ∧ normalize_tool_name result.name = result.name ∧ result.provider_parts = []

theorem decode_role_name (role : Role) : decode_role (role_name role) = .ok role := by
  cases role <;> rfl

theorem decode_encode_replay_state {replay_state : ProviderReplayState} (kept : ReplayKept replay_state)
    {signature : String} (encoded : encode_replay_state replay_state = .ok signature) :
    decode_replay_state signature = .ok replay_state := by
  unfold ReplayKept at kept
  unfold encode_replay_state at encoded
  split_ifs at kept encoded with opaque_
  · obtain ⟨text,isText,plain⟩ := kept
    simp only [isText,Json.as_str,Except.ok.injEq] at encoded
    subst encoded
    unfold decode_replay_state stripPrefix
    simp only [plain,Bool.false_eq_true,if_false]
    rw [← isText,← opaque_]
  · simp only [Except.ok.injEq] at encoded
    subst encoded
    unfold decode_replay_state
    simp only [stripPrefix_append,Base64.decode_encode,kept]

theorem decodePart_wirePart (part : ContentPart) : decodePart (wirePart part) = .ok part := by
  cases part with
  | Text text => simp [decodePart,wirePart,Json.as_str,required_string,bind,Except.bind]
  | Image mime_type data =>
    simp [decodePart,wirePart,Json.as_str,required_string,bind,Except.bind,Base64.decode_encode]
theorem decodeParts_wireParts (parts : List ContentPart) : (parts.map wirePart).mapM decodePart = .ok parts := by
  induction parts with
  | nil => rfl
  | cons part rest ih =>
    rw [List.map_cons,List.mapM_cons,decodePart_wirePart,ih]
    rfl

/-! ## Decoding what was written -/

variable {replay_state : Option ProviderReplayState}

variable {model : String} {p : ProjectedMessage}

theorem decodeAssistantPart_wireCall (decoded : DecodedAssistant) (call : ToolCallContent) : decodeAssistantPart decoded (wireCall call) =
      .ok { decoded with calls := decoded.calls ++ [{ call with index := decoded.calls.length }] } := by
  simp [decodeAssistantPart,wireCall,decodeCall,Json.as_str,required_string,bind,Except.bind]
theorem decodeCalls_wireCalls (calls : List ToolCallContent) : ∀ decoded : DecodedAssistant,
    (calls.map wireCall).foldlM decodeAssistantPart decoded =
      .ok { decoded with calls := decoded.calls ++ reindex decoded.calls.length calls } := by
  induction calls with
  | nil =>
    intro decoded
    simp [reindex,pure,Except.pure]
  | cons call rest ih =>
    intro decoded
    rw [List.map_cons,List.foldlM_cons,decodeAssistantPart_wireCall]
    simp only [bind,Except.bind]
    rw [ih]
    simp [reindex]

theorem decodeAssistantPart_reasoning {thinking : String} {signature : Option String}
    (decodes : signature.mapM decode_replay_state = .ok replay_state) :
    decodeAssistantPart {} (reasoningPart thinking signature model) =
      .ok { text := "", thinking := thinking, calls := [], replay_state := replay_state } := by
  cases signature with
  | none =>
    obtain rfl : none = replay_state := by simpa [pure,Except.pure] using decodes
    simp [decodeAssistantPart,reasoningPart,decodeReasoning,textOf,Json.as_str]
  | some signature =>
    cases found : decode_replay_state signature with
    | error e => simp [found,Functor.map,Except.map] at decodes
    | ok state =>
      obtain rfl : some state = replay_state := by simpa [found,Functor.map,Except.map] using decodes
      simp [decodeAssistantPart,reasoningPart,decodeReasoning,textOf,Json.as_str,found,bind,Except.bind]

theorem decodeAssistantPart_text (decoded : DecodedAssistant) (text : String) :
    decodeAssistantPart decoded (wirePart (.Text text)) = .ok { decoded with text := decoded.text ++ text } := by
  simp [decodeAssistantPart,wirePart,textOf,Json.as_str]

theorem decode_assistant_parts {text thinking model : String} {replay_state : Option ProviderReplayState}
    {signature : Option String} (calls : List ToolCallContent)
    (decodes : signature.mapM decode_replay_state = .ok replay_state) :
    ((if thinking.isEmpty && replay_state.isNone then [] else [reasoningPart thinking signature model]) ++
      (if text.isEmpty then [] else [wirePart (.Text text)]) ++ calls.map wireCall).foldlM decodeAssistantPart {} =
      .ok { text := text, thinking := thinking, calls := reindex 0 calls, replay_state := replay_state } := by
  have reasoning : (if thinking.isEmpty && replay_state.isNone then [] else [reasoningPart thinking signature model]).foldlM
      decodeAssistantPart {} = .ok { text := "", thinking := thinking, calls := [], replay_state := replay_state } := by
    split_ifs with silent
    · simp only [Bool.and_eq_true,String.isEmpty_iff,Option.isNone_iff_eq_none] at silent
      rw [silent.1,silent.2]
      rfl
    · simp [decodeAssistantPart_reasoning decodes]
  have visible : (if text.isEmpty then [] else [wirePart (.Text text)]).foldlM decodeAssistantPart
      { text := "", thinking := thinking, calls := [], replay_state := replay_state } =
      .ok { text := text, thinking := thinking, calls := [], replay_state := replay_state } := by
    split_ifs with silent
    · rw [String.isEmpty_iff.mp silent]
      rfl
    · simp [decodeAssistantPart_text]
  rw [List.foldlM_append,List.foldlM_append,reasoning]
  simp only [bind,Except.bind]
  rw [visible]
  simp only
  rw [decodeCalls_wireCalls]
  rfl

theorem signature_decodes {signature : Option String} (kept : ∀ state, replay_state = some state → ReplayKept state)
    (encoded : replay_state.mapM encode_replay_state = .ok signature) :
    signature.mapM decode_replay_state = .ok replay_state := by
  cases replay_state with
  | none =>
    obtain rfl : none = signature := by simpa [pure,Except.pure] using encoded
    rfl
  | some state =>
    cases found : encode_replay_state state with
    | error e => simp [found,Functor.map,Except.map] at encoded
    | ok text =>
      obtain rfl : some text = signature := by simpa [found,Functor.map,Except.map] using encoded
      simp [decode_encode_replay_state (kept state rfl) found,Functor.map,Except.map]

theorem decode_content_wire {p : ProjectedMessage} {model : String} {content value : Value} (shaped : Shaped p)
    (encoded : wire_content p.content model = .ok content) (isContent : Json.get value "content" = some content)
    (internal_id : String) : decode_content p.role value internal_id = .ok (restoredContent p internal_id) := by
  unfold Shaped at shaped
  cases isParts : p.content with
  | Parts parts =>
    simp only [isParts] at shaped
    simp only [wire_content,isParts,Except.ok.injEq] at encoded
    have text : decode_text value = .ok (.Parts parts) := by
      simp only [decode_text,isContent,← encoded,Option.getD_some,Json.as_str,Json.as_array]
      rw [decodeParts_wireParts]
      rfl
    rcases shaped with role | role <;> simp [decode_content,role,text,restoredContent,isParts]
  | Assistant text thinking replay_state calls =>
    simp only [isParts] at shaped
    obtain ⟨role,kept,_⟩ := shaped
    simp only [wire_content,isParts] at encoded
    cases signed : replay_state.mapM encode_replay_state with
    | error e => simp [signed,bind,Except.bind] at encoded
    | ok signature =>
      simp only [signed,bind,Except.bind,Except.ok.injEq] at encoded
      have parts := @decode_assistant_parts _ text thinking model _ _ calls (signature_decodes kept signed)
      simp only [decode_content,role,decode_assistant,isContent,← encoded,Option.bind_some,Json.as_array,Option.getD_some]
      rw [parts]
      simp [restoredContent,isParts,reindex,bind,Except.bind]
  | ToolResult result =>
    simp only [isParts] at shaped
    simp only [wire_content,isParts,Except.ok.injEq] at encoded
    simp [decode_content,shaped.1,decode_tool_result,isContent,← encoded,Json.as_array,Json.as_str,Json.as_bool,
      required_string,restoredContent,isParts,bind,Except.bind]

theorem restoredId_eq (shaped : Shaped p) (internal_id : String) : (if (stripPrefix (wire_message_id p) "runtime:").isSome ||
        (decide (p.role = .User) && starts_with (wire_message_id p) "request-context:") then wire_message_id p
      else internal_id) = restoredId p internal_id := by
  rw [stripPrefix_isSome]
  unfold Shaped at shaped
  unfold restoredId wire_message_id
  cases isContent : p.content with
  | Parts parts => rfl
  | Assistant text thinking replay_state calls =>
    simp only [isContent] at shaped
    simp only [shaped.1]
    rfl
  | ToolResult result =>
    simp only [isContent] at shaped
    simp [shaped.1]

theorem decode_wire {value : Value} (shaped : Shaped p)
    (encoded : wire_message p model none = .ok value) (reads : ReadsBack value) (internal_id : String) :
    decode (Serde.to_vec value) internal_id = .ok (restored p internal_id) := by
  cases isContent : wire_content p.content model with
  | error e => simp [wire_message,isContent,bind,Except.bind] at encoded
  | ok content =>
    have isValue : value = object [("role",.String (role_name p.role)),("content",content),
        ("id",.String (wire_message_id p))] := by
      simp only [wire_message,isContent,bind,Except.bind,Except.ok.injEq] at encoded
      rw [← encoded]
      cases p.content <;> simp
    have decodes := @decode_content_wire _ p model content value shaped isContent (by simp [isValue]) internal_id
    have role : required_string value "role" = .ok (role_name p.role) := by simp [isValue,required_string,Json.as_str]
    have wire_id : ((Json.get value "id").bind Json.as_str).getD "" = wire_message_id p := by
      simp [isValue,Json.as_str]
    unfold decode
    rw [show Serde.from_slice (Serde.to_vec value) = .ok value from reads]
    simp only [Except.mapError,bind,Except.bind,role,decode_role_name,wire_id,decodes,restoredId_eq shaped]
    rfl

/-- What is made of root messages and their blobs, from the given ordinal on. -/
def zipRoots {α : Type} (f : ProjectedMessage → String → α) : Nat → List ProjectedMessage → List (List UInt8) → List α
  | ordinal, p :: rest, data :: others => f p (rootId data ordinal) :: zipRoots f (ordinal + 1) rest others
  | _, _, _ => []

theorem mapM_cons_ok {α β : Type} {f : α → Except Error β} {a : α} {rest : List α} {results : List β}
    (done : (a :: rest).mapM f = .ok results) : ∃ b others, f a = .ok b ∧ rest.mapM f = .ok others ∧ results = b :: others := by
  rw [List.mapM_cons] at done
  cases first : f a with
  | error e => simp [first,bind,Except.bind] at done
  | ok b =>
    cases later : rest.mapM f with
    | error e => simp [first,later,bind,Except.bind] at done
    | ok others =>
      simp only [first,later,bind,Except.bind,pure,Except.pure,Except.ok.injEq] at done
      exact ⟨b,others,rfl,rfl,done.symm⟩

variable {data : List UInt8}

theorem wireBytes_ok (encoded : wireBytes model p = .ok data) :
    ∃ value, wire_message p model none = .ok value ∧ data = Serde.to_vec value := by
  unfold wireBytes at encoded
  cases written : wire_message p model none with
  | error e => simp [written,bind,Except.bind] at encoded
  | ok value =>
    simp only [written,bind,Except.bind,Except.ok.injEq] at encoded
    exact ⟨value,rfl,encoded.symm⟩

theorem hydrate_wires {roots : List ProjectedMessage} (shaped : ∀ root ∈ roots, Shaped root)
    (reads : ∀ root ∈ roots, ∀ value, wire_message root model none = .ok value → ReadsBack value) :
    ∀ {wires : List (List UInt8)} (ordinal : Nat), roots.mapM (wireBytes model) = .ok wires →
      ((wires.zipIdx ordinal).mapM fun (data,ordinal) => decode data (rootId data ordinal)) =
        .ok (zipRoots restored ordinal roots wires) := by
  induction roots with
  | nil =>
    intro wires ordinal encoded
    obtain rfl : [] = wires := by simpa [pure,Except.pure] using encoded
    rfl
  | cons root rest ih =>
    intro wires ordinal encoded
    obtain ⟨data,others,first,later,rfl⟩ := mapM_cons_ok encoded
    obtain ⟨value,written,rfl⟩ := wireBytes_ok first
    have decoded := decode_wire (shaped root (by simp)) written (reads root (by simp) value written)
      (rootId (Serde.to_vec value) ordinal)
    have hydrated := ih (fun root member => shaped root (List.mem_cons_of_mem _ member))
      (fun root member => reads root (List.mem_cons_of_mem _ member)) (ordinal + 1) later
    rw [List.zipIdx_cons,List.mapM_cons,hydrated]
    simp only [decoded]
    rfl

/-! ## Histories are projected round by round -/

variable {group_id : ToolRoundId}

/-- The messages that the engine persists. -/
def Persisted (m : CanonicalMessage) : Prop :=
  match m.content with
  | .Parts _ => m.role = .User
  | .Assistant _ _ tool_round_id replay_state tool_calls => m.role = .Assistant ∧
      (tool_round_id = none → tool_calls = []) ∧ ∀ state, replay_state = some state → ReplayKept state
  | .ToolResult _ => m.role = .Tool

/-- A projected history is made of single messages and of rounds: a message
    with calls, followed by one result for each of them. -/
inductive Settled : List ProjectedMessage → Prop where
  | nil : Settled []
  | single {p : ProjectedMessage} {rest : List ProjectedMessage} (shaped : Shaped p) (ours : p.role ≠ .System)
      (noCalls : ∀ text thinking replay_state calls, p.content = .Assistant text thinking replay_state calls → calls = [])
      (later : Settled rest) : Settled (p :: rest)
  | round {head : ProjectedMessage} {text thinking : String} {replay_state : Option ProviderReplayState}
      {calls : List ToolCallContent} {results : List (String × ProjectedToolResult)} {rest : List ProjectedMessage}
      (isHead : head.content = .Assistant text thinking replay_state calls) (shaped : Shaped head) (some_call : calls ≠ [])
      (own : ∀ result ∈ results, ∃ call ∈ calls, call.call_id = result.2.call_id)
      (once : (results.map (·.2.call_id)).Nodup) (all : ∀ call ∈ calls, ∃ result ∈ results, result.2.call_id = call.call_id)
      (normal : ∀ result ∈ results, Shaped ⟨result.1,.Tool,.ToolResult result.2⟩)
      (apart : ∀ p result, rest.head? = some p → p.content = .ToolResult result → ∀ call ∈ calls, call.call_id ≠ result.call_id)
      (later : Settled rest) :
    Settled (head :: (results.map (fun result => (⟨result.1,.Tool,.ToolResult result.2⟩ : ProjectedMessage)) ++ rest))

structure Collected (group : Group) : Prop where
  own : ∀ result ∈ group.results, ∃ call ∈ group.calls, call.call_id = result.2.call_id
  once : (group.results.map (·.2.call_id)).Nodup
  normal : ∀ call ∈ group.calls, normalize_tool_name call.name = call.name
  replay : ∀ state, group.replay_state = some state → ReplayKept state

variable {group : Group}

theorem Collected.addAssistant (collected : Collected group) {text thinking : String} {tool_calls : List ToolCallContent}
    (kept : ∀ state, replay_state = some state → ReplayKept state) :
    Collected (group.addAssistant text thinking replay_state tool_calls) := by
  refine ⟨?_,collected.once,?_,?_⟩
  · intro result member
    obtain ⟨call,isCall,same⟩ := collected.own result member
    exact ⟨call,List.mem_append_left _ isCall,same⟩
  · intro call member
    rcases List.mem_append.mp member with earlier | new
    · exact collected.normal call earlier
    · obtain ⟨_,_,rfl⟩ := List.mem_map.mp new
      exact normalize_tool_name_normalized _
  · intro state isState
    rcases Option.or_eq_some_iff.mp isState with earlier | ⟨_,new⟩
    · exact collected.replay state earlier
    · exact kept state new
theorem Collected.addResult (collected : Collected group) {message_id : String} {result : ToolResultContent}
    (called : group.hasCall result.call_id = true) (first : group.hasResult result.call_id = false) :
    Collected (group.addResult message_id result) := by
  refine ⟨?_,?_,collected.normal,collected.replay⟩
  · intro one member
    rcases List.mem_append.mp member with earlier | new
    · exact collected.own one earlier
    · rw [List.mem_singleton.mp new]
      simpa [Group.hasCall,Group.addResult] using called
  · simp only [Group.addResult,List.map_append,List.map_cons,List.map_nil]
    refine List.nodup_append.mpr ⟨collected.once,List.nodup_singleton _,?_⟩
    intro id earlier other new
    rw [List.mem_singleton.mp new]
    obtain ⟨one,member,rfl⟩ := List.mem_map.mp earlier
    have := List.any_eq_false.mp first one member
    simpa using this

variable {messages : List CanonicalMessage}

theorem collect_collected {left : List CanonicalMessage}
    (persisted : ∀ m ∈ messages, Persisted m) : ∀ {group after : Group}, Collected group →
      collect group_id group messages = .ok (after,left) → Collected after ∧ group.calls ⊆ after.calls ∧
        ∀ m result, left.head? = some m → m.content = .ToolResult result → after.hasCall result.call_id = false := by
  induction messages with
  | nil =>
    intro group after collected done
    simp only [collect,Except.ok.injEq,Prod.mk.injEq] at done
    obtain ⟨rfl,rfl⟩ := done
    exact ⟨collected,List.Subset.refl _,by simp⟩
  | cons m rest ih =>
    intro group after collected done
    have later := @ih fun m member => persisted m (List.mem_cons_of_mem _ member)
    have isPersisted := persisted m (by simp)
    -- The round ends before the message, which is no result of one of its calls.
    have stops : (∀ result, m.content = .ToolResult result → group.hasCall result.call_id = false) →
        (.ok (group,m :: rest) : Except Error (Group × List CanonicalMessage)) = .ok (after,left) →
        Collected after ∧ group.calls ⊆ after.calls ∧
          ∀ m result, left.head? = some m → m.content = .ToolResult result → after.hasCall result.call_id = false := by
      intro other same
      simp only [Except.ok.injEq,Prod.mk.injEq] at same
      obtain ⟨rfl,rfl⟩ := same
      refine ⟨collected,List.Subset.refl _,?_⟩
      intro first result isFirst
      simp only [List.head?_cons,Option.some.injEq] at isFirst
      exact isFirst ▸ other result
    unfold Persisted at isPersisted
    cases content : m.content with
    | Parts parts =>
      simp only [collect,content] at done
      exact stops (by simp [content]) done
    | ToolResult result =>
      simp only [collect,content] at done
      split_ifs at done with uncalled repeated
      · refine stops ?_ done
        intro result' same
        rw [content,MessageContent.ToolResult.injEq] at same
        simpa [← same] using uncalled
      · have called : group.hasCall result.call_id = true := by simpa using uncalled
        obtain ⟨collected,more,outside⟩ := later (collected.addResult called (by simpa using repeated)) done
        exact ⟨collected,more,outside⟩
    | Assistant text thinking tool_round_id replay_state tool_calls =>
      simp only [content] at isPersisted
      cases tool_round_id with
      | none =>
        simp only [collect,content] at done
        exact stops (by simp [content]) done
      | some candidate =>
        simp only [collect,content] at done
        split_ifs at done with other repeated
        · exact stops (by simp [content]) done
        · obtain ⟨collected,more,outside⟩ := later (collected.addAssistant isPersisted.2.2) done
          exact ⟨collected,List.Subset.trans (List.subset_append_left _ _) more,outside⟩

variable {projected : List ProjectedMessage}

theorem closeGroup_ok {message_id : String} (closed : closeGroup message_id group = .ok projected) :
    projected = ⟨message_id,.Assistant,.Assistant group.text group.thinking group.replay_state (sortCalls group.calls)⟩ ::
        group.results.map (fun result => ⟨result.1,.Tool,.ToolResult (normalized_tool_result result.2)⟩) ∧
      ∀ call ∈ group.calls, ∃ result ∈ group.results, result.2.call_id = call.call_id := by
  unfold closeGroup at closed
  dsimp only at closed
  split at closed
  · cases closed
  · rename_i all
    simp only [Except.ok.injEq] at closed
    refine ⟨closed.symm,?_⟩
    intro call member
    have := List.find?_eq_none.mp all call ((List.perm_insertionSort _ _).mem_iff.mpr member)
    simpa [Group.hasResult] using this

variable {m : CanonicalMessage} {rest : List CanonicalMessage}

theorem project_tool_round_some {left : List CanonicalMessage} (found : project_tool_round m rest = .ok (some (projected,left))) :
    ∃ group_id group, roundStart m = some group_id ∧ collect group_id {} (m :: rest) = .ok (group,left) ∧
      closeGroup m.message_id group = .ok projected := by
  unfold project_tool_round at found
  cases start : roundStart m with
  | none => simp [start] at found
  | some group_id =>
    simp only [start] at found
    cases collected : collect group_id {} (m :: rest) with
    | error e => simp [collected,bind,Except.bind] at found
    | ok pair =>
      obtain ⟨group,left'⟩ := pair
      simp only [collected,bind,Except.bind] at found
      cases closed : closeGroup m.message_id group with
      | error e => simp [closed] at found
      | ok messages =>
        simp only [closed,Except.ok.injEq,Option.some.injEq,Prod.mk.injEq] at found
        obtain ⟨rfl,rfl⟩ := found
        exact ⟨group_id,group,rfl,collected,closed⟩
theorem project_tool_round_none (found : project_tool_round m rest = .ok none) : roundStart m = none := by
  unfold project_tool_round at found
  cases start : roundStart m with
  | none => rfl
  | some group_id =>
    simp only [start] at found
    cases collected : collect group_id {} (m :: rest) with
    | error e => simp [collected,bind,Except.bind] at found
    | ok pair =>
      simp only [collected,bind,Except.bind] at found
      cases closed : closeGroup m.message_id pair.1 <;> simp [closed] at found

theorem collect_start (start : roundStart m = some group_id) (rest : List CanonicalMessage) : ∃ text thinking replay_state tool_calls,
      m.content = .Assistant text thinking (some group_id) replay_state tool_calls ∧ tool_calls ≠ [] ∧ collect group_id {} (m :: rest) =
          collect group_id (({} : Group).addAssistant text thinking replay_state tool_calls) rest := by
  unfold roundStart at start
  split at start
  · rename_i text thinking group_id' replay_state tool_calls content
    split_ifs at start with empty
    obtain rfl : group_id' = group_id := by simpa using start
    refine ⟨text,thinking,replay_state,tool_calls,content,by simpa using empty,?_⟩
    simp [collect,content,empty]
  · cases start

theorem project_cons_ok (done : project_messages (m :: rest) = .ok projected) :
    (∃ later, project_tool_round m rest = .ok none ∧ project_messages rest = .ok later ∧ projected = project_message m :: later) ∨
    ∃ round left later, project_tool_round m rest = .ok (some (round,left)) ∧ project_messages left = .ok later ∧
      projected = round ++ later := by
  rw [project_messages_cons] at done
  cases found : project_tool_round m rest with
  | error e => simp [found,bind,Except.bind] at done
  | ok round =>
    simp only [found,bind,Except.bind] at done
    cases round with
    | none =>
      cases others : project_messages rest with
      | error e => simp [others] at done
      | ok later =>
        simp only [others,Except.ok.injEq] at done
        exact .inl ⟨later,rfl,rfl,done.symm⟩
    | some pair =>
      obtain ⟨round,left⟩ := pair
      cases others : project_messages left with
      | error e => simp [others] at done
      | ok later =>
        simp only [others,Except.ok.injEq] at done
        exact .inr ⟨round,left,later,rfl,others,done.symm⟩

theorem project_head_result (done : project_messages messages = .ok projected) {result : ProjectedToolResult}
    (first : projected.head? = some p) (isResult : p.content = .ToolResult result) :
    ∃ m stored, messages.head? = some m ∧ m.content = .ToolResult stored ∧ stored.call_id = result.call_id := by
  cases messages with
  | nil =>
    obtain rfl : [] = projected := by simpa [project_messages,projectLoop] using done
    cases first
  | cons m rest =>
    rcases project_cons_ok done with ⟨later,_,_,rfl⟩ | ⟨round,left,later,found,_,rfl⟩
    · simp only [List.head?_cons,Option.some.injEq] at first
      subst first
      cases content : m.content with
      | ToolResult stored =>
        simp only [project_message,content,ProjectedContent.ToolResult.injEq] at isResult
        exact ⟨m,stored,rfl,content,by rw [← isResult]; rfl⟩
      | Parts | Assistant => simp [project_message,content] at isResult
    · obtain ⟨_,group,_,_,closed⟩ := project_tool_round_some found
      rw [(closeGroup_ok closed).1] at first
      simp only [List.cons_append,List.head?_cons,Option.some.injEq] at first
      rw [← first] at isResult
      cases isResult

theorem project_message_shaped (persisted : Persisted m) : Shaped (project_message m) ∧ (project_message m).role ≠ .System := by
  unfold Persisted at persisted
  unfold Shaped project_message
  cases content : m.content with
  | Parts parts =>
    simp only [content] at persisted
    simp [persisted]
  | Assistant text thinking tool_round_id replay_state tool_calls =>
    simp only [content] at persisted
    refine ⟨⟨persisted.1,persisted.2.2,?_⟩,by simp [persisted.1]⟩
    intro call member
    obtain ⟨_,_,rfl⟩ := List.mem_map.mp member
    exact normalize_tool_name_normalized _
  | ToolResult result =>
    simp only [content] at persisted
    exact ⟨⟨persisted,normalize_tool_name_normalized _,rfl⟩,by simp [persisted]⟩

theorem project_settled : ∀ {projected : List ProjectedMessage},
    (∀ m ∈ messages, Persisted m) → project_messages messages = .ok projected → Settled projected := by
  induction length : messages.length using Nat.strongRecOn generalizing messages with
  | ind n ih =>
    intro projected persisted done
    subst length
    cases messages with
    | nil =>
      obtain rfl : [] = projected := by simpa [project_messages,projectLoop] using done
      exact .nil
    | cons m rest =>
      rcases project_cons_ok done with ⟨later,found,others,rfl⟩ | ⟨round,left,later,found,others,rfl⟩
      · obtain ⟨shaped,ours⟩ := project_message_shaped (persisted m (by simp))
        refine .single shaped ours ?_ (ih rest.length (by simp) rfl
          (fun m member => persisted m (List.mem_cons_of_mem _ member)) others)
        -- Only a round has calls.
        have start := project_tool_round_none found
        have isPersisted := persisted m (by simp)
        intro text thinking replay_state calls isAssistant
        unfold Persisted at isPersisted
        cases content : m.content with
        | Parts | ToolResult => simp [project_message,content] at isAssistant
        | Assistant text' thinking' tool_round_id replay' tool_calls =>
          simp only [content] at isPersisted
          have empty : tool_calls = [] := by
            cases tool_round_id with
            | none => exact isPersisted.2.1 rfl
            | some group_id => simpa [roundStart,content] using start
          simp only [project_message,content,empty,List.map_nil,ProjectedContent.Assistant.injEq] at isAssistant
          exact isAssistant.2.2.2.symm
      · obtain ⟨group_id,group,start,collected,closed⟩ := project_tool_round_some found
        have suffix := project_tool_round_left found
        obtain ⟨_,_,_,tool_calls,content,some_call,began⟩ := collect_start start rest
        have isPersisted := persisted m (by simp)
        unfold Persisted at isPersisted
        simp only [content] at isPersisted
        have empty : Collected {} := ⟨by simp,by simp,by simp,by simp⟩
        obtain ⟨facts,more,outside⟩ := collect_collected (fun m member => persisted m (List.mem_cons_of_mem _ member))
          (empty.addAssistant isPersisted.2.2) (began.symm.trans collected)
        obtain ⟨rfl,all⟩ := closeGroup_ok closed
        have sorted : ∀ call, call ∈ sortCalls group.calls ↔ call ∈ group.calls :=
          fun call => (List.perm_insertionSort _ _).mem_iff
        have settled := ih left.length (by simp; have := suffix.length_le; omega) rfl
          (fun m member => persisted m (List.mem_cons_of_mem _ (suffix.subset member))) others
        have isRound := @Settled.round _ ⟨m.message_id,.Assistant,.Assistant group.text group.thinking group.replay_state
          (sortCalls group.calls)⟩ group.text group.thinking group.replay_state (sortCalls group.calls)
          (group.results.map fun result => (result.1,normalized_tool_result result.2)) later rfl ?_ ?_ ?_ ?_ ?_ ?_ ?_ settled
        · simpa [Function.comp_def] using isRound
        · exact ⟨rfl,facts.replay,fun call member => facts.normal call ((sorted call).mp member)⟩
        · obtain ⟨first,isFirst⟩ := List.exists_mem_of_ne_nil _ some_call
          have member : normalized_tool_call first ∈ group.calls :=
            more (List.mem_append_right _ (List.mem_map_of_mem isFirst))
          exact List.ne_nil_of_mem ((sorted _).mpr member)
        · intro result member
          obtain ⟨one,isOne,rfl⟩ := List.mem_map.mp member
          obtain ⟨call,isCall,same⟩ := facts.own one isOne
          exact ⟨call,(sorted call).mpr isCall,same⟩
        · simpa [Function.comp_def,normalized_tool_result] using facts.once
        · intro call member
          obtain ⟨one,isOne,same⟩ := all call ((sorted call).mp member)
          exact ⟨_,List.mem_map_of_mem isOne,same⟩
        · intro result member
          obtain ⟨one,isOne,rfl⟩ := List.mem_map.mp member
          exact ⟨rfl,normalize_tool_name_normalized _,rfl⟩
        · intro p result first isResult call member same
          obtain ⟨m',stored,isFirst,isStored,sameId⟩ := project_head_result others first isResult
          have uncalled := List.any_eq_false.mp (outside m' stored isFirst isStored) call ((sorted call).mp member)
          exact uncalled (by simp [same,sameId])

def erased (p : ProjectedMessage) (internal_id : String) : ProjectedMessage :=
  { message_id := restoredId p internal_id, role := p.role,
    content := match p.content with
      | .Parts parts => .Parts parts
      | .Assistant text thinking replay_state calls => .Assistant text thinking replay_state (reindex 0 calls)
      | .ToolResult result => .ToolResult { result with image := none, provider_parts := [] } }

section
variable (calls : List ToolCallContent)
include calls

theorem reindex_ids : ∀ first, (reindex first calls).map (·.call_id) = calls.map (·.call_id) := by
  induction calls with
  | nil => exact fun _ => rfl
  | cons call rest ih =>
    intro first
    have := ih (first + 1)
    simpa [reindex] using this
theorem reindex_normal (normal : ∀ call ∈ calls, normalize_tool_name call.name = call.name) :
    ∀ first, (reindex first calls).map normalized_tool_call = reindex first calls := by
  induction calls with
  | nil => exact fun _ => rfl
  | cons call rest ih =>
    intro first
    have later := ih (fun call member => normal call (List.mem_cons_of_mem _ member)) (first + 1)
    simp only [reindex,List.zipIdx_cons,List.map_cons] at later ⊢
    rw [later]
    simp [normalized_tool_call,normal call (by simp)]
theorem reindex_sorted : ∀ first,
    (reindex first calls).Pairwise (fun a b => a.index ≤ b.index) ∧ ∀ call ∈ reindex first calls, first ≤ call.index := by
  induction calls with
  | nil => exact fun _ => ⟨List.Pairwise.nil,by simp [reindex]⟩
  | cons call rest ih =>
    intro first
    obtain ⟨sorted,later⟩ := ih (first + 1)
    simp only [reindex,List.zipIdx_cons,List.map_cons] at sorted later ⊢
    refine ⟨List.pairwise_cons.mpr ⟨fun one member => ?_,sorted⟩,?_⟩
    · have := later one member
      show first ≤ one.index
      omega
    · intro one member
      rcases List.mem_cons.mp member with rfl | member
      · exact le_refl _
      · have := later one member
        omega
theorem sortCalls_reindex : sortCalls (reindex 0 calls) = reindex 0 calls :=
  (reindex_sorted calls 0).1.insertionSort_eq
theorem reindex_nil_iff : reindex 0 calls = [] ↔ calls = [] := by
  rw [← @List.map_eq_nil_iff _ _ fun call : ToolCallContent => call.call_id,reindex_ids,List.map_eq_nil_iff]

end

theorem roundId_injective {other : List UInt8} {i j : Nat}
    (same : s!"{rootId data i}:tool-round" = s!"{rootId other j}:tool-round") : i = j := by
  have letters : ∀ (data : List UInt8) (n : Nat), (rootId data n).toList =
      ("cursor-root:".toList ++ (Base64.encode (Serde.digest data)).toList) ++ ':' :: Nat.toDigits 10 n := by
    intro data n
    have isRoot : rootId data n = "cursor-root:" ++ Base64.encode (Serde.digest data) ++ ":" ++ n.repr := rfl
    rw [isRoot]
    simp only [String.toList_append,Nat.toList_repr]
    simp
  have roots : rootId data i = rootId other j := by
    have joined : rootId data i ++ ":tool-round" = rootId other j ++ ":tool-round" := same
    have lists := congrArg String.toList joined
    rw [String.toList_append,String.toList_append] at lists
    exact String.toList_inj.mp (List.append_cancel_right lists)
  have lists := congrArg String.toList roots
  rw [letters,letters] at lists
  exact Text.numbered_inj (by decide) lists

theorem zipRoots_append {α : Type} (f : ProjectedMessage → String → α) (ps qs : List ProjectedMessage) :
    ∀ (ordinal : Nat) (first second : List (List UInt8)), first.length = ps.length → zipRoots f ordinal (ps ++ qs) (first ++ second) =
        zipRoots f ordinal ps first ++ zipRoots f (ordinal + ps.length) qs second := by
  induction ps with
  | nil =>
    intro ordinal first second same
    obtain rfl := List.length_eq_zero_iff.mp same
    rfl
  | cons p rest ih =>
    intro ordinal first second same
    cases first with
    | nil => cases same
    | cons data others =>
      simp only [List.cons_append,zipRoots,List.cons.injEq,true_and]
      rw [ih (ordinal + 1) others second (by simpa using same),List.length_cons]
      congr 2
      omega

def resultMessage (result : String × ProjectedToolResult) : ProjectedMessage := ⟨result.1,.Tool,.ToolResult result.2⟩

theorem collect_results {group_id : ToolRoundId} {later : List CanonicalMessage}
    (results : List (String × ProjectedToolResult)) : ∀ (ordinal : Nat) (wires : List (List UInt8)) (group : Group),
      wires.length = results.length → (∀ result ∈ results, Shaped (resultMessage result)) →
      (∀ result ∈ results, group.hasCall result.2.call_id = true) →
      (group.results.map (·.2.call_id) ++ results.map (·.2.call_id)).Nodup →
      ∃ added, collect group_id group (zipRoots restored ordinal (results.map resultMessage) wires ++ later) =
          collect group_id { group with results := group.results ++ added } later ∧
        added.map (fun one => (⟨one.1,.Tool,.ToolResult (normalized_tool_result one.2)⟩ : ProjectedMessage)) =
          zipRoots erased ordinal (results.map resultMessage) wires ∧
        added.map (·.2.call_id) = results.map (·.2.call_id) := by
  induction results with
  | nil =>
    intro ordinal wires group same _ _ _
    exact ⟨[],by simp [zipRoots],by simp [zipRoots],rfl⟩
  | cons result rest ih =>
    intro ordinal wires group same shaped called distinct
    cases wires with
    | nil => cases same
    | cons data others =>
      obtain ⟨_,normal,noParts⟩ := shaped result (by simp)
      let one : String × ToolResultContent :=
        (restoredId (resultMessage result) (rootId data ordinal),{ result.2.toToolResultContent with image := none })
      have isCalled : group.hasCall result.2.call_id = true := called result (by simp)
      have isFirst : group.hasResult result.2.call_id = false := by
        rw [Group.hasResult,List.any_eq_false]
        intro earlier member
        have apart := (List.nodup_append.mp distinct).2.2 earlier.2.call_id (List.mem_map_of_mem member)
          result.2.call_id (by simp)
        simpa using apart
      obtain ⟨added,collected,projected,ids⟩ := ih (ordinal + 1) others (group.addResult one.1 one.2) (by simpa using same)
        (fun result member => shaped result (List.mem_cons_of_mem _ member))
        (fun result member => called result (List.mem_cons_of_mem _ member))
        (by simpa [Group.addResult,one] using distinct)
      refine ⟨one :: added,?_,?_,?_⟩
      · have step : collect group_id group
            (zipRoots restored ordinal ((result :: rest).map resultMessage) (data :: others) ++ later) =
            collect group_id (group.addResult one.1 one.2)
              (zipRoots restored (ordinal + 1) (rest.map resultMessage) others ++ later) := by
          simp [zipRoots,collect,restored,restoredContent,resultMessage,isCalled,isFirst,one]
        rw [step,collected]
        simp [Group.addResult]
      · simp only [List.map_cons,zipRoots,List.cons.injEq]
        refine ⟨?_,projected⟩
        simp [erased,resultMessage,normalized_tool_result,one,normal]
      · simp only [List.map_cons,ids]
        rfl

theorem collect_ends {later : List CanonicalMessage} (ends : ∀ m, later.head? = some m →
      (∀ result, m.content = .ToolResult result → group.hasCall result.call_id = false) ∧ roundStart m ≠ some group_id) :
    collect group_id group later = .ok (group,later) := by
  cases later with
  | nil => rfl
  | cons m rest =>
    obtain ⟨uncalled,other⟩ := ends m rfl
    cases content : m.content with
    | ToolResult result => simp [collect,content,uncalled result content]
    | Parts | Assistant => exact collect_stops group rest (by simp [content]) other

theorem project_message_restored (shaped : Shaped p) (internal_id : String) :
    project_message (restored p internal_id) = erased p internal_id := by
  unfold Shaped at shaped
  cases content : p.content with
  | Parts parts => simp [project_message,restored,restoredContent,erased,content]
  | Assistant text thinking replay_state calls =>
    simp only [content] at shaped
    have normal := reindex_normal calls shaped.2.2 0
    simp [project_message,restored,restoredContent,erased,content,normal]
  | ToolResult result =>
    simp only [content] at shaped
    simp [project_message,restored,restoredContent,erased,content,normalized_tool_result,shaped.2.1]

theorem restored_roundStart (p : ProjectedMessage) (internal_id : String) : roundStart (restored p internal_id) = match p.content with
      | .Assistant _ _ _ calls => if calls.isEmpty then none else some s!"{internal_id}:tool-round"
      | _ => none := by
  cases content : p.content with
  | Parts | ToolResult => simp [roundStart,restored,restoredContent,content]
  | Assistant text thinking replay_state calls =>
    cases calls with
    | nil => simp [roundStart,restored,restoredContent,content]
    | cons call rest => simp [roundStart,restored,restoredContent,content,reindex]
theorem restored_roundStart_ne (p : ProjectedMessage) {other : List UInt8} {i j : Nat} (different : i ≠ j) :
    roundStart (restored p (rootId data i)) ≠ some s!"{rootId other j}:tool-round" := by
  rw [restored_roundStart]
  cases p.content with
  | Parts | ToolResult => simp
  | Assistant text thinking replay_state calls =>
    dsimp only
    split_ifs
    · simp
    · intro same
      exact different (roundId_injective (Option.some.inj same))

theorem reindex_mem {calls : List ToolCallContent} {call_id : String} :
    (∃ call ∈ reindex 0 calls, call.call_id = call_id) ↔ ∃ call ∈ calls, call.call_id = call_id := by
  have ids : call_id ∈ (reindex 0 calls).map (·.call_id) ↔ call_id ∈ calls.map (·.call_id) := by rw [reindex_ids]
  simpa using ids

theorem project_restored_round {head : ProjectedMessage} {text thinking : String}
    {replay_state : Option ProviderReplayState} {calls : List ToolCallContent}
    {results : List (String × ProjectedToolResult)} {later : List CanonicalMessage} {data : List UInt8}
    {wires : List (List UInt8)} {ordinal : Nat}
    (isHead : head.content = .Assistant text thinking replay_state calls) (shaped : Shaped head) (some_call : calls ≠ [])
    (own : ∀ result ∈ results, ∃ call ∈ calls, call.call_id = result.2.call_id)
    (once : (results.map (·.2.call_id)).Nodup) (all : ∀ call ∈ calls, ∃ result ∈ results, result.2.call_id = call.call_id)
    (normal : ∀ result ∈ results, Shaped (resultMessage result)) (same : wires.length = results.length)
    (ends : ∀ m, later.head? = some m → (∀ result, m.content = .ToolResult result → ∀ call ∈ calls, call.call_id ≠ result.call_id) ∧
        roundStart m ≠ some s!"{rootId data ordinal}:tool-round") :
    project_tool_round (restored head (rootId data ordinal))
        (zipRoots restored (ordinal + 1) (results.map resultMessage) wires ++ later) =
      .ok (some (erased head (rootId data ordinal) :: zipRoots erased (ordinal + 1) (results.map resultMessage) wires,later)) := by
  obtain ⟨role,_,names⟩ : head.role = .Assistant ∧ (∀ state, replay_state = some state → ReplayKept state) ∧
      ∀ call ∈ calls, normalize_tool_name call.name = call.name := by simpa [Shaped,isHead] using shaped
  have content : (restored head (rootId data ordinal)).content = .Assistant text thinking
      (some s!"{rootId data ordinal}:tool-round") replay_state (reindex 0 calls) := by
    simp [restored,restoredContent,isHead,some_call]
  have start : roundStart (restored head (rootId data ordinal)) = some s!"{rootId data ordinal}:tool-round" := by
    rw [restored_roundStart,isHead]
    simp [some_call]
  -- The round after its first message, and after its results.
  let opened : Group := ({} : Group).addAssistant text thinking replay_state (reindex 0 calls)
  have isOpened : opened = ⟨text,thinking,replay_state,reindex 0 calls,[]⟩ := by
    simp only [opened,Group.addAssistant,reindex_normal calls names 0]
    simp
  have hasCall : ∀ call_id, opened.hasCall call_id = true ↔ ∃ call ∈ calls, call.call_id = call_id := by
    intro call_id
    rw [isOpened,← reindex_mem]
    simp [Group.hasCall]
  obtain ⟨added,collected,projected,ids⟩ := @collect_results _ s!"{rootId data ordinal}:tool-round" later results
    (ordinal + 1) wires opened same normal (fun result member => (hasCall _).mpr (own result member))
    (by rw [isOpened]; simpa using once)
  have ended : collect s!"{rootId data ordinal}:tool-round" { opened with results := opened.results ++ added } later =
      .ok ({ opened with results := opened.results ++ added },later) := by
    refine collect_ends fun m first => ⟨fun result isResult => ?_,(ends m first).2⟩
    have outside := (ends m first).1 result isResult
    have : ¬ opened.hasCall result.call_id = true := by
      rw [hasCall]
      rintro ⟨call,member,same⟩
      exact outside call member same
    exact Bool.eq_false_iff.mpr this
  have closed : closeGroup (restored head (rootId data ordinal)).message_id
      { opened with results := opened.results ++ added } =
      .ok (erased head (rootId data ordinal) :: zipRoots erased (ordinal + 1) (results.map resultMessage) wires) := by
    have answered : ∀ call ∈ reindex 0 calls, added.any (·.2.call_id = call.call_id) = true := by
      intro call member
      obtain ⟨first,isFirst,sameId⟩ := reindex_mem.mp ⟨call,member,rfl⟩
      obtain ⟨result,isResult,answers⟩ := all first isFirst
      have isAdded : call.call_id ∈ added.map (·.2.call_id) := by
        rw [ids,← sameId,← answers]
        exact List.mem_map_of_mem isResult
      simpa using isAdded
    have complete : (reindex 0 calls).find? (fun call => !added.any (·.2.call_id = call.call_id)) = none := by
      rw [List.find?_eq_none]
      intro call member
      simp [answered call member]
    simp only [closeGroup,isOpened,List.nil_append,Group.hasResult,complete,projected,sortCalls_reindex]
    simp [erased,isHead,role,restored]
  obtain ⟨_,_,_,_,isContent,_,began⟩ := collect_start start
    (zipRoots restored (ordinal + 1) (results.map resultMessage) wires ++ later)
  rw [content,MessageContent.Assistant.injEq] at isContent
  obtain ⟨rfl,rfl,_,rfl,rfl⟩ := isContent
  rw [project_tool_round,start]
  simp only [began]
  rw [show collect _ (({} : Group).addAssistant text thinking replay_state (reindex 0 calls)) _ = _ from collected,ended]
  simp only [bind,Except.bind,closed]

/-- The projection of a restored history is that of the history before, with
    the ids and indices of the restored messages and without images of tool
    results. -/
theorem project_restored (settled : Settled projected) : ∀ (ordinal : Nat) (wires : List (List UInt8)), wires.length = projected.length →
      project_messages (zipRoots restored ordinal projected wires) = .ok (zipRoots erased ordinal projected wires) := by
  induction settled with
  | nil =>
    intro ordinal wires _
    simp [zipRoots,project_messages,projectLoop]
  | @single p rest shaped ours noCalls later ih =>
    intro ordinal wires same
    cases wires with
    | nil => cases same
    | cons data others =>
      have start : roundStart (restored p (rootId data ordinal)) = none := by
        rw [restored_roundStart]
        cases content : p.content with
        | Parts | ToolResult => rfl
        | Assistant text thinking replay_state calls => simp [noCalls _ _ _ _ content]
      simp only [zipRoots]
      rw [project_messages_cons,project_tool_round,start]
      simp only [bind,Except.bind]
      rw [ih (ordinal + 1) others (by simpa using same),project_message_restored shaped]
  | @round head text thinking replay_state calls results rest isHead shaped some_call own once all normal apart later ih =>
    intro ordinal wires same
    cases wires with
    | nil => cases same
    | cons data others =>
      simp only [List.length_cons,List.length_append,List.length_map,Nat.add_right_cancel_iff] at same
      obtain ⟨first,second,rfl,isFirst,isSecond⟩ : ∃ first second, others = first ++ second ∧
          first.length = results.length ∧ second.length = rest.length :=
        ⟨others.take results.length,others.drop results.length,(List.take_append_drop _ _).symm,by simp; omega,by simp; omega⟩
      have joined : ∀ {α : Type} (f : ProjectedMessage → String → α), zipRoots f ordinal (head :: (results.map resultMessage ++
          rest)) (data :: (first ++ second)) = f head (rootId data ordinal) ::
          (zipRoots f (ordinal + 1) (results.map resultMessage) first ++ zipRoots f (ordinal + 1 + results.length) rest second) := by
        intro α f
        rw [zipRoots,zipRoots_append f _ _ _ _ _ (by simpa using isFirst),List.length_map]
      have isRound := @project_restored_round _ head text thinking replay_state calls results
        (zipRoots restored (ordinal + 1 + results.length) rest second) data first ordinal isHead shaped some_call own once
        all normal isFirst ?_
      · refine (congrArg project_messages (joined restored)).trans (.trans ?_ (congrArg Except.ok (joined erased)).symm)
        rw [project_messages_cons,isRound]
        simp only [bind,Except.bind]
        rw [ih _ _ isSecond]
        rfl
      · intro m isNext
        cases rest with
        | nil => simp [zipRoots] at isNext
        | cons p more =>
          cases second with
          | nil => cases isSecond
          | cons next after =>
            simp only [zipRoots,List.head?_cons,Option.some.injEq] at isNext
            subst isNext
            refine ⟨?_,restored_roundStart_ne p (by omega)⟩
            intro result isResult
            cases content : p.content with
            | Parts | Assistant => simp [restored,restoredContent,content] at isResult
            | ToolResult stored =>
              simp only [restored,restoredContent,content,MessageContent.ToolResult.injEq] at isResult
              rw [← isResult]
              exact apart p stored rfl content

/-- What is written of the message does not depend on an id that is lost. -/
def KeepsId (p : ProjectedMessage) : Prop :=
  ∀ parts, p.content = .Parts parts → (starts_with p.message_id "runtime:" || starts_with p.message_id "request-context:") = true

theorem reindex_wireCall (calls : List ToolCallContent) : ∀ first, (reindex first calls).map wireCall = calls.map wireCall := by
  induction calls with
  | nil => exact fun _ => rfl
  | cons call rest ih =>
    intro first
    have later := ih (first + 1)
    simp only [reindex,List.zipIdx_cons,List.map_cons] at later ⊢
    rw [later]
    rfl

theorem wireBytes_erased (p : ProjectedMessage) (internal_id model : String) :
    wireBytes model (erased p internal_id) = wireBytes model { p with message_id := restoredId p internal_id } := by
  have content : wire_content (erased p internal_id).content model = wire_content p.content model := by
    cases isContent : p.content with
    | Parts parts => simp [erased,isContent]
    | Assistant text thinking replay_state calls => simp [erased,isContent,wire_content,reindex_wireCall]
    | ToolResult result => simp [erased,isContent,wire_content]
  have id : wire_message_id (erased p internal_id) = wire_message_id { p with message_id := restoredId p internal_id } := by
    cases isContent : p.content <;> simp [wire_message_id,erased,isContent]
  unfold wireBytes wire_message
  rw [content,id]
  cases wire_content p.content model with
  | error e => rfl
  | ok value => cases isContent : p.content <;> simp [erased,isContent]
theorem wireBytes_kept (shaped : Shaped p) (ours : p.role ≠ .System) (keeps : KeepsId p)
    (internal_id model : String) : wireBytes model (erased p internal_id) = wireBytes model p := by
  rw [wireBytes_erased]
  cases content : p.content with
  | Parts parts =>
    have isKept := keeps parts content
    have role : p.role = .User := by
      unfold Shaped at shaped
      simp only [content] at shaped
      exact shaped.resolve_right ours
    have same : restoredId p internal_id = p.message_id := by
      simp only [restoredId,content,role,decide_true,Bool.true_and,isKept,if_true]
    rw [same,← content]
  | Assistant text thinking replay_state calls => simp [wireBytes,wire_message,wire_message_id,content]
  | ToolResult result => simp [wireBytes,wire_message,wire_message_id,content]

theorem encode_replay_state_total {replay_state : ProviderReplayState} (kept : ReplayKept replay_state) :
    ∃ signature, encode_replay_state replay_state = .ok signature := by
  unfold ReplayKept at kept
  unfold encode_replay_state
  split_ifs at kept ⊢
  · obtain ⟨signature,isText,_⟩ := kept
    exact ⟨signature,by simp [isText,Json.as_str]⟩
  · exact ⟨_,rfl⟩
theorem wireBytes_total (shaped : Shaped p) (model : String) : ∃ data, wireBytes model p = .ok data := by
  obtain ⟨content,isContent⟩ : ∃ content, wire_content p.content model = .ok content := by
    unfold Shaped at shaped
    cases isContent : p.content with
    | Parts | ToolResult => exact ⟨_,rfl⟩
    | Assistant text thinking replay_state calls =>
      simp only [isContent] at shaped
      cases replay_state with
      | none => exact ⟨_,rfl⟩
      | some state =>
        obtain ⟨signature,encoded⟩ := encode_replay_state_total (shaped.2.1 state rfl)
        simp [wire_content,encoded,Functor.map,Except.map,bind,Except.bind]
  exact ⟨_,by simp only [wireBytes,wire_message,isContent,bind,Except.bind]; rfl⟩

theorem mapM_total {α β : Type} {f : α → Except Error β} {l : List α} (total : ∀ a ∈ l, ∃ b, f a = .ok b) :
    ∃ results, l.mapM f = .ok results ∧ results.length = l.length := by
  induction l with
  | nil => exact ⟨[],rfl,rfl⟩
  | cons a rest ih =>
    obtain ⟨b,first⟩ := total a (by simp)
    obtain ⟨others,later,same⟩ := ih fun a member => total a (List.mem_cons_of_mem _ member)
    refine ⟨b :: others,?_,by simp [same]⟩
    rw [List.mapM_cons,first,later]
    rfl

theorem Settled.shaped (settled : Settled projected) : ∀ p ∈ projected, Shaped p ∧ p.role ≠ .System := by
  induction settled with
  | nil => simp
  | @single p rest shaped ours noCalls later ih =>
    intro p' member
    rcases List.mem_cons.mp member with rfl | member
    · exact ⟨shaped,ours⟩
    · exact ih p' member
  | @round head text thinking replay_state calls results rest isHead shaped some_call own once all normal apart later ih =>
    intro p' member
    rcases List.mem_cons.mp member with rfl | member
    · have role : p'.role = .Assistant := by
        have := shaped
        unfold Shaped at this
        simp only [isHead] at this
        exact this.1
      exact ⟨shaped,by simp [role]⟩
    · rcases List.mem_append.mp member with isResult | isLater
      · obtain ⟨result,isOne,rfl⟩ := List.mem_map.mp isResult
        exact ⟨normal result isOne,by simp⟩
      · exact ih p' isLater

/-- What a provider can see of a message, apart from the image that a tool
    result refers to. -/
inductive VisibleContent where
  | Parts (parts : List ContentPart)
  | Assistant (text thinking : String) (replay_state : Option ProviderReplayState) (calls : List (String × String × Value))
  | ToolResult (call_id name content : String) (is_error : Bool)
deriving DecidableEq
def visible (p : ProjectedMessage) : Role × VisibleContent :=
  (p.role,match p.content with
    | .Parts parts => .Parts parts
    | .Assistant text thinking replay_state calls =>
      .Assistant text thinking replay_state (calls.map fun call => (call.call_id,call.name,call.arguments))
    | .ToolResult result => .ToolResult result.call_id result.name result.content result.is_error)

theorem visible_erased (p : ProjectedMessage) (internal_id : String) : visible (erased p internal_id) = visible p := by
  have calls : ∀ (calls : List ToolCallContent) (first : Nat),
      (reindex first calls).map (fun call => (call.call_id,call.name,call.arguments)) =
        calls.map fun call => (call.call_id,call.name,call.arguments) := by
    intro calls
    induction calls with
    | nil => exact fun _ => rfl
    | cons call rest ih =>
      intro first
      have later := ih (first + 1)
      simp only [reindex,List.zipIdx_cons,List.map_cons] at later ⊢
      rw [later]
  cases content : p.content with
  | Parts parts => simp [visible,erased,content]
  | Assistant text thinking replay_state calls' => simp [visible,erased,content,calls]
  | ToolResult result => simp [visible,erased,content]
theorem visible_restored (projected : List ProjectedMessage) : ∀ (ordinal : Nat) (wires : List (List UInt8)),
    wires.length = projected.length → (zipRoots erased ordinal projected wires).map visible = projected.map visible := by
  induction projected with
  | nil => exact fun _ _ _ => rfl
  | cons p rest ih =>
    intro ordinal wires same
    cases wires with
    | nil => cases same
    | cons data others =>
      simp only [zipRoots,List.map_cons,visible_erased]
      rw [ih (ordinal + 1) others (by simpa using same)]

theorem wires_restored (projected : List ProjectedMessage)
    (shaped : ∀ p ∈ projected, Shaped p ∧ p.role ≠ .System) : ∀ {body : List (List UInt8)} (ordinal : Nat),
      projected.mapM (wireBytes model) = .ok body →
      ∃ again : List (List UInt8), (zipRoots erased ordinal projected body).mapM (wireBytes model) = .ok again ∧
        again.length = projected.length ∧ ∀ (i : Nat) (p : ProjectedMessage), projected[i]? = some p →
          ∃ (message_id : String) (data : List UInt8), wireBytes model { p with message_id } = .ok data ∧
            again[i]? = some data ∧ (KeepsId p → again[i]? = body[i]?) := by
  induction projected with
  | nil =>
    intro body ordinal encoded
    obtain rfl : [] = body := by simpa [pure,Except.pure] using encoded
    exact ⟨[],rfl,rfl,by simp⟩
  | cons p rest ih =>
    intro body ordinal encoded
    obtain ⟨data,others,first,later,rfl⟩ := mapM_cons_ok encoded
    obtain ⟨isShaped,ours⟩ := shaped p (by simp)
    obtain ⟨again,encodedAgain,same,each⟩ :=
      ih (fun p member => shaped p (List.mem_cons_of_mem _ member)) (ordinal + 1) later
    have erasedShaped : Shaped { p with message_id := restoredId p (rootId data ordinal) } := isShaped
    obtain ⟨written,isWritten⟩ := wireBytes_total erasedShaped model
    have isFirst : wireBytes model (erased p (rootId data ordinal)) = .ok written :=
      (wireBytes_erased p _ model).trans isWritten
    refine ⟨written :: again,?_,by simp [same],?_⟩
    · simp only [zipRoots]
      rw [List.mapM_cons,isFirst,encodedAgain]
      rfl
    · intro i p' found
      cases i with
      | zero =>
        simp only [List.getElem?_cons_zero,Option.some.injEq] at found ⊢
        subst found
        refine ⟨_,written,isWritten,rfl,?_⟩
        intro keeps
        have same := (wireBytes_kept isShaped ours keeps (rootId data ordinal) model).symm.trans isFirst
        rw [first,Except.ok.injEq] at same
        exact same.symm
      | succ i =>
        simp only [List.getElem?_cons_succ] at found ⊢
        exact each i p' found

theorem restored_prompt {instructions : String} {root : ProjectedMessage} (member : root ∈ promptRoots instructions)
    (internal_id : String) : Shaped root ∧ (restored root internal_id).role = .System ∧ (restored root internal_id).origin = .Prompt := by
  unfold promptRoots at member
  split_ifs at member
  · cases member
  · rw [List.mem_singleton.mp member]
    exact ⟨.inr rfl,rfl,rfl⟩
theorem withoutPrompt_restored {instructions : String} (ours : ∀ p ∈ projected, p.role ≠ .System) (prompt body : List (List UInt8))
    (same : prompt.length = (promptRoots instructions).length) :
    withoutPrompt (zipRoots restored 0 (promptRoots instructions ++ projected) (prompt ++ body)) =
      zipRoots restored (promptRoots instructions).length projected body := by
  have members : ∀ {α : Type} (f : ProjectedMessage → String → α) (ps : List ProjectedMessage) (ordinal : Nat)
      (wires : List (List UInt8)), ∀ one ∈ zipRoots f ordinal ps wires, ∃ p ∈ ps, ∃ id, one = f p id := by
    intro α f ps
    induction ps with
    | nil =>
      intro ordinal wires one member
      simp [zipRoots] at member
    | cons p rest ih =>
      intro ordinal wires one member
      cases wires with
      | nil => simp [zipRoots] at member
      | cons data others =>
        rw [zipRoots,List.mem_cons] at member
        rcases member with rfl | member
        · exact ⟨p,by simp,_,rfl⟩
        · obtain ⟨p',isP,id,rfl⟩ := ih (ordinal + 1) others one member
          exact ⟨p',List.mem_cons_of_mem _ isP,id,rfl⟩
  rw [zipRoots_append restored _ _ _ _ _ same,withoutPrompt,List.filter_append]
  have dropped : (zipRoots restored 0 (promptRoots instructions) prompt).filter
      (fun message => !(decide (message.role = .System) && decide (message.origin = .Prompt))) = [] := by
    rw [List.filter_eq_nil_iff]
    intro one member
    obtain ⟨p,isRoot,id,rfl⟩ := members restored _ _ _ one member
    obtain ⟨_,role,origin⟩ := restored_prompt isRoot id
    simp [role,origin]
  have kept : (zipRoots restored (0 + (promptRoots instructions).length) projected body).filter
      (fun message => !(decide (message.role = .System) && decide (message.origin = .Prompt))) =
      zipRoots restored (0 + (promptRoots instructions).length) projected body := by
    rw [List.filter_eq_self]
    intro one member
    obtain ⟨p,isP,id,rfl⟩ := members restored _ _ _ one member
    have role : (restored p id).role ≠ .System := ours p isP
    simp [role]
  rw [dropped,kept,List.nil_append,Nat.zero_add]

theorem mapM_append_ok {α β : Type} {f : α → Except Error β} (first second : List α) {left right : List β}
    (isFirst : first.mapM f = .ok left) (isSecond : second.mapM f = .ok right) :
    (first ++ second).mapM f = .ok (left ++ right) := by
  rw [List.mapM_append,isFirst,isSecond]
  rfl

end Codec

mutual
/-- The compact text of a value without numbers and escapes. -/
def printed : Value → List Char
  | .Null => "null".toList
  | .Bool value => (if value then "true" else "false").toList
  | .Number _ => ['0']
  | .String value => '"' :: (value.toList ++ ['"'])
  | .Array items => '[' :: (printedItems items ++ [']'])
  | .Object members => '\x7b' :: (printedMembers members ++ ['\x7d'])
def printedItems : List Value → List Char
  | [] => []
  | [item] => printed item
  | item :: rest => printed item ++ ',' :: printedItems rest
def printedMembers : List (String × Value) → List Char
  | [] => []
  | [(name,value)] => '"' :: (name.toList ++ '"' :: ':' :: printed value)
  | (name,value) :: rest => '"' :: (name.toList ++ '"' :: ':' :: (printed value ++ ',' :: printedMembers rest))
end
def bytesOf (text : List Char) : List UInt8 := text.flatMap String.utf8EncodeChar

def signature : ProviderReplayState := ⟨"anthropic",.String "sig"⟩
def reading : List CanonicalMessage :=
  [text "request-context:1" .User .Prompt "rules",
    ⟨"a",.Assistant,.Assistant,.Assistant "" "hm" (some "round") (some signature)
      [⟨3,"c","Read",.Object [("path",.String "x")]⟩],none⟩,
    ⟨"t",.Tool,.Tool,.ToolResult ⟨"c","Read","ok",false,none⟩,none⟩]
def asked : List CanonicalMessage := [text "u" .User .User "hi"]

/-- Members in the order of their names, before anything is read. -/
@[reducible] def printing : Serde where
  order members := members.insertionSort fun a b => a.1 ≤ b.1
  order_perm members := List.perm_insertionSort _ members
  to_vec value := bytesOf (printed value)
  from_slice _ := .error "EOF while parsing a value at line 1 column 0"
  replay_to_vec state := bytesOf (printed (.Object [("provider_kind",.String state.provider_kind),("value",state.value)]))
  replay_from_slice _ := .error "EOF while parsing a value at line 1 column 0"
  base64_error _ := "Invalid padding"
  digest _ := []
def bodyOf (history : List CanonicalMessage) : List ProjectedMessage := (project_messages history).toOption.getD []
def written : List Value :=
  (promptRoots "Help." ++ bodyOf reading ++ bodyOf asked).filterMap fun root => (@wire_message printing root "m" none).toOption
/-- The digests of the texts of `written`. -/
def digests : List String := ["/iVuriSEzSJeqiyzedZc+zcg+VSsbYRzSTC2kK4/Jyw=",
  "HrQt2UQ8pGT489Z3AfABZldIKRzx5I+0FvVlMoSA5ro=",
  "DR5S+jUtgNk9DT8eQiI9N7fRB/uqfwW6ioSqhQpFg0I=",
  "a9VqLouQrLpJsRsoM3+SKGxnDG7ZLYPQRw//YPZ0qHE=",
  "GlBe3rIbuUoOD+CIxfNJnvG3fFBuqnS+aSgqPB9wr4Y="]
@[reducible] def sample : Serde :=
  { printing with
    from_slice := fun data =>
      match written.find? (fun value => printing.to_vec value = data) with
      | some value => .ok value
      | none => printing.from_slice data
    replay_from_slice := fun data =>
      if data = printing.replay_to_vec signature then .ok signature else printing.replay_from_slice data
    digest := fun data => (((written.zip digests).find? fun entry => printing.to_vec entry.1 = data).bind
      fun entry => Base64.decode entry.2).getD [] }

section Example
local instance : Serde := sample

theorem written_readsBack {history : List CanonicalMessage} (isExample : history ∈ [reading,asked]) :
    ∀ root ∈ promptRoots "Help." ++ bodyOf history, ∀ value, wire_message root "m" none = .ok value → ReadsBack value := by
  have checked : ∀ history ∈ [reading,asked], ∀ root ∈ promptRoots "Help." ++ bodyOf history,
      (wire_message root "m" none).toOption.all (fun value => Serde.from_slice (Serde.to_vec value) = .ok value) = true := by
    decide +kernel
  intro root member value isValue
  have one := checked history isExample root member
  rw [isValue] at one
  have reads : Serde.from_slice (Serde.to_vec value) = .ok value := by simpa [Except.toOption] using one
  exact reads
theorem reading_persisted : ∀ m ∈ reading, Persisted m := by
  have kept : ReplayKept signature := by
    rw [ReplayKept,if_neg (by decide)]
    decide +kernel
  intro m member
  simp only [reading,List.mem_cons,List.not_mem_nil,or_false] at member
  rcases member with rfl | rfl | rfl
  · rfl
  · refine ⟨rfl,by simp,?_⟩
    intro state isState
    rw [← Option.some.inj isState]
    exact kept
  · rfl

end Example

end MyCursor.CheckpointRoundTrip

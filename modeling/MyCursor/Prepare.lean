import MyCursor.CheckpointCodec
import MyCursor.Hoare
import MyCursor.Registry
import MyCursor.StorePrepared

/-!
# Preparing a run

`cursor/compile/run.rs` with the request context of `compile/break_messages.rs`
and `store/input_anchors.rs`, and the pending messages that
`conversation/runtime.rs` puts before the input: the base of a run comes from
the state that the client sent or is the head of the conversation, an input
that was seen before keeps its first base, and what is stored of the input after
the base is not appended again. Texts that are rendered from a template are
given; the choice of the model, of its prompt and of the tools is left out.
-/
namespace MyCursor.Prepare
open Message Store StoreSteps StorePrepared Run Text
open Compaction CheckpointCodec Hoare
open Registry (CompiledMessages)
set_option linter.unusedSectionVars false

/-- The actions that are told apart. For a background completion and a plan the
    client's data comes down to the id of the event; a plan without content has
    none. -/
inductive ConversationAction where
  | UserMessageAction (message_id text : String)
  | BackgroundTaskCompletionAction (completions : String)
  | ExecutePlanAction (identity : Option String)
  | SummarizeAction
  | Other
deriving DecidableEq

/-- The contents of the root blobs stand for the state of the conversation.
    `context` is what `compile_context` renders, `content` what the template of
    the runtime message renders, and `semantic` the digest of that content
    without its timestamp, together with a projected request context. -/
structure AgentRunRequest where
  request_id : String
  run_id : RunId
  conversation_id : ConversationId
  conversation_state : Option (List (List UInt8))
  action : ConversationAction
  context : String
  content : MessageContent
  semantic : Option MessageContent → String
  model : ModelSpec
  checkpoint_prompt : PromptSpec
  compaction_prompt : PromptSpec
  pending_tool_round : Except Error (Option RecoveredToolRound)

structure ActionProjection where
  turn_user : Bool := false
  event_id : Option String := none
  input_id : Option String := none
  starts_turn : Bool := false
  compacting : Bool := false
  background_completion : Bool := false
deriving DecidableEq

def action (request : AgentRunRequest) : Except Error ActionProjection :=
  match request.action with
  | .UserMessageAction message_id text =>
    if message_id.isEmpty then .error (.Protocol "Cursor user message action has no message_id")
    else if trim text = "/summarize" then .ok { turn_user := true, compacting := true }
    else .ok { turn_user := true, input_id := some s!"cursor:user:{message_id}", starts_turn := true }
  | .BackgroundTaskCompletionAction completions =>
    .ok { turn_user := true, event_id := some s!"background-completed:{completions}", starts_turn := true,
          background_completion := true }
  | .ExecutePlanAction none => .error (.Protocol "ExecutePlan is missing plan content")
  | .ExecutePlanAction (some identity) =>
    .ok { turn_user := true, event_id := some s!"execute-plan:{identity}", starts_turn := true }
  | .SummarizeAction => .ok { compacting := true }
  | .Other => .ok {}

def isRequestContext (m : CanonicalMessage) : Bool := starts_with m.message_id "request-context:"

def should_project_request_context (history : List CanonicalMessage) (current : CanonicalMessage) : Bool :=
  match history.reverse.find? isRequestContext with
  | none => true
  | some previous => previous.content ≠ current.content

def compile_request_context (event_id context : String) (history : List CanonicalMessage) : Option CanonicalMessage :=
  if context.isEmpty then none
  else
    let message := text s!"request-context:{event_id}" .User .Prompt context
    if should_project_request_context history message then some message else none

def runtimeMessage (event_id : String) (content : MessageContent) : CanonicalMessage :=
  { message_id := s!"runtime:{event_id}", role := .User, origin := .Runtime, content, runtime_event_id := some event_id }

def runtime_message_text (m : CanonicalMessage) : Except Error String :=
  match m.content with
  | .Parts (.Text text :: _) => .ok text
  | .Parts _ => .error (.Protocol "stored runtime message does not start with text")
  | _ => .error (.Protocol "stored runtime message does not contain parts")

section Store
variable {Digest : Type} [DecidableEq Digest] [MessageHash Digest] [Serde]

def projectedContext (request : AgentRunRequest) (projection : ActionProjection) (history : List CanonicalMessage) :
    Option CanonicalMessage :=
  if projection.input_id.isSome && !projection.compacting && !projection.background_completion then
    compile_request_context "identity" request.context history
  else none

/-- An input without an event of its own is identified by what is rendered for it. -/
def eventId (request : AgentRunRequest) (projection : ActionProjection) (projected : Option CanonicalMessage) : Option String :=
  match projection.event_id, projection.input_id with
  | some event_id, _ => some event_id
  | none, some input_id =>
    if projection.turn_user then some s!"{input_id}:{request.semantic (projected.map (·.content))}" else none
  | none, none => none

def requestContextMessage (s : Tables Digest) (request : AgentRunRequest) (projection : ActionProjection)
    (event_id : Option String) (projected : Option CanonicalMessage) (history : List CanonicalMessage) :
    Option CanonicalMessage :=
  match event_id with
  | some event_id =>
    if !projection.compacting && !projection.background_completion then
      match message s request.conversation_id s!"request-context:{event_id}" with
      | some stored => some stored
      | none =>
        if projection.input_id.isSome then projected.map fun m => { m with message_id := s!"request-context:{event_id}" }
        else compile_request_context event_id request.context history
    else none
  | none => none

/-- The messages of the input, before what is stored of them is left out. -/
def inputMessages (s : Tables Digest) (request : AgentRunRequest) (projection : ActionProjection)
    (history : List CanonicalMessage) : Except Error (List CanonicalMessage) :=
  let projected := projectedContext request projection history
  let event_id := eventId request projection projected
  let existing_runtime := event_id.bind fun event_id => message s request.conversation_id s!"runtime:{event_id}"
  if projection.compacting then .ok []
  else
    match projection.turn_user, event_id with
    | true, some event_id =>
      if projection.background_completion then
        match existing_runtime with
        | some m => do
          let _ ← runtime_message_text m
          .ok [m]
        | none => .ok [runtimeMessage event_id request.content]
      else
        .ok ((requestContextMessage s request projection (some event_id) projected history).toList ++
          [existing_runtime.getD (runtimeMessage event_id request.content)])
    | false, none => .ok []
    | _, _ => .error (.Protocol "Cursor action has an incomplete runtime event")

def isPrompt (m : CanonicalMessage) : Bool := decide (m.role = .System) && decide (m.origin = .Prompt)

def validate_prompt_root (messages : List CanonicalMessage) : Except Error Unit :=
  match messages.filter isPrompt with
  | [prompt] =>
    match prompt.content with
    | .Parts [.Text _] => .ok ()
    | .Parts _ => .error (.Protocol "Cursor system prompt root is not one text part")
    | _ => .error (.Protocol "Cursor system prompt root is not textual content")
  | prompts => .error (.Protocol s!"Cursor history contains {prompts.length} system prompt roots")

/-- The tables of the store with that of the input anchors. -/
structure Storage (Digest : Type) where
  tables : Tables Digest
  anchors : ConversationId → String → Option Nat := fun _ _ => none

abbrev PrepareM (Digest α : Type) : Type := Program (Storage Digest) Error α

def orThrow {α : Type} (result : Except Error α) : PrepareM Digest α :=
  match result with
  | .ok a => pure a
  | .error error => throw error
def transaction {α : Type} (body : Tables Digest → Except Error (α × Tables Digest)) : PrepareM Digest α := do
  let s ← get
  match body s.tables with
  | .error error => throw error
  | .ok (a,tables) => do
    set { s with tables }
    pure a

def anchor_input (conversation_id : ConversationId) (input_id : String) (base_checkpoint_id : Nat) : PrepareM Digest Nat := do
  let s ← get
  match s.anchors conversation_id input_id with
  | some anchored => pure anchored
  | none => do
    let anchors := Function.update (s.anchors conversation_id) input_id (some base_checkpoint_id)
    set { s with anchors := Function.update s.anchors conversation_id anchors }
    pure base_checkpoint_id

def anchoredBase (conversation_id : ConversationId) (input_id : Option String) (proposed : Nat) : PrepareM Digest Nat :=
  match input_id with
  | some input_id => anchor_input conversation_id input_id proposed
  | none => pure proposed

def baseMessages (request : AgentRunRequest) : Except Error (Option (List CanonicalMessage)) :=
  match request.conversation_state with
  | none => .ok none
  | some blobs => (hydrate_messages blobs).map some

/-- The checkpoint of the client's state or else the head of the conversation,
    with the messages of the state without its prompt. -/
def proposedBase (conversation_id : ConversationId) (base_messages : Option (List CanonicalMessage)) :
    PrepareM Digest (Nat × List CanonicalMessage) :=
  match base_messages with
  | some (m :: rest) => do
    orThrow (validate_prompt_root (m :: rest))
    let messages := withoutPrompt (m :: rest)
    let checkpoint ← transaction fun s => import_checkpoint s conversation_id messages
    pure (checkpoint,messages)
  | _ => do
    let checkpoint ← transaction fun s => ensure_conversation s conversation_id
    pure (checkpoint,[])

def runAction (request : AgentRunRequest) (projection : ActionProjection) : Except Error RunAction :=
  if projection.compacting then .ok .Compact
  else if projection.starts_turn then .ok .Start
  else request.pending_tool_round.map .Resume

/-- The base of a run with the state that it was decoded from, and the input,
    whose first messages may be stored after the base. -/
structure Chosen where
  projection : ActionProjection
  history : List CanonicalMessage
  base_checkpoint_id : Nat
  input : List CanonicalMessage

def choose (request : AgentRunRequest) : PrepareM Digest Chosen := do
  let base_messages ← orThrow (baseMessages request)
  let projection ← orThrow (action request)
  let (proposed,history) ← proposedBase request.conversation_id base_messages
  let base_checkpoint_id ← anchoredBase request.conversation_id projection.input_id proposed
  let s ← get
  let input ← orThrow (inputMessages s.tables request projection history)
  pure { projection, history, base_checkpoint_id, input }

def matched (s : Tables Digest) (request : AgentRunRequest) (chosen : Chosen) (action : RunAction) : PreparedRun :=
  let (base_checkpoint_id,reused) :=
    matchCheckpointPrefix s request.conversation_id chosen.base_checkpoint_id chosen.input
  { run_id := request.run_id, cursor_request_id := some request.request_id, conversation_id := request.conversation_id,
    kind := .Root, model := request.model,
    prompt := if chosen.projection.compacting then request.compaction_prompt else request.checkpoint_prompt,
    initial_messages := chosen.input.drop reused, action, base_checkpoint_id }

def prepare (request : AgentRunRequest) : PrepareM Digest (PreparedRun × Chosen) := do
  let chosen ← choose request
  let s ← get
  let action ← orThrow (runAction request chosen.projection)
  pure (matched s.tables request chosen action,chosen)

/-- The end of the preparation in `spawn_run_request`: pending messages come
    before the input, and the run then starts from the head of the conversation. -/
def withPending (s : Tables Digest) (pending : List CompiledMessages) (prepared : PreparedRun) : PreparedRun :=
  if pending.isEmpty then prepared
  else
    { prepared with
      initial_messages := pending.flatMap (·.messages) ++ prepared.initial_messages
      base_checkpoint_id := match ensure_conversation s prepared.conversation_id with
        | .ok (checkpoint,_) => checkpoint
        | .error _ => prepared.base_checkpoint_id }
/-- A background completion that the active run did not take is pending itself;
    where that run was closing, the run starts from the head. -/
def undelivered (s : Tables Digest) (closing : Bool) (prepared : PreparedRun) : PreparedRun :=
  { prepared with
    initial_messages := []
    base_checkpoint_id := match closing, ensure_conversation s prepared.conversation_id with
      | true, .ok (checkpoint,_) => checkpoint
      | _, _ => prepared.base_checkpoint_id }
/-- The run that `spawn_run_request` starts with the pending messages it took. -/
def spawned (s : Tables Digest) (closing : Bool) (pending : List CompiledMessages) (prepared : PreparedRun)
    (chosen : Chosen) : PreparedRun :=
  withPending s pending (if chosen.projection.background_completion then undelivered s closing prepared else prepared)
/-- Everything that the run is started for: the pending messages and the input,
    which is one of them if it is a background completion. -/
def runInput (pending : List CompiledMessages) (chosen : Chosen) : List CanonicalMessage :=
  pending.flatMap (·.messages) ++ if chosen.projection.background_completion then [] else chosen.input

variable {s after : Storage Digest} {m : CanonicalMessage} {projection : ActionProjection} {event_id : String}
variable {history : List CanonicalMessage}

variable {request : AgentRunRequest}

theorem orThrow_ok {α : Type} {result : Except Error α} {a : α}
    (done : runFrom (orThrow result) s = (.ok a,after)) : result = .ok a ∧ after = s := by
  cases result with
  | ok value =>
    obtain ⟨same,rfl⟩ := Prod.mk.inj done
    exact ⟨same,rfl⟩
  | error error => cases done
theorem prepare_ok {prepared : PreparedRun} {chosen : Chosen} (done : runFrom (prepare request) s = (.ok (prepared,chosen),after)) :
    runFrom (choose request) s = (.ok chosen,after) ∧
      ∃ action, runAction request chosen.projection = .ok action ∧ prepared = matched after.tables request chosen action := by
  obtain ⟨one,middle,chooses,reads⟩ := runFrom_bind_ok done
  obtain ⟨now,_,isRead,acts⟩ := runFrom_bind_ok reads
  obtain ⟨rfl,rfl⟩ := runFrom_get_ok isRead
  obtain ⟨action,_,isAction,returns⟩ := runFrom_bind_ok acts
  obtain ⟨known,rfl⟩ := orThrow_ok isAction
  obtain ⟨same,rfl⟩ := Prod.mk.inj returns
  obtain ⟨rfl,rfl⟩ := Prod.mk.inj (Except.ok.inj same)
  exact ⟨chooses,action,known,rfl⟩
theorem choose_input {chosen : Chosen} (done : runFrom (choose request) s = (.ok chosen,after)) : action request = .ok chosen.projection ∧
      inputMessages after.tables request chosen.projection chosen.history = .ok chosen.input := by
  obtain ⟨messages,_,_,projects⟩ := runFrom_bind_ok done
  obtain ⟨projection,_,isProjection,proposes⟩ := runFrom_bind_ok projects
  obtain ⟨⟨proposed,history⟩,_,_,anchors⟩ := runFrom_bind_ok proposes
  dsimp only at anchors
  obtain ⟨base,_,_,reads⟩ := runFrom_bind_ok anchors
  obtain ⟨now,_,isRead,compiles⟩ := runFrom_bind_ok reads
  obtain ⟨rfl,rfl⟩ := runFrom_get_ok isRead
  obtain ⟨input,_,isInput,returns⟩ := runFrom_bind_ok compiles
  obtain ⟨compiled,rfl⟩ := orThrow_ok isInput
  obtain ⟨same,rfl⟩ := Prod.mk.inj returns
  obtain rfl := Except.ok.inj same
  exact ⟨(orThrow_ok isProjection).1,compiled⟩

theorem message_named {s : Tables Digest} {c : ConversationId} {id : String} (found : message s c id = some m) : m.message_id = id := by
  obtain ⟨row,isRow,rfl⟩ := Option.map_eq_some_iff.mp found
  have holds := List.find?_some isRow
  simp only [decide_eq_true_eq] at holds
  exact holds.2
theorem eventId_origin {projected : Option CanonicalMessage}
    (isAction : action request = .ok projection) (isEvent : eventId request projection projected = some event_id) :
    ∃ origin ∈ ["cursor:user:","background-completed:","execute-plan:"], ∃ rest, event_id = origin ++ rest := by
  unfold action at isAction
  split at isAction
  · split_ifs at isAction
    · obtain rfl := Except.ok.inj isAction
      cases isEvent
    · rename_i message_id _ _ _ _
      obtain rfl := Except.ok.inj isAction
      have same : s!"cursor:user:{message_id}:{request.semantic (projected.map (·.content))}" = event_id :=
        Option.some.inj isEvent
      refine ⟨_,List.mem_cons_self,s!"{message_id}:{request.semantic (projected.map (·.content))}",?_⟩
      rw [← same]
      simp [toString,String.append_assoc]
  · obtain rfl := Except.ok.inj isAction
    exact ⟨"background-completed:",by simp,_,(Option.some.inj isEvent).symm⟩
  · cases isAction
  · obtain rfl := Except.ok.inj isAction
    exact ⟨"execute-plan:",by simp,_,(Option.some.inj isEvent).symm⟩
  · obtain rfl := Except.ok.inj isAction
    cases isEvent
  · obtain rfl := Except.ok.inj isAction
    cases isEvent
theorem compile_request_context_id {context : String} (compiled : compile_request_context event_id context history = some m) :
    m = text s!"request-context:{event_id}" .User .Prompt context := by
  simp only [compile_request_context] at compiled
  split_ifs at compiled
  exact (Option.some.inj compiled).symm
theorem requestContextMessage_named {s : Tables Digest} {projected : Option CanonicalMessage}
    (isContext : requestContextMessage s request projection (some event_id) projected history = some m) :
    m.message_id = s!"request-context:{event_id}" := by
  simp only [requestContextMessage] at isContext
  split_ifs at isContext
  · split at isContext
    · rename_i stored existing
      rw [← Option.some.inj isContext]
      exact message_named existing
    · obtain ⟨one,_,rfl⟩ := Option.map_eq_some_iff.mp isContext
      rfl
  · split at isContext
    · rename_i stored existing
      rw [← Option.some.inj isContext]
      exact message_named existing
    · rw [compile_request_context_id isContext]
      rfl
/-- A message of the input is the request context or the runtime message of its event. -/
theorem input_named {s : Tables Digest} {input : List CanonicalMessage} (isInput : inputMessages s request projection history = .ok input)
    (member : m ∈ input) :
    ∃ event_id, eventId request projection (projectedContext request projection history) = some event_id ∧
      (m.message_id = s!"request-context:{event_id}" ∨ m.message_id = s!"runtime:{event_id}") := by
  unfold inputMessages at isInput
  dsimp only at isInput
  by_cases compacting : projection.compacting = true
  · rw [if_pos compacting] at isInput
    obtain rfl := Except.ok.inj isInput
    cases member
  rw [if_neg compacting] at isInput
  split at isInput
  · rename_i event_id _ isEvent
    refine ⟨event_id,isEvent,?_⟩
    by_cases background : projection.background_completion = true
    · rw [if_pos background] at isInput
      refine .inr ?_
      split at isInput
      · rename_i stored existing
        obtain ⟨_,_,isInput⟩ := bind_ok.mp isInput
        obtain rfl := Except.ok.inj isInput
        rw [isEvent] at existing
        rw [List.mem_singleton.mp member]
        exact message_named existing
      · obtain rfl := Except.ok.inj isInput
        rw [List.mem_singleton.mp member]
        rfl
    · rw [if_neg background] at isInput
      obtain rfl := Except.ok.inj isInput
      rcases List.mem_append.mp member with context | runtime
      · exact .inl (requestContextMessage_named (Option.mem_toList.mp context))
      · refine .inr ?_
        rw [List.mem_singleton.mp runtime,isEvent,Option.bind_some]
        cases existing : message s request.conversation_id s!"runtime:{event_id}" with
        | none => rfl
        | some stored => exact message_named existing
  · obtain rfl := Except.ok.inj isInput
    cases member
  · cases isInput

theorem withPending_initial (s : Tables Digest) (pending : List CompiledMessages) (prepared : PreparedRun) :
    (withPending s pending prepared).initial_messages = pending.flatMap (·.messages) ++ prepared.initial_messages := by
  cases pending with
  | nil => rfl
  | cons first rest => rfl
end Store

end MyCursor.Prepare

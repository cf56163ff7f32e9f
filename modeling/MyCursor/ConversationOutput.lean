import MyCursor.CheckpointRoundTrip
import MyCursor.Delivery
import MyCursor.EventOrder

/-!
# The client side of a run

`cursor/conversation/output.rs`: the loop that turns the events of a run into
tool calls for the client and hands their results, injected context and further
user messages back to the run. What it publishes to the client is left out; how
its waits on the store, the run and the checkpoint worker end is given with
each input.
-/
namespace MyCursor.ConversationOutput
open Message Store StoreSteps Run CheckpointCodec CheckpointRoundTrip

/-- The sets and maps of `ConversationOutput` and of `run_inner`; of a map only
    the keys matter here. -/
structure Output where
  request_id : String
  run_id : RunId
  completions : List String := []
  completed : List String := []
  completed_round : Option ToolRoundId := none
  active_round : Option ToolRoundId := none
  active_tool_calls : List String := []
  interrupted_rounds : List ToolRoundId := []
  interrupted_tool_calls : List String := []
  injection_ids : List String := []
  pending_injections : List String := []
deriving DecidableEq

/-- `start_batch` passes over the calls of the round that were committed. -/
def start_batch (calls : List ToolCall) (completed : List String) : List ToolCall :=
  calls.filter fun call => !completed.contains call.call_id

/-- The state after `ExecuteToolRound`, and the calls that are dispatched; a
    round that is interrupted starts no call. -/
def execute_tool_round (o : Output) (round_id : ToolRoundId) (round_calls : List ToolCall) : Output × Option (List ToolCall) :=
  let completed := if o.completed_round = some round_id then o.completed else []
  let active := { o with
    completed, completed_round := some round_id, active_round := some round_id
    active_tool_calls := round_calls.map (·.call_id) }
  if round_id ∈ o.interrupted_rounds ∨ o.pending_injections ≠ [] then
    ({ active with
        interrupted_rounds := round_id :: o.interrupted_rounds
        interrupted_tool_calls := round_calls.map (·.call_id) ++ o.interrupted_tool_calls },none)
  else (active,some (start_batch round_calls completed))

/-- What `Store::tool_round` tells of the active round. -/
structure RoundSnapshot where
  calls : List String
  settled : Bool
deriving DecidableEq

def injectionKey (event_id : String) : String := (stripPrefix event_id "inject-context:").getD event_id

def publish (o : Output) (published : Except Error Unit) : Except Error (Output × Option (Except Error Unit)) :=
  match published with
  | .error error => .error error
  | .ok _ => .ok (o,some (.ok ()))
def requireBarrier (barrier : CommitBarrier) (missing : String) (o : Output) (published : Except Error Unit) :
    Except Error (Output × Option (Except Error Unit)) :=
  if barrier.is_required then publish o published else .error (.Protocol missing)

def tool_committed (o : Output) (barrier : CommitBarrier) (call_id : String) (interrupted : Bool)
    (snapshot : Option RoundSnapshot) (published : Except Error Unit) :
    Except Error (Output × Option (Except Error Unit)) :=
  match o.active_round, snapshot with
  | none, _ => .error (.Protocol "tool commit has no active round")
  | some _, none => .error (.Store "active tool round disappeared")
  | some round_id, some snapshot =>
    if call_id ∉ snapshot.calls then .error (.Protocol s!"committed call is absent from tool round: {call_id}")
    else if interrupted = false ∧ call_id ∉ o.completions then
      .error (.Protocol s!"core committed a tool result without typed Cursor state: {call_id}")
    else
      let completions := if interrupted then o.completions else o.completions.filter (· ≠ call_id)
      let committed := { o with completions, completed := call_id :: o.completed }
      if snapshot.settled then
        requireBarrier barrier "settled tool round has no completion barrier"
          { committed with
            active_round := none, active_tool_calls := []
            interrupted_rounds := o.interrupted_rounds.filter (· ≠ round_id) } published
      else .ok (committed,none)

/-- The state after `MessagesCommitted`, and what the barrier is completed with;
    a barrier that is not completed is dropped. -/
def messages_committed (o : Output) (state : MessagesCommitted) (snapshot : Option RoundSnapshot)
    (published : Except Error Unit) : Except Error (Output × Option (Except Error Unit)) :=
  match state.cause with
  | .ToolResult call_id interrupted => tool_committed o state.barrier call_id interrupted snapshot published
  | .Compaction _ => requireBarrier state.barrier "compaction state has no completion barrier" o published
  | .FinalTurn => requireBarrier state.barrier "final state has no completion barrier" o published
  | .ToolRoundStarted round_id => .ok ({ o with active_round := some round_id },none)
  | .InitialMessages =>
    if o.active_round.isNone ∧ state.barrier.is_required = true then publish o published else .ok (o,none)
  | .RuntimeEvent event_id =>
    let delivered := { o with pending_injections := o.pending_injections.filter (· ≠ injectionKey event_id) }
    if o.active_round.isNone ∧ state.barrier.is_required = true then publish delivered published
    else .ok (delivered,none)

def accept_tool_completion (delivery : CommandResult) (request_id : String) : Except Error Bool :=
  match delivery with
  | .Applied | .Duplicate => .ok true
  | .RunClosing | .RunEnded => .ok false
  | .StaleTarget => .error (.RunNotFound request_id)

inductive Forwarded where
  | Discarded
  | Refused
  | Accepted
deriving DecidableEq

/-- How the waits of `forward_completion` end: a read image is persisted, the
    run answers and the dispatcher goes on. -/
structure Forwarding where
  persisted : Except Error Unit := .ok ()
  delivery : CommandResult := .Applied
  continued : Except Error Unit := .ok ()

def forward_completion (o : Output) (call_id : String) (waits : Forwarding) : Except Error (Output × Forwarded) :=
  if call_id ∈ o.interrupted_tool_calls then .ok (o,.Discarded)
  else do
    waits.persisted
    if call_id.isEmpty then .error (.Protocol "tool result call_id is empty")
    else if call_id ∈ o.completions then .error (.Protocol s!"duplicate tool result call_id: {call_id}")
    else if ← accept_tool_completion waits.delivery o.request_id then do
      waits.continued
      pure ({ o with completions := call_id :: o.completions },.Accepted)
    else pure (o,.Refused)

structure CompiledMessages where
  event_id : String
  message : CanonicalMessage
deriving DecidableEq

/-- The calls of the active round that have no completion are interrupted. -/
def queue_injection (o : Output) (injection_id : String) : Output :=
  { o with
    injection_ids := injection_id :: o.injection_ids
    pending_injections := injection_id :: o.pending_injections
    interrupted_tool_calls := (o.active_tool_calls.filter fun call_id => !o.completions.contains call_id) ++ o.interrupted_tool_calls
    interrupted_rounds := o.active_round.toList ++ o.interrupted_rounds }

/-- An action of the client, with the message that the prompt compiler makes of
    its content. -/
structure InjectContextAction where
  injection_id : String
  expected_run_id : String
  payload : Except Error CanonicalMessage
structure UserMessageAction where
  user_message : Option String
  payload : Except Error CanonicalMessage

def compile_injection (action : InjectContextAction) : Except Error CompiledMessages := do
  if action.injection_id.isEmpty then .error (.Protocol "InjectContextAction has no injection_id")
  else
    let message ← action.payload
    let event_id := "inject-context:" ++ action.injection_id
    pure ⟨event_id,{ message with runtime_event_id := some event_id }⟩
def compile_user_message_action (message_id : String) (payload : Except Error CanonicalMessage) : Except Error CompiledMessages := do
  if message_id.isEmpty then .error (.Protocol "Cursor user message action has no message_id")
  else
    let message ← payload
    let event_id := "user-message:" ++ message_id
    pure ⟨event_id,{ message with runtime_event_id := some event_id }⟩

def forward_injection (o : Output) (action : InjectContextAction) : Except Error (Output × Option CompiledMessages) :=
  if action.injection_id.isEmpty then .error (.Protocol "InjectContextAction has no injection_id")
  else if action.injection_id ∈ o.injection_ids then .ok (o,none)
  else if action.expected_run_id ≠ o.request_id then
    .ok ({ o with injection_ids := action.injection_id :: o.injection_ids },none)
  else do
    let compiled ← compile_injection action
    pure (queue_injection o action.injection_id,some compiled)
def forward_user_message (o : Output) (action : UserMessageAction) : Except Error (Output × Option CompiledMessages) :=
  match action.user_message with
  | none => .error (.Protocol "Cursor user message action has no UserMessage")
  | some message_id => do
    let compiled ← compile_user_message_action message_id action.payload
    pure (queue_injection o ("user-message:" ++ message_id),some compiled)

inductive RuntimeAction where
  | Inject (action : InjectContextAction)
  | UserMessage (action : UserMessageAction)
def forward (o : Output) : RuntimeAction → Except Error (Output × Option CompiledMessages)
  | .Inject action => forward_injection o action
  | .UserMessage action => forward_user_message o action

/-! ## What each input can do -/

variable {o after : Output} {published : Except Error Unit} {barrier : Option (Except Error Unit)}

theorem execute_skipped {round_id : ToolRoundId} {calls : List ToolCall} (done : execute_tool_round o round_id calls = (after,none)) :
    (round_id ∈ o.interrupted_rounds ∨ o.pending_injections ≠ []) ∧ ∃ completed, after = { o with
      completed, completed_round := some round_id, active_round := some round_id
      active_tool_calls := calls.map (·.call_id), interrupted_rounds := round_id :: o.interrupted_rounds
      interrupted_tool_calls := calls.map (·.call_id) ++ o.interrupted_tool_calls } := by
  unfold execute_tool_round at done
  dsimp only at done
  generalize (if o.completed_round = some round_id then o.completed else []) = completed at done
  split_ifs at done with skips
  · exact ⟨skips,completed,(Prod.mk.inj done).1.symm⟩
  · cases (Prod.mk.inj done).2
theorem execute_dispatched {round_id : ToolRoundId} {calls batch : List ToolCall}
    (done : execute_tool_round o round_id calls = (after,some batch)) :
    ∃ completed, batch = start_batch calls completed ∧ after = { o with
      completed, completed_round := some round_id, active_round := some round_id
      active_tool_calls := calls.map (·.call_id) } := by
  unfold execute_tool_round at done
  dsimp only at done
  generalize (if o.completed_round = some round_id then o.completed else []) = completed at done
  split_ifs at done
  · cases (Prod.mk.inj done).2
  · obtain ⟨rfl,same⟩ := Prod.mk.inj done
    exact ⟨completed,(Option.some.inj same).symm,rfl⟩

structure Committed (o : Output) (cause : CommitCause) (after : Output) : Prop where
  completed_round : after.completed_round = o.completed_round
  interrupted : after.interrupted_tool_calls = o.interrupted_tool_calls
  delivered : ∀ event_id, cause = .RuntimeEvent event_id →
    after.pending_injections = o.pending_injections.filter (· ≠ injectionKey event_id)
  pending : (∀ event_id, cause ≠ .RuntimeEvent event_id) → after.pending_injections = o.pending_injections
  typed : ∀ call_id, cause = .ToolResult call_id false → call_id ∈ o.completions
  completions : after.completions ⊆ o.completions
  removed : ∀ call_id, cause = .ToolResult call_id false → call_id ∉ after.completions
  active : after.active_tool_calls ⊆ o.active_tool_calls
  active_round : ∀ round_id, after.active_round = some round_id → o.active_round = some round_id ∨ cause = .ToolRoundStarted round_id
  rounds : after.interrupted_rounds ⊆ o.interrupted_rounds

theorem publish_ok (done : publish o published = .ok (after,barrier)) : after = o := by
  unfold publish at done
  split at done
  · cases done
  · exact (Prod.mk.inj (Except.ok.inj done)).1.symm
theorem requireBarrier_ok {required : CommitBarrier} {missing : String}
    (done : requireBarrier required missing o published = .ok (after,barrier)) :
    after = o := by
  unfold requireBarrier at done
  split_ifs at done
  exact publish_ok done

theorem tool_committed_ok {required : CommitBarrier} {call_id : String} {interrupted : Bool} {snapshot : Option RoundSnapshot}
    (done : tool_committed o required call_id interrupted snapshot published = .ok (after,barrier)) :
    Committed o (.ToolResult call_id interrupted) after := by
  unfold tool_committed at done
  split at done
  · cases done
  · cases done
  · dsimp only at done
    by_cases absent : call_id ∉ RoundSnapshot.calls ‹_›
    · rw [if_pos absent] at done
      cases done
    by_cases untyped : interrupted = false ∧ call_id ∉ o.completions
    · rw [if_neg absent,if_pos untyped] at done
      cases done
    rw [if_neg absent,if_neg untyped] at done
    have typed : interrupted = false → call_id ∈ o.completions :=
      fun finished => not_not.mp fun missing => untyped ⟨finished,missing⟩
    have fewer : (if interrupted = true then o.completions else o.completions.filter (· ≠ call_id)) ⊆ o.completions := by
      split
      · exact fun _ => id
      · exact fun _ member => (List.mem_filter.mp member).1
    have removed : interrupted = false → call_id ∉ if interrupted = true then o.completions else o.completions.filter (· ≠ call_id) := by
      rintro rfl
      simp
    generalize (if interrupted = true then o.completions else o.completions.filter (· ≠ call_id)) = left
      at done fewer removed
    split_ifs at done
    · rw [requireBarrier_ok done]
      exact ⟨rfl,rfl,by simp,fun _ => rfl,by simpa using typed,fewer,by simpa using removed,by simp,by simp,
        fun _ member => (List.mem_filter.mp member).1⟩
    · rw [← (Prod.mk.inj (Except.ok.inj done)).1]
      exact ⟨rfl,rfl,by simp,fun _ => rfl,by simpa using typed,fewer,by simpa using removed,fun _ => id,fun _ => .inl,fun _ => id⟩

theorem Committed.refl {cause : CommitCause} (other : ∀ event_id, cause ≠ .RuntimeEvent event_id)
    (unnamed : ∀ call_id, cause ≠ .ToolResult call_id false) : Committed o cause o :=
  ⟨rfl,rfl,fun event_id isCause => absurd isCause (other event_id),fun _ => rfl,
    fun call_id isCause => absurd isCause (unnamed call_id),fun _ => id,
    fun call_id isCause => absurd isCause (unnamed call_id),fun _ => id,fun _ => .inl,fun _ => id⟩

theorem messages_committed_ok {state : MessagesCommitted} {snapshot : Option RoundSnapshot}
    (done : messages_committed o state snapshot published = .ok (after,barrier)) : Committed o state.cause after := by
  unfold messages_committed at done
  cases isCause : state.cause with
  | ToolResult call_id interrupted =>
    simp only [isCause] at done
    exact tool_committed_ok done
  | Compaction summary =>
    simp only [isCause] at done
    exact requireBarrier_ok done ▸ .refl (by simp) (by simp)
  | FinalTurn =>
    simp only [isCause] at done
    exact requireBarrier_ok done ▸ .refl (by simp) (by simp)
  | ToolRoundStarted round_id =>
    simp only [isCause,Except.ok.injEq,Prod.mk.injEq] at done
    rw [← done.1]
    exact ⟨rfl,rfl,by simp,fun _ => rfl,by simp,fun _ => id,by simp,fun _ => id,by simp,fun _ => id⟩
  | InitialMessages =>
    simp only [isCause] at done
    split_ifs at done
    · exact publish_ok done ▸ .refl (by simp) (by simp)
    · simp only [Except.ok.injEq,Prod.mk.injEq] at done
      exact done.1 ▸ .refl (by simp) (by simp)
  | RuntimeEvent event_id =>
    simp only [isCause] at done
    have same : after = { o with pending_injections := o.pending_injections.filter (· ≠ injectionKey event_id) } := by
      split_ifs at done
      · exact publish_ok done
      · exact (Prod.mk.inj (Except.ok.inj done)).1.symm
    rw [same]
    exact ⟨rfl,rfl,by simp,by simp,by simp,fun _ => id,by simp,fun _ => id,fun _ => .inl,fun _ => id⟩

theorem injectionKey_inject (injection_id : String) : injectionKey ("inject-context:" ++ injection_id) = injection_id := by
  rw [injectionKey,stripPrefix_append]
  rfl
theorem injectionKey_user (message_id : String) : injectionKey ("user-message:" ++ message_id) = "user-message:" ++ message_id := by
  have other : Text.starts_with ("user-message:" ++ message_id) "inject-context:" = false := by
    simp [Text.starts_with,String.toList_append]
  simp [injectionKey,stripPrefix,other]

theorem forward_ok {action : RuntimeAction} {compiled : CompiledMessages} (done : forward o action = .ok (after,some compiled)) :
    after = queue_injection o (injectionKey compiled.event_id) ∧ compiled.message.runtime_event_id = some compiled.event_id := by
  cases action with
  | Inject action =>
    simp only [forward,forward_injection,compile_injection] at done
    split_ifs at done with empty known foreign
    · simp at done
    · simp at done
    · obtain ⟨compiled',compiles,done⟩ := bind_ok.mp done
      obtain ⟨message,_,compiles⟩ := bind_ok.mp compiles
      cases compiles
      cases done
      exact ⟨by rw [injectionKey_inject],rfl⟩
  | UserMessage action =>
    simp only [forward,forward_user_message,compile_user_message_action] at done
    split at done
    · cases done
    · next message_id _ =>
      obtain ⟨compiled',compiles,done⟩ := bind_ok.mp done
      split_ifs at compiles
      obtain ⟨message,_,compiles⟩ := bind_ok.mp compiles
      cases compiles
      cases done
      exact ⟨by rw [injectionKey_user],rfl⟩
theorem forward_none {action : RuntimeAction} (done : forward o action = .ok (after,none)) :
    ∃ injection_ids, after = { o with injection_ids } := by
  cases action with
  | Inject action =>
    simp only [forward,forward_injection] at done
    split_ifs at done
    · cases done
      exact ⟨o.injection_ids,rfl⟩
    · cases done
      exact ⟨_,rfl⟩
    · obtain ⟨compiled',_,done⟩ := bind_ok.mp done
      cases done
  | UserMessage action =>
    simp only [forward,forward_user_message] at done
    split at done
    · cases done
    · obtain ⟨compiled',_,done⟩ := bind_ok.mp done
      cases done

theorem forward_completion_ok {call_id : String} {waits : Forwarding} {forwarded : Forwarded}
    (done : forward_completion o call_id waits = .ok (after,forwarded)) :
    (forwarded = .Discarded ∧ call_id ∈ o.interrupted_tool_calls ∧ after = o) ∨
      (forwarded = .Refused ∧ call_id ∉ o.interrupted_tool_calls ∧ after = o) ∨
      (forwarded = .Accepted ∧ call_id ∉ o.interrupted_tool_calls ∧ call_id ∉ o.completions ∧
        after = { o with completions := call_id :: o.completions }) := by
  unfold forward_completion at done
  by_cases interrupted : call_id ∈ o.interrupted_tool_calls
  · rw [if_pos interrupted] at done
    cases done
    exact .inl ⟨rfl,interrupted,rfl⟩
  rw [if_neg interrupted] at done
  obtain ⟨_,_,done⟩ := bind_ok.mp done
  split_ifs at done with empty known
  obtain ⟨accepted,_,done⟩ := bind_ok.mp done
  cases accepted with
  | false =>
    cases done
    exact .inr (.inl ⟨rfl,interrupted,rfl⟩)
  | true =>
    obtain ⟨_,_,done⟩ := bind_ok.mp done
    cases done
    exact .inr (.inr ⟨rfl,interrupted,known,rfl⟩)

end MyCursor.ConversationOutput

import MyCursor.ConversationOutput

/-!
# A run and its client side

A run beside the client side of its conversation: the entries of the run's log
come one by one, its events wait in a channel, completions and runtime actions
are forwarded and the tasks that deliver messages go on, in any order. The run
does not go on by itself while an event with a barrier is not handled.
-/
namespace MyCursor.ClientSession
open Message Store Run Engine EventOrder ConversationOutput
open Transitions

/-- A task that delivers a batch has not reached the registry yet, waits for the
    run that took the batch, was answered by it, or has ended without it. -/
inductive Stage where
  | Spawned
  | Submitted (ticket : Nat)
  | Returned (result : CommandResult)
  | Elsewhere (result : CommandResult)
deriving DecidableEq

def Stage.inFlight : Stage → Bool
  | .Spawned | .Submitted _ => true
  | .Returned _ | .Elsewhere _ => false

/-- `told` says that a commit under the key was handled since the batch was
    queued. -/
structure Task where
  compiled : CompiledMessages
  stage : Stage := .Spawned
  told : Bool := false
deriving DecidableEq

def Task.key (task : Task) : String := injectionKey task.compiled.event_id
def Task.batch (task : Task) (ticket : Nat) : MessageBatch := ⟨ticket,task.compiled.event_id,[task.compiled.message]⟩

/-- `ConversationRegistry::deliver`: the run takes the batch or refuses it. -/
def Task.submitted (task : Task) : Entry → Option Stage
  | .Accepted batch =>
    if batch = task.batch batch.ticket then some (.Submitted batch.ticket) else none
  | .Refused result => some (.Elsewhere result)
  | _ => none
def Task.answered (task : Task) : Entry → Task
  | .Answered ticket result =>
    if task.stage = .Submitted ticket then { task with stage := .Returned result } else task
  | _ => task

/-- The output loop, what the run has done and what it is still to do, its
    events that are not handled and those that are, the deliveries, and the
    calls that were dispatched and that were interrupted, each with its round. -/
structure Session where
  output : Output
  ended : Bool := false
  past : List Entry := []
  coming : List Entry
  channel : List RunEvent := []
  handled : List RunEvent := []
  tasks : List Task := []
  dispatched : List (ToolRoundId × String) := []
  interrupted : List (ToolRoundId × String) := []

def requiresBarrier : RunEvent → Bool
  | .MessagesCommitted state => state.barrier.is_required
  | _ => false
def outsideWait : Entry → Bool
  | .Accepted _ | .Refused _ | .Emitted (.Ended _) | .Stored (.finish_run _ _ _ _) _ => true
  | _ => false

def takeEntry (s : Session) (entry : Entry) (rest : List Entry) : Session :=
  { s with
    past := s.past ++ [entry], coming := rest, channel := s.channel ++ (emittedEvent entry).toList
    tasks := s.tasks.map (·.answered entry) }
def advance (s : Session) : Session :=
  match s.coming with
  | [] => s
  | entry :: rest => if !outsideWait entry && s.channel.any requiresBarrier then s else takeEntry s entry rest

def setStage (s : Session) (index : Nat) (stage : Stage) : Session :=
  { s with tasks := s.tasks.modify index fun task => { task with stage } }
/-- A task goes on: its wait ends without the run, or the run takes or refuses
    the batch. -/
def deliver (s : Session) (index : Nat) (elsewhere : Option CommandResult) : Session :=
  match s.tasks[index]?, elsewhere with
  | none, _ => s
  | some task, some result => if task.stage.inFlight then setStage s index (.Elsewhere result) else s
  | some task, none =>
    match s.coming with
    | [] => s
    | entry :: rest =>
      match task.submitted entry with
      | none => s
      | some stage => if task.stage = .Spawned then setStage (takeEntry s entry rest) index stage else s

def interruptCalls (o : Output) (calls : List String) (interrupted : List (ToolRoundId × String)) : List (ToolRoundId × String) :=
  (o.completed_round.toList.flatMap fun round_id => calls.map (round_id,·)) ++ interrupted
def tellTasks (cause : CommitCause) (tasks : List Task) : List Task :=
  match cause with
  | .RuntimeEvent event_id =>
    tasks.map fun task => if task.key = injectionKey event_id then { task with told := true } else task
  | _ => tasks
def interruptedCall : CommitCause → List String
  | .ToolResult call_id true => [call_id]
  | _ => []

/-- How the waits of a handler end: what the store tells of the round, and the
    result of the others. -/
structure Waits where
  snapshot : Option RoundSnapshot := none
  result : Except Error Unit := .ok ()

def handleExecute (s : Session) (round_id : ToolRoundId) (calls : List ToolCall) : Session :=
  let (output,batch) := execute_tool_round s.output round_id calls
  match batch with
  | none => { s with output, interrupted := calls.map (fun call => (round_id,call.call_id)) ++ s.interrupted }
  | some batch => { s with output, dispatched := batch.map (fun call => (round_id,call.call_id)) ++ s.dispatched }
def handleCommit (s : Session) (state : MessagesCommitted) (waits : Waits) : Session :=
  match messages_committed s.output state waits.snapshot waits.result with
  | .error _ => { s with ended := true }
  | .ok (output,_) =>
    { s with
      output, tasks := tellTasks state.cause s.tasks
      interrupted := interruptCalls s.output (interruptedCall state.cause) s.interrupted }
def handle (s : Session) (event : RunEvent) (waits : Waits) : Session :=
  match event, waits.result with
  | .MessagesCommitted state, _ => handleCommit s state waits
  | .Ended _, _ => { s with ended := true }
  | _, .error _ => { s with ended := true }
  | .ExecuteToolRound round_id calls, .ok _ => handleExecute s round_id calls
  | _, .ok _ => s
def receive (s : Session) (waits : Waits) : Session :=
  match s.channel with
  | [] => s
  | event :: rest => handle { s with channel := rest, handled := s.handled ++ [event] } event waits

def complete (s : Session) (round_id : ToolRoundId) (call_id : String) (waits : Forwarding) : Session :=
  if (round_id,call_id) ∈ s.dispatched then
    match forward_completion s.output call_id waits with
    | .error _ => { s with ended := true }
    | .ok (output,_) => { s with output, dispatched := s.dispatched.erase (round_id,call_id) }
  else s

def activeCalls (o : Output) : List String := o.active_tool_calls.filter fun call_id => !o.completions.contains call_id
def queue (s : Session) (action : RuntimeAction) : Session :=
  match forward s.output action with
  | .error _ => { s with ended := true }
  | .ok (output,none) => { s with output }
  | .ok (output,some compiled) =>
    { s with
      output, tasks := s.tasks ++ [{ compiled }]
      interrupted := interruptCalls s.output (activeCalls s.output) s.interrupted }

inductive Label where
  | Run
  | Deliver (index : Nat) (elsewhere : Option CommandResult)
  | Event (waits : Waits)
  | Completion (round_id : ToolRoundId) (call_id : String) (waits : Forwarding)
  | Action (action : RuntimeAction)

/-- The run and the tasks go on when the loop has returned. -/
def step (s : Session) : Label → Session
  | .Run => advance s
  | .Deliver index elsewhere => deliver s index elsewhere
  | .Event waits => if s.ended then s else receive s waits
  | .Completion round_id call_id waits => if s.ended then s else complete s round_id call_id waits
  | .Action action => if s.ended then s else queue s action

def Session.initial (request_id : String) (run_id : RunId) (log : List Entry) : Session :=
  { output := { request_id, run_id }, coming := log }

/-! ## The events that are handled -/

structure Follows (log : List Entry) (s : Session) : Prop where
  log : s.past ++ s.coming = log
  events : s.handled ++ s.channel = emitted s.past

def Session.progress (s : Session) : Progress := after EventOrder.progress {} s.handled

variable {log : List Entry} {s : Session}

theorem Follows.takeEntry (follows : Follows log s) {entry : Entry} {rest : List Entry}
    (next : s.coming = entry :: rest) : Follows log (takeEntry s entry rest) := by
  refine ⟨?_,?_⟩
  · rw [← follows.log,next]
    simp [ClientSession.takeEntry]
  · simp only [ClientSession.takeEntry,emitted_append,← follows.events,List.append_assoc]

theorem handle_keeps (s : Session) (event : RunEvent) (waits : Waits) :
    (handle s event waits).past = s.past ∧ (handle s event waits).coming = s.coming ∧
      (handle s event waits).channel = s.channel ∧ (handle s event waits).handled = s.handled := by
  have execute : ∀ round_id calls, (handleExecute s round_id calls).past = s.past ∧
      (handleExecute s round_id calls).coming = s.coming ∧ (handleExecute s round_id calls).channel = s.channel ∧
      (handleExecute s round_id calls).handled = s.handled := by
    intro round_id calls
    unfold handleExecute
    dsimp only
    split <;> exact ⟨rfl,rfl,rfl,rfl⟩
  have commit : ∀ state, (handleCommit s state waits).past = s.past ∧ (handleCommit s state waits).coming = s.coming ∧
      (handleCommit s state waits).channel = s.channel ∧ (handleCommit s state waits).handled = s.handled := by
    intro state
    unfold handleCommit
    split <;> exact ⟨rfl,rfl,rfl,rfl⟩
  unfold handle
  split
  · exact commit _
  · exact ⟨rfl,rfl,rfl,rfl⟩
  · exact ⟨rfl,rfl,rfl,rfl⟩
  · exact execute _ _
  · exact ⟨rfl,rfl,rfl,rfl⟩

theorem step_follows (follows : Follows log s) (label : Label) : Follows log (step s label) := by
  cases label with
  | Run =>
    simp only [step,advance]
    split
    · exact follows
    · next entry rest next =>
      split
      · exact follows
      · exact follows.takeEntry next
  | Deliver index elsewhere =>
    simp only [step,deliver]
    split
    · exact follows
    · split
      · exact ⟨follows.log,follows.events⟩
      · exact follows
    · split
      · exact follows
      · next entry rest next =>
        split
        · exact follows
        · split
          · have taken := follows.takeEntry next
            exact ⟨taken.log,taken.events⟩
          · exact follows
  | Event waits =>
    simp only [step,receive]
    split
    · exact follows
    · split
      · exact follows
      · next event rest next =>
        obtain ⟨past,coming,channel,handled⟩ :=
          handle_keeps { s with channel := rest, handled := s.handled ++ [event] } event waits
        refine ⟨by rw [past,coming]; exact follows.log,?_⟩
        rw [past,channel,handled,← follows.events,next]
        simp
  | Completion round_id call_id waits =>
    simp only [step,complete]
    split
    · exact follows
    · split
      · split <;> exact ⟨follows.log,follows.events⟩
      · exact follows
  | Action action =>
    simp only [step,queue]
    split
    · exact follows
    · split <;> exact ⟨follows.log,follows.events⟩

theorem Follows.allowed (follows : Follows log s)
    (ordered : Meets EventOrder.progress Allowed {} (emitted log)) {event : RunEvent} {rest : List RunEvent}
    (next : s.channel = event :: rest) : Allowed s.progress event := by
  have split : emitted log = s.handled ++ (event :: rest ++ emitted s.coming) := by
    rw [← follows.log,emitted,List.filterMap_append]
    show emitted s.past ++ emitted s.coming = _
    rw [← follows.events,next,List.append_assoc]
  rw [split] at ordered
  exact ordered.split.2.1

def nextRound (s : Session) : Label → Option (ToolRoundId × List ToolCall)
  | .Event _ =>
    match s.channel with
    | .ExecuteToolRound round_id calls :: _ => some (round_id,calls)
    | _ => none
  | _ => none

def Session.taken (s : Session) (event : RunEvent) (rest : List RunEvent) : Session :=
  { s with channel := rest, handled := s.handled ++ [event] }

inductive Change (s : Session) : Label → Session → Prop
  | stay (label : Label) : Change s label s
  | ending (label : Label) (t : Session) (ended : t.ended = true) : Change s label t
  | take (entry : Entry) (rest : List Entry) (next : s.coming = entry :: rest)
      (free : outsideWait entry = true ∨ s.channel.any requiresBarrier = false) :
      Change s .Run (takeEntry s entry rest)
  | elsewhere (index : Nat) (task : Task) (result : CommandResult) (isTask : s.tasks[index]? = some task)
      (inFlight : task.stage.inFlight = true) : Change s (.Deliver index (some result)) (setStage s index (.Elsewhere result))
  | submit (index : Nat) (task : Task) (entry : Entry) (rest : List Entry) (stage : Stage)
      (isTask : s.tasks[index]? = some task) (spawned : task.stage = .Spawned) (next : s.coming = entry :: rest)
      (submitted : task.submitted entry = some stage) :
      Change s (.Deliver index none) (setStage (takeEntry s entry rest) index stage)
  | commit (state : MessagesCommitted) (rest : List RunEvent) (waits : Waits) (output : Output)
      (running : s.ended = false) (next : s.channel = .MessagesCommitted state :: rest)
      (committed : Committed s.output state.cause output) :
      Change s (.Event waits) { s.taken (.MessagesCommitted state) rest with
        output, tasks := tellTasks state.cause s.tasks
        interrupted := interruptCalls s.output (interruptedCall state.cause) s.interrupted }
  | skip (round_id : ToolRoundId) (calls : List ToolCall) (rest : List RunEvent) (waits : Waits) (output : Output)
      (running : s.ended = false) (next : s.channel = .ExecuteToolRound round_id calls :: rest)
      (done : execute_tool_round s.output round_id calls = (output,none)) :
      Change s (.Event waits) { s.taken (.ExecuteToolRound round_id calls) rest with
        output, interrupted := calls.map (fun call => (round_id,call.call_id)) ++ s.interrupted }
  | dispatch (round_id : ToolRoundId) (calls batch : List ToolCall) (rest : List RunEvent) (waits : Waits)
      (output : Output) (running : s.ended = false) (next : s.channel = .ExecuteToolRound round_id calls :: rest)
      (done : execute_tool_round s.output round_id calls = (output,some batch)) :
      Change s (.Event waits) { s.taken (.ExecuteToolRound round_id calls) rest with
        output, dispatched := batch.map (fun call => (round_id,call.call_id)) ++ s.dispatched }
  | other (event : RunEvent) (rest : List RunEvent) (waits : Waits) (running : s.ended = false)
      (next : s.channel = event :: rest) (uncommitted : ∀ state, event ≠ .MessagesCommitted state)
      (unexecuted : ∀ round_id calls, event ≠ .ExecuteToolRound round_id calls) :
      Change s (.Event waits) (s.taken event rest)
  | complete (round_id : ToolRoundId) (call_id : String) (waits : Forwarding) (output : Output) (running : s.ended = false)
      (dispatched : (round_id,call_id) ∈ s.dispatched)
      (same : output = s.output ∨ output = { s.output with completions := call_id :: s.output.completions }) :
      Change s (.Completion round_id call_id waits)
        { s with output, dispatched := s.dispatched.erase (round_id,call_id) }
  | reject (action : RuntimeAction) (injection_ids : List String) (running : s.ended = false) :
      Change s (.Action action) { s with output := { s.output with injection_ids } }
  | queue (action : RuntimeAction) (compiled : CompiledMessages) (running : s.ended = false)
      (identified : compiled.message.runtime_event_id = some compiled.event_id) :
      Change s (.Action action) { s with
        output := queue_injection s.output (injectionKey compiled.event_id), tasks := s.tasks ++ [{ compiled }]
        interrupted := interruptCalls s.output (activeCalls s.output) s.interrupted }

theorem advance_change (s : Session) : Change s .Run (advance s) := by
  unfold advance
  split
  · exact .stay _
  · next entry rest next =>
    split
    · exact .stay _
    · next free =>
      refine .take entry rest next ?_
      simpa [-List.any_eq_true,Classical.or_iff_not_imp_left] using free

theorem deliver_change (s : Session) (index : Nat) (elsewhere : Option CommandResult) :
    Change s (.Deliver index elsewhere) (deliver s index elsewhere) := by
  unfold deliver
  split
  · exact .stay _
  · next task result isTask =>
    split
    · next inFlight => exact .elsewhere index task result isTask inFlight
    · exact .stay _
  · next task isTask =>
    split
    · exact .stay _
    · next entry rest next =>
      split
      · exact .stay _
      · next stage submitted =>
        split
        · next spawned => exact .submit index task entry rest stage isTask spawned next submitted
        · exact .stay _

theorem receive_change (running : s.ended = false) (waits : Waits) : Change s (.Event waits) (receive s waits) := by
  unfold receive
  split
  · exact .stay _
  · next event rest next =>
    unfold handle
    split
    · next state =>
      unfold handleCommit
      split
      · exact .ending _ _ rfl
      · next output _ done => exact .commit state rest waits output running next (messages_committed_ok done)
    · exact .ending _ _ rfl
    · exact .ending _ _ rfl
    · next round_id calls _ _ =>
      unfold handleExecute
      dsimp only
      split
      · next isNone => exact .skip round_id calls rest waits _ running next (Prod.ext rfl isNone)
      · next batch isSome => exact .dispatch round_id calls batch rest waits _ running next (Prod.ext rfl isSome)
    · next notCommit _ notExecute _ => exact .other _ rest waits running next notCommit notExecute

theorem complete_change (running : s.ended = false) (round_id : ToolRoundId) (call_id : String)
    (waits : Forwarding) : Change s (.Completion round_id call_id waits) (complete s round_id call_id waits) := by
  unfold ClientSession.complete
  split
  · next member =>
    split
    · exact .ending _ _ rfl
    · next output _ done =>
      refine .complete round_id call_id waits output running member ?_
      rcases forward_completion_ok done with ⟨_,_,same⟩ | ⟨_,_,same⟩ | ⟨_,_,_,same⟩
      · exact .inl same
      · exact .inl same
      · exact .inr same
  · exact .stay _

theorem queue_change (running : s.ended = false) (action : RuntimeAction) : Change s (.Action action) (queue s action) := by
  unfold ClientSession.queue
  split
  · exact .ending _ _ rfl
  · next output done =>
    obtain ⟨injection_ids,rfl⟩ := forward_none done
    exact .reject action injection_ids running
  · next output compiled done =>
    obtain ⟨rfl,identified⟩ := forward_ok done
    exact .queue action compiled running identified

theorem step_change (s : Session) (label : Label) : Change s label (step s label) := by
  cases label with
  | Run => exact advance_change s
  | Deliver index elsewhere => exact deliver_change s index elsewhere
  | Event waits =>
    rw [step]
    by_cases ended : s.ended
    · exact if_pos ended ▸ .stay _
    · exact if_neg ended ▸ receive_change (by simpa using ended) waits
  | Completion round_id call_id waits =>
    rw [step]
    by_cases ended : s.ended
    · exact if_pos ended ▸ .stay _
    · exact if_neg ended ▸ complete_change (by simpa using ended) round_id call_id waits
  | Action action =>
    rw [step]
    by_cases ended : s.ended
    · exact if_pos ended ▸ .stay _
    · exact if_neg ended ▸ queue_change (by simpa using ended) action

theorem Session.progress_taken (s : Session) (event : RunEvent) (rest : List RunEvent) :
    (s.taken event rest).progress = EventOrder.progress s.progress event := by
  rw [Session.progress,Session.taken,after_append]
  rfl
theorem progress_other {event : RunEvent} (notCommit : ∀ state, event ≠ .MessagesCommitted state)
    (notExecute : ∀ round_id calls, event ≠ .ExecuteToolRound round_id calls) (p : Progress) :
    EventOrder.progress p event = p := by
  cases event with
  | MessagesCommitted state => exact (notCommit state rfl).elim
  | ExecuteToolRound round_id calls => exact (notExecute round_id calls rfl).elim
  | _ => rfl

end MyCursor.ClientSession

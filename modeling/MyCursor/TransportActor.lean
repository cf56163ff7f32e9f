import MyCursor.Inbox
import MyCursor.OutputHub
import MyCursor.Run

/-!
# The actor of a transport

The loop of `ConversationRuntime::spawn` in `cursor/conversation/runtime.rs`
with the lifecycle of `cursor/transport/lifecycle.rs`: client messages start
generations of the run, a generation that is over is reported, and the actor
ends the output when nothing is left to come. What other tasks do meanwhile is
part of the run: they emit frames, admit appends, and change the state of the
current generation's run.
-/
namespace MyCursor.TransportActor
open Connect OutputHub Inbox Run
set_option linter.unusedSectionVars false

inductive TransportFinish where
  | Success
  | Failed (error : Error)
  | Cancelled
deriving DecidableEq

inductive RunFinish where
  | TurnCompleted
  | Transport (finish : TransportFinish)
deriving DecidableEq

inductive ConnectCode where
  | Canceled
  | InvalidArgument
  | NotFound
  | Unavailable
  | Internal
deriving DecidableEq

/-- The JSON of an end-stream error: its code, its message, and whether the
    details of a provider error are added. -/
class StreamErrors where
  payload : ConnectCode → String → Bool → Bytes

section Loop
variable [StreamErrors]

def stream_error : Error → ConnectCode × String × Bool
  | .Provider message => (.Unavailable,(Error.Provider message).to_string,true)
  | .Http message => (.Unavailable,(Error.Http message).to_string,true)
  | .Protocol message => (.InvalidArgument,message,false)
  | .Decode message => (.InvalidArgument,(Error.Decode message).to_string,false)
  | .Json message => (.InvalidArgument,(Error.Json message).to_string,false)
  | .RunNotFound run_id => (.NotFound,(Error.RunNotFound run_id).to_string,false)
  | .Cancelled => (.Canceled,Error.Cancelled.to_string,false)
  | error => (.Internal,error.to_string,false)

def lastFrame : TransportFinish → Bytes
  | .Success => encode_end_stream
  | .Failed error =>
    encode_end_stream_payload (StreamErrors.payload (stream_error error).1 (stream_error error).2.1 (stream_error error).2.2)
  | .Cancelled => encode_end_stream_payload (StreamErrors.payload .Canceled "run was cancelled" false)

def emitAll (output : Output) (messages : List Bytes) : Output :=
  messages.foldl (fun output message => (emit output (encode_message message)).2) output

/-- `finish_success`, `finish_failed` and `finish_cancelled`: the frame is
    emitted and the output closed. Other tasks may emit in between. -/
def finish_transport (output : Output) (finish : TransportFinish) (between : List Bytes) : Output :=
  (close (emitAll (emit output (lastFrame finish)).2 between)).2

inductive TransportState where
  | Open
  | Closing
  | Draining
  | Closed
deriving DecidableEq

/-- `RunGeneration`: its run while there is one, and whether its runtime
    actions are still received. -/
structure Generation where
  id : Nat
  run : Option RunPhase := none
  listening : Bool := true
deriving DecidableEq

inductive ClientMessage where
  | RunRequest (conversation_id : Option String)
  | ExecClientMessage
  | ExecClientControlMessage
  | InteractionResponse
  | KvClientMessage
  | UserMessageAction
  | CancelAction
  | InjectContextAction
  | CancelSubagentAction
  | OtherAction
  | NoAction
  | Other
deriving DecidableEq

inductive TransportCommand where
  | Append (seqno : Int) (message : ClientMessage)
  | RunFinished (generation : Nat) (finish : RunFinish)
  | Disconnect
  | DisconnectIfUnsubscribed (epoch : UInt64)
deriving DecidableEq

/-- What became of a client message: a generation was started for it, the active
    run took it, or it went to the services and tools, whose state is not the
    actor's. -/
inductive Handling where
  | Started (generation : Nat)
  | Delivered
  | Passed
  | Ignored
deriving DecidableEq

/-- The variables of the loop, the handle's state, which generations were
    started, superseded and reported as finished, and which messages were
    handled. -/
structure Actor where
  request_id : String := ""
  inbox : OrderedInbox ClientMessage := starting_at 0
  current : Option Generation := none
  next_generation : Nat := 1
  pending_finish : Option (Nat × TransportFinish) := none
  draining : Bool := false
  waiting_for_action : Bool := false
  ended : Bool := false
  output : Output := {}
  conversation_id : Option String := none
  state : TransportState := .Open
  admissions : Nat := 0
  disconnected : Bool := false
  started : List Nat := []
  superseded : List Nat := []
  finished : List Nat := []
  handled : List (ClientMessage × Handling) := []

def Actor.note (actor : Actor) (message : ClientMessage) (handling : Handling) : Actor :=
  { actor with handled := actor.handled ++ [(message,handling)] }

def u64Max : Nat := 2 ^ 64 - 1

/-- `TransportHandle::set_conversation_id`. -/
def set_conversation_id (actor : Actor) (conversation_id : String) : Except Error Actor :=
  if conversation_id.isEmpty then .error (.Protocol "Cursor conversation id is required")
  else if actor.conversation_id.any (· ≠ conversation_id) then
    .error (.Protocol s!"conflicting conversation ids for request {actor.request_id}")
  else .ok { actor with conversation_id := some conversation_id }

def begin_close (actor : Actor) : Actor := if actor.state = .Open then { actor with state := .Closing } else actor
def mark_draining (actor : Actor) : Actor :=
  if actor.state = .Closing ∧ actor.admissions = 0 then { actor with state := .Draining } else actor
def reopen (actor : Actor) : Actor :=
  if actor.state = .Closing ∨ actor.state = .Draining then { actor with state := .Open } else actor

def leave (actor : Actor) : Actor := { actor with ended := true, state := .Closed }
def finishWith (actor : Actor) (finish : TransportFinish) (between : List Bytes) : Actor :=
  { actor with output := finish_transport actor.output finish between }

def supersede (actor : Actor) : Actor :=
  { actor with superseded := (actor.current.toList.map (·.id)) ++ actor.superseded }
def start_generation (actor : Actor) : Actor :=
  let actor := supersede actor
  { actor with
    current := some { id := actor.next_generation }
    started := actor.next_generation :: actor.started
    next_generation := min (actor.next_generation + 1) u64Max }

/-- A finish is emitted for the generation that it was reported for only. -/
def finish_pending (actor : Actor) (between : List Bytes) : Actor :=
  match actor.pending_finish with
  | none => actor
  | some (generation,finish) =>
    let actor := { actor with pending_finish := none }
    if actor.current.any (·.id = generation) then finishWith actor finish between else actor

def delivered_to_active_run (actor : Actor) : Bool :=
  actor.current.any fun generation => generation.run = some .Running && generation.listening

def takeRequest (actor : Actor) : Actor :=
  let actor := { actor with waiting_for_action := false }
  if actor.draining then { reopen actor with draining := false, pending_finish := none } else actor

def handleMessage (between : List Bytes) (actor : Actor) (message : ClientMessage) : Actor :=
  if actor.ended then actor
  else match message with
    | .RunRequest conversation_id =>
      let actor := takeRequest actor
      match conversation_id with
      | none => start_generation (actor.note message (.Started actor.next_generation))
      | some conversation_id =>
        match set_conversation_id actor conversation_id with
        | .error error => leave (finishWith actor (.Failed error) between)
        | .ok actor => start_generation (actor.note message (.Started actor.next_generation))
    | .UserMessageAction =>
      if delivered_to_active_run actor then actor.note message .Delivered
      else
        match actor.current with
        | none => actor.note message .Ignored
        | some _ =>
          start_generation { actor.note message (.Started actor.next_generation) with waiting_for_action := false }
    | .OtherAction | .Other => actor.note message .Ignored
    | _ => actor.note message .Passed

def report (actor : Actor) (generation : Nat) : Actor :=
  if generation ∈ actor.started then { actor with finished := generation :: actor.finished } else actor
def runFinished (actor : Actor) (generation : Nat) (finish : RunFinish) : Actor :=
  let actor := report actor generation
  if !actor.current.any (·.id = generation) then actor
  else match finish with
    | .TurnCompleted => { actor with pending_finish := none, draining := false, waiting_for_action := true }
    | .Transport finish =>
      { begin_close { actor with waiting_for_action := false } with
        pending_finish := some (generation,finish), draining := true }

def disconnect (actor : Actor) (between : List Bytes) : Actor :=
  let actor := supersede { actor with disconnected := true }
  let turn_completed := actor.waiting_for_action || actor.current.any fun generation => !generation.run.any (· = .Running)
  leave (finishWith actor (if turn_completed then .Success else .Cancelled) between)

def handleCommand (actor : Actor) (between : List Bytes) : TransportCommand → Actor
  | .Disconnect => disconnect actor between
  | .DisconnectIfUnsubscribed epoch =>
    let (sealed_,output) := disconnect_if_unsubscribed actor.output epoch
    if sealed_ then disconnect { actor with output } between else { actor with output }
  | .RunFinished generation finish => runFinished actor generation finish
  | .Append seqno message =>
    let (ready,inbox) := push actor.inbox seqno message
    (ready.map (·.2)).foldl (handleMessage between) { actor with inbox }

/-- What ends a wait of the loop: a command, the close of the channel, an empty
    channel while draining, the end of the admissions, or the idle timeout. -/
inductive Wake where
  | command (command : TransportCommand)
  | closed
  | empty
  | drained
  | timeout
deriving DecidableEq

/-- One turn of the loop. A wait that cannot end in the given way goes on. -/
def turn (actor : Actor) (between : List Bytes) (wake : Wake) : Actor :=
  if actor.ended then actor
  else if actor.draining then
    -- The mark is made only when no admission is left.
    match wake with
    | .command command => handleCommand (mark_draining actor) between command
    | .closed => leave (finish_pending (mark_draining actor) between)
    | .empty => if actor.admissions = 0 then leave (finish_pending (mark_draining actor) between) else actor
    | .drained | .timeout => actor
  else if actor.waiting_for_action then
    match wake with
    | .command command => handleCommand actor between command
    | .closed => leave (finishWith { actor with disconnected := true } .Success between)
    | .timeout =>
      match actor.current with
      | none => leave (finishWith actor .Success between)
      | some generation =>
        { begin_close actor with
          pending_finish := some (generation.id,.Success), draining := true, waiting_for_action := false }
    | .empty | .drained => actor
  else
    match wake with
    | .command command => handleCommand actor between command
    | .closed => leave (finishWith (supersede { actor with disconnected := true }) .Cancelled between)
    | .empty | .drained | .timeout => actor

/-- A turn of the actor, with the frames that others emit before it and
    between the two steps of a finish; or what another task does. -/
inductive Action where
  | turn (wake : Wake) (between : List Bytes)
  | emit (message : Bytes)
  | admits
  | dropAdmission
  | run (phase : Option RunPhase) (listening : Bool)
deriving DecidableEq

def step (actor : Actor) : Action → Actor
  | .turn wake between => turn actor between wake
  | .emit message => { actor with output := (OutputHub.emit actor.output (encode_message message)).2 }
  | .admits => if actor.state = .Open then { actor with admissions := actor.admissions + 1 } else actor
  | .dropAdmission => { actor with admissions := actor.admissions - 1 }
  | .run phase listening =>
    { actor with current := actor.current.map fun generation => { generation with run := phase, listening } }

/-! ## The invariant of the loop -/

def Reported (actor : Actor) (generation : Generation) : Prop := generation.id ∈ actor.finished

/-- While the loop goes on, the output is open, and a generation other than the
    current one is superseded. A transport that drains or waits does so for the
    current generation, which is over. -/
structure Going (actor : Actor) : Prop where
  open_ : actor.output.closed = false
  noEnd : ¬ HasEnd actor.output.history
  others : ∀ g ∈ actor.started, g ∈ actor.superseded ∨ ∃ generation, actor.current = some generation ∧ generation.id = g
  known : ∀ generation, actor.current = some generation → generation.id ∈ actor.started
  fresh : ∀ g ∈ actor.started, g < actor.next_generation
  distinct : actor.started.Nodup
  draining : actor.draining = true → ∃ generation finish, actor.current = some generation ∧
    actor.pending_finish = some (generation.id,finish) ∧ Reported actor generation
  waiting : actor.waiting_for_action = true → ∀ generation, actor.current = some generation → Reported actor generation

/-- What holds once the loop has ended. -/
structure Over (actor : Actor) : Prop where
  closed : actor.output.closed = true
  last : ∃ before frame, actor.output.history = before ++ [frame] ∧ is_end_stream_frame frame = true ∧ ¬ HasEnd before
  settled : ∀ g ∈ actor.started, g ∈ actor.superseded ∨ g ∈ actor.finished
  distinct : actor.started.Nodup

def Sound (actor : Actor) : Prop := if actor.ended then Over actor else Going actor

/-- No message is taken in a way that goes wrong: a user message starts no
    generation while the transport drains, a run request with a wrong
    conversation id does not come while a generation is running, and the
    generations do not run out of numbers. -/
def Orderly (actor : Actor) (message : ClientMessage) : Prop :=
  actor.ended = true ∨ match message with
    | .RunRequest conversation_id => actor.next_generation < u64Max ∧
      ((∃ id error, conversation_id = some id ∧ set_conversation_id actor id = .error error) →
        ∀ generation, actor.current = some generation → Reported actor generation)
    | .UserMessageAction => actor.next_generation < u64Max ∧
      (actor.draining = true → delivered_to_active_run actor = true ∨ actor.current = none)
    | _ => True

def OrderlyMessages (actor : Actor) : TransportCommand → Prop
  | .Append seqno message =>
    Transitions.Meets (handleMessage []) Orderly { actor with inbox := (push actor.inbox seqno message).2 }
      ((push actor.inbox seqno message).1.map (·.2))
  | _ => True

/-- The condition on a step: its messages are orderly, and nobody emits between
    the last frame and the close of the output. -/
def Undisturbed (actor : Actor) : Action → Prop
  | .turn wake between => between = [] ∧ match wake with
    | .command command => OrderlyMessages (if actor.draining then mark_draining actor else actor) command
    | _ => True
  | _ => True

theorem lastFrame_end (finish : TransportFinish) : is_end_stream_frame (lastFrame finish) = true := by
  cases finish <;> rfl

theorem Going.finish {actor : Actor} (going : Going actor) (finish : TransportFinish)
    (settled : ∀ g ∈ actor.started, g ∈ actor.superseded ∨ g ∈ actor.finished) :
    Over (leave (finishWith actor finish [])) := by
  have isOpen := going.open_
  refine ⟨?_,⟨actor.output.history,lastFrame finish,?_,lastFrame_end finish,going.noEnd⟩,settled,going.distinct⟩
  · simp [leave,finishWith,finish_transport,emitAll,emit,OutputHub.close,isOpen]
  · simp [leave,finishWith,finish_transport,emitAll,emit,OutputHub.close,isOpen]

variable {actor : Actor}

theorem Going.settled (going : Going actor) (isOver : ∀ generation, actor.current = some generation → Reported actor generation) :
    ∀ g ∈ actor.started, g ∈ actor.superseded ∨ g ∈ actor.finished := by
  intro g isStarted
  rcases going.others g isStarted with superseded | ⟨generation,isCurrent,rfl⟩
  · exact .inl superseded
  · exact .inr (isOver generation isCurrent)

theorem Going.note (going : Going actor) (message : ClientMessage) (handling : Handling) : Going (actor.note message handling) :=
  ⟨going.open_,going.noEnd,going.others,going.known,going.fresh,going.distinct,going.draining,going.waiting⟩

theorem Going.superseded (going : Going actor) : ∀ g ∈ (supersede actor).started, g ∈ (supersede actor).superseded := by
  intro g isStarted
  rcases going.others g isStarted with superseded | ⟨generation,isCurrent,rfl⟩
  · exact List.mem_append_right _ superseded
  · simp [supersede,isCurrent]

theorem Going.started (going : Going actor) (calm : actor.draining = false) (busy : actor.waiting_for_action = false)
    (fits : actor.next_generation < u64Max) : Going (start_generation actor) := by
  have next : min (actor.next_generation + 1) u64Max = actor.next_generation + 1 := by omega
  refine ⟨going.open_,going.noEnd,?_,?_,?_,?_,?_,?_⟩
  · intro g isStarted
    rcases List.mem_cons.mp isStarted with rfl | before
    · exact .inr ⟨_,rfl,rfl⟩
    · exact .inl (going.superseded g before)
  · rintro generation isCurrent
    rw [← Option.some.inj isCurrent]
    exact List.mem_cons_self
  · intro g isStarted
    simp only [start_generation,supersede,next]
    rcases List.mem_cons.mp isStarted with rfl | before
    · exact Nat.lt_succ_self _
    · exact Nat.lt_succ_of_lt (going.fresh g before)
  · refine List.nodup_cons.mpr ⟨?_,going.distinct⟩
    intro taken
    exact absurd (going.fresh _ taken) (Nat.lt_irrefl _)
  · intro isDraining
    simp only [start_generation,supersede,calm] at isDraining
    cases isDraining
  · intro isWaiting
    simp only [start_generation,supersede,busy] at isWaiting
    cases isWaiting

theorem begin_close_state (actor : Actor) : ∃ state, begin_close actor = { actor with state } := by
  unfold begin_close
  split_ifs
  · exact ⟨_,rfl⟩
  · exact ⟨actor.state,rfl⟩
theorem mark_draining_state (actor : Actor) : ∃ state, mark_draining actor = { actor with state } := by
  unfold mark_draining
  split_ifs
  · exact ⟨_,rfl⟩
  · exact ⟨actor.state,rfl⟩
theorem reopen_state (actor : Actor) : ∃ state, reopen actor = { actor with state } := by
  unfold reopen
  split_ifs
  · exact ⟨_,rfl⟩
  · exact ⟨actor.state,rfl⟩

theorem Sound.of_going (on : actor.ended = false) (going : Going actor) : Sound actor := by
  simpa [Sound,on] using going
theorem Sound.of_over (isOver : Over (leave actor)) : Sound (leave actor) := isOver

theorem takeRequest_eq (actor : Actor) : ∃ state pending_finish, takeRequest actor =
    { actor with waiting_for_action := false, draining := false, state, pending_finish } := by
  obtain ⟨state,isState⟩ := reopen_state { actor with waiting_for_action := false }
  by_cases draining : actor.draining = true
  · refine ⟨state,none,(if_pos draining).trans ?_⟩
    rw [isState]
  · refine ⟨actor.state,actor.pending_finish,(if_neg draining).trans ?_⟩
    simp only [Bool.not_eq_true] at draining
    rw [← draining]

theorem Going.requested (going : Going actor) {conversation_id : Option String}
    (on : actor.ended = false) (orderly : Orderly actor (.RunRequest conversation_id)) :
    Sound (handleMessage [] actor (.RunRequest conversation_id)) := by
  rcases orderly with ended | ⟨fits,isOver⟩
  · rw [on] at ended
    cases ended
  obtain ⟨state,pending_finish,taken⟩ := takeRequest_eq actor
  rw [handleMessage,if_neg (by simp [on])]
  simp only [taken]
  have calm : Going { actor with waiting_for_action := false, draining := false, state, pending_finish } :=
    ⟨going.open_,going.noEnd,going.others,going.known,going.fresh,going.distinct,by simp,by simp⟩
  cases conversation_id with
  | none => exact .of_going on ((calm.note _ _).started rfl rfl fits)
  | some id =>
    unfold set_conversation_id at isOver ⊢
    dsimp only
    split_ifs with empty conflicting
    · exact .of_over (calm.finish _ (calm.settled (isOver ⟨id,_,rfl,if_pos empty⟩)))
    · exact .of_over (calm.finish _ (calm.settled (isOver ⟨id,_,rfl,(if_neg empty).trans (if_pos conflicting)⟩)))
    · refine .of_going on (Going.started (.note ?_ _ _) rfl rfl fits)
      exact ⟨calm.open_,calm.noEnd,calm.others,calm.known,calm.fresh,calm.distinct,by simp,by simp⟩

theorem Going.followed (going : Going actor) (on : actor.ended = false)
    (orderly : Orderly actor .UserMessageAction) : Sound (handleMessage [] actor .UserMessageAction) := by
  rcases orderly with ended | ⟨fits,calm⟩
  · rw [on] at ended
    cases ended
  rw [handleMessage,if_neg (by simp [on])]
  split_ifs with delivered
  · exact .of_going on (going.note _ _)
  · split
    · exact .of_going on (going.note _ _)
    next generation isCurrent =>
      have notDraining : actor.draining = false := by
        by_contra isDraining
        rcases calm (by simpa using isDraining) with taken | none
        · exact delivered taken
        · rw [isCurrent] at none
          cases none
      refine .of_going on (Going.started ?_ notDraining rfl fits)
      exact ⟨going.open_,going.noEnd,going.others,going.known,going.fresh,going.distinct,going.draining,by simp⟩

theorem Sound.message (sound : Sound actor) (message : ClientMessage) (orderly : Orderly actor message) :
    Sound (handleMessage [] actor message) := by
  cases on : actor.ended with
  | true => simpa [handleMessage,on] using sound
  | false =>
    have going : Going actor := by simpa [Sound,on] using sound
    cases message with
    | RunRequest conversation_id => exact going.requested on orderly
    | UserMessageAction => exact going.followed on orderly
    | _ =>
      simp only [handleMessage,on,Bool.false_eq_true,if_false]
      exact .of_going on (going.note _ _)

theorem Going.report (going : Going actor) (g : Nat) : Going (report actor g) := by
  unfold TransportActor.report
  split_ifs
  · refine ⟨going.open_,going.noEnd,going.others,going.known,going.fresh,going.distinct,?_,?_⟩
    · intro isDraining
      obtain ⟨generation,finish,isCurrent,pending,reported⟩ := going.draining isDraining
      exact ⟨generation,finish,isCurrent,pending,List.mem_cons_of_mem _ reported⟩
    · intro isWaiting generation isCurrent
      exact List.mem_cons_of_mem _ (going.waiting isWaiting generation isCurrent)
  · exact going
theorem report_ended (actor : Actor) (g : Nat) : (report actor g).ended = actor.ended := by
  unfold report
  split_ifs <;> rfl
theorem report_current (actor : Actor) (g : Nat) : (report actor g).current = actor.current := by
  unfold report
  split_ifs <;> rfl

section
variable (going : Going actor)
include going

theorem Going.reported (on : actor.ended = false) (g : Nat) (finish : RunFinish) : Sound (runFinished actor g finish) := by
  have noted := going.report g
  have on' := (report_ended actor g).trans on
  unfold runFinished
  dsimp only
  split_ifs with foreign
  · exact .of_going on' noted
  · simp only [Bool.not_eq_true',Bool.not_eq_false,Option.any_eq_true,decide_eq_true_eq] at foreign
    obtain ⟨generation,isCurrent,rfl⟩ := foreign
    have isStarted : generation.id ∈ actor.started := going.known generation ((report_current actor _).symm.trans isCurrent)
    have reported : Reported (TransportActor.report actor generation.id) generation := by
      simp [Reported,TransportActor.report,isStarted]
    cases finish with
    | TurnCompleted =>
      refine .of_going on' ⟨noted.open_,noted.noEnd,noted.others,noted.known,noted.fresh,noted.distinct,by simp,?_⟩
      intro _ other isOther
      rw [← Option.some.inj (isCurrent.symm.trans isOther)]
      exact reported
    | Transport finish =>
      obtain ⟨state,isState⟩ := begin_close_state { TransportActor.report actor generation.id with waiting_for_action := false }
      simp only [isState]
      refine .of_going on' ⟨noted.open_,noted.noEnd,noted.others,noted.known,noted.fresh,noted.distinct,?_,by simp⟩
      exact fun _ => ⟨generation,finish,isCurrent,rfl,reported⟩

theorem Going.disconnects : Sound (disconnect actor []) := by
  have going' : Going (supersede { actor with disconnected := true }) :=
    ⟨going.open_,going.noEnd,fun g isStarted => .inl (going.superseded g isStarted),going.known,going.fresh,going.distinct,
      going.draining,going.waiting⟩
  exact .of_over (going'.finish _ fun g isStarted => .inl (going.superseded g isStarted))

theorem Going.same_output {output : Output} (open_ : output.closed = false)
    (same : output.history = actor.output.history) : Going { actor with output } :=
  ⟨open_,same ▸ going.noEnd,going.others,going.known,going.fresh,going.distinct,going.draining,going.waiting⟩

theorem Going.command (on : actor.ended = false) (command : TransportCommand)
    (orderly : OrderlyMessages actor command) : Sound (handleCommand actor [] command) := by
  cases command with
  | Append seqno message =>
    have sound : Sound { actor with inbox := (push actor.inbox seqno message).2 } :=
      .of_going on ⟨going.open_,going.noEnd,going.others,going.known,going.fresh,going.distinct,going.draining,going.waiting⟩
    exact orderly.invariant sound fun actor message sound orderly => sound.message message orderly
  | RunFinished g finish => exact going.reported on g finish
  | Disconnect => exact going.disconnects
  | DisconnectIfUnsubscribed epoch =>
    simp only [handleCommand]
    have going' : Going { actor with output := (disconnect_if_unsubscribed actor.output epoch).2 } := by
      refine going.same_output ?_ ?_
      · unfold disconnect_if_unsubscribed
        split_ifs <;> exact going.open_
      · unfold disconnect_if_unsubscribed
        split_ifs <;> rfl
    split_ifs
    · exact going'.disconnects
    · exact .of_going on going'

theorem Going.drained (draining : actor.draining = true) : Over (leave (finish_pending actor [])) := by
  obtain ⟨generation,finish,isCurrent,pending,reported⟩ := going.draining draining
  unfold finish_pending
  simp only [pending,isCurrent,Option.any_some,decide_true,if_true]
  have going' : Going { actor with pending_finish := none, draining := false } :=
    ⟨going.open_,going.noEnd,going.others,going.known,going.fresh,going.distinct,by simp,going.waiting⟩
  have isOver := going'.finish finish (going'.settled fun other isOther => by
    rw [← Option.some.inj (isCurrent.symm.trans isOther)]
    exact reported)
  exact ⟨isOver.closed,isOver.last,isOver.settled,isOver.distinct⟩

end

section
variable (sound : Sound actor)
include sound

theorem Sound.turn (wake : Wake) (undisturbed : Undisturbed actor (.turn wake [])) : Sound (turn actor [] wake) := by
  unfold TransportActor.turn
  by_cases ended : actor.ended = true
  · rw [if_pos ended]
    exact sound
  have on : actor.ended = false := by simpa using ended
  have going : Going actor := by simpa [Sound,on] using sound
  rw [if_neg ended]
  by_cases draining : actor.draining = true
  · rw [if_pos draining]
    obtain ⟨state,isState⟩ := mark_draining_state actor
    have marked : Going (mark_draining actor) := by
      rw [isState]
      exact ⟨going.open_,going.noEnd,going.others,going.known,going.fresh,going.distinct,going.draining,going.waiting⟩
    have still : (mark_draining actor).draining = true := by
      rw [isState]
      exact draining
    cases wake with
    | command command =>
      have orderly := undisturbed.2
      rw [if_pos draining] at orderly
      exact marked.command (isState ▸ on) command orderly
    | closed => exact .of_over (marked.drained still)
    | empty =>
      dsimp only
      split_ifs
      · exact .of_over (marked.drained still)
      · exact sound
    | drained | timeout => exact sound
  rw [if_neg draining]
  have orderly : ∀ {command}, wake = .command command → OrderlyMessages actor command := by
    rintro command rfl
    have orderly := undisturbed.2
    rw [if_neg draining] at orderly
    exact orderly
  by_cases waiting : actor.waiting_for_action = true
  · rw [if_pos waiting]
    cases wake with
    | command command => exact going.command on command (orderly rfl)
    | closed =>
      have going' : Going { actor with disconnected := true } :=
        ⟨going.open_,going.noEnd,going.others,going.known,going.fresh,going.distinct,going.draining,going.waiting⟩
      exact .of_over (going'.finish _ (going.settled (going.waiting waiting)))
    | timeout =>
      dsimp only
      split
      · exact .of_over (going.finish _ (going.settled (going.waiting waiting)))
      next generation isCurrent =>
        obtain ⟨state,isState⟩ := begin_close_state actor
        rw [isState]
        refine .of_going on ⟨going.open_,going.noEnd,going.others,going.known,going.fresh,going.distinct,?_,by simp⟩
        exact fun _ => ⟨generation,.Success,isCurrent,rfl,going.waiting waiting generation isCurrent⟩
    | empty | drained => exact sound
  · rw [if_neg waiting]
    cases wake with
    | command command => exact going.command on command (orderly rfl)
    | closed =>
      have going' : Going (supersede { actor with disconnected := true }) :=
        ⟨going.open_,going.noEnd,fun g isStarted => .inl (going.superseded g isStarted),going.known,going.fresh,
          going.distinct,going.draining,going.waiting⟩
      exact .of_over (going'.finish _ fun g isStarted => .inl (going.superseded g isStarted))
    | empty | drained | timeout => exact sound

theorem Sound.emits (message : Bytes) : Sound (step actor (.emit message)) := by
  have isOpen : actor.output.closed = false → (step actor (.emit message)).output.closed = false ∧
      (step actor (.emit message)).output.history = actor.output.history ++ [encode_message message] := by
    intro open_
    simp [step,emit,open_]
  cases ended : actor.ended with
  | true =>
    have isOver : Over actor := by simpa [Sound,ended] using sound
    have same : step actor (.emit message) = actor := by simp [step,emit,isOver.closed]
    rw [same]
    exact sound
  | false =>
    have going : Going actor := by simpa [Sound,ended] using sound
    obtain ⟨open_,grown⟩ := isOpen going.open_
    refine .of_going ended ⟨open_,?_,going.others,going.known,going.fresh,going.distinct,going.draining,going.waiting⟩
    rw [grown]
    rintro ⟨frame,member,isEnd⟩
    rcases List.mem_append.mp member with before | new
    · exact going.noEnd ⟨frame,before,isEnd⟩
    · rw [List.mem_singleton.mp new,message_not_end] at isEnd
      cases isEnd

theorem Sound.runs (phase : Option RunPhase) (listening : Bool) : Sound (step actor (.run phase listening)) := by
  have current : ∀ generation, (step actor (.run phase listening)).current = some generation →
      ∃ before, actor.current = some before ∧ before.id = generation.id := by
    intro generation isCurrent
    obtain ⟨before,isBefore,rfl⟩ := Option.map_eq_some_iff.mp isCurrent
    exact ⟨before,isBefore,rfl⟩
  have later : ∀ before, actor.current = some before →
      ∃ generation, (step actor (.run phase listening)).current = some generation ∧ generation.id = before.id := by
    intro before isBefore
    exact ⟨{ before with run := phase, listening },by simp [step,isBefore],rfl⟩
  unfold Sound at sound ⊢
  split_ifs at sound with ended
  · rw [if_pos (show (step actor (.run phase listening)).ended = true from ended)]
    exact ⟨sound.closed,sound.last,sound.settled,sound.distinct⟩
  · rw [if_neg (show ¬ (step actor (.run phase listening)).ended = true from ended)]
    refine ⟨sound.open_,sound.noEnd,?_,?_,sound.fresh,sound.distinct,?_,?_⟩
    · intro g isStarted
      rcases sound.others g isStarted with superseded | ⟨before,isBefore,rfl⟩
      · exact .inl superseded
      · exact .inr (later before isBefore)
    · intro generation isCurrent
      obtain ⟨before,isBefore,sameId⟩ := current generation isCurrent
      exact sameId ▸ sound.known before isBefore
    · intro isDraining
      obtain ⟨before,finish,isBefore,pending,reported⟩ := sound.draining isDraining
      obtain ⟨generation,isCurrent,sameId⟩ := later before isBefore
      exact ⟨generation,finish,isCurrent,sameId ▸ pending,by rw [Reported,sameId]; exact reported⟩
    · intro isWaiting generation isCurrent
      obtain ⟨before,isBefore,sameId⟩ := current generation isCurrent
      have reported := sound.waiting isWaiting before isBefore
      rw [Reported,sameId] at reported
      exact reported

theorem Sound.admissions (admissions : Nat) : Sound { actor with admissions } := by
  unfold Sound at sound ⊢
  split_ifs at sound ⊢
  · exact ⟨sound.closed,sound.last,sound.settled,sound.distinct⟩
  · exact ⟨sound.open_,sound.noEnd,sound.others,sound.known,sound.fresh,sound.distinct,sound.draining,sound.waiting⟩

theorem Sound.step (action : Action) (undisturbed : Undisturbed actor action) : Sound (step actor action) := by
  cases action with
  | turn wake between =>
    obtain rfl : between = [] := undisturbed.1
    exact sound.turn wake undisturbed
  | emit message => exact sound.emits message
  | admits =>
    simp only [TransportActor.step]
    split_ifs
    · exact sound.admissions _
    · exact sound
  | dropAdmission => exact sound.admissions _
  | run phase listening => exact sound.runs phase listening

end

theorem sound_start (request_id : String) : Sound { request_id := request_id } := by
  refine .of_going rfl ⟨rfl,?_,by simp,by simp,by simp,by simp,by simp,by simp⟩
  rintro ⟨frame,member,_⟩
  cases member

/-- In every run whose steps meet the condition, whenever the loop has ended,
    the output has one end-stream frame, which is the last one, it is closed,
    and every generation that was started is superseded or over. -/
theorem transport_terminates (request_id : String) (actions : List Action)
    (undisturbed : Transitions.Meets step Undisturbed { request_id := request_id } actions)
    (ended : (Transitions.after step { request_id := request_id } actions).ended = true) :
    Over (Transitions.after step { request_id := request_id } actions) := by
  have sound : Sound (Transitions.after step { request_id := request_id } actions) :=
    undisturbed.invariant (sound_start request_id) fun actor action sound allowed => sound.step action allowed
  rw [Sound,if_pos ended] at sound
  exact sound

end Loop

section Example

def code : ConnectCode → String
  | .Canceled => "canceled"
  | .InvalidArgument => "invalid_argument"
  | .NotFound => "not_found"
  | .Unavailable => "unavailable"
  | .Internal => "internal"
/-- The JSON of an error without details, whose message needs no escapes. -/
local instance : StreamErrors where
  payload error message _ :=
    ("\x7b\"error\":\x7b\"code\":\"" ++ code error ++ "\",\"message\":\"" ++ message ++ "\"\x7d\x7d").toUTF8.toList

def idle : List Action :=
  [.turn (.command (.Append 0 (.RunRequest (some "c")))) [],.run (some .Running) true,.emit [1],
    .turn (.command (.RunFinished 1 .TurnCompleted)) [],.turn .timeout [],.turn .empty []]

theorem transport_terminates_idle : (Transitions.after step { request_id := "r" } idle).ended = true ∧
    Over (Transitions.after step { request_id := "r" } idle) := by
  have ready : (push (starting_at 0) 0 (ClientMessage.RunRequest (some "c"))).1.map (·.2) = [.RunRequest (some "c")] := by
    decide +kernel
  have orderly : OrderlyMessages { request_id := "r" } (.Append 0 (.RunRequest (some "c"))) := by
    simp only [OrderlyMessages,ready]
    refine ⟨.inr ⟨by decide,?_⟩,trivial⟩
    intro _ generation isCurrent
    cases isCurrent
  have undisturbed : Transitions.Meets step Undisturbed { request_id := "r" } idle :=
    ⟨⟨rfl,orderly⟩,trivial,trivial,⟨rfl,trivial⟩,⟨rfl,trivial⟩,⟨rfl,trivial⟩,trivial⟩
  have ended : (Transitions.after step { request_id := "r" } idle).ended = true := by decide +kernel
  exact ⟨ended,transport_terminates "r" idle undisturbed ended⟩

/-- A user message that was admitted before the timeout is received while the
    transport drains. -/
def lateMessage : List Action :=
  [.turn (.command (.Append 0 (.RunRequest (some "c")))) [],.turn (.command (.RunFinished 1 .TurnCompleted)) [],.admits,
    .turn .timeout [],.turn (.command (.Append 1 .UserMessageAction)) [],.dropAdmission,.turn .empty []]

/-- The generation that it starts goes on, and the output is left open without
    a last frame. -/
theorem lateMessage_abandoned : (Transitions.after step { request_id := "r" } lateMessage).ended = true ∧
    (Transitions.after step { request_id := "r" } lateMessage).output.closed = false ∧
    (Transitions.after step { request_id := "r" } lateMessage).output.history = [] ∧
    2 ∈ (Transitions.after step { request_id := "r" } lateMessage).started ∧
    2 ∉ (Transitions.after step { request_id := "r" } lateMessage).superseded ∧
    2 ∉ (Transitions.after step { request_id := "r" } lateMessage).finished := by
  decide +kernel

end Example

end MyCursor.TransportActor

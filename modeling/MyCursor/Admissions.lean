import MyCursor.TransportActor

/-!
# Admitted appends

`append` in `api/cursor/bidi.rs` admits a request, sends its command to the
actor and drops the admission; the actor of a transport that drains looks at the
count of admissions, marks the transport and looks into its channel, and leaves
when that is empty. These are steps of different tasks, taken in any order.
-/
namespace MyCursor.Admissions
open OutputHub TransportActor
set_option linter.unusedSectionVars false

/-- How far an append is; its send has returned Ok, or an error. -/
inductive Stage where
  | New
  | Admitted
  | Sent (seqno : Int) (message : ClientMessage)
  | Refused
deriving DecidableEq

/-- Where the actor is in its loop while it drains: at the top, after it saw
    that no admission is left, or after it marked the transport. -/
inductive Place where
  | Top
  | Drained
  | Marked
deriving DecidableEq

/-- The actor with its channel. A command in it is known by the append that sent
    it, if it is one; `live` are the appends whose admission is not dropped,
    `taken` what the actor has received. -/
structure System where
  actor : Actor
  place : Place := .Top
  channel : List (Option Nat × TransportCommand) := []
  stages : Nat → Stage := fun _ => .New
  live : List Nat := []
  taken : List (Option Nat × TransportCommand) := []
  leftDraining : Bool := false

section Loop
variable [StreamErrors]

def receive (s : System) (between : List Bytes) : System :=
  match s.channel with
  | [] => s
  | (sender,command) :: rest =>
    { s with
      actor := handleCommand s.actor between command
      channel := rest
      taken := s.taken ++ [(sender,command)]
      place := .Top }

def leaveDraining (s : System) (between : List Bytes) : System :=
  { s with actor := leave (finish_pending s.actor between), leftDraining := true }

inductive Action where
  | admits (append : Nat)
  | send (append : Nat) (seqno : Int) (message : ClientMessage)
  | drop (append : Nat)
  | command (command : TransportCommand)
  | check
  | mark
  | tryReceive (between : List Bytes)
  | receive (between : List Bytes)
  | closed (between : List Bytes)
  | timeout (between : List Bytes)
  | run (phase : Option Run.RunPhase) (listening : Bool)

/-- The channel holds 128 commands. A send waits for room, and fails once the
    actor has left; other tasks send commands without an admission. The actor
    waits for a command except where it drains and no admission is left. -/
def step (s : System) : Action → System
  | .admits append =>
    if s.stages append = .New ∧ s.actor.state = .Open then
      { s with
        actor := { s.actor with admissions := s.actor.admissions + 1 }
        stages := Function.update s.stages append .Admitted
        live := append :: s.live }
    else s
  | .send append seqno message =>
    if s.stages append = .Admitted ∧ append ∈ s.live then
      if s.actor.ended then { s with stages := Function.update s.stages append .Refused }
      else if s.channel.length < 128 then
        { s with
          channel := s.channel ++ [(some append,.Append seqno message)]
          stages := Function.update s.stages append (.Sent seqno message) }
      else s
    else s
  | .drop append =>
    if append ∈ s.live then
      { s with actor := { s.actor with admissions := s.actor.admissions - 1 }, live := s.live.erase append }
    else s
  | .command command =>
    if !s.actor.ended ∧ s.channel.length < 128 then { s with channel := s.channel ++ [(none,command)] } else s
  | .check =>
    if !s.actor.ended ∧ s.actor.draining ∧ s.place = .Top ∧ s.actor.admissions = 0 then { s with place := .Drained } else s
  | .mark => if s.place = .Drained then { s with actor := mark_draining s.actor, place := .Marked } else s
  | .tryReceive between =>
    if s.place = .Marked ∧ !s.actor.ended then
      if s.channel.isEmpty then leaveDraining s between else receive s between
    else s
  | .receive between => if s.place = .Top ∧ !s.actor.ended then receive s between else s
  | .closed between =>
    if s.place = .Top ∧ !s.actor.ended ∧ s.channel.isEmpty ∧ s.live.isEmpty then
      if s.actor.draining then leaveDraining s between
      else { s with actor := turn s.actor between .closed }
    else s
  | .timeout between =>
    if s.place = .Top ∧ !s.actor.draining then { s with actor := turn s.actor between .timeout } else s
  | .run phase listening => { s with actor := TransportActor.step s.actor (.run phase listening) }

/-- What a command makes of the inbox and of the messages that became ready. -/
def takeIn (before : List ClientMessage × Inbox.OrderedInbox ClientMessage) :
    TransportCommand → List ClientMessage × Inbox.OrderedInbox ClientMessage
  | .Append seqno message =>
    let (ready,inbox) := Inbox.push before.2 seqno message
    (before.1 ++ ready.map (·.2),inbox)
  | _ => before
def intake (taken : List (Option Nat × TransportCommand)) : List ClientMessage × Inbox.OrderedInbox ClientMessage :=
  taken.foldl (fun before entry => takeIn before entry.2) ([],Inbox.starting_at 0)

/-- No append is lost when the transport drains, and the count of admissions is
    kept. -/
structure NoneLost (s : System) : Prop where
  received : s.leftDraining = true → ∀ append seqno message, s.stages append = .Sent seqno message →
    (some append,.Append seqno message) ∈ s.taken
  /-- What is taken is the command in front of the channel, and it is handled. -/
  processed : ∀ action, (step s action).taken = s.taken ∨ ∃ between entry,
    s.channel = entry :: (step s action).channel ∧ (step s action).taken = s.taken ++ [entry] ∧
      (step s action).actor = handleCommand s.actor between entry.2
  /-- The appends have gone into the inbox, and what became ready was handled. -/
  handled : s.actor.inbox = (intake s.taken).2 ∧ (s.leftDraining = true → s.actor.handled.map (·.1) = (intake s.taken).1)
  counted : s.actor.admissions = s.live.length
  drained : s.actor.state = .Draining → s.actor.admissions = 0
  granted : ∀ action append, append ∉ s.live → append ∈ (step s action).live → s.actor.state = .Open

/-- A transport that drains is not open, and one that was left is closed. -/
structure Shut (actor : Actor) : Prop where
  draining : actor.draining = true → actor.state ≠ .Open
  ended : actor.ended = true → actor.state = .Closed

structure Inv (s : System) : Prop where
  shut : Shut s.actor
  counted : s.actor.admissions = s.live.length
  drained : s.actor.state = .Draining → s.live = []
  sent : ∀ append seqno message, s.stages append = .Sent seqno message →
    (some append,.Append seqno message) ∈ s.taken ∨ (some append,.Append seqno message) ∈ s.channel
  waiting : s.place ≠ .Top → s.actor.state ≠ .Open ∧ s.live = [] ∧ s.actor.draining = true
  left : s.leftDraining = true → s.actor.ended = true ∧ ∀ append seqno message, s.stages append = .Sent seqno message →
    (some append,.Append seqno message) ∈ s.taken

/-! ## What handling a command keeps -/

/-- The steps of the actor do not touch the admissions, and enter `Draining`
    nowhere but in the mark. -/
structure Handles (before after : Actor) : Prop where
  shut : Shut after
  admissions : after.admissions = before.admissions
  drained : after.state = .Draining → before.state = .Draining

theorem Handles.trans {a b c : Actor} (first : Handles a b) (second : Handles b c) : Handles a c :=
  ⟨second.shut,second.admissions.trans first.admissions,fun drained => first.drained (second.drained drained)⟩

variable {before actor : Actor}

theorem Handles.leave (admissions : actor.admissions = before.admissions) :
    Handles before (leave actor) := ⟨⟨by simp [TransportActor.leave],fun _ => rfl⟩,admissions,by simp [TransportActor.leave]⟩
theorem Handles.rfl (shut : Shut actor) : Handles actor actor := ⟨shut,Eq.refl _,id⟩

theorem Handles.same {after : Actor} (shut : Shut before) (state : after.state = before.state)
    (draining : after.draining = true → before.draining = true) (ended : after.ended = before.ended)
    (admissions : after.admissions = before.admissions) : Handles before after :=
  ⟨⟨fun isDraining => state ▸ shut.draining (draining isDraining),fun isEnded => state ▸ shut.ended (ended ▸ isEnded)⟩,
    admissions,fun drained => state ▸ drained⟩

theorem Handles.closing (on : actor.ended = false) (state : actor.state = before.state)
    (admissions : actor.admissions = before.admissions) (pending : Option (Nat × TransportFinish)) (waiting : Bool) :
    Handles before { begin_close actor with
      pending_finish := pending, draining := true, waiting_for_action := waiting } := by
  unfold begin_close
  split_ifs with isOpen
  · exact ⟨⟨by simp,by simp [on]⟩,admissions,by simp⟩
  · exact ⟨⟨fun _ => isOpen,fun ended => by simp [on] at ended⟩,admissions,fun drained => state ▸ drained⟩

theorem handles_start (handles : Handles before actor) : Handles before (start_generation actor) :=
  ⟨⟨handles.shut.draining,handles.shut.ended⟩,handles.admissions,handles.drained⟩

theorem handles_takeRequest (shut : Shut actor) (on : actor.ended = false) : Handles actor (takeRequest actor) := by
  unfold takeRequest
  dsimp only
  split_ifs with draining
  · unfold reopen
    split_ifs with closes
    · exact ⟨⟨by simp,by simp [on]⟩,rfl,by simp⟩
    · refine ⟨⟨by simp,by simp [on]⟩,rfl,fun drained => ?_⟩
      exact absurd (.inr drained) closes
  · exact .same shut rfl id rfl rfl

theorem handles_message (shut : Shut actor) (between : List Bytes) (message : ClientMessage) :
    Handles actor (handleMessage between actor message) := by
  by_cases ended : actor.ended = true
  · simp only [handleMessage,ended,if_true]
    exact .rfl shut
  have on : actor.ended = false := by simpa using ended
  unfold handleMessage
  rw [if_neg ended]
  cases message with
  | RunRequest conversation_id =>
    have taken := handles_takeRequest shut on
    cases conversation_id with
    | none => exact handles_start (taken.trans (.same taken.shut rfl id rfl rfl))
    | some conversation_id =>
      dsimp only
      split
      · exact .leave taken.admissions
      · rename_i named isNamed
        unfold set_conversation_id at isNamed
        split_ifs at isNamed
        obtain rfl := Except.ok.inj isNamed
        exact handles_start (taken.trans (.same taken.shut rfl id rfl rfl))
  | UserMessageAction =>
    dsimp only
    split_ifs
    · exact .same shut rfl id rfl rfl
    · split
      · exact .same shut rfl id rfl rfl
      · exact handles_start (.same shut rfl id rfl rfl)
  | _ => exact .same shut rfl id rfl rfl

theorem handles_messages (between : List Bytes) (messages : List ClientMessage) : ∀ {actor : Actor}, Shut actor →
    Handles actor (messages.foldl (handleMessage between) actor) := by
  induction messages with
  | nil => exact fun shut => .rfl shut
  | cons message rest ih =>
    intro actor shut
    have first := handles_message shut between message
    exact first.trans (ih first.shut)

theorem handles_disconnect (admissions : actor.admissions = before.admissions)
    (between : List Bytes) : Handles before (disconnect actor between) := .leave admissions

theorem handles_command (shut : Shut actor) (on : actor.ended = false) (between : List Bytes)
    (command : TransportCommand) : Handles actor (handleCommand actor between command) := by
  cases command with
  | Append seqno message =>
    have moved : Handles actor { actor with inbox := (Inbox.push actor.inbox seqno message).2 } :=
      .same shut rfl id rfl rfl
    exact moved.trans (handles_messages between _ moved.shut)
  | RunFinished generation finish =>
    have reported : Handles actor (report actor generation) := by
      unfold report
      split_ifs
      · exact .same shut rfl id rfl rfl
      · exact .rfl shut
    have isOn : (report actor generation).ended = false := (report_ended actor generation).trans on
    simp only [handleCommand,runFinished]
    split_ifs
    · exact reported
    · cases finish with
      | TurnCompleted => exact reported.trans (.same reported.shut rfl (by simp) rfl rfl)
      | Transport finish =>
        refine reported.trans (Handles.closing ?_ ?_ ?_ _ _)
        · exact isOn
        · rfl
        · rfl
  | Disconnect => exact handles_disconnect rfl between
  | DisconnectIfUnsubscribed epoch =>
    simp only [handleCommand]
    split_ifs
    · refine handles_disconnect ?_ between
      rfl
    · exact .same shut rfl id rfl rfl

variable {s : System}

theorem Inv.handled (inv : Inv s) (handles : Handles s.actor actor) (top : s.place = .Top)
    (notLeft : s.leftDraining = false) : Inv { s with actor } :=
  ⟨handles.shut,handles.admissions.trans inv.counted,fun drained => inv.drained (handles.drained drained),
    inv.sent,fun away => absurd top away,fun left => by simp [notLeft] at left⟩

theorem Inv.on (inv : Inv s) (on : s.actor.ended = false) : s.leftDraining = false := by
  by_contra left
  have ended := (inv.left (by simpa using left)).1
  simp [on] at ended

theorem Inv.receive (inv : Inv s) (on : s.actor.ended = false) (between : List Bytes) : Inv (receive s between) := by
  unfold Admissions.receive
  split
  · exact inv
  · rename_i sender command rest isChannel
    have handles := handles_command inv.shut on between command
    refine ⟨handles.shut,handles.admissions.trans inv.counted,fun drained => inv.drained (handles.drained drained),
      ?_,by simp,fun left => by simp [inv.on on] at left⟩
    intro append seqno message isSent
    rcases inv.sent append seqno message isSent with taken | member
    · exact .inl (List.mem_append_left _ taken)
    · rw [isChannel] at member
      rcases List.mem_cons.mp member with first | later
      · exact .inl (first ▸ List.mem_append_right _ (List.mem_singleton_self _))
      · exact .inr later

theorem Inv.leave (inv : Inv s) (empty : s.channel = []) (between : List Bytes) (live : s.live = [])
    (draining : s.actor.draining = true) : Inv (leaveDraining s between) := by
  have admissions : (finish_pending s.actor between).admissions = s.actor.admissions := by
    unfold finish_pending
    split
    · rfl
    · dsimp only
      split_ifs <;> rfl
  have stillDraining : (finish_pending s.actor between).draining = s.actor.draining := by
    unfold finish_pending
    split
    · rfl
    · dsimp only
      split_ifs <;> rfl
  refine ⟨⟨by simp [leaveDraining,TransportActor.leave],fun _ => rfl⟩,admissions.trans inv.counted,fun _ => live,
    inv.sent,fun _ => ⟨by simp [leaveDraining,TransportActor.leave],live,stillDraining.trans draining⟩,?_⟩
  refine fun _ => ⟨rfl,?_⟩
  intro append seqno message isSent
  rcases inv.sent append seqno message isSent with taken | member
  · exact taken
  · simp [empty] at member

theorem Inv.admits (inv : Inv s) {append : Nat} (isOpen : s.actor.state = .Open) : Inv { s with
      actor := { s.actor with admissions := s.actor.admissions + 1 }
      stages := Function.update s.stages append .Admitted, live := append :: s.live } := by
  have notEnded : s.actor.ended = false := by
    by_contra ended
    simp [inv.shut.ended (by simpa using ended)] at isOpen
  refine ⟨⟨inv.shut.draining,inv.shut.ended⟩,by simp [inv.counted],by simp [isOpen],?_,?_,?_⟩
  · intro other seqno message isSent
    by_cases same : other = append
    · subst same
      simp at isSent
    · simp only [Function.update_of_ne same] at isSent
      exact inv.sent other seqno message isSent
  · intro away
    exact absurd isOpen (inv.waiting away).1
  · intro left
    simp [inv.on notEnded] at left

theorem Inv.sends (inv : Inv s) {append : Nat} {stage : Stage} {channel : List (Option Nat × TransportCommand)}
    (on : ∀ seqno message, stage = .Sent seqno message → s.actor.ended = false ∧ (some append,.Append seqno message) ∈ channel)
    (kept : ∀ entry ∈ s.channel, entry ∈ channel) :
    Inv { s with stages := Function.update s.stages append stage, channel } := by
  refine ⟨inv.shut,inv.counted,inv.drained,?_,inv.waiting,?_⟩
  · intro one seqno message isSent
    by_cases same : one = append
    · subst same
      simp only [Function.update_self] at isSent
      exact .inr (on seqno message isSent).2
    · simp only [Function.update_of_ne same] at isSent
      exact (inv.sent one seqno message isSent).imp id (kept _)
  · intro left
    obtain ⟨ended,taken⟩ := inv.left left
    refine ⟨ended,?_⟩
    intro one seqno message isSent
    by_cases same : one = append
    · subst same
      simp only [Function.update_self] at isSent
      simp [(on seqno message isSent).1] at ended
    · simp only [Function.update_of_ne same] at isSent
      exact taken one seqno message isSent

theorem Inv.drops (inv : Inv s) {append : Nat} (isLive : append ∈ s.live) :
    Inv { s with actor := { s.actor with admissions := s.actor.admissions - 1 }, live := s.live.erase append } := by
  refine ⟨⟨inv.shut.draining,inv.shut.ended⟩,?_,?_,inv.sent,?_,inv.left⟩
  · simp [inv.counted,List.length_erase_of_mem isLive]
  · intro drained
    simp [inv.drained drained] at isLive
  · intro away
    simp [(inv.waiting away).2.1] at isLive

theorem Inv.check (inv : Inv s) (draining : s.actor.draining = true) (none : s.actor.admissions = 0) :
    Inv { s with place := .Drained } := by
  have noLive : s.live = [] := List.eq_nil_of_length_eq_zero (inv.counted ▸ none)
  exact ⟨inv.shut,inv.counted,inv.drained,inv.sent,fun _ => ⟨inv.shut.draining draining,noLive,draining⟩,inv.left⟩

theorem Inv.mark (inv : Inv s) (drained : s.place = .Drained) : Inv { s with actor := mark_draining s.actor, place := .Marked } := by
  obtain ⟨notOpen,noLive,draining⟩ := inv.waiting (by simp [drained])
  unfold mark_draining
  split_ifs with closing
  · refine ⟨⟨by simp,?_⟩,inv.counted,fun _ => noLive,inv.sent,fun _ => ⟨by simp,noLive,draining⟩,inv.left⟩
    intro ended
    simp [inv.shut.ended ended] at closing
  · exact ⟨inv.shut,inv.counted,inv.drained,inv.sent,fun _ => ⟨notOpen,noLive,draining⟩,inv.left⟩

/-- The actor leaves, or begins to close, when the channel is closed or nothing
    came for a while. -/
theorem handles_turn (shut : Shut actor) (between : List Bytes) (notDraining : actor.draining = false) :
    Handles actor (turn actor between .closed) ∧ Handles actor (turn actor between .timeout) := by
  unfold turn
  by_cases ended : actor.ended = true
  · simp only [ended,if_true]
    exact ⟨.rfl shut,.rfl shut⟩
  have on : actor.ended = false := by simpa using ended
  simp only [on,notDraining,Bool.false_eq_true,if_false]
  by_cases waiting : actor.waiting_for_action = true
  · simp only [waiting,if_true]
    refine ⟨.leave rfl,?_⟩
    cases actor.current with
    | none => exact .leave rfl
    | some generation => exact .closing on rfl rfl _ _
  · simp only [waiting]
    exact ⟨.leave rfl,.rfl shut⟩

theorem turn_ended (ended : actor.ended = true) (between : List Bytes) (wake : Wake) : turn actor between wake = actor := by
  simp [turn,ended]

theorem Inv.step (inv : Inv s) (action : Action) : Inv (step s action) := by
  cases action with
  | admits append =>
    simp only [Admissions.step]
    split_ifs with allowed
    · exact inv.admits allowed.2
    · exact inv
  | send append seqno message =>
    simp only [Admissions.step]
    by_cases allowed : s.stages append = .Admitted ∧ append ∈ s.live
    · rw [if_pos allowed]
      by_cases ended : s.actor.ended = true
      · rw [if_pos ended]
        exact inv.sends (by simp) fun _ member => member
      · rw [if_neg ended]
        split_ifs
        · refine inv.sends ?_ fun entry member => List.mem_append_left _ member
          rintro _ _ ⟨⟩
          exact ⟨by simpa using ended,List.mem_append_right _ (List.mem_singleton_self _)⟩
        · exact inv
    · rw [if_neg allowed]
      exact inv
  | drop append =>
    simp only [Admissions.step]
    split_ifs with isLive
    · exact inv.drops isLive
    · exact inv
  | command command =>
    simp only [Admissions.step]
    split_ifs
    · refine ⟨inv.shut,inv.counted,inv.drained,?_,inv.waiting,inv.left⟩
      intro append seqno message isSent
      exact (inv.sent append seqno message isSent).imp id (List.mem_append_left _)
    · exact inv
  | check =>
    simp only [Admissions.step]
    split_ifs with allowed
    · exact inv.check allowed.2.1 allowed.2.2.2
    · exact inv
  | mark =>
    simp only [Admissions.step]
    split_ifs with drained
    · exact inv.mark drained
    · exact inv
  | tryReceive between =>
    simp only [Admissions.step]
    by_cases allowed : s.place = .Marked ∧ (!s.actor.ended) = true
    · rw [if_pos allowed]
      split_ifs with empty
      · obtain ⟨_,noLive,draining⟩ := inv.waiting (by simp [allowed.1])
        exact inv.leave (List.isEmpty_iff.mp empty) between noLive draining
      · exact inv.receive (by simpa using allowed.2) between
    · rw [if_neg allowed]
      exact inv
  | receive between =>
    simp only [Admissions.step]
    split_ifs with allowed
    · exact inv.receive (by simpa using allowed.2) between
    · exact inv
  | closed between =>
    simp only [Admissions.step]
    by_cases allowed : s.place = .Top ∧ (!s.actor.ended) = true ∧ s.channel.isEmpty = true ∧ s.live.isEmpty = true
    · rw [if_pos allowed]
      obtain ⟨top,on,empty,noLive⟩ := allowed
      have on : s.actor.ended = false := by simpa using on
      split_ifs with draining
      · exact inv.leave (List.isEmpty_iff.mp empty) between (List.isEmpty_iff.mp noLive) draining
      · exact inv.handled (handles_turn inv.shut between (by simpa using draining)).1 top (inv.on on)
    · rw [if_neg allowed]
      exact inv
  | timeout between =>
    simp only [Admissions.step]
    split_ifs with allowed
    · cases ended : s.actor.ended with
      | true =>
        rw [turn_ended ended]
        exact inv
      | false =>
        exact inv.handled (handles_turn inv.shut between (by simpa using allowed.2)).2 allowed.1 (inv.on ended)
    · exact inv
  | run phase listening =>
    exact ⟨⟨inv.shut.draining,inv.shut.ended⟩,inv.counted,inv.drained,inv.sent,inv.waiting,inv.left⟩

/-! ## What the actor has taken in -/

section
variable (between : List Bytes)

theorem handleMessages_ended (ended : actor.ended = true) (messages : List ClientMessage) :
    messages.foldl (handleMessage between) actor = actor := by
  induction messages with
  | nil => rfl
  | cons message rest ih =>
    have first : handleMessage between actor message = actor := if_pos ended
    rw [List.foldl_cons,first,ih]

theorem handleMessage_takes (message : ClientMessage) : (handleMessage between actor message).inbox = actor.inbox ∧
    ((handleMessage between actor message).ended = false →
      (handleMessage between actor message).handled.map (·.1) = actor.handled.map (·.1) ++ [message]) := by
  unfold handleMessage
  by_cases ended : actor.ended = true
  · rw [if_pos ended]
    exact ⟨rfl,by simp [ended]⟩
  rw [if_neg ended]
  cases message with
  | RunRequest conversation_id =>
    obtain ⟨state,pending_finish,taken⟩ := takeRequest_eq actor
    simp only [taken]
    cases conversation_id with
    | none => simp [start_generation,supersede,Actor.note]
    | some id =>
      unfold set_conversation_id
      dsimp only
      split_ifs <;> simp [start_generation,supersede,Actor.note,TransportActor.leave,finishWith]
  | UserMessageAction =>
    dsimp only
    split_ifs
    · simp [Actor.note]
    · split <;> simp [start_generation,supersede,Actor.note]
  | _ => simp [Actor.note]

theorem handleMessages_take (messages : List ClientMessage) : ∀ {actor : Actor},
    (messages.foldl (handleMessage between) actor).inbox = actor.inbox ∧
    ((messages.foldl (handleMessage between) actor).ended = false →
      (messages.foldl (handleMessage between) actor).handled.map (·.1) = actor.handled.map (·.1) ++ messages) := by
  induction messages with
  | nil => simp
  | cons message rest ih =>
    intro actor
    obtain ⟨inbox,handled⟩ := @handleMessage_takes _ actor between message
    obtain ⟨restInbox,restHandled⟩ := @ih (handleMessage between actor message)
    refine ⟨restInbox.trans inbox,fun going => ?_⟩
    have first : (handleMessage between actor message).ended = false := by
      by_contra ended
      rw [List.foldl_cons,handleMessages_ended between (by simpa using ended)] at going
      exact ended going
    rw [List.foldl_cons,restHandled going,handled first,List.append_assoc,List.singleton_append]

structure Untouched (before after : Actor) : Prop where
  inbox : after.inbox = before.inbox
  handled : after.handled = before.handled

theorem runFinished_untouched (generation : Nat) (finish : RunFinish) : Untouched actor (runFinished actor generation finish) := by
  have reported : Untouched actor (report actor generation) := by
    unfold report
    split_ifs <;> exact ⟨rfl,rfl⟩
  unfold runFinished
  dsimp only
  split_ifs
  · exact reported
  · cases finish with
    | TurnCompleted => exact ⟨reported.inbox,reported.handled⟩
    | Transport finish =>
      obtain ⟨state,closing⟩ := begin_close_state { report actor generation with waiting_for_action := false }
      rw [closing]
      exact ⟨reported.inbox,reported.handled⟩

theorem handleCommand_takes (command : TransportCommand) :
    (handleCommand actor between command).inbox = (takeIn (actor.handled.map (·.1),actor.inbox) command).2 ∧
    ((handleCommand actor between command).ended = false → (handleCommand actor between command).handled.map (·.1) =
        (takeIn (actor.handled.map (·.1),actor.inbox) command).1) := by
  cases command with
  | Append seqno message => exact handleMessages_take between _
  | RunFinished generation finish =>
    have kept := @runFinished_untouched _ actor generation finish
    exact ⟨kept.inbox,fun _ => congrArg _ kept.handled⟩
  | Disconnect => exact ⟨rfl,fun _ => rfl⟩
  | DisconnectIfUnsubscribed epoch =>
    simp only [handleCommand]
    split_ifs <;> exact ⟨rfl,fun _ => rfl⟩

end

/-- The actor has in its inbox, and has handled, what it took. One that left
    the loop within an append may owe the rest of its messages. -/
structure TakenIn (s : System) : Prop where
  inbox : s.actor.inbox = (intake s.taken).2
  handled : s.actor.ended = false ∨ s.leftDraining = true → s.actor.handled.map (·.1) = (intake s.taken).1

theorem finish_pending_untouched (between : List Bytes) : Untouched actor (finish_pending actor between) := by
  unfold finish_pending
  split
  · exact ⟨rfl,rfl⟩
  · dsimp only
    split_ifs <;> exact ⟨rfl,rfl⟩

theorem turn_untouched (between : List Bytes) (notDraining : actor.draining = false) :
    Untouched actor (turn actor between .closed) ∧ Untouched actor (turn actor between .timeout) := by
  unfold turn
  by_cases ended : actor.ended = true
  · simp only [ended,if_true]
    exact ⟨⟨rfl,rfl⟩,⟨rfl,rfl⟩⟩
  simp only [ended,notDraining,Bool.false_eq_true,if_false]
  by_cases waiting : actor.waiting_for_action = true
  · simp only [waiting,if_true]
    obtain ⟨state,closing⟩ := begin_close_state actor
    refine ⟨⟨rfl,rfl⟩,?_⟩
    cases actor.current with
    | none => exact ⟨rfl,rfl⟩
    | some generation => exact closing ▸ ⟨rfl,rfl⟩
  · simp only [waiting]
    exact ⟨⟨rfl,rfl⟩,⟨rfl,rfl⟩⟩

section
variable (taken : TakenIn s)
include taken

theorem TakenIn.untouched (kept : Untouched s.actor actor) (still : actor.ended = false → s.actor.ended = false) :
    TakenIn { s with actor } :=
  ⟨kept.inbox.trans taken.inbox,fun going => kept.handled ▸ taken.handled (going.imp still id)⟩

theorem TakenIn.leave (on : s.actor.ended = false) (between : List Bytes) : TakenIn (leaveDraining s between) := by
  have kept := @finish_pending_untouched _ s.actor between
  exact ⟨kept.inbox.trans taken.inbox,fun _ => (congrArg _ kept.handled).trans (taken.handled (.inl on))⟩

theorem TakenIn.receive (inv : Inv s) (on : s.actor.ended = false) (between : List Bytes) : TakenIn (receive s between) := by
  unfold Admissions.receive
  split
  · exact taken
  · rename_i sender command rest isChannel
    have before : intake s.taken = (s.actor.handled.map (·.1),s.actor.inbox) :=
      Prod.ext (taken.handled (.inl on)).symm taken.inbox.symm
    have after : intake (s.taken ++ [(sender,command)]) = takeIn (s.actor.handled.map (·.1),s.actor.inbox) command := by
      rw [← before,intake,List.foldl_append]
      rfl
    obtain ⟨inbox,handled⟩ := @handleCommand_takes _ s.actor between command
    refine ⟨inbox.trans (congrArg Prod.snd after).symm,fun going => ?_⟩
    rcases going with going | left
    · exact (handled going).trans (congrArg Prod.fst after).symm
    · simp [inv.on on] at left

theorem TakenIn.step (inv : Inv s) (action : Action) : TakenIn (step s action) := by
  cases action with
  | admits append =>
    simp only [Admissions.step]
    split_ifs
    · exact ⟨taken.inbox,taken.handled⟩
    · exact taken
  | send append seqno message =>
    simp only [Admissions.step]
    split_ifs <;> exact ⟨taken.inbox,taken.handled⟩
  | drop append | command command | check =>
    simp only [Admissions.step]
    split_ifs
    · exact ⟨taken.inbox,taken.handled⟩
    · exact taken
  | mark =>
    simp only [Admissions.step]
    split_ifs
    · obtain ⟨state,marked⟩ := mark_draining_state s.actor
      rw [marked]
      exact ⟨taken.inbox,taken.handled⟩
    · exact taken
  | tryReceive between =>
    simp only [Admissions.step]
    by_cases allowed : s.place = .Marked ∧ (!s.actor.ended) = true
    · rw [if_pos allowed]
      have on : s.actor.ended = false := by simpa using allowed.2
      split_ifs
      · exact taken.leave on between
      · exact taken.receive inv on between
    · rw [if_neg allowed]
      exact taken
  | receive between =>
    simp only [Admissions.step]
    split_ifs with allowed
    · exact taken.receive inv (by simpa using allowed.2) between
    · exact taken
  | closed between =>
    simp only [Admissions.step]
    by_cases allowed : s.place = .Top ∧ (!s.actor.ended) = true ∧ s.channel.isEmpty = true ∧ s.live.isEmpty = true
    · rw [if_pos allowed]
      have on : s.actor.ended = false := by simpa using allowed.2.1
      split_ifs with draining
      · exact taken.leave on between
      · exact taken.untouched (turn_untouched between (by simpa using draining)).1 fun _ => on
    · rw [if_neg allowed]
      exact taken
  | timeout between =>
    simp only [Admissions.step]
    split_ifs with allowed
    · refine taken.untouched (turn_untouched between (by simpa using allowed.2)).2 fun going => ?_
      by_contra ended
      rw [turn_ended (by simpa using ended)] at going
      exact ended going
    · exact taken
  | run phase listening => exact ⟨taken.inbox,taken.handled⟩

end

theorem step_processed (s : System) (action : Action) : (step s action).taken = s.taken ∨ ∃ between entry,
    s.channel = entry :: (step s action).channel ∧ (step s action).taken = s.taken ++ [entry] ∧
      (step s action).actor = handleCommand s.actor between entry.2 := by
  have received : ∀ between, (receive s between).taken = s.taken ∨ ∃ between' entry,
      s.channel = entry :: (receive s between).channel ∧ (receive s between).taken = s.taken ++ [entry] ∧
        (receive s between).actor = handleCommand s.actor between' entry.2 := by
    intro between
    unfold Admissions.receive
    split
    · exact .inl rfl
    · rename_i sender command rest isChannel
      exact .inr ⟨between,_,isChannel,rfl,rfl⟩
  cases action with
  | tryReceive between =>
    simp only [step]
    split_ifs
    · exact .inl rfl
    · exact received between
    · exact .inl rfl
  | receive between =>
    simp only [step]
    split_ifs
    · exact received between
    · exact .inl rfl
  | run phase listening => exact .inl rfl
  | _ =>
    simp only [step]
    split_ifs <;> exact .inl rfl

theorem inv_start (request_id : String) : Inv { actor := { request_id := request_id } } :=
  ⟨⟨by simp,by simp⟩,rfl,by simp,by simp,by simp,by simp⟩

/-- Only an admission adds to the live ones, and it is given only where the
    transport is open. -/
theorem step_granted (s : System) (action : Action) (append : Nat) (before : append ∉ s.live)
    (later : append ∈ (step s action).live) : s.actor.state = .Open := by
  cases action with
  | admits other =>
    simp only [Admissions.step] at later
    split_ifs at later with allowed
    · exact allowed.2
    · exact absurd later before
  | drop other =>
    simp only [Admissions.step] at later
    split_ifs at later
    · exact absurd (List.mem_of_mem_erase later) before
    · exact absurd later before
  | tryReceive between | receive between =>
    simp only [Admissions.step,Admissions.receive,leaveDraining] at later
    split_ifs at later <;> first | exact absurd later before | (split at later <;> exact absurd later before)
  | send other seqno message | command command | check | mark | closed between | timeout between | run phase listening =>
    simp only [Admissions.step,leaveDraining] at later
    first | exact absurd later before | (split_ifs at later <;> exact absurd later before)

/-- For every interleaving, no append that was sent is left behind when the
    transport has drained, what was taken was handled, and admissions are
    counted and given as they should be. -/
theorem no_append_lost (request_id : String) (actions : List Action) :
    NoneLost (Transitions.after step { actor := { request_id := request_id } } actions) := by
  obtain ⟨inv,taken⟩ : Inv (Transitions.after step { actor := { request_id := request_id } } actions) ∧
      TakenIn (Transitions.after step { actor := { request_id := request_id } } actions) := by
    refine Transitions.invariant (P := fun s => Inv s ∧ TakenIn s) ?_ ?_ actions
    · exact ⟨inv_start request_id,rfl,fun _ => rfl⟩
    · exact fun _ action both => ⟨both.1.step action,both.2.step both.1 action⟩
  refine ⟨fun left => (inv.left left).2,step_processed _,⟨taken.inbox,fun left => taken.handled (.inr left)⟩,inv.counted,?_,
    fun action append => step_granted _ action append⟩
  intro drained
  rw [inv.counted,inv.drained drained]
  rfl

end Loop

end MyCursor.Admissions

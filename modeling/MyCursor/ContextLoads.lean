import Mathlib.Logic.Function.Basic
import MyCursor.Error
import MyCursor.ExecIds

/-!
# Loads of the request context

`RequestContextSynchronizer` of `cursor/services/context_sync.rs`. The loads of a
transport share one slot with the handlers of the client's messages; tools
allocate ids from the same counter. A load gives the slot back by its guard, which
runs some time after the load is over.
-/
namespace MyCursor.ContextLoads
open ExecIds (u32Max)
open Transitions

inductive ContextResult (Context : Type) where
  | Success (request_context : Option Context)
  | Error (error : String)
  | Rejected (reason : String)
  | Missing

inductive ClientMessage (Context : Type) where
  | RequestContextResult (id : Nat) (result : ContextResult Context)
  | Throw (id : Nat) (message : String)
  | StreamClose (id : Nat)

inductive Outcome (Context : Type) where
  | Answered (result : Except Error Context)
  | Failed (error : Error)
  | Dropped

/-- How far a load is. `received` is in the channel of a waiting load. -/
inductive Phase (Context : Type) where
  | New
  | Allocated
  | Waiting (requested : Bool) (received : Option (Except Error Context))
  | Ending (outcome : Outcome Context)
  | Ended (outcome : Outcome Context)

variable {Context : Type}

/-- `pending` has the exec id and the load whose sender it keeps. -/
structure Synchronizer (Context : Type) where
  next_id : Nat := 0
  pending : Option (Nat × Nat) := none
  ids : Nat → Option Nat := fun _ => none
  loads : Nat → Phase Context := fun _ => .New

def Synchronizer.setLoad (s : Synchronizer Context) (load : Nat) (phase : Phase Context) : Synchronizer Context :=
  { s with loads := Function.update s.loads load phase }

def allocate_exec_id (s : Synchronizer Context) : Option (Nat × Synchronizer Context) :=
  if s.next_id < u32Max then some (s.next_id + 1,{ s with next_id := s.next_id + 1 }) else none

/-- The first step of `load`. -/
def allocate (s : Synchronizer Context) (load : Nat) : Synchronizer Context :=
  match allocate_exec_id s with
  | none => s.setLoad load (.Ended (.Failed (.Protocol "Cursor message id space exhausted")))
  | some (id,s) => { s.setLoad load .Allocated with ids := Function.update s.ids load (some id) }
def enter (s : Synchronizer Context) (load id : Nat) : Synchronizer Context :=
  match s.pending with
  | some _ => s.setLoad load (.Ended (.Failed (.Protocol "Cursor request context is already being loaded")))
  | none => { s.setLoad load (.Waiting false none) with pending := some (id,load) }
/-- `PendingContext::drop`. -/
def release (s : Synchronizer Context) (load id : Nat) (outcome : Outcome Context) : Synchronizer Context :=
  { s.setLoad load (.Ended outcome) with pending := s.pending.filter (·.1 ≠ id) }

def take (s : Synchronizer Context) (id : Nat) : Option Nat := (s.pending.filter (·.1 = id)).map (·.2)
def send (s : Synchronizer Context) (load : Nat) (result : Except Error Context) : Synchronizer Context :=
  match s.loads load with
  | .Waiting requested none => s.setLoad load (.Waiting requested (some result))
  | _ => s
def complete (s : Synchronizer Context) (id : Nat) (result : Except Error Context) : Synchronizer Context :=
  match take s id with
  | none => s
  | some load => send { s with pending := none } load result

def resultOf : ContextResult Context → Except Error Context
  | .Success (some request_context) => .ok request_context
  | .Success none => .error (.Protocol "Cursor returned empty request context")
  | .Error error => .error (.Protocol s!"Cursor request context failed: {error}")
  | .Rejected reason => .error (.Protocol s!"Cursor rejected request context: {reason}")
  | .Missing => .error (.Protocol "Cursor returned no request context result")
/-- The id and the answer that a message has for a load. A stream that closes is
    only logged. -/
def answerOf : ClientMessage Context → Option (Nat × Except Error Context)
  | .RequestContextResult id result => some (id,resultOf result)
  | .Throw id message => some (id,.error (.Protocol message))
  | .StreamClose _ => none
/-- `handle_client`, `handle_throw` and `handle_stream_close`. -/
def handle (s : Synchronizer Context) (message : ClientMessage Context) : Synchronizer Context :=
  match answerOf message with
  | none => s
  | some (id,result) => complete s id result

/-- Why a load goes on: what it waits for has come, or its future is dropped. -/
inductive Wake where
  | Received
  | Cancelled
  | TimedOut
  | Dropped

def wake (received : Option (Except Error Context)) : Wake → Option (Outcome Context)
  | .Received => received.map .Answered
  | .Cancelled => some (.Failed .Cancelled)
  | .TimedOut => some (.Failed (.Protocol "request context timed out"))
  | .Dropped => some .Dropped

inductive Action (Context : Type) where
  | tool
  | start (load : Nat)
  | enter (load : Nat)
  | emit (load : Nat) (error : Option Error)
  | wake (load : Nat) (reason : Wake)
  | release (load : Nat)
  | receive (message : ClientMessage Context)

/-- Actions that are not possible change nothing. -/
def step (s : Synchronizer Context) : Action Context → Synchronizer Context
  | .tool => ((allocate_exec_id s).map (·.2)).getD s
  | .start load =>
    match s.loads load with
    | .New => allocate s load
    | _ => s
  | .enter load =>
    match s.loads load, s.ids load with
    | .Allocated, some id => enter s load id
    | _, _ => s
  | .emit load error =>
    match s.loads load with
    | .Waiting false received =>
      match error with
      | some error => s.setLoad load (.Ending (.Failed error))
      | none => s.setLoad load (.Waiting true received)
    | _ => s
  | .wake load reason =>
    match s.loads load with
    | .Waiting true received =>
      match wake received reason with
      | some outcome => s.setLoad load (.Ending outcome)
      | none => s
    | _ => s
  | .release load =>
    match s.loads load, s.ids load with
    | .Ending outcome, some id => release s load id outcome
    | _, _ => s
  | .receive message => handle s message

variable {s : Synchronizer Context} {load : Nat}

@[simp] theorem setLoad_self (phase : Phase Context) : (s.setLoad load phase).loads load = phase := Function.update_self ..
theorem setLoad_other {other : Nat} (phase : Phase Context) (differs : other ≠ load) :
    (s.setLoad load phase).loads other = s.loads other :=
  Function.update_of_ne differs ..

def Unanswered (phase : Phase Context) : Prop := ∃ requested, phase = .Waiting requested none
def Holds (phase : Phase Context) : Prop := Unanswered phase ∨ ∃ outcome, phase = .Ending outcome

/-- The slot is that of a load that waits, or whose guard has not run yet. -/
structure Inv (s : Synchronizer Context) : Prop where
  owner : ∀ id load, s.pending = some (id,load) → s.ids load = some id ∧ Holds (s.loads load)
  waiting : ∀ load, Unanswered (s.loads load) → ∃ id, s.pending = some (id,load)
  bounded : ∀ load id, s.ids load = some id → id ≤ s.next_id
  distinct : ∀ one other id, s.ids one = some id → s.ids other = some id → one = other

theorem Inv.change (inv : Inv s) {phase : Phase Context} (keeps : ∀ id, s.pending = some (id,load) → Holds phase)
    (waits : Unanswered phase → Unanswered (s.loads load)) : Inv (s.setLoad load phase) := by
  refine ⟨?_,?_,inv.bounded,inv.distinct⟩
  · intro id owner isPending
    obtain ⟨isId,holds⟩ := inv.owner id owner isPending
    refine ⟨isId,?_⟩
    by_cases same : owner = load
    · subst same
      rw [setLoad_self]
      exact keeps id isPending
    · rwa [setLoad_other phase same]
  · intro other unanswered
    by_cases same : other = load
    · subst same
      rw [setLoad_self] at unanswered
      exact inv.waiting other (waits unanswered)
    · rw [setLoad_other phase same] at unanswered
      exact inv.waiting other unanswered
theorem Inv.absent (inv : Inv s) (idle : ¬ Holds (s.loads load)) (id : Nat) : s.pending ≠ some (id,load) :=
  fun isPending => idle (inv.owner id load isPending).2

theorem Inv.tool (inv : Inv s) : Inv (((allocate_exec_id s).map (·.2)).getD s) := by
  unfold allocate_exec_id
  split_ifs
  · exact ⟨inv.owner,inv.waiting,fun load id isId => Nat.le_succ_of_le (inv.bounded load id isId),inv.distinct⟩
  · exact inv
theorem allocate_left (left : s.next_id < u32Max) (load : Nat) : allocate s load =
      ⟨s.next_id + 1,s.pending,Function.update s.ids load (some (s.next_id + 1)),(s.setLoad load .Allocated).loads⟩ := by
  rw [allocate,allocate_exec_id,if_pos left]
  rfl
theorem allocate_exhausted (exhausted : ¬ s.next_id < u32Max) (load : Nat) :
    allocate s load = s.setLoad load (.Ended (.Failed (.Protocol "Cursor message id space exhausted"))) := by
  rw [allocate,allocate_exec_id,if_neg exhausted]
theorem Inv.allocate (inv : Inv s) (isNew : s.loads load = .New) : Inv (allocate s load) := by
  have idle : ¬ Holds (s.loads load) := by simp [isNew,Holds,Unanswered]
  by_cases left : s.next_id < u32Max
  · rw [allocate_left left]
    have moved : Inv (s.setLoad load .Allocated) :=
      inv.change (fun id isPending => absurd isPending (inv.absent idle id)) (by simp [Unanswered])
    refine ⟨?_,moved.waiting,?_,?_⟩ <;> dsimp only
    · intro id owner isPending
      have differs : owner ≠ load := by
        rintro rfl
        exact inv.absent idle id isPending
      obtain ⟨isId,holds⟩ := moved.owner id owner isPending
      exact ⟨by rwa [Function.update_of_ne differs],holds⟩
    · intro other id isId
      by_cases same : other = load
      · subst same
        rw [Function.update_self] at isId
        exact (Option.some.inj isId).ge
      · rw [Function.update_of_ne same] at isId
        exact Nat.le_succ_of_le (inv.bounded other id isId)
    · intro one other id isOne isOther
      by_cases first : one = load <;> by_cases second : other = load
      · rw [first,second]
      · subst first
        rw [Function.update_self] at isOne
        rw [Function.update_of_ne second] at isOther
        have := inv.bounded other id isOther
        obtain rfl := Option.some.inj isOne
        omega
      · subst second
        rw [Function.update_self] at isOther
        rw [Function.update_of_ne first] at isOne
        have := inv.bounded one id isOne
        obtain rfl := Option.some.inj isOther
        omega
      · rw [Function.update_of_ne first] at isOne
        rw [Function.update_of_ne second] at isOther
        exact inv.distinct one other id isOne isOther
  · rw [allocate_exhausted left]
    exact inv.change (fun id isPending => absurd isPending (inv.absent idle id)) (by simp [Unanswered])
theorem Inv.enter (inv : Inv s) {id : Nat} (isAllocated : s.loads load = .Allocated) (isId : s.ids load = some id) :
    Inv (enter s load id) := by
  have idle : ¬ Holds (s.loads load) := by simp [isAllocated,Holds,Unanswered]
  unfold ContextLoads.enter
  cases isPending : s.pending with
  | some taken => exact inv.change (fun id isPending => absurd isPending (inv.absent idle id)) (by simp [Unanswered])
  | none =>
    refine ⟨?_,?_,inv.bounded,inv.distinct⟩
    · rintro own owner ⟨⟩
      exact ⟨isId,.inl ⟨false,setLoad_self _⟩⟩
    · intro other unanswered
      by_cases same : other = load
      · exact ⟨id,by rw [same]⟩
      · have still : Unanswered (s.loads other) := by
          rwa [show (s.setLoad load (.Waiting false none)).loads other = s.loads other from setLoad_other _ same] at unanswered
        obtain ⟨own,isOwn⟩ := inv.waiting other still
        rw [isPending] at isOwn
        cases isOwn
theorem Inv.release (inv : Inv s) {id : Nat} {outcome : Outcome Context} (isEnding : s.loads load = .Ending outcome)
    (isId : s.ids load = some id) : Inv (release s load id outcome) := by
  have others : ∀ own owner, s.pending.filter (·.1 ≠ id) = some (own,owner) → s.pending = some (own,owner) ∧ owner ≠ load := by
    intro own owner kept
    obtain ⟨isPending,differs⟩ := Option.filter_eq_some_iff.mp kept
    refine ⟨isPending,?_⟩
    rintro rfl
    have same := (inv.owner own owner isPending).1
    rw [isId] at same
    simp [Option.some.inj same] at differs
  refine ⟨?_,?_,inv.bounded,inv.distinct⟩
  · intro own owner kept
    obtain ⟨isPending,differs⟩ := others own owner kept
    obtain ⟨isOwn,holds⟩ := inv.owner own owner isPending
    refine ⟨isOwn,?_⟩
    show Holds ((s.setLoad load (.Ended outcome)).loads owner)
    rwa [setLoad_other _ differs]
  · intro other unanswered
    change Unanswered ((s.setLoad load (.Ended outcome)).loads other) at unanswered
    have differs : other ≠ load := by
      rintro rfl
      rw [setLoad_self] at unanswered
      simp [Unanswered] at unanswered
    rw [setLoad_other _ differs] at unanswered
    obtain ⟨own,isPending⟩ := inv.waiting other unanswered
    refine ⟨own,Option.filter_eq_some_iff.mpr ⟨isPending,?_⟩⟩
    have isOwn := (inv.owner own other isPending).1
    simp only [ne_eq,decide_not,Bool.not_eq_eq_eq_not,Bool.not_true,decide_eq_false_iff_not]
    rintro rfl
    exact differs (inv.distinct other load own isOwn isId)

theorem complete_cases (s : Synchronizer Context) (id : Nat) (result : Except Error Context) :
    ((∀ load, s.pending ≠ some (id,load)) ∧ complete s id result = s) ∨
      ∃ load, s.pending = some (id,load) ∧ complete s id result = send { s with pending := none } load result := by
  unfold complete take
  cases isPending : s.pending with
  | none => exact .inl ⟨nofun,rfl⟩
  | some taken =>
    obtain ⟨own,load⟩ := taken
    by_cases same : own = id
    · subst same
      refine .inr ⟨load,rfl,?_⟩
      rw [Option.filter_some_pos (by simp)]
      rfl
    · refine .inl ⟨fun other isOther => same (Prod.mk.inj (Option.some.inj isOther)).1,?_⟩
      rw [Option.filter_some_neg (by simpa using same)]
      rfl
section
variable (result : Except Error Context)
include result

theorem send_pending : (send s load result).pending = s.pending := by
  unfold send
  split <;> rfl
theorem send_ids : (send s load result).ids = s.ids := by
  unfold send
  split <;> rfl
theorem send_next : (send s load result).next_id = s.next_id := by
  unfold send
  split <;> rfl
theorem send_other {other : Nat} (differs : other ≠ load) : (send s load result).loads other = s.loads other := by
  unfold send
  split
  · exact setLoad_other _ differs
  · rfl
theorem send_answered : ¬ Unanswered ((send s load result).loads load) := by
  unfold send
  split
  · simp [Unanswered]
  · rename_i other
    rintro ⟨requested,isWaiting⟩
    exact other requested isWaiting

end

theorem Inv.complete (inv : Inv s) (id : Nat) (result : Except Error Context) : Inv (complete s id result) := by
  obtain ⟨_,same⟩ | ⟨load,isPending,sent⟩ := complete_cases s id result
  · rwa [same]
  · rw [sent]
    refine ⟨?_,?_,?_,?_⟩
    · intro own owner kept
      rw [send_pending] at kept
      cases kept
    · intro other unanswered
      by_cases same : other = load
      · subst same
        exact absurd unanswered (send_answered result)
      · rw [send_other result same] at unanswered
        obtain ⟨own,isOwn⟩ := inv.waiting other unanswered
        rw [isPending] at isOwn
        exact absurd (Prod.mk.inj (Option.some.inj isOwn)).2.symm same
    · rw [send_ids,send_next]
      exact inv.bounded
    · rw [send_ids]
      exact inv.distinct

theorem Inv.step (inv : Inv s) (action : Action Context) : Inv (step s action) := by
  cases action with
  | tool => exact inv.tool
  | start load =>
    rw [ContextLoads.step]
    split
    · rename_i isNew
      exact inv.allocate isNew
    · exact inv
  | enter load =>
    rw [ContextLoads.step]
    split
    · rename_i isAllocated isId
      exact inv.enter isAllocated isId
    · exact inv
  | emit load error =>
    rw [ContextLoads.step]
    split
    · rename_i received isWaiting
      cases error with
      | some error => exact inv.change (fun _ _ => .inr ⟨_,rfl⟩) (by simp [Unanswered])
      | none =>
        refine inv.change (fun id isPending => ?_) ?_
        · have holds := (inv.owner id load isPending).2
          simpa [Holds,Unanswered,isWaiting] using holds
        · simp [Unanswered,isWaiting]
    · exact inv
  | wake load reason =>
    rw [ContextLoads.step]
    split
    · split
      · exact inv.change (fun _ _ => .inr ⟨_,rfl⟩) (by simp [Unanswered])
      · exact inv
    · exact inv
  | release load =>
    rw [ContextLoads.step]
    split
    · rename_i isEnding isId
      exact inv.release isEnding isId
    · exact inv
  | receive message =>
    rw [ContextLoads.step,handle]
    split
    · exact inv
    · exact inv.complete _ _

theorem run_inv (actions : List (Action Context)) : Inv (after step {} actions) :=
  invariant ⟨nofun,fun _ unanswered => by simp [Unanswered] at unanswered,nofun,nofun⟩ (fun _ action inv => inv.step action) actions

/-- The answer is in the channel of the load, or the load ended with it. -/
def Has (result : Except Error Context) (phase : Phase Context) : Prop :=
  (∃ requested, phase = .Waiting requested (some result)) ∨ phase = .Ending (.Answered result) ∨ phase = .Ended (.Answered result)

variable {result : Except Error Context}

/-- A load gets an answer only from a message with its id, and only while it waits
    for one. -/
theorem has_step (inv : Inv s) {action : Action Context} (has : Has result ((step s action).loads load)) :
    Has result (s.loads load) ∨ ∃ message id, action = .receive message ∧ answerOf message = some (id,result) ∧
      s.ids load = some id ∧ Unanswered (s.loads load) := by
  have moved : ∀ {other : Nat} {phase : Phase Context}, Has result ((s.setLoad other phase).loads load) →
      (Has result phase → Has result (s.loads other)) → Has result (s.loads load) := by
    intro other phase has back
    by_cases same : load = other
    · subst same
      rw [setLoad_self] at has
      exact back has
    · rwa [setLoad_other phase same] at has
  cases action with
  | tool =>
    refine .inl ?_
    rw [step,allocate_exec_id] at has
    split_ifs at has <;> exact has
  | start other =>
    refine .inl ?_
    rw [step] at has
    split at has
    · by_cases left : s.next_id < u32Max
      · rw [allocate_left left] at has
        exact moved has (by simp [Has])
      · rw [allocate_exhausted left] at has
        exact moved has (by simp [Has])
    · exact has
  | enter other =>
    refine .inl ?_
    rw [step] at has
    split at has
    · unfold enter at has
      split at has
      · exact moved has (by simp [Has])
      · exact moved has (by simp [Has])
    · exact has
  | emit other error =>
    refine .inl ?_
    rw [step] at has
    split at has
    · rename_i received isWaiting
      cases error with
      | some error => exact moved has (by simp [Has])
      | none => exact moved has (by simp [Has,isWaiting])
    · exact has
  | wake other reason =>
    refine .inl ?_
    rw [step] at has
    split at has
    · rename_i received isWaiting
      split at has
      · rename_i outcome wakes
        refine moved has ?_
        cases reason with
        | Received =>
          obtain ⟨answer,rfl,rfl⟩ := Option.map_eq_some_iff.mp wakes
          simp [Has,isWaiting]
        | Cancelled | TimedOut | Dropped =>
          obtain rfl := Option.some.inj wakes
          simp [Has]
      · exact has
    · exact has
  | release other =>
    refine .inl ?_
    rw [step] at has
    split at has
    · rename_i outcome id isEnding isId
      exact moved has (by simp [Has,isEnding])
    · exact has
  | receive message =>
    rw [step,handle] at has
    split at has
    · exact .inl has
    · rename_i id answer isAnswer
      obtain ⟨_,same⟩ | ⟨owner,isPending,sent⟩ := complete_cases s id answer
      · rw [same] at has
        exact .inl has
      · rw [sent] at has
        by_cases isOwner : load = owner
        · subst isOwner
          unfold send at has
          split at has
          · rename_i requested isWaiting
            obtain rfl : answer = result := by simpa [Has] using has
            exact .inr ⟨message,id,rfl,isAnswer,(inv.owner id load isPending).1,requested,isWaiting⟩
          · exact .inl has
        · rw [send_other answer isOwner] at has
          exact .inl has

/-- The message that answered a load. -/
def Arrived (actions : List (Action Context)) (load : Nat) (result : Except Error Context) : Prop :=
  ∃ before message later id, actions = before ++ .receive message :: later ∧ answerOf message = some (id,result) ∧
    (after step {} before).ids load = some id ∧ Unanswered ((after step {} before).loads load)

theorem has_arrived (actions : List (Action Context))
    (has : Has result ((after step {} actions).loads load)) : Arrived actions load result := by
  induction actions using List.reverseRecOn with
  | nil => simp [Has] at has
  | append_singleton before action ih =>
    rw [after_append] at has
    obtain already | ⟨message,id,rfl,isAnswer,isId,unanswered⟩ := has_step (run_inv before) has
    · obtain ⟨first,message,later,id,rfl,arrived⟩ := ih already
      exact ⟨first,message,later ++ [action],id,by simp,arrived⟩
    · exact ⟨before,message,[],id,rfl,isAnswer,isId,unanswered⟩

def Named (s : Synchronizer Context) : Prop := ∀ load, s.loads load = .Allocated → ∃ id, s.ids load = some id

theorem Named.change (named : Named s) {phase : Phase Context} (later : phase ≠ .Allocated) : Named (s.setLoad load phase) := by
  intro other isAllocated
  by_cases same : other = load
  · subst same
    rw [setLoad_self] at isAllocated
    exact absurd isAllocated later
  · rw [setLoad_other phase same] at isAllocated
    exact named other isAllocated
theorem Named.step (named : Named s) (action : Action Context) : Named (step s action) := by
  cases action with
  | tool =>
    rw [ContextLoads.step,allocate_exec_id]
    split_ifs <;> exact named
  | start load =>
    rw [ContextLoads.step]
    split
    · by_cases left : s.next_id < u32Max
      · rw [allocate_left left]
        intro other isAllocated
        by_cases same : other = load
        · subst same
          exact ⟨s.next_id + 1,Function.update_self ..⟩
        · obtain ⟨id,isId⟩ := named other ((setLoad_other _ same).symm.trans isAllocated)
          exact ⟨id,(Function.update_of_ne same ..).trans isId⟩
      · rw [allocate_exhausted left]
        exact named.change nofun
    · exact named
  | enter load =>
    rw [ContextLoads.step]
    split
    · rw [ContextLoads.enter]
      split
      · exact named.change nofun
      · exact named.change (show Phase.Waiting false none ≠ .Allocated from nofun)
    · exact named
  | emit load error =>
    rw [ContextLoads.step]
    split
    · cases error <;> exact named.change nofun
    · exact named
  | wake load reason =>
    rw [ContextLoads.step]
    split
    · split
      · exact named.change nofun
      · exact named
    · exact named
  | release load =>
    rw [ContextLoads.step]
    split
    · exact named.change (show Phase.Ended _ ≠ .Allocated from nofun)
    · exact named
  | receive message =>
    rw [ContextLoads.step,handle]
    split
    · exact named
    · rename_i id result _
      obtain ⟨_,same⟩ | ⟨load,_,sent⟩ := complete_cases s id result
      · rwa [same]
      · rw [sent,send]
        split
        · exact Named.change (s := { s with pending := none }) named nofun
        · exact named
theorem run_named (actions : List (Action Context)) : Named (after step {} actions) :=
  invariant (fun _ isAllocated => by cases isAllocated) (fun _ action named => named.step action) actions

/-- Loads do not touch each other. -/
structure Isolated (actions : List (Action Context)) (s : Synchronizer Context) : Prop where
  /-- At most one load waits for an answer. -/
  single : ∀ one other, Unanswered (s.loads one) → Unanswered (s.loads other) → one = other
  /-- A load that comes while the slot is taken fails, and nothing else changes. -/
  refused : ∀ load taken, s.loads load = .Allocated → s.pending = some taken → step s (.enter load) =
    s.setLoad load (.Ended (.Failed (.Protocol "Cursor request context is already being loaded")))
  /-- An answer of a load came in a message with its id, while it waited. -/
  answered : ∀ load result, Has result (s.loads load) → Arrived actions load result
  /-- An answer with another id, or one that comes again, is not seen by a load. -/
  unmoved : ∀ message id result load, answerOf message = some (id,result) →
    (s.ids load ≠ some id ∨ ¬ Unanswered (s.loads load)) → (step s (.receive message)).loads load = s.loads load
  /-- Nor does it take the slot of a load. -/
  kept : ∀ message id result load own, answerOf message = some (id,result) → s.ids load ≠ some id →
    s.pending = some (own,load) → (step s (.receive message)).pending = some (own,load)
  /-- A load that is over does not have the slot. -/
  free : ∀ id load outcome, s.pending = some (id,load) → s.loads load ≠ .Ended outcome
  /-- A new load gets an id while there are any, and the slot if no load has it. -/
  begins : ∀ load, s.loads load = .New → s.next_id < u32Max → (step s (.start load)).loads load = .Allocated
  enters : ∀ load, s.loads load = .Allocated → (∀ other, ¬ Holds (s.loads other)) →
    (step s (.enter load)).loads load = .Waiting false none

theorem Inv.single (inv : Inv s) (one other : Nat) (first : Unanswered (s.loads one)) (second : Unanswered (s.loads other)) :
    one = other := by
  obtain ⟨id,isPending⟩ := inv.waiting one first
  obtain ⟨id',isPending'⟩ := inv.waiting other second
  rw [isPending] at isPending'
  exact (Prod.mk.inj (Option.some.inj isPending')).2
theorem step_receive {message : ClientMessage Context} {id : Nat}
    (isAnswer : answerOf message = some (id,result)) : step s (.receive message) = complete s id result := by
  rw [step,handle,isAnswer]
theorem Inv.unmoved (inv : Inv s) {id : Nat}
    (other : s.ids load ≠ some id ∨ ¬ Unanswered (s.loads load)) : (ContextLoads.complete s id result).loads load = s.loads load := by
  obtain ⟨_,same⟩ | ⟨owner,isPending,sent⟩ := complete_cases s id result
  · rw [same]
  · rw [sent]
    by_cases isOwner : load = owner
    · subst isOwner
      obtain differs | answered := other
      · exact absurd (inv.owner id load isPending).1 differs
      · rw [send]
        split
        · rename_i requested isWaiting
          exact absurd ⟨requested,isWaiting⟩ answered
        · rfl
    · exact send_other result isOwner
theorem enter_free {id : Nat} (isAllocated : s.loads load = .Allocated) (isId : s.ids load = some id) :
    step s (.enter load) = enter s load id := by
  rw [step,isAllocated,isId]

/-- After every run of loads, tools and messages of the client. -/
theorem loads_isolated (actions : List (Action Context)) : Isolated actions (after step {} actions) := by
  have inv := run_inv actions
  have named := run_named actions
  refine ⟨inv.single,?_,fun _ _ has => has_arrived actions has,?_,?_,?_,?_,?_⟩ <;> generalize after step {} actions = s at inv named
  · intro load taken isAllocated isPending
    obtain ⟨id,isId⟩ := named load isAllocated
    rw [enter_free isAllocated isId,enter,isPending]
  · intro message id result load isAnswer other
    rw [step_receive isAnswer]
    exact inv.unmoved other
  · intro message id result load own isAnswer differs isPending
    rw [step_receive isAnswer]
    obtain ⟨_,same⟩ | ⟨owner,isOwner,_⟩ := complete_cases s id result
    · rwa [same]
    · obtain ⟨rfl,rfl⟩ := Prod.mk.inj (Option.some.inj (isPending.symm.trans isOwner))
      exact absurd (inv.owner own load isPending).1 differs
  · intro id load outcome isPending isEnded
    have holds := (inv.owner id load isPending).2
    simp [Holds,Unanswered,isEnded] at holds
  · intro load isNew left
    rw [step,isNew]
    show (allocate s load).loads load = .Allocated
    rw [allocate_left left]
    exact setLoad_self _
  · intro load isAllocated idle
    obtain ⟨id,isId⟩ := named load isAllocated
    have none : s.pending = none := by
      cases isPending : s.pending with
      | none => rfl
      | some taken => exact absurd (inv.owner taken.1 taken.2 isPending).2 (idle taken.2)
    rw [enter_free isAllocated isId,enter,none]
    exact setLoad_self _

def early : List (Action String) :=
  [.start 0,.enter 0,.receive (.RequestContextResult 1 (.Success (some "c"))),.emit 0 none,.wake 0 .Received]

/-- It completes the load, which has the slot by then. -/
theorem answered_before_request : ¬ ∀ (actions : List (Action String)) (load : Nat) (result : Except Error String),
    Has result ((after step {} actions).loads load) →
    ∃ before message later id, actions = before ++ .receive message :: later ∧ answerOf message = some (id,result) ∧
      (after step {} before).ids load = some id ∧ (after step {} before).loads load = .Waiting true none := by
  intro requested
  obtain ⟨before,message,later,id,isRun,-,-,waiting⟩ := requested early 0 (.ok "c") (.inr (.inl rfl))
  -- The only answer of the run comes third.
  obtain rfl : before = [.start 0,.enter 0] := by
    rcases before with _ | ⟨first,_ | ⟨second,_ | ⟨third,rest⟩⟩⟩ <;> simp [early,List.cons_eq_append_iff] at isRun
    rw [isRun.1,isRun.2.1]
  cases waiting

/-- A stale answer comes after the second load has the slot. -/
example : ((after step {} [.start 0,.enter 0,.emit 0 none,.wake 0 .Dropped,.release 0,.start 1,.enter 1,
    .receive (.RequestContextResult 1 (.Success (some "old")))] : Synchronizer String).pending) = some (2,1) := rfl

end MyCursor.ContextLoads

import MyCursor.Run
import MyCursor.StoreHistory
import MyCursor.Transitions

/-!
# Background completions

`cursor/conversation/registry.rs` and `pending.rs` with the part of
`spawn_run_request` in `runtime.rs` that uses them: the generations of one
conversation look up its active run, submit messages to it, park messages for
the next run, take the parked ones and put their own run in its place. The
lookup, the submission, the parking, the wait, the taking, the activation and
the claim are steps of their own, and the other generations and the runs may
take theirs between any two of them.
-/
namespace MyCursor.Registry
open Message Store StoreSteps Run

structure CompiledMessages where
  event_id : String
  messages : List CanonicalMessage
deriving DecidableEq

structure PendingMessages where
  queued : List CompiledMessages := []
  event_ids : List String := []
deriving DecidableEq

def PendingMessages.push (pending : PendingMessages) (messages : CompiledMessages) : PendingMessages :=
  if messages.event_id ∈ pending.event_ids then pending
  else ⟨pending.queued ++ [messages],messages.event_id :: pending.event_ids⟩
def PendingMessages.drain (pending : PendingMessages) : List CompiledMessages × PendingMessages :=
  (pending.queued,{})

/-- What `append_message_once` makes of a history: a message that is there is
    not appended again, and its identity must not stand for another one. -/
def appendOnce (history : List CanonicalMessage) (m : CanonicalMessage) : Option (List CanonicalMessage × Bool) :=
  match history.find? (sameIdentity m) with
  | some existing => if existing = m then some (history,false) else none
  | none => some (history ++ [m],true)

theorem sameIdentity_self (m : CanonicalMessage) : sameIdentity m m = true := by simp [sameIdentity]

theorem appendOnce_cases {history after : List CanonicalMessage} {m : CanonicalMessage} {inserted : Bool}
    (appended : appendOnce history m = some (after,inserted)) :
    (m ∈ history ∧ after = history ∧ inserted = false) ∨ (m ∉ history ∧ after = history ++ [m] ∧ inserted = true) := by
  unfold appendOnce at appended
  split at appended
  · rename_i existing found
    split_ifs at appended with same
    simp only [Option.some.injEq,Prod.mk.injEq] at appended
    exact .inl ⟨same ▸ List.mem_of_find?_eq_some found,appended.1.symm,appended.2.symm⟩
  · rename_i absent
    simp only [Option.some.injEq,Prod.mk.injEq] at appended
    refine .inr ⟨?_,appended.1.symm,appended.2.symm⟩
    intro present
    exact List.find?_eq_none.mp absent m present (sameIdentity_self m)

/-- What a generation has done so far. `Ready`, `Taken` and the stages between
    and after them carry the messages its run is to start with and the history
    of its base; `Delivered` carries the history of the conversation when the
    messages had become part of it. -/
inductive Stage where
  | Prepared
  | Submitting (run : Nat)
  | Awaiting (run : Nat)
  | Parking (result : CommandResult)
  | Waiting
  | Idle
  | Ready (initial base : List CanonicalMessage)
  | Gathered (initial base : List CanonicalMessage)
  | Taken (initial base : List CanonicalMessage)
  | Activated (initial base : List CanonicalMessage)
  | Started (initial base : List CanonicalMessage)
  | Delivered (history : List CanonicalMessage)
  | Stopped
deriving DecidableEq

/-- The run of a generation. It is gone when its loop has been left; the port is
    shut and the phase set after that. The batch that it works on and those in
    its channel are known by the generations that wait for them. -/
structure Run where
  created : Bool := false
  phase : RunPhase := .Running
  claimed : Bool := false
  gone : Bool := false
  shut : Bool := false
  cancelled : Bool := false
  interrupted_by : Option Nat := none
  head : List CanonicalMessage := []
  todo : List CanonicalMessage := []
  batch : Option Nat := none
  inbox : List (Nat × List CanonicalMessage) := []
deriving DecidableEq

def Run.holds (run : Run) : List Nat := run.batch.toList ++ run.inbox.map (·.1)

/-- What `prepare` returned for a generation; the base is given by its history. -/
structure Prepared where
  background_completion : Bool
  event_id : String
  initial_messages : List CanonicalMessage
  base : List CanonicalMessage
deriving DecidableEq

/-- One conversation: its place in the registry and its pending messages, its
    active run and its history in the store, and its generations with their
    runs, which go by the same numbers. -/
structure System where
  current : Option Nat := none
  pending : PendingMessages := {}
  active_run_id : Option Nat := none
  history : List CanonicalMessage
  stages : Nat → Stage := fun _ => .Prepared
  runs : Nat → Run := fun _ => {}

def System.setStage (s : System) (g : Nat) (stage : Stage) : System := { s with stages := Function.update s.stages g stage }
def System.setRun (s : System) (r : Nat) (run : Run) : System := { s with runs := Function.update s.runs r run }

section Steps
variable (prepared : Nat → Prepared)

/-- `deliver` reads the active run. -/
def lookup (s : System) (g : Nat) : System :=
  match s.current with
  | none => s.setStage g (.Parking .RunEnded)
  | some r => s.setStage g (.Submitting r)

/-- `insert_messages`: the phase is read and the batch sent under one lock. -/
def submit_messages (s : System) (g r : Nat) : System :=
  let run := s.runs r
  match run.phase with
  | .Running =>
    if run.shut then s.setStage g (.Parking .RunEnded)
    else
      (s.setRun r { run with inbox := run.inbox ++ [(g,(prepared g).initial_messages)] }).setStage g (.Awaiting r)
  | .Ended => s.setStage g (.Parking .RunEnded)
  | .Finalizing => s.setStage g (.Parking .RunClosing)

/-- The batch was dropped without an answer. -/
def unanswered (s : System) (g r : Nat) : System :=
  if g ∈ (s.runs r).holds then s
  else match (s.runs r).phase with
    | .Running | .Ended => s.setStage g (.Parking .RunEnded)
    | .Finalizing => s.setStage g (.Parking .RunClosing)

/-- `deliver` queues what the run did not take, and the generation goes on with
    no messages of its own. -/
def park (s : System) (g : Nat) (result : CommandResult) : System :=
  let s := { s with pending := s.pending.push ⟨(prepared g).event_id,(prepared g).initial_messages⟩ }
  if result = .RunClosing then s.setStage g .Waiting else s.setStage g (.Ready [] (prepared g).base)

def take_pending (s : System) (g : Nat) (initial base : List CanonicalMessage) : System :=
  let (pending,rest) := s.pending.drain
  if pending.isEmpty then { s with pending := rest }.setStage g (.Taken initial base)
  else { s with pending := rest }.setStage g (.Gathered (pending.flatMap CompiledMessages.messages ++ initial) base)

/-- The run that had the place is cancelled. -/
def activate (s : System) (g : Nat) (initial base : List CanonicalMessage) : System :=
  let s := match s.current with
    | none => s
    | some r =>
      if r = g then s
      else
        let run := s.runs r
        s.setRun r { run with
          cancelled := true, interrupted_by := if run.gone then run.interrupted_by else some g }
  { s.setRun g { s.runs g with created := true } with current := some g }.setStage g (.Activated initial base)

/-- A run that has appended the messages it started with has delivered them. -/
def settle (s : System) (g : Nat) : System :=
  match s.stages g with
  | .Started _ _ => if (s.runs g).todo.isEmpty then s.setStage g (.Delivered s.history) else s
  | _ => s

/-- `claim_run`: the conversation moves to the base of the run. -/
def claim_run (s : System) (g : Nat) (initial base : List CanonicalMessage) : System :=
  { s.setRun g { s.runs g with claimed := true, head := base, todo := initial } with
    active_run_id := some g, history := base }
def claim (s : System) (g : Nat) (initial base : List CanonicalMessage) : System :=
  settle ((claim_run s g initial base).setStage g (.Started initial base)) g

/-- The loop is left; the batch in work is dropped. -/
def leave (s : System) (r : Nat) : System := s.setRun r { s.runs r with gone := true, todo := [], batch := none }

/-- The next message of the batch, or of those that the run starts with. -/
def append (s : System) (r : Nat) : System :=
  let run := s.runs r
  match run.todo with
  | [] => s
  | m :: rest =>
    match appendOnce run.head m with
    | none => leave s r
    | some (_,false) => settle (s.setRun r { run with todo := rest }) r
    | some (head,true) =>
      if s.active_run_id = some r then
        settle { s.setRun r { run with head, todo := rest } with history := head } r
      else leave s r

/-- The submitter learns that its messages are in the history. -/
def answer (s : System) (r : Nat) : System :=
  let run := s.runs r
  match run.batch with
  | none => s
  | some g =>
    let s := s.setRun r { run with batch := none }
    if s.stages g = .Awaiting r then s.setStage g (.Delivered s.history) else s

def drain (s : System) (r : Nat) : System :=
  let run := s.runs r
  match run.inbox with
  | [] => s
  | (g,messages) :: rest => s.setRun r { run with batch := some g, todo := messages, inbox := rest }

def Run.going (run : Run) : Bool := run.created && run.claimed && !run.gone
def Run.free (run : Run) : Bool := run.going && run.todo.isEmpty && run.batch.isNone

inductive Action where
  | lookup (g : Nat)
  | submit (g : Nat)
  | unanswered (g : Nat)
  | park (g : Nat)
  | idle (g : Nat)
  | rebase (g : Nat) (read : Bool)
  | proceed (g : Nat)
  | take (g : Nat)
  | gather (g : Nat) (read : Bool)
  | activate (g : Nat)
  | claim (g : Nat)
  | stop (g : Nat)
  | push (messages : CompiledMessages)
  | drain (r : Nat)
  | append (r : Nat)
  | answer (r : Nat)
  | write (r : Nat) (history : List CanonicalMessage)
  | begin_finalizing (r : Nat)
  | resume_running (r : Nat)
  | cancel (r : Nat)
  | leave (r : Nat)
  | finish (r : Nat)
  | shut (r : Nat)
  | release (r : Nat)
deriving DecidableEq

/-- A step that is not possible leaves everything as it is. `read` tells whether
    the current checkpoint could be read; `push` is a delivery by somebody else;
    with `write` the run adds messages of its own or replaces the history by a
    summary. -/
def step (s : System) : Action → System
  | .lookup g => if s.stages g = .Prepared ∧ (prepared g).background_completion then lookup s g else s
  | .submit g => match s.stages g with
    | .Submitting r => submit_messages prepared s g r
    | _ => s
  | .unanswered g => match s.stages g with
    | .Awaiting r => unanswered s g r
    | _ => s
  | .park g => match s.stages g with
    | .Parking result => park prepared s g result
    | _ => s
  | .idle g => if s.stages g = .Waiting ∧ s.current = none then s.setStage g .Idle else s
  | .rebase g read => if s.stages g = .Idle then s.setStage g (.Ready [] (if read then s.history else (prepared g).base)) else s
  | .proceed g =>
    if s.stages g = .Prepared ∧ !(prepared g).background_completion then
      s.setStage g (.Ready (prepared g).initial_messages (prepared g).base)
    else s
  | .take g => match s.stages g with
    | .Ready initial base => take_pending s g initial base
    | _ => s
  | .gather g read => match s.stages g with
    | .Gathered initial base => s.setStage g (.Taken initial (if read then s.history else base))
    | _ => s
  | .activate g => match s.stages g with
    | .Taken initial base => activate s g initial base
    | _ => s
  | .claim g => match s.stages g with
    | .Activated initial base => if (s.runs g).gone then s else claim s g initial base
    | _ => s
  | .stop g => match s.stages g with
    | .Activated _ _ | .Started _ _ | .Delivered _ => s
    | _ => s.setStage g .Stopped
  | .push messages => { s with pending := s.pending.push messages }
  | .drain r => if (s.runs r).free then drain s r else s
  | .append r => if (s.runs r).going then append s r else s
  | .answer r => if (s.runs r).going ∧ (s.runs r).todo.isEmpty then answer s r else s
  | .write r history =>
    if (s.runs r).free ∧ s.active_run_id = some r ∧ history.Nodup then
      { s.setRun r { s.runs r with head := history } with history }
    else s
  | .begin_finalizing r =>
    if (s.runs r).going ∧ (s.runs r).phase = .Running then s.setRun r { s.runs r with phase := .Finalizing } else s
  | .resume_running r =>
    if (s.runs r).going ∧ (s.runs r).phase = .Finalizing then s.setRun r { s.runs r with phase := .Running } else s
  | .cancel r => s.setRun r { s.runs r with cancelled := true }
  | .leave r => if (s.runs r).created then leave s r else s
  | .finish r => if (s.runs r).gone then s.setRun r { s.runs r with phase := .Ended } else s
  | .shut r => if (s.runs r).gone then s.setRun r { s.runs r with shut := true, inbox := [] } else s
  | .release r => if s.current = some r ∧ (s.runs r).gone then { s with current := none } else s

/-- From the lookup until the messages are in the history. -/
def Stage.delivering : Stage → Bool
  | .Prepared | .Delivered _ | .Stopped => false
  | _ => true
/-- The messages of the generation are parked. -/
def Stage.parked : Stage → Bool
  | .Waiting | .Idle | .Ready _ _ => true
  | _ => false
def Stage.begun : Stage → Bool
  | .Activated _ _ | .Started _ _ | .Delivered _ => true
  | _ => false

def Stage.started : Stage → Bool
  | .Started _ _ | .Delivered _ => true
  | _ => false
/-- The history at which the generation's run is about to be claimed. -/
def Stage.base : Stage → List CanonicalMessage
  | .Activated _ base => base
  | _ => []
/-- The identity of the next message does not stand for another one. -/
def Run.appends (run : Run) : Bool := run.todo.head?.all fun m => (appendOnce run.head m).isSome

variable (g : Nat)

/-- Some message of the generation is not in the history yet. -/
def Unseen (history : List CanonicalMessage) : Prop := ∃ m ∈ (prepared g).initial_messages, m ∉ history

/-- While the generation delivers, no other one activates a run, nor takes the
    parked messages; a run claims the conversation while it has its place in the
    registry, and at a history that repeats no message; the event of the
    generation is not parked already, and some message of it is in none of the
    histories that its run may start from; the generation is not stopped, nor
    its run before it has appended the messages that it starts with. -/
def Undisturbed (s : System) : Action → Prop
  | .activate other => other = g ∨ (s.stages g).delivering = false
  | .take other => other = g ∨ (s.stages g).parked = false
  | .claim other => s.current = some other ∧ (s.stages other).base.Nodup
  | .park other => other = g → (prepared g).event_id ∉ s.pending.event_ids ∧ Unseen prepared g (prepared g).base
  | .rebase other read | .gather other read => other = g → read = true → Unseen prepared g s.history
  | .stop other => other ≠ g
  | .leave r => r = g → (s.stages g).delivering = false
  | .append r => r = g → (s.stages g).delivering = false ∨ (s.runs r).appends = true
  | _ => True

instance (history : List CanonicalMessage) : Decidable (Unseen prepared g history) :=
  inferInstanceAs (Decidable (∃ m ∈ (prepared g).initial_messages, m ∉ history))
instance (s : System) (action : Action) : Decidable (Undisturbed prepared g s action) := by
  cases action <;> dsimp only [Undisturbed] <;> infer_instance

/-- The completion's messages are in the history once when they are delivered,
    its generation is not stopped, its run starts with them and with a message
    that its base has not, and no run that had not ended by itself is cancelled
    for it. -/
structure DeliveredOnce (s : System) : Prop where
  committed : ∀ history, s.stages g = .Delivered history → ∀ m ∈ (prepared g).initial_messages, history.count m = 1
  goesOn : s.stages g ≠ .Stopped
  answers : ∀ initial base, s.stages g = .Activated initial base ∨ s.stages g = .Started initial base →
    (∀ m ∈ (prepared g).initial_messages, m ∈ initial) ∧ ∃ m ∈ initial, m ∉ base
  spares : ∀ r, (s.runs r).interrupted_by ≠ some g

def InPlace (s : System) (r : Nat) : Prop := s.current = some r ∨ s.current = none ∧ (s.runs r).gone = true
def Vacant (s : System) : Prop := ∀ r, s.current = some r → (s.runs r).gone = true
def Queued (s : System) : Prop := ∃ queued ∈ s.pending.queued, queued.messages = (prepared g).initial_messages
def Covers (run : Run) : Prop := ∀ m ∈ (prepared g).initial_messages, m ∈ run.head ∨ m ∈ run.todo

/-- The messages that a run is to start with have those of the generation, one
    of which is new. -/
def Answers (initial base : List CanonicalMessage) : Prop :=
  (∀ m ∈ (prepared g).initial_messages, m ∈ initial) ∧ Unseen prepared g base

def Placed (s : System) : Stage → Prop
  | .Prepared => True
  | .Submitting r => InPlace s r
  | .Awaiting r => InPlace s r ∧ ((s.runs r).gone = true ∨ g ∈ (s.runs r).holds)
  | .Parking result => result = .RunEnded ∧ Vacant s ∨ result = .RunClosing
  | .Waiting => Queued prepared g s ∧ Unseen prepared g (prepared g).base
  | .Idle => Queued prepared g s ∧ Vacant s ∧ Unseen prepared g (prepared g).base
  | .Ready _ base => Queued prepared g s ∧ Vacant s ∧ Unseen prepared g base
  | .Gathered initial base | .Taken initial base => Answers prepared g initial base ∧ Vacant s
  | .Activated initial base => Answers prepared g initial base ∧ s.current = some g ∧ (s.runs g).gone = false
  | .Started initial base =>
    Answers prepared g initial base ∧ s.current = some g ∧ (s.runs g).gone = false ∧
      (s.runs g).claimed = true ∧ (s.runs g).todo ≠ [] ∧ Covers prepared g (s.runs g)
  | .Delivered history => ∀ m ∈ (prepared g).initial_messages, history.count m = 1
  | .Stopped => False

/-- What holds of every run: after it is gone its port is shut and its phase
    set; it exists once its generation has begun; and what it has of the
    generation's messages. -/
structure RunOk (stage own : Stage) (r : Nat) (run : Run) : Prop where
  ended : run.phase = .Ended ∨ run.shut = true → run.gone = true
  begun : run.created = true ∨ run.gone = true → own.begun = true
  started : run.claimed = true → own.started = true
  once : run.holds.count g ≤ 1
  held : g ∈ run.holds → stage = .Awaiting r
  batch : run.batch = some g → run.claimed = true ∧ Covers prepared g run
  inbox : ∀ messages, (g,messages) ∈ run.inbox → messages = (prepared g).initial_messages
  spared : run.interrupted_by ≠ some g

structure Books (s : System) : Prop where
  runs : ∀ r, RunOk prepared g (s.stages g) (s.stages r) r (s.runs r)
  owns : ∀ r, s.current = some r → (s.runs r).claimed = true → s.active_run_id = some r
  owned : ∀ r, s.active_run_id = some r → s.history = (s.runs r).head
  distinct : s.history.Nodup

structure Inv (s : System) : Prop extends Books prepared g s where
  placed : Placed prepared g s (s.stages g)

variable {prepared g} {s t : System}

@[simp] theorem setStage_runs (g : Nat) (stage : Stage) : (s.setStage g stage).runs = s.runs := rfl
@[simp] theorem setStage_active (g : Nat) (stage : Stage) : (s.setStage g stage).active_run_id = s.active_run_id := rfl
@[simp] theorem setStage_history (g : Nat) (stage : Stage) : (s.setStage g stage).history = s.history := rfl
@[simp] theorem setStage_self (g : Nat) (stage : Stage) : (s.setStage g stage).stages g = stage := by simp [System.setStage]
theorem setStage_other {g other : Nat} (stage : Stage) (different : other ≠ g) :
    (s.setStage g stage).stages other = s.stages other := by simp [System.setStage,different]
theorem setStage_twice (g : Nat) (first second : Stage) : (s.setStage g first).setStage g second = s.setStage g second := by
  simp [System.setStage]

variable {r : Nat}

@[simp] theorem setRun_stages (r : Nat) (run : Run) : (s.setRun r run).stages = s.stages := rfl
@[simp] theorem setRun_active (r : Nat) (run : Run) : (s.setRun r run).active_run_id = s.active_run_id := rfl
@[simp] theorem setRun_history (r : Nat) (run : Run) : (s.setRun r run).history = s.history := rfl
@[simp] theorem setRun_self (r : Nat) (run : Run) : (s.setRun r run).runs r = run := by simp [System.setRun]
theorem setRun_other {other : Nat} (run : Run) (different : other ≠ r) :
    (s.setRun r run).runs other = s.runs other := by simp [System.setRun,different]

/-- What a step of the others leaves of the generation's place. -/
structure Keeps (prepared : Nat → Prepared) (g : Nat) (s t : System) : Prop where
  current : t.current = s.current ∨ t.current = none ∧ Vacant s
  gone : ∀ r, (s.runs r).gone = true → (t.runs r).gone = true
  holds : ∀ r, g ∈ (s.runs r).holds → g ∈ (t.runs r).holds ∨ (t.runs r).gone = true
  queued : (s.stages g).parked = true → Queued prepared g s → Queued prepared g t
  own : (s.stages g).delivering = true → (t.runs g).gone = (s.runs g).gone ∧ (t.runs g).claimed = (s.runs g).claimed ∧
    (t.runs g).head = (s.runs g).head ∧ (t.runs g).todo = (s.runs g).todo

section
variable (keeps : Keeps prepared g s t)
include keeps

theorem Keeps.vacant (vacant : Vacant s) : Vacant t := by
  intro r isCurrent
  rcases keeps.current with same | ⟨none,_⟩
  · exact keeps.gone r (vacant r (same ▸ isCurrent))
  · simp [none] at isCurrent
theorem Keeps.inPlace (inPlace : InPlace s r) : InPlace t r := by
  rcases keeps.current with same | ⟨none,vacant⟩
  · rcases inPlace with isCurrent | ⟨none,gone⟩
    · exact .inl (same.trans isCurrent)
    · exact .inr ⟨same.trans none,keeps.gone r gone⟩
  · refine .inr ⟨none,keeps.gone r ?_⟩
    rcases inPlace with isCurrent | ⟨_,gone⟩
    · exact vacant r isCurrent
    · exact gone
theorem Keeps.going (isCurrent : s.current = some r) (going : (s.runs r).gone = false) : t.current = some r := by
  rcases keeps.current with same | ⟨_,vacant⟩
  · exact same.trans isCurrent
  · simp [vacant r isCurrent] at going

theorem Keeps.placed (placed : Placed prepared g s (s.stages g)) : Placed prepared g t (s.stages g) := by
  have queued := keeps.queued
  have own := keeps.own
  cases isStage : s.stages g with
  | Prepared => trivial
  | Submitting r =>
    rw [isStage] at placed
    exact keeps.inPlace placed
  | Awaiting r =>
    rw [isStage] at placed
    refine ⟨keeps.inPlace placed.1,?_⟩
    rcases placed.2 with gone | held
    · exact .inl (keeps.gone r gone)
    · exact (keeps.holds r held).symm
  | Parking result =>
    rw [isStage] at placed
    rcases placed with ⟨ended,vacant⟩ | closing
    · exact .inl ⟨ended,keeps.vacant vacant⟩
    · exact .inr closing
  | Waiting =>
    rw [isStage] at placed queued
    exact ⟨queued rfl placed.1,placed.2⟩
  | Idle =>
    rw [isStage] at placed queued
    exact ⟨queued rfl placed.1,keeps.vacant placed.2.1,placed.2.2⟩
  | Ready initial base =>
    rw [isStage] at placed queued
    exact ⟨queued rfl placed.1,keeps.vacant placed.2.1,placed.2.2⟩
  | Gathered initial base =>
    rw [isStage] at placed
    exact ⟨placed.1,keeps.vacant placed.2⟩
  | Taken initial base =>
    rw [isStage] at placed
    exact ⟨placed.1,keeps.vacant placed.2⟩
  | Activated initial base =>
    rw [isStage] at placed own
    exact ⟨placed.1,keeps.going placed.2.1 placed.2.2,(own rfl).1.trans placed.2.2⟩
  | Started initial base =>
    rw [isStage] at placed own
    obtain ⟨answers,isCurrent,going,claimed,todo,covers⟩ := placed
    obtain ⟨gone,same,head,left⟩ := own rfl
    refine ⟨answers,keeps.going isCurrent going,gone.trans going,same.trans claimed,left ▸ todo,?_⟩
    rw [Covers,head,left]
    exact covers
  | Delivered history =>
    rw [isStage] at placed
    exact placed
  | Stopped =>
    rw [isStage] at placed
    exact placed

end

variable {stage : Stage}

theorem placed_setStage {other : Nat} {changed : Stage} (placed : Placed prepared g s stage) :
    Placed prepared g (s.setStage other changed) stage := by
  cases stage <;> exact placed

variable {history : List CanonicalMessage}

theorem Books.setHistory (books : Books prepared g s) {run : Run}
    (ok : RunOk prepared g (s.stages g) (s.stages r) r run) (claimed : run.claimed = (s.runs r).claimed)
    (owned : s.active_run_id = some r → history = run.head) (others : s.active_run_id ≠ some r → history = s.history)
    (distinct : history.Nodup) : Books prepared g { s.setRun r run with history } := by
  refine ⟨?_,?_,?_,distinct⟩
  · intro other
    by_cases same : other = r
    · subst same; simpa using ok
    · simp only [setRun_other run same]; exact books.runs other
  · intro other isCurrent
    by_cases same : other = r
    · subst same
      simp only [setRun_self,claimed]
      exact books.owns other isCurrent
    · simp only [setRun_other run same]; exact books.owns other isCurrent
  · intro other active
    by_cases same : other = r
    · subst same
      simpa using owned active
    · have inactive : s.active_run_id ≠ some r := fun isRun => same (Option.some.inj (active.symm.trans isRun))
      simp only [setRun_other run same,others inactive]
      exact books.owned other active

theorem Inv.setHistory (inv : Inv prepared g s) {run : Run}
    (ok : RunOk prepared g (s.stages g) (s.stages r) r run) (claimed : run.claimed = (s.runs r).claimed)
    (gone : (s.runs r).gone = true → run.gone = true) (holds : g ∈ (s.runs r).holds → g ∈ run.holds ∨ run.gone = true)
    (owned : s.active_run_id = some r → history = run.head) (others : s.active_run_id ≠ some r → history = s.history)
    (distinct : history.Nodup) (own : r = g → (s.stages g).delivering = true →
      run.gone = (s.runs r).gone ∧ run.head = (s.runs r).head ∧ run.todo = (s.runs r).todo) :
    Inv prepared g { s.setRun r run with history } := by
  have keeps : Keeps prepared g s { s.setRun r run with history } := by
    refine ⟨.inl rfl,?_,?_,fun _ queued => queued,?_⟩
    · intro other
      by_cases same : other = r
      · subst same; simpa using gone
      · simp [setRun_other run same]
    · intro other
      by_cases same : other = r
      · subst same; simpa using holds
      · simp only [setRun_other run same]; exact .inl
    · intro delivering
      by_cases same : g = r
      · subst same
        have kept := own rfl delivering
        simpa using ⟨kept.1,claimed,kept.2⟩
      · simp [setRun_other run same]
  exact ⟨inv.toBooks.setHistory ok claimed owned others distinct,keeps.placed inv.placed⟩

theorem Inv.setRun (inv : Inv prepared g s) {run : Run}
    (ok : RunOk prepared g (s.stages g) (s.stages r) r run) (claimed : run.claimed = (s.runs r).claimed)
    (head : run.head = (s.runs r).head) (gone : (s.runs r).gone = true → run.gone = true)
    (holds : g ∈ (s.runs r).holds → g ∈ run.holds ∨ run.gone = true)
    (own : r = g → (s.stages g).delivering = true → run.gone = (s.runs r).gone ∧ run.todo = (s.runs r).todo) :
    Inv prepared g (s.setRun r run) :=
  inv.setHistory ok claimed gone holds (fun active => (inv.owned r active).trans head.symm) (fun _ => rfl) inv.distinct
    fun isOwn delivering => ⟨(own isOwn delivering).1,head,(own isOwn delivering).2⟩

theorem Inv.setStage_other (inv : Inv prepared g s) {other : Nat} (different : other ≠ g)
    (begun : (s.stages other).begun = true → stage.begun = true)
    (started : (s.stages other).started = true → stage.started = true) : Inv prepared g (s.setStage other stage) := by
  have own : (s.setStage other stage).stages g = s.stages g := Registry.setStage_other stage different.symm
  refine ⟨⟨?_,inv.owns,inv.owned,inv.distinct⟩,?_⟩
  · intro r
    rw [own]
    by_cases same : r = other
    · subst same
      rw [setStage_self]
      exact { inv.runs r with
        begun := fun exists_ => begun ((inv.runs r).begun exists_)
        started := fun claimed => started ((inv.runs r).started claimed) }
    · rw [Registry.setStage_other stage same]
      exact inv.runs r
  · rw [own]
    exact placed_setStage inv.placed

theorem Books.setStage_self (books : Books prepared g s) (held : ∀ r, g ∈ (s.runs r).holds → stage = .Awaiting r)
    (begun : (s.stages g).begun = true → stage.begun = true)
    (started : (s.stages g).started = true → stage.started = true) : Books prepared g (s.setStage g stage) := by
  refine ⟨?_,books.owns,books.owned,books.distinct⟩
  intro r
  rw [Registry.setStage_self]
  by_cases same : r = g
  · subst same
    rw [Registry.setStage_self]
    exact { books.runs r with
      held := held r
      begun := fun exists_ => begun ((books.runs r).begun exists_)
      started := fun claimed => started ((books.runs r).started claimed) }
  · rw [Registry.setStage_other stage same]
    exact { books.runs r with held := held r }

theorem Inv.setStage_self (inv : Inv prepared g s) (placed : Placed prepared g s stage)
    (held : ∀ r, g ∈ (s.runs r).holds → stage = .Awaiting r) (begun : (s.stages g).begun = true → stage.begun = true)
    (started : (s.stages g).started = true → stage.started = true) : Inv prepared g (s.setStage g stage) := by
  refine ⟨inv.toBooks.setStage_self held begun started,?_⟩
  rw [Registry.setStage_self]
  exact placed_setStage placed

theorem not_started (begun : stage.begun = false) : stage.started = false := by
  cases stage <;> simp_all [Stage.begun,Stage.started]

theorem Inv.advance (inv : Inv prepared g s) {other : Nat} {before : Stage} (isStage : s.stages other = before)
    (unheld : ∀ r, before ≠ .Awaiting r) (begun : before.begun = false)
    (placed : other = g → Placed prepared g s stage) : Inv prepared g (s.setStage other stage) := by
  subst isStage
  by_cases same : other = g
  · subst same
    exact inv.setStage_self (placed rfl) (fun r held => absurd ((inv.runs r).held held) (unheld r)) (by simp [begun])
      (by simp [not_started begun])
  · exact inv.setStage_other same (by simp [begun]) (by simp [not_started begun])

theorem Inv.of_pending (inv : Inv prepared g s) {pending : PendingMessages}
    (queued : (s.stages g).parked = true → Queued prepared g s → Queued prepared g { s with pending }) :
    Inv prepared g { s with pending } := by
  have keeps : Keeps prepared g s { s with pending } :=
    ⟨.inl rfl,fun _ gone => gone,fun _ held => .inl held,queued,fun _ => ⟨rfl,rfl,rfl,rfl⟩⟩
  exact ⟨⟨inv.runs,inv.owns,inv.owned,inv.distinct⟩,keeps.placed inv.placed⟩

theorem Queued.push (queued : Queued prepared g s) (messages : CompiledMessages) :
    Queued prepared g { s with pending := s.pending.push messages } := by
  obtain ⟨batch,member,same⟩ := queued
  refine ⟨batch,?_,same⟩
  simp only [PendingMessages.push]
  split_ifs
  · exact member
  · exact List.mem_append_left _ member

/-! ## The steps of the generations -/

theorem Inv.lookup (inv : Inv prepared g s) {other : Nat} (isStage : s.stages other = .Prepared) : Inv prepared g (lookup s other) := by
  unfold Registry.lookup
  split
  · rename_i none
    exact inv.advance isStage (by simp) rfl fun _ => .inl ⟨rfl,by simp [Vacant,none]⟩
  · rename_i r isCurrent
    exact inv.advance isStage (by simp) rfl fun _ => .inl isCurrent

theorem InPlace.vacant (inPlace : InPlace s r) (gone : (s.runs r).gone = true) : Vacant s := by
  intro other isOther
  rcases inPlace with isCurrent | ⟨none,_⟩
  · rw [isCurrent,Option.some.injEq] at isOther
    exact isOther ▸ gone
  · simp [none] at isOther

theorem holds_send (run : Run) (entry : Nat × List CanonicalMessage) :
    { run with inbox := run.inbox ++ [entry] }.holds = run.holds ++ [entry.1] := by
  simp [Run.holds]

section
variable (inv : Inv prepared g s)
include inv

theorem Inv.send_other {other : Nat} (different : other ≠ g) {before : Stage}
    (isStage : s.stages other = before) (begun : before.begun = false) (messages : List CanonicalMessage) :
    Inv prepared g ((s.setRun r { s.runs r with inbox := (s.runs r).inbox ++ [(other,messages)] }).setStage other
      (.Awaiting r)) := by
  have ok := inv.runs r
  have sent : Inv prepared g (s.setRun r { s.runs r with inbox := (s.runs r).inbox ++ [(other,messages)] }) := by
    refine inv.setRun ⟨ok.ended,ok.begun,ok.started,?_,?_,ok.batch,?_,ok.spared⟩ rfl rfl id ?_ fun _ _ => ⟨rfl,rfl⟩
    · rw [holds_send,List.count_append,List.count_singleton]
      simpa [different] using ok.once
    · rw [holds_send]
      simpa [different.symm] using ok.held
    · simpa [different.symm] using ok.inbox
    · rw [holds_send]
      exact fun held => .inl (List.mem_append_left _ held)
  exact sent.setStage_other different (by simp [isStage,begun]) (by simp [isStage,not_started begun])

theorem Inv.send_self (isStage : s.stages g = .Submitting r) : Inv prepared g ((s.setRun r { s.runs r with
      inbox := (s.runs r).inbox ++ [(g,(prepared g).initial_messages)] }).setStage g (.Awaiting r)) := by
  have unheld : ∀ r', g ∉ (s.runs r').holds := by
    intro r' held
    have awaits := (inv.runs r').held held
    simp [isStage] at awaits
  have placed := inv.placed
  rw [isStage] at placed
  refine ⟨⟨?_,?_,?_,inv.distinct⟩,?_⟩
  · intro r'
    have ok := inv.runs r'
    have stays : ((s.stages r').begun = true → ((s.setStage g (.Awaiting r)).stages r').begun = true) ∧
        ((s.stages r').started = true → ((s.setStage g (.Awaiting r)).stages r').started = true) := by
      by_cases same : r' = g
      · subst same
        simp [isStage,Stage.begun,Stage.started]
      · rw [Registry.setStage_other _ same]
        exact ⟨id,id⟩
    rw [Registry.setStage_self]
    by_cases same : r' = r
    · subst same
      rw [setStage_runs,setRun_self]
      refine ⟨ok.ended,fun made => stays.1 (ok.begun made),fun claimed => stays.2 (ok.started claimed),?_,fun _ => rfl,
        ok.batch,?_,ok.spared⟩
      · rw [holds_send,List.count_append,List.count_eq_zero_of_not_mem (unheld r')]
        simp
      · intro messages member
        rcases List.mem_append.mp member with old | new
        · exact ok.inbox messages old
        · simpa using new
    · rw [setStage_runs,setRun_other _ same]
      exact { ok with
        begun := fun made => stays.1 (ok.begun made)
        started := fun claimed => stays.2 (ok.started claimed)
        held := fun held => absurd held (unheld r') }
  · intro r' isCurrent
    by_cases same : r' = r
    · subst same; simpa using inv.owns r' isCurrent
    · simpa [setRun_other _ same] using inv.owns r' isCurrent
  · intro r' active
    by_cases same : r' = r
    · subst same; simpa using inv.owned r' active
    · simpa [setRun_other _ same] using inv.owned r' active
  · rw [Registry.setStage_self]
    refine ⟨?_,.inr (by simp [holds_send])⟩
    rcases placed with isCurrent | ⟨none,gone⟩
    · exact .inl isCurrent
    · exact .inr ⟨none,by simpa using gone⟩

theorem Inv.submit_messages {other : Nat} (isStage : s.stages other = .Submitting r) :
    Inv prepared g (submit_messages prepared s other r) := by
  have inPlace : other = g → InPlace s r := by
    rintro rfl
    have placed := inv.placed
    rw [isStage] at placed
    exact placed
  have ended : (s.runs r).gone = true → Inv prepared g (s.setStage other (.Parking .RunEnded)) := fun gone =>
    inv.advance isStage (by simp) rfl fun own => .inl ⟨rfl,(inPlace own).vacant gone⟩
  unfold Registry.submit_messages
  dsimp only
  split
  · split_ifs with shut
    · exact ended ((inv.runs r).ended (.inr shut))
    · by_cases same : other = g
      · subst same
        exact inv.send_self isStage
      · exact inv.send_other same isStage rfl _
  · rename_i isEnded
    exact ended ((inv.runs r).ended (.inl isEnded))
  · exact inv.advance isStage (by simp) rfl fun _ => .inr rfl

theorem Inv.unanswered {other : Nat} (isStage : s.stages other = .Awaiting r) : Inv prepared g (unanswered s other r) := by
  unfold Registry.unanswered
  split_ifs with held
  · exact inv
  · by_cases same : other = g
    · subst same
      have placed := inv.placed
      rw [isStage] at placed
      have gone : (s.runs r).gone = true := placed.2.resolve_right held
      -- Only the awaited run could hold the batch.
      have unheld : ∀ r', other ∉ (s.runs r').holds := by
        intro r' held'
        have awaits := (inv.runs r').held held'
        rw [isStage,Stage.Awaiting.injEq] at awaits
        exact held (awaits ▸ held')
      have parks : ∀ {result}, Placed prepared other s (.Parking result) →
          Inv prepared other (s.setStage other (.Parking result)) := fun placed =>
        inv.setStage_self placed (fun r' held' => absurd held' (unheld r')) (by simp [isStage,Stage.begun])
          (by simp [isStage,Stage.started])
      split
      · exact parks (.inl ⟨rfl,placed.1.vacant gone⟩)
      · exact parks (.inl ⟨rfl,placed.1.vacant gone⟩)
      · exact parks (.inr rfl)
    · split
      all_goals exact inv.setStage_other same (by simp [isStage,Stage.begun]) (by simp [isStage,Stage.started])

theorem Inv.park {other : Nat} {result : CommandResult}
    (isStage : s.stages other = .Parking result) (fresh : other = g → (prepared g).event_id ∉ s.pending.event_ids)
    (unseen : other = g → Unseen prepared g (prepared g).base) : Inv prepared g (park prepared s other result) := by
  have pushed := inv.of_pending fun _ queued => queued.push ⟨(prepared other).event_id,(prepared other).initial_messages⟩
  have queued : other = g → Queued prepared g { s with
      pending := s.pending.push ⟨(prepared other).event_id,(prepared other).initial_messages⟩ } := by
    rintro rfl
    refine ⟨⟨(prepared other).event_id,(prepared other).initial_messages⟩,?_,rfl⟩
    simp [PendingMessages.push,fresh rfl]
  unfold Registry.park
  dsimp only
  split_ifs with closing
  · exact pushed.advance isStage (by simp) rfl fun own => ⟨queued own,unseen own⟩
  · refine pushed.advance isStage (by simp) rfl fun own => ⟨queued own,?_,own ▸ unseen own⟩
    have placed := pushed.placed
    rw [← own] at placed
    rw [isStage] at placed
    rcases placed with ⟨_,vacant⟩ | isClosing
    · exact vacant
    · exact absurd isClosing closing

theorem Inv.take_pending {other : Nat} {initial base : List CanonicalMessage}
    (isStage : s.stages other = .Ready initial base) (alone : other = g ∨ (s.stages g).parked = false) :
    Inv prepared g (take_pending s other initial base) := by
  unfold Registry.take_pending PendingMessages.drain
  dsimp only
  by_cases same : other = g
  · subst same
    obtain ⟨⟨batch,member,messages⟩,vacant,unseen⟩ : Placed prepared other s (.Ready initial base) := isStage ▸ inv.placed
    have taken : Inv prepared other (s.setStage other (.Gathered (s.pending.queued.flatMap CompiledMessages.messages ++ initial) base)) := by
      refine inv.advance isStage (by simp) rfl fun _ => ⟨⟨?_,unseen⟩,vacant⟩
      intro m isOwn
      exact List.mem_append_left _ (List.mem_flatMap.mpr ⟨batch,member,messages ▸ isOwn⟩)
    rw [if_neg (by simpa using List.ne_nil_of_mem member)]
    exact taken.of_pending (by simp [Stage.parked])
  · have unparked := alone.resolve_left same
    have kept : Inv prepared g { s with pending := {} } := inv.of_pending (by simp [unparked])
    split_ifs
    · exact kept.advance isStage (by simp) rfl fun own => absurd own same
    · exact kept.advance isStage (by simp) rfl fun own => absurd own same

theorem Inv.replaced {other : Nat} (vacant : other = g → (s.runs r).gone = true) : Inv prepared g (s.setRun r { s.runs r with
      cancelled := true, interrupted_by := if (s.runs r).gone then (s.runs r).interrupted_by else some other }) := by
  have ok := inv.runs r
  refine inv.setRun ?_ rfl rfl id .inl fun _ _ => ⟨rfl,rfl⟩
  refine ⟨ok.ended,ok.begun,ok.started,ok.once,ok.held,ok.batch,ok.inbox,?_⟩
  dsimp only
  split_ifs with gone
  · exact ok.spared
  · intro isOwn
    exact gone (vacant (Option.some.inj isOwn))

theorem Inv.registered {other : Nat} {initial base : List CanonicalMessage}
    (isStage : s.stages other = .Taken initial base) (alone : other = g ∨ (s.stages g).delivering = false) :
    Inv prepared g ({ s.setRun other { s.runs other with created := true } with current := some other }.setStage other
      (.Activated initial base)) := by
  have fresh : (s.runs other).gone = false ∧ (s.runs other).claimed = false := by
    have ok := inv.runs other
    rw [isStage] at ok
    constructor
    · by_contra gone
      simpa [Stage.begun] using ok.begun (.inr (by simpa using gone))
    · by_contra claimed
      simpa [Stage.started] using ok.started (by simpa using claimed)
  have unheld : other = g → ∀ r, g ∉ (s.runs r).holds := by
    rintro rfl r held
    have awaits := (inv.runs r).held held
    simp [isStage] at awaits
  have moved : Inv prepared g ({ s with current := some other }.setStage other (.Activated initial base)) := by
    refine ⟨⟨?_,?_,inv.owned,inv.distinct⟩,?_⟩
    · intro r
      have ok := inv.runs r
      have held : g ∈ (s.runs r).holds →
          ({ s with current := some other }.setStage other (.Activated initial base)).stages g = .Awaiting r := by
        intro held
        by_cases same : other = g
        · exact absurd held (unheld same r)
        · rw [Registry.setStage_other _ (Ne.symm same)]
          exact ok.held held
      by_cases same : r = other
      · subst same
        rw [Registry.setStage_self] at *
        exact { ok with begun := fun _ => rfl, started := fun claimed => absurd claimed (by simp [fresh]), held }
      · rw [Registry.setStage_other _ same]
        exact { ok with held }
    · intro r isCurrent claimed
      obtain rfl : other = r := Option.some.inj isCurrent
      exact absurd claimed (by simp [fresh])
    · by_cases same : other = g
      · subst same
        have placed := inv.placed
        rw [isStage] at placed
        rw [Registry.setStage_self]
        exact ⟨placed.1,rfl,fresh.1⟩
      · have idle := alone.resolve_left same
        have placed := inv.placed
        rw [Registry.setStage_other _ (Ne.symm same)]
        dsimp only
        cases isOwn : s.stages g with
        | Prepared => trivial
        | Delivered history => rw [isOwn] at placed; exact placed
        | Stopped => rw [isOwn] at placed; exact placed
        | _ => simp [isOwn,Stage.delivering] at idle
  have ok := moved.runs other
  exact moved.setRun { ok with begun := fun _ => by rw [Registry.setStage_self]; rfl } rfl rfl id .inl fun _ _ => ⟨rfl,rfl⟩

theorem Inv.activate {other : Nat} {initial base : List CanonicalMessage}
    (isStage : s.stages other = .Taken initial base) (alone : other = g ∨ (s.stages g).delivering = false) :
    Inv prepared g (activate s other initial base) := by
  have vacant : ∀ r, s.current = some r → other = g → (s.runs r).gone = true := by
    rintro r isCurrent rfl
    have placed := inv.placed
    rw [isStage] at placed
    exact placed.2 r isCurrent
  unfold Registry.activate
  dsimp only
  split
  · exact inv.registered isStage alone
  · rename_i r isCurrent
    by_cases same : r = other
    · rw [if_pos same]
      exact inv.registered isStage alone
    · rw [if_neg same]
      exact (inv.replaced (vacant r isCurrent)).registered isStage alone

end

section Claim
variable {other : Nat} {initial base : List CanonicalMessage}

theorem claim_run_other {r : Nat} (different : r ≠ other) : (claim_run s other initial base).runs r = s.runs r :=
  setRun_other _ different
theorem claim_run_self : (claim_run s other initial base).runs other =
    { s.runs other with claimed := true, head := base, todo := initial } := setRun_self _ _

theorem claim_run_keeps (different : other ≠ g) : Keeps prepared g s (claim_run s other initial base) := by
  refine ⟨.inl rfl,?_,?_,fun _ queued => queued,?_⟩
  · intro r gone
    by_cases same : r = other
    · subst same; rw [claim_run_self]; exact gone
    · rw [claim_run_other same]; exact gone
  · intro r held
    by_cases same : r = other
    · subst same; rw [claim_run_self]; exact .inl held
    · rw [claim_run_other same]; exact .inl held
  · intro _
    rw [claim_run_other different.symm]
    exact ⟨rfl,rfl,rfl,rfl⟩

theorem Inv.claim_run (inv : Inv prepared g s) (isStage : s.stages other = .Activated initial base)
    (isCurrent : s.current = some other) (distinct : base.Nodup) {stage : Stage} (started : stage.started = true)
    (begun : stage.begun = true) (placed : other = g → Placed prepared g (claim_run s other initial base) stage) :
    Inv prepared g ((claim_run s other initial base).setStage other stage) := by
  have unclaimed : (s.runs other).claimed ≠ true := by
    intro claimed
    have started := (inv.runs other).started claimed
    simp [isStage,Stage.started] at started
  refine ⟨⟨?_,fun r isRun _ => isCurrent.symm.trans isRun,?_,distinct⟩,?_⟩
  · intro r
    have ok := inv.runs r
    have held : g ∈ (s.runs r).holds → ((Registry.claim_run s other initial base).setStage other stage).stages g = .Awaiting r := by
      intro held
      have awaits := ok.held held
      by_cases same : other = g
      · subst same
        simp [isStage] at awaits
      · rw [Registry.setStage_other _ (Ne.symm same)]
        exact awaits
    by_cases same : r = other
    · subst same
      rw [Registry.setStage_self,setStage_runs,claim_run_self]
      exact ⟨ok.ended,fun _ => begun,fun _ => started,ok.once,held,
        fun isBatch => absurd (ok.batch isBatch).1 unclaimed,ok.inbox,ok.spared⟩
    · rw [Registry.setStage_other _ same,setStage_runs,claim_run_other same]
      exact { ok with held }
  · intro r active
    obtain rfl : other = r := Option.some.inj active
    rw [setStage_runs,claim_run_self]
    rfl
  · by_cases same : other = g
    · subst same
      rw [Registry.setStage_self]
      exact placed_setStage (placed rfl)
    · rw [Registry.setStage_other _ (Ne.symm same)]
      exact placed_setStage ((claim_run_keeps same).placed inv.placed)

theorem Inv.claim (inv : Inv prepared g s) (isStage : s.stages other = .Activated initial base)
    (going : (s.runs other).gone = false) (isCurrent : s.current = some other) (distinct : base.Nodup) :
    Inv prepared g (claim s other initial base) := by
  have answers : other = g → Answers prepared g initial base := by
    rintro rfl
    have placed := inv.placed
    rw [isStage] at placed
    exact placed.1
  unfold Registry.claim settle
  simp only [Registry.setStage_self,setStage_runs,claim_run_self]
  by_cases empty : initial = []
  · rw [if_pos (by simp [empty])]
    rw [setStage_twice]
    refine inv.claim_run isStage isCurrent distinct rfl rfl ?_
    rintro rfl m isOwn
    have none := (answers rfl).1 m isOwn
    simp [empty] at none
  · rw [if_neg (by simpa using empty)]
    refine inv.claim_run isStage isCurrent distinct rfl rfl ?_
    rintro rfl
    rw [Placed,claim_run_self]
    exact ⟨answers rfl,isCurrent,going,rfl,empty,fun m isOwn => .inr ((answers rfl).1 m isOwn)⟩
end Claim

/-! ## The steps of the runs -/

section
variable (inv : Inv prepared g s)
include inv

theorem Inv.free (free : (s.runs g).free = true) : (s.stages g).delivering = false := by
  simp only [Run.free,Run.going,Bool.and_eq_true,List.isEmpty_iff] at free
  obtain ⟨⟨⟨⟨_,claimed⟩,_⟩,todo⟩,_⟩ := free
  have started := (inv.runs g).started claimed
  have placed := inv.placed
  cases isStage : s.stages g with
  | Started initial base =>
    rw [isStage] at placed
    exact absurd todo placed.2.2.2.2.1
  | Delivered history => rfl
  | _ => simp [isStage,Stage.started] at started

theorem Inv.leave (created : (s.runs r).created = true)
    (idle : r = g → (s.stages g).delivering = false) : Inv prepared g (leave s r) := by
  have ok := inv.runs r
  refine inv.setRun ?_ rfl rfl (fun _ => rfl) (fun _ => .inr rfl) ?_
  · refine ⟨fun _ => rfl,fun _ => ok.begun (.inl created),ok.started,?_,?_,by simp,ok.inbox,ok.spared⟩
    · refine le_trans ?_ ok.once
      simp [Run.holds]
    · intro held
      exact ok.held (List.mem_append_right _ (by simpa [Run.holds] using held))
  · intro own delivering
    simp [idle own] at delivering

theorem Inv.drain (free : (s.runs r).free = true) : Inv prepared g (drain s r) := by
  have ok := inv.runs r
  have idle : r = g → (s.stages g).delivering = false := fun own => inv.free (own ▸ free)
  simp only [Run.free,Run.going,Bool.and_eq_true,Option.isNone_iff_eq_none] at free
  obtain ⟨⟨⟨⟨_,claimed⟩,_⟩,_⟩,noBatch⟩ := free
  unfold Registry.drain
  dsimp only
  split
  · exact inv
  · rename_i sender messages rest isInbox
    have holds : { s.runs r with batch := some sender, todo := messages, inbox := rest }.holds = (s.runs r).holds := by
      simp [Run.holds,noBatch,isInbox]
    refine inv.setRun ?_ rfl rfl id (by rw [holds]; exact .inl) ?_
    · refine ⟨ok.ended,ok.begun,ok.started,holds ▸ ok.once,holds ▸ ok.held,?_,?_,ok.spared⟩
      · intro isBatch
        obtain rfl : sender = g := Option.some.inj isBatch
        obtain rfl := ok.inbox messages (by simp [isInbox])
        exact ⟨claimed,fun m isOwn => .inr isOwn⟩
      · intro ms member
        exact ok.inbox ms (by rw [isInbox]; exact List.mem_cons_of_mem _ member)
    · intro own delivering
      simp [idle own] at delivering

theorem Inv.write (free : (s.runs r).free = true) (active : s.active_run_id = some r) (distinct : history.Nodup) :
    Inv prepared g { s.setRun r { s.runs r with head := history } with history } := by
  have ok := inv.runs r
  have idle : r = g → (s.stages g).delivering = false := fun own => inv.free (own ▸ free)
  simp only [Run.free,Bool.and_eq_true,Option.isNone_iff_eq_none] at free
  refine inv.setHistory { ok with batch := by simp [free] } rfl id .inl (fun _ => rfl) (absurd active) distinct ?_
  intro own delivering
  simp [idle own] at delivering

theorem Inv.release (isCurrent : s.current = some r) (gone : (s.runs r).gone = true) : Inv prepared g { s with current := none } := by
  have vacant : Vacant s := by
    intro other isOther
    obtain rfl : r = other := Option.some.inj (isCurrent.symm.trans isOther)
    exact gone
  have keeps : Keeps prepared g s { s with current := none } :=
    ⟨.inr ⟨rfl,vacant⟩,fun _ => id,fun _ => .inl,fun _ => id,fun _ => ⟨rfl,rfl,rfl,rfl⟩⟩
  exact ⟨⟨inv.runs,by simp,inv.owned,inv.distinct⟩,keeps.placed inv.placed⟩

theorem Inv.head_eq (inPlace : InPlace s r) (claimed : (s.runs r).claimed = true)
    (going : (s.runs r).gone = false) : s.history = (s.runs r).head := by
  rcases inPlace with isCurrent | ⟨_,gone⟩
  · exact inv.owned r (inv.owns r isCurrent claimed)
  · simp [gone] at going

theorem Inv.answer_self (going : (s.runs r).gone = false) (todo : (s.runs r).todo = []) (isBatch : (s.runs r).batch = some g) :
    Inv prepared g ((s.setRun r { s.runs r with batch := none }).setStage g (.Delivered s.history)) := by
  have held : g ∈ (s.runs r).holds := by simp [Run.holds,isBatch]
  have isStage := (inv.runs r).held held
  obtain ⟨claimed,covers⟩ := (inv.runs r).batch isBatch
  have placed := inv.placed
  rw [isStage] at placed
  have elsewhere : ∀ r', r' ≠ r → g ∉ (s.runs r').holds := by
    intro r' different held'
    have awaits := (inv.runs r').held held'
    rw [isStage,Stage.Awaiting.injEq] at awaits
    exact different awaits.symm
  have notLeft : g ∉ { s.runs r with batch := none }.holds := by
    have once := (inv.runs r).once
    rw [Run.holds,isBatch,Option.toList_some,List.singleton_append,List.count_cons_self] at once
    simpa [Run.holds] using List.count_eq_zero.mp (by omega : ((s.runs r).inbox.map (·.1)).count g = 0)
  have runs : ∀ r', g ∉ ((s.setRun r { s.runs r with batch := none }).runs r').holds := by
    intro r'
    by_cases same : r' = r
    · subst same; rw [setRun_self]; exact notLeft
    · rw [setRun_other _ same]; exact elsewhere r' same
  refine ⟨⟨?_,?_,?_,inv.distinct⟩,?_⟩
  · intro r'
    have ok := inv.runs r'
    have stays : ((s.stages r').begun = true → ((s.setStage g (.Delivered s.history)).stages r').begun = true) ∧
        ((s.stages r').started = true → ((s.setStage g (.Delivered s.history)).stages r').started = true) := by
      by_cases same : r' = g
      · subst same; simp [Stage.begun,Stage.started]
      · rw [Registry.setStage_other _ same]; exact ⟨id,id⟩
    have unheld := runs r'
    by_cases same : r' = r
    · subst same
      rw [setStage_runs,setRun_self] at *
      exact ⟨ok.ended,fun made => stays.1 (ok.begun made),fun isClaimed => stays.2 (ok.started isClaimed),
        by rw [List.count_eq_zero_of_not_mem unheld]; omega,fun held' => absurd held' unheld,by simp,ok.inbox,ok.spared⟩
    · rw [setStage_runs,setRun_other _ same] at *
      exact { ok with
        begun := fun made => stays.1 (ok.begun made)
        started := fun isClaimed => stays.2 (ok.started isClaimed)
        held := fun held' => absurd held' unheld }
  · intro r' isCurrent
    by_cases same : r' = r
    · subst same; simpa using inv.owns r' isCurrent
    · simpa [setRun_other _ same] using inv.owns r' isCurrent
  · intro r' active
    by_cases same : r' = r
    · subst same; simpa using inv.owned r' active
    · simpa [setRun_other _ same] using inv.owned r' active
  · rw [Registry.setStage_self]
    intro m isOwn
    refine List.count_eq_one_of_mem inv.distinct ?_
    rw [inv.head_eq placed.1 claimed going]
    simpa [todo] using covers m isOwn

end

theorem Inv.answer (inv : Inv prepared g s) {r : Nat} (going : (s.runs r).gone = false)
    (todo : (s.runs r).todo = []) : Inv prepared g (answer s r) := by
  unfold Registry.answer
  dsimp only
  split
  · exact inv
  · rename_i sender isBatch
    by_cases same : sender = g
    · subst same
      have isStage := (inv.runs r).held (by simp [Run.holds,isBatch])
      rw [if_pos (by simpa using isStage)]
      exact inv.answer_self going todo isBatch
    · have ok := inv.runs r
      have holds : ∀ h, h ≠ sender → { s.runs r with batch := none }.holds.count h = (s.runs r).holds.count h := by
        intro h different
        simp [Run.holds,isBatch,different.symm]
      have answered : Inv prepared g (s.setRun r { s.runs r with batch := none }) := by
        have own := holds g (Ne.symm same)
        refine inv.setRun ⟨ok.ended,ok.begun,ok.started,own ▸ ok.once,?_,by simp,ok.inbox,ok.spared⟩ rfl rfl id ?_
          fun _ _ => ⟨rfl,rfl⟩
        · intro held
          exact ok.held (List.count_pos_iff.mp (own ▸ List.count_pos_iff.mpr held))
        · intro held
          exact .inl (List.count_pos_iff.mp (own.symm ▸ List.count_pos_iff.mpr held))
      split_ifs with isStage
      · exact answered.setStage_other same (by simp [isStage,Stage.begun]) (by simp [isStage,Stage.started])
      · exact answered

/-- A message of the batch, or of those that the run starts with, is in its
    history; the rest is still to do. -/
theorem Inv.appended (inv : Inv prepared g s) (going : (s.runs r).going = true) {m : CanonicalMessage}
    {rest head : List CanonicalMessage} (isTodo : (s.runs r).todo = m :: rest) (isIn : m ∈ head)
    (kept : ∀ m ∈ (s.runs r).head, m ∈ head) (owned : s.active_run_id = some r → history = head)
    (others : s.active_run_id ≠ some r → history = s.history) (distinct : history.Nodup) :
    Inv prepared g (settle { s.setRun r { s.runs r with head, todo := rest } with history } r) := by
  have ok := inv.runs r
  simp only [Run.going,Bool.and_eq_true,Bool.not_eq_true'] at going
  obtain ⟨⟨_,claimed⟩,notOver⟩ := going
  have covers : Covers prepared g (s.runs r) → Covers prepared g { s.runs r with head, todo := rest } := by
    intro covers m' isOwn
    rcases covers m' isOwn with isHead | isLeft
    · exact .inl (kept m' isHead)
    · rw [isTodo] at isLeft
      rcases List.mem_cons.mp isLeft with rfl | later
      · exact .inl isIn
      · exact .inr later
  have okNow : RunOk prepared g (s.stages g) (s.stages r) r { s.runs r with head, todo := rest } :=
    { ok with batch := fun isBatch => ⟨claimed,covers (ok.batch isBatch).2⟩ }
  have books := inv.toBooks.setHistory okNow rfl owned others distinct
  have started := ok.started claimed
  by_cases same : r = g
  · subst same
    have placed := inv.placed
    unfold settle
    cases isStage : s.stages r with
    | Started initial base =>
      rw [isStage] at placed
      obtain ⟨within,isCurrent,_,_,_,covered⟩ := placed
      simp only [setRun_stages,isStage,setRun_self]
      have covered := covers covered
      by_cases last : rest = []
      · rw [if_pos (by simp [last])]
        refine ⟨books.setStage_self ?_ (fun _ => rfl) (fun _ => rfl),?_⟩
        · intro r' held
          have awaits := (books.runs r').held held
          simp [isStage] at awaits
        · rw [Registry.setStage_self]
          intro m' isOwn
          refine List.count_eq_one_of_mem distinct ?_
          rw [owned (inv.owns r isCurrent claimed)]
          simpa [last] using covered m' isOwn
      · rw [if_neg (by simpa using last)]
        refine ⟨books,?_⟩
        simp only [isStage]
        refine ⟨within,isCurrent,?_⟩
        simp only [setRun_self]
        exact ⟨notOver,claimed,last,covered⟩
    | Delivered before =>
      simp only [setRun_stages,isStage]
      refine inv.setHistory okNow rfl id .inl owned others distinct ?_
      simp [isStage,Stage.delivering]
    | _ => simp [isStage,Stage.started] at started
  · have changed := inv.setHistory okNow rfl id .inl owned others distinct fun own => absurd own same
    unfold settle
    split
    · rename_i isStage
      split_ifs
      · exact changed.setStage_other same (fun _ => rfl) (fun _ => rfl)
      · exact changed
    · exact changed

theorem Inv.idle_or_active (inv : Inv prepared g s) (claimed : (s.runs g).claimed = true) :
    (s.stages g).delivering = false ∨ s.active_run_id = some g := by
  have started := (inv.runs g).started claimed
  have placed := inv.placed
  cases isStage : s.stages g with
  | Started initial base =>
    rw [isStage] at placed
    exact .inr (inv.owns g placed.2.1 claimed)
  | Delivered history => exact .inl rfl
  | _ => simp [isStage,Stage.started] at started

theorem Inv.append (inv : Inv prepared g s) (going : (s.runs r).going = true)
    (appends : r = g → (s.stages g).delivering = false ∨ (s.runs r).appends = true) :
    Inv prepared g (append s r) := by
  have created : (s.runs r).created = true := by
    simp only [Run.going,Bool.and_eq_true] at going
    exact going.1.1
  unfold Registry.append
  dsimp only
  split
  · exact inv
  · rename_i m rest isTodo
    split
    · rename_i conflict
      refine inv.leave created fun own => (appends own).resolve_right ?_
      simp [Run.appends,isTodo,conflict]
    · rename_i after appended
      rcases appendOnce_cases appended with ⟨isIn,_,_⟩ | ⟨_,_,inserted⟩
      · exact inv.appended going isTodo isIn (fun _ => id) (inv.owned r) (fun _ => rfl) inv.distinct
      · simp at inserted
    · rename_i head appended
      rcases appendOnce_cases appended with ⟨_,_,inserted⟩ | ⟨isNew,rfl,_⟩
      · simp at inserted
      · split_ifs with active
        · have distinct : ((s.runs r).head ++ [m]).Nodup := by
            have before := inv.owned r active ▸ inv.distinct
            exact List.nodup_append.mpr ⟨before,by simp,by rintro a member b isLast rfl; simp_all⟩
          exact inv.appended going isTodo (by simp) (fun _ => List.mem_append_left _) (fun _ => rfl) (absurd active) distinct
        · refine inv.leave created fun own => ?_
          subst own
          have claimed : (s.runs r).claimed = true := by
            simp only [Run.going,Bool.and_eq_true] at going
            exact going.1.2
          exact (inv.idle_or_active claimed).resolve_right active

theorem Inv.step (completion : (prepared g).background_completion = true) {action : Action} (inv : Inv prepared g s)
    (undisturbed : Undisturbed prepared g s action) : Inv prepared g (step prepared s action) := by
  cases action with
  | lookup other =>
    simp only [Registry.step]
    split_ifs with enabled
    · exact inv.lookup enabled.1
    · exact inv
  | submit other =>
    simp only [Registry.step]
    split
    · rename_i r isStage
      exact inv.submit_messages isStage
    · exact inv
  | unanswered other =>
    simp only [Registry.step]
    split
    · rename_i r isStage
      exact inv.unanswered isStage
    · exact inv
  | park other =>
    simp only [Registry.step]
    split
    · rename_i result isStage
      exact inv.park isStage (fun own => (undisturbed own).1) fun own => (undisturbed own).2
    · exact inv
  | idle other =>
    simp only [Registry.step]
    split_ifs with enabled
    · refine inv.advance enabled.1 (by simp) rfl fun own => ?_
      subst own
      have placed := inv.placed
      rw [enabled.1] at placed
      exact ⟨placed.1,by simp [Vacant,enabled.2],placed.2⟩
    · exact inv
  | rebase other read =>
    simp only [Registry.step]
    by_cases isStage : s.stages other = .Idle
    · rw [if_pos isStage]
      refine inv.advance isStage (by simp) rfl fun own => ?_
      subst own
      have placed := inv.placed
      rw [isStage] at placed
      refine ⟨placed.1,placed.2.1,?_⟩
      split_ifs with isRead
      · exact undisturbed rfl isRead
      · exact placed.2.2
    · rw [if_neg isStage]
      exact inv
  | proceed other =>
    simp only [Registry.step]
    split_ifs with enabled
    · refine inv.advance enabled.1 (by simp) rfl fun own => ?_
      subst own
      simp [completion] at enabled
    · exact inv
  | take other =>
    simp only [Registry.step]
    split
    · rename_i initial base isStage
      exact inv.take_pending isStage undisturbed
    · exact inv
  | gather other read =>
    simp only [Registry.step]
    split
    · rename_i initial base isStage
      refine inv.advance isStage (by simp) rfl fun own => ?_
      subst own
      have placed := inv.placed
      rw [isStage] at placed
      refine ⟨⟨placed.1.1,?_⟩,placed.2⟩
      split_ifs with isRead
      · exact undisturbed rfl isRead
      · exact placed.1.2
    · exact inv
  | activate other =>
    simp only [Registry.step]
    split
    · rename_i initial base isStage
      exact inv.activate isStage undisturbed
    · exact inv
  | claim other =>
    simp only [Registry.step]
    split
    · rename_i initial base isStage
      split_ifs with gone
      · exact inv
      · exact inv.claim isStage (by simpa using gone) undisturbed.1 (by simpa [isStage,Stage.base] using undisturbed.2)
    · exact inv
  | stop other =>
    simp only [Registry.step]
    have begun : ∀ {stage : Stage}, s.stages other = stage → stage.begun = false →
        Inv prepared g (s.setStage other .Stopped) := fun isStage begun =>
      inv.setStage_other undisturbed (by simp [isStage,begun]) (by simp [isStage,not_started begun])
    cases isStage : s.stages other with
    | Activated initial base => exact inv
    | Started initial base => exact inv
    | Delivered history => exact inv
    | _ => exact begun isStage rfl
  | push messages => exact inv.of_pending fun _ queued => queued.push messages
  | drain r =>
    simp only [Registry.step]
    split_ifs with free
    · exact inv.drain free
    · exact inv
  | append r =>
    simp only [Registry.step]
    split_ifs with going
    · exact inv.append going undisturbed
    · exact inv
  | answer r =>
    simp only [Registry.step]
    split_ifs with enabled
    · simp only [Run.going,Bool.and_eq_true,Bool.not_eq_true',List.isEmpty_iff] at enabled
      exact inv.answer enabled.1.2 enabled.2
    · exact inv
  | write r history =>
    simp only [Registry.step]
    split_ifs with enabled
    · exact inv.write enabled.1 enabled.2.1 enabled.2.2
    · exact inv
  | begin_finalizing r =>
    simp only [Registry.step]
    split_ifs with enabled
    · have ok := inv.runs r
      exact inv.setRun { ok with ended := fun ended => ok.ended (.inr (by simpa using ended)) } rfl rfl id .inl
        fun _ _ => ⟨rfl,rfl⟩
    · exact inv
  | resume_running r =>
    simp only [Registry.step]
    split_ifs with enabled
    · have ok := inv.runs r
      exact inv.setRun { ok with ended := fun ended => ok.ended (.inr (by simpa using ended)) } rfl rfl id .inl
        fun _ _ => ⟨rfl,rfl⟩
    · exact inv
  | cancel r => exact inv.setRun { inv.runs r with } rfl rfl id .inl fun _ _ => ⟨rfl,rfl⟩
  | leave r =>
    simp only [Registry.step]
    split_ifs with created
    · exact inv.leave created undisturbed
    · exact inv
  | finish r =>
    simp only [Registry.step]
    split_ifs with gone
    · exact inv.setRun { inv.runs r with ended := fun _ => gone } rfl rfl id .inl fun _ _ => ⟨rfl,rfl⟩
    · exact inv
  | shut r =>
    simp only [Registry.step]
    split_ifs with gone
    · have ok := inv.runs r
      refine inv.setRun ?_ rfl rfl id (fun _ => .inr gone) fun _ _ => ⟨rfl,rfl⟩
      refine ⟨fun _ => gone,ok.begun,ok.started,?_,?_,ok.batch,by simp,ok.spared⟩
      · refine le_trans ?_ ok.once
        simp [Run.holds]
      · intro held
        exact ok.held (List.mem_append_left _ (by simpa [Run.holds] using held))
    · exact inv
  | release r =>
    simp only [Registry.step]
    split_ifs with enabled
    · exact inv.release enabled.1 enabled.2
    · exact inv

theorem Inv.start (distinct : history.Nodup) : Inv prepared g { history := history } := by
  refine ⟨⟨?_,by simp,by simp,distinct⟩,trivial⟩
  intro r
  exact ⟨by simp,by simp,by simp,by simp [Run.holds],by simp [Run.holds],by simp,by simp,by simp⟩

theorem Inv.deliveredOnce (inv : Inv prepared g s) : DeliveredOnce prepared g s := by
  have placed := inv.placed
  refine ⟨?_,?_,?_,fun r => (inv.runs r).spared⟩
  · intro history isStage
    rw [isStage] at placed
    exact placed
  · intro isStage
    rw [isStage] at placed
    exact placed
  · intro initial base isStage
    have answers : Answers prepared g initial base := by
      rcases isStage with isStage | isStage
      · exact (isStage ▸ placed : Placed prepared g s (.Activated initial base)).1
      · exact (isStage ▸ placed : Placed prepared g s (.Started initial base)).1
    obtain ⟨within,m,isOwn,isNew⟩ := answers
    exact ⟨within,m,within m isOwn,isNew⟩

/-- In every interleaving of the generations in which nothing disturbs its
    delivery, a completion is committed once, cancels no run that is going, and
    its run starts with its messages, to a history that has not all of them. -/
theorem undisturbed_completion (prepared : Nat → Prepared) (g : Nat) (completion : (prepared g).background_completion = true)
    (history : List CanonicalMessage) (distinct : history.Nodup) (actions : List Action)
    (undisturbed : Transitions.Meets (step prepared) (Undisturbed prepared g) { history := history } actions) :
    DeliveredOnce prepared g (Transitions.after (step prepared) { history := history } actions) := by
  have inv : Inv prepared g (Transitions.after (step prepared) { history := history } actions) :=
    undisturbed.invariant (Inv.start distinct) fun _ _ inv allowed => inv.step completion allowed
  exact inv.deliveredOnce

end Steps

def question : CanonicalMessage := text "runtime:question" .User .Runtime "What is left to do?"
def completed : CanonicalMessage := text "runtime:completed" .User .Runtime "The task is done."
def other : CanonicalMessage := text "runtime:other" .User .Runtime "The other task is done."

def asking : Nat → Prepared
  | 0 => ⟨true,"completed",[completed],[]⟩
  | _ => ⟨false,"question",[question],[]⟩
def joined : List Action :=
  [.proceed 1,.take 1,.activate 1,.claim 1,.append 1,.lookup 0,.submit 0,.drain 1,.append 1,.answer 1]
def late : List Action :=
  [.proceed 1,.take 1,.activate 1,.claim 1,.append 1,.lookup 0,.leave 1,.finish 1,.submit 0,.park 0,.release 1,.take 0,
    .gather 0 true,.activate 0,.claim 0,.append 0]

theorem undisturbed_completion_joined : (DeliveredOnce asking 0 (Transitions.after (step asking) { history := [] } joined) ∧
      (Transitions.after (step asking) { history := [] } joined).stages 0 = .Delivered [question,completed]) ∧
    DeliveredOnce asking 0 (Transitions.after (step asking) { history := [] } late) ∧
      (Transitions.after (step asking) { history := [] } late).stages 0 = .Delivered [question,completed] := by
  have once : ∀ actions, Transitions.Meets (step asking) (Undisturbed asking 0) { history := [] } actions →
      DeliveredOnce asking 0 (Transitions.after (step asking) { history := [] } actions) := fun actions undisturbed =>
    undisturbed_completion asking 0 rfl [] List.nodup_nil actions undisturbed
  exact ⟨⟨once joined (by decide +kernel),by decide +kernel⟩,once late (by decide +kernel),by decide +kernel⟩

def both : Nat → Prepared
  | 0 => ⟨true,"completed",[completed],[]⟩
  | _ => ⟨true,"other",[other],[]⟩
/-- Each is parked before the first of them takes what is parked. -/
def crossed : List Action :=
  [.lookup 0,.park 0,.lookup 1,.park 1,.take 0,.gather 0 true,.activate 0,.claim 0,.take 1,.activate 1,.claim 1]

/-- The second completion finds nothing to take, and its run, which has nothing
    to answer, cancels the run that has both. -/
theorem crossed_completions_cancel : ¬ DeliveredOnce both 1 (Transitions.after (step both) { history := [] } crossed) ∧
    ((Transitions.after (step both) { history := [] } crossed).runs 0).interrupted_by = some 1 ∧
    ((Transitions.after (step both) { history := [] } crossed).runs 0).todo = [completed,other] ∧
    (Transitions.after (step both) { history := [] } crossed).stages 1 = .Delivered [] := by
  have interrupted : ((Transitions.after (step both) { history := [] } crossed).runs 0).interrupted_by = some 1 := by
    decide +kernel
  exact ⟨fun once => once.spares 0 interrupted,interrupted,by decide +kernel,by decide +kernel⟩

end MyCursor.Registry

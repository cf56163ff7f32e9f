import Mathlib.Data.List.Infix
import Mathlib.Logic.Function.Basic
import MyCursor.Error
import MyCursor.Transitions

/-!
# The worker of a plugin

`PluginWorker` of `plugin/worker.rs`. Invocations, the readers of the processes'
outputs, the watchers of cancellations and `stop` share one map of senders. A caller
that finds the process dead starts another one, while the reader of the dead process
may still be at work.
-/
namespace MyCursor.PluginWorker
open Transitions

variable {Value : Type}

/-- How an invocation ends. The number of the process whose end was seen is not in
    the error. -/
inductive Outcome (Value : Type) where
  | Returned (result : Value)
  | Raised (error : String)
  | Cancelled
  | Stopped
  | Exited (process : Nat)
deriving DecidableEq

def Outcome.result (plugin_id : String) : Outcome Value → Except Error Value
  | .Returned result => .ok result
  | .Raised error => .error (.Provider s!"plugin '{plugin_id}': {error}")
  | .Cancelled => .error .Cancelled
  | .Stopped => .error (.Provider "plugin worker stopped")
  | .Exited _ => .error (.Provider s!"plugin '{plugin_id}' worker exited")
def Outcome.fromWorker : Outcome Value → Bool
  | .Returned _ | .Raised _ => true
  | .Cancelled | .Stopped | .Exited _ => false

inductive WorkerStreamItem (Value : Type) where
  | Event (event : Value)
  | Result (outcome : Outcome Value)
deriving DecidableEq

/-- The lines of a process. `Other` are calls of the host and lines that are no
    message. `Broken` is a line that is no text, or the end of the output of a process
    that goes on: it ends the reader. -/
inductive Line (Value : Type) where
  | Result (id : Nat) (result : Value) (error : Option String)
  | Event (id : Nat) (event : Value)
  | Other
  | Broken
deriving DecidableEq
def Line.id : Line Value → Option Nat
  | .Result id _ _ | .Event id _ => some id
  | .Other | .Broken => none
def outcomeOf (result : Value) (error : Option String) : Outcome Value := error.elim (.Returned result) .Raised
def Line.item (id : Nat) : Line Value → Option (WorkerStreamItem Value)
  | .Result own result error => if own = id then some (.Result (outcomeOf result error)) else none
  | .Event own event => if own = id then some (.Event event) else none
  | .Other | .Broken => none

inductive Phase where
  | New
  | Registered
  | Accepted
  | Refused
deriving DecidableEq

/-- `Sent` is between the message to the receiver and the removal from the map. -/
inductive Watcher where
  | Idle
  | Watching
  | Sent
  | Done
deriving DecidableEq

/-- `process` is the one whose input the caller has got. `delivered` is what was sent
    to the receiver, and `wrote` what its process has written for it. -/
structure Invocation (Value : Type) where
  phase : Phase := .New
  process : Option Nat := none
  watcher : Watcher := .Idle
  dropped : Bool := false
  delivered : List (WorkerStreamItem Value) := []
  wrote : List (WorkerStreamItem Value) := []

structure System (Value : Type) where
  pending : List Nat := []
  process : Option Nat := none
  spawned : Nat := 0
  alive : Nat → Bool := fun _ => false
  reader : Nat → Bool := fun _ => false
  stdout : Nat → List (Line Value) := fun _ => []
  invocations : Nat → Invocation Value := fun _ => {}

def System.change (s : System Value) (id : Nat) (f : Invocation Value → Invocation Value) : System Value :=
  { s with invocations := Function.update s.invocations id (f (s.invocations id)) }
def System.forget (s : System Value) (id : Nat) : System Value := { s with pending := s.pending.filter (· ≠ id) }
def deliver (item : WorkerStreamItem Value) (i : Invocation Value) : Invocation Value :=
  if i.dropped then i else { i with delivered := i.delivered ++ [item] }

def register (s : System Value) (id : Nat) : System Value :=
  { s.change id fun i => { i with phase := .Registered } with pending := s.pending ++ [id] }
def spawn (s : System Value) : System Value :=
  { s with
    process := some s.spawned
    spawned := s.spawned + 1
    alive := Function.update s.alive s.spawned true
    reader := Function.update s.reader s.spawned true }
def stdin (s : System Value) : System Value × Nat :=
  match s.process with
  | some g => if s.alive g then (s,g) else (spawn s,s.spawned)
  | none => (spawn s,s.spawned)
def connect (s : System Value) (id : Nat) : System Value :=
  let (s,g) := stdin s
  s.change id fun i => { i with process := some g }
def cleanup (s : System Value) (id : Nat) : System Value := (s.change id fun i => { i with phase := .Refused }).forget id

def fail_pending (s : System Value) (outcome : Outcome Value) : System Value :=
  { s with
    pending := []
    invocations := fun id => if id ∈ s.pending then deliver (.Result outcome) (s.invocations id) else s.invocations id }
/-- The sender stays in the map for an event and leaves it for a result. -/
def handleLine (s : System Value) : Line Value → System Value
  | .Event id event => if id ∈ s.pending then s.change id (deliver (.Event event)) else s
  | .Result id result error =>
    if id ∈ s.pending then (s.change id (deliver (.Result (outcomeOf result error)))).forget id else s
  | .Other | .Broken => s
def finish (s : System Value) (g : Nat) : System Value :=
  fail_pending { s with reader := Function.update s.reader g false } (.Exited g)

def appendLine (s : System Value) (g : Nat) (line : Line Value) : System Value :=
  { s with stdout := Function.update s.stdout g (s.stdout g ++ [line]) }
def note (line : Line Value) (id : Nat) (i : Invocation Value) : Invocation Value :=
  { i with wrote := i.wrote ++ (line.item id).toList }

inductive Action (Value : Type) where
  | register (id : Nat)
  | connect (id : Nat)
  | accept (id : Nat)
  | refuse (id : Nat)
  | write (g : Nat) (line : Line Value)
  | exit (g : Nat)
  | read (g : Nat)
  | finish (g : Nat)
  | cancel (id : Nat)
  | remove (id : Nat)
  | drop (id : Nat)
  | close (id : Nat)
  | kill
  | stopped
deriving DecidableEq

/-- Actions that are not possible change nothing. A process writes for the
    invocations whose requests it was given. -/
def step (s : System Value) : Action Value → System Value
  | .register id => if (s.invocations id).phase = .New then register s id else s
  | .connect id => if (s.invocations id).phase = .Registered ∧ (s.invocations id).process = none then connect s id else s
  | .accept id =>
    if (s.invocations id).phase = .Registered ∧ (s.invocations id).process ≠ none then
      s.change id fun i => { i with phase := .Accepted, watcher := .Watching }
    else s
  | .refuse id => if (s.invocations id).phase = .Registered then cleanup s id else s
  | .write g line =>
    match line.id with
    | some id =>
      if s.alive g ∧ (s.invocations id).process = some g then (appendLine s g line).change id (note line id) else s
    | none => if s.alive g then appendLine s g line else s
  | .exit g => { s with alive := Function.update s.alive g false }
  | .read g =>
    if s.reader g then
      match s.stdout g with
      | .Broken :: rest => finish { s with stdout := Function.update s.stdout g rest } g
      | line :: rest => handleLine { s with stdout := Function.update s.stdout g rest } line
      | [] => s
    else s
  | .finish g => if s.reader g ∧ s.stdout g = [] ∧ s.alive g = false then finish s g else s
  | .cancel id =>
    if (s.invocations id).watcher = .Watching then
      s.change id fun i => { deliver (.Result .Cancelled) i with watcher := .Sent }
    else s
  | .remove id =>
    if (s.invocations id).watcher = .Sent then (s.change id fun i => { i with watcher := .Done }).forget id else s
  | .drop id =>
    if (s.invocations id).phase = .Accepted then s.change id fun i => { i with dropped := true } else s
  | .close id =>
    if (s.invocations id).watcher = .Watching ∧ (s.invocations id).dropped then
      s.change id fun i => { i with watcher := .Done }
    else s
  | .kill =>
    match s.process with
    | some g => { s with process := none, alive := Function.update s.alive g false }
    | none => s
  | .stopped => fail_pending s .Stopped

/-- What its process has written for an invocation and its reader has not read. -/
def unread (s : System Value) (id : Nat) : List (WorkerStreamItem Value) :=
  (s.invocations id).process.elim [] fun g => (s.stdout g).filterMap (Line.item id)

/-- Events, and a result after which nothing comes. The events are those the process
    wrote, up to the result where it wrote one, and all of them where it has ended. -/
structure Closed (i : Invocation Value) (events : List Value) (outcome : Outcome Value) : Prop where
  delivered : i.delivered = events.map .Event ++ [.Result outcome]
  written : events.map .Event <+: i.wrote
  worker : outcome.fromWorker = true → i.delivered <+: i.wrote
  all : ∀ g, outcome = .Exited g → i.wrote = events.map .Event

/-- The receiver of an accepted invocation. -/
structure Conforms (s : System Value) (id : Nat) : Prop where
  /-- While the invocation is in the map, its receiver has the events that were read,
      and a reader is there that will end it. -/
  open_ : id ∈ s.pending → (s.invocations id).watcher ≠ .Sent → (s.invocations id).dropped = false →
    (∃ events : List Value, (s.invocations id).delivered = events.map .Event) ∧
      (s.invocations id).delivered ++ unread s id = (s.invocations id).wrote ∧
      ∃ g, (s.invocations id).process = some g ∧ s.reader g = true
  /-- After that it has exactly one result, the last item. -/
  closed : id ∉ s.pending ∨ (s.invocations id).watcher = .Sent → (s.invocations id).dropped = false →
    ∃ events outcome, Closed (s.invocations id) events outcome
  /-- Only the end of its own process fails it as that of a process. -/
  exited : ∀ g, .Result (.Exited g) ∈ (s.invocations id).delivered → (s.invocations id).process = some g ∧ s.alive g = false

/-- Only invocations in the map, or without a receiver, are cancelled; between the
    message and the removal nothing else is sent. A reader ends with its process and
    finds only invocations of that process in the map. -/
def Allowed (s : System Value) : Action Value → Prop
  | .cancel id => id ∈ s.pending ∨ (s.invocations id).dropped = true
  | .read g => .Broken ∉ (s.stdout g).head? ∧
      ∀ id ∈ s.pending, (s.stdout g).head?.bind Line.id = some id → (s.invocations id).watcher ≠ .Sent
  | .finish g => ∀ id ∈ s.pending, (s.invocations id).watcher ≠ .Sent ∧ (s.invocations id).process = some g
  | .stopped => ∀ id ∈ s.pending, (s.invocations id).watcher ≠ .Sent
  | _ => True
instance [DecidableEq Value] (s : System Value) (action : Action Value) : Decidable (Allowed s action) :=
  match action with
  | .cancel id => inferInstanceAs (Decidable (id ∈ s.pending ∨ (s.invocations id).dropped = true))
  | .read g => inferInstanceAs (Decidable (.Broken ∉ (s.stdout g).head? ∧
      ∀ id ∈ s.pending, (s.stdout g).head?.bind Line.id = some id → (s.invocations id).watcher ≠ .Sent))
  | .finish g => inferInstanceAs (Decidable (∀ id ∈ s.pending,
      (s.invocations id).watcher ≠ .Sent ∧ (s.invocations id).process = some g))
  | .stopped => inferInstanceAs (Decidable (∀ id ∈ s.pending, (s.invocations id).watcher ≠ .Sent))
  | .register _ | .connect _ | .accept _ | .refuse _ | .write _ _ | .exit _ | .remove _ | .drop _ | .close _ | .kill => isTrue trivial

/-! ## What holds of each invocation -/

/-- Of an invocation, whether it is in the map, and what is unread. -/
structure Sound (s : System Value) (i : Invocation Value) (listed : Prop) (rest : List (WorkerStreamItem Value)) : Prop where
  fresh : i.phase = .New → i = {} ∧ ¬ listed
  refused : i.phase = .Refused → ¬ listed
  unwatched : i.phase ≠ .Accepted → i.watcher = .Idle ∧ i.dropped = false
  connected : i.phase = .Accepted → i.process ≠ none
  silent : i.process = none → i.wrote = []
  bound : ∀ g, i.process = some g → g < s.spawned
  running : listed → ∀ g, i.process = some g → s.reader g = true
  open_ : listed → i.watcher ≠ .Sent → i.dropped = false →
    (∃ events : List Value, i.delivered = events.map .Event) ∧ i.delivered ++ rest = i.wrote
  closed : i.phase ≠ .New → i.phase ≠ .Refused → ¬ listed ∨ i.watcher = .Sent → i.dropped = false →
    ∃ events outcome, Closed i events outcome
  exited : ∀ g, .Result (.Exited g) ∈ i.delivered → i.process = some g ∧ s.alive g = false

/-- The reader of a process that lives is at work, and lines are those of the
    invocations of the process. -/
structure Inv (s : System Value) : Prop where
  readers : ∀ g, g < s.spawned → s.reader g = false → s.alive g = false
  slot : ∀ g, s.process = some g → g < s.spawned
  own : ∀ id g line, line ∈ s.stdout g → line.id = some id → (s.invocations id).process = some g
  each : ∀ id, Sound s (s.invocations id) (id ∈ s.pending) (unread s id)

section Steps
variable {s t : System Value} {i : Invocation Value} {listed : Prop} {rest : List (WorkerStreamItem Value)} {id other g : Nat}

structure Grows (s t : System Value) : Prop where
  spawned : s.spawned ≤ t.spawned
  reader : ∀ g, g < s.spawned → s.reader g = true → t.reader g = true
  alive : ∀ g, g < s.spawned → s.alive g = false → t.alive g = false
theorem Sound.grows (holds : Sound s i listed rest) (grows : Grows s t) : Sound t i listed rest where
  fresh := holds.fresh
  refused := holds.refused
  unwatched := holds.unwatched
  connected := holds.connected
  silent := holds.silent
  bound g isProcess := Nat.lt_of_lt_of_le (holds.bound g isProcess) grows.spawned
  running isListed g isProcess := grows.reader g (holds.bound g isProcess) (holds.running isListed g isProcess)
  open_ := holds.open_
  closed := holds.closed
  exited g member := by
    obtain ⟨isProcess,dead⟩ := holds.exited g member
    exact ⟨isProcess,grows.alive g (holds.bound g isProcess) dead⟩

theorem deliver_dropped (item : WorkerStreamItem Value) (gone : i.dropped = true) : deliver item i = i := if_pos gone
theorem deliver_kept (item : WorkerStreamItem Value) (kept : i.dropped = false) :
    deliver item i = { i with delivered := i.delivered ++ [item] } := by
  rw [deliver,if_neg (by simp [kept])]

structure Ends (s : System Value) (i : Invocation Value) (rest : List (WorkerStreamItem Value)) (outcome : Outcome Value) : Prop where
  worker : outcome.fromWorker = true → [.Result outcome] <+: rest
  exited : ∀ g, outcome = .Exited g → rest = [] ∧ i.process = some g ∧ s.alive g = false

variable {outcome : Outcome Value}

theorem Sound.closes (holds : Sound s i True rest) (unsent : i.watcher ≠ .Sent) (kept : i.dropped = false)
    (ends : Ends s i rest outcome) :
    ∃ events, Closed { i with delivered := i.delivered ++ [.Result outcome] } events outcome := by
  obtain ⟨⟨events,delivered⟩,wrote⟩ := holds.open_ trivial unsent kept
  refine ⟨events,?_,?_,?_,?_⟩
  · show i.delivered ++ _ = _
    rw [delivered]
  · exact ⟨rest,delivered ▸ wrote⟩
  · intro fromWorker
    obtain ⟨later,isRest⟩ := ends.worker fromWorker
    refine ⟨later,?_⟩
    show i.delivered ++ [.Result outcome] ++ later = i.wrote
    rw [← wrote,← isRest,List.append_assoc]
  · intro g isExit
    show i.wrote = _
    rw [← wrote,(ends.exited g isExit).1,List.append_nil,delivered]

theorem Sound.exits (holds : Sound s i listed rest) (ends : Ends s i rest outcome)
    (g : Nat) (member : .Result (.Exited g) ∈ i.delivered ++ [.Result outcome]) :
    i.process = some g ∧ s.alive g = false := by
  rcases List.mem_append.mp member with before | last
  · exact holds.exited g before
  · have isExit : Outcome.Exited g = outcome := WorkerStreamItem.Result.inj (List.mem_singleton.mp last)
    exact (ends.exited g isExit.symm).2

theorem Sound.result (holds : Sound s i True rest) (unsent : i.watcher ≠ .Sent)
    (ends : Ends s i rest outcome) (later : List (WorkerStreamItem Value)) :
    Sound s (deliver (.Result outcome) i) False later := by
  cases kept : i.dropped with
  | true =>
    rw [deliver_dropped _ kept]
    exact { holds with
      fresh := fun isNew => absurd trivial (holds.fresh isNew).2
      refused := fun _ => not_false
      running := nofun
      open_ := nofun
      closed := fun _ _ _ stays => absurd stays (by simp [kept]) }
  | false =>
    rw [deliver_kept _ kept]
    exact {
      fresh := fun isNew => absurd trivial (holds.fresh isNew).2
      refused := fun _ => not_false
      unwatched := holds.unwatched
      connected := holds.connected
      silent := holds.silent
      bound := holds.bound
      running := nofun
      open_ := nofun
      closed := fun _ _ _ _ => (holds.closes unsent kept ends).imp fun events closed => ⟨outcome,closed⟩
      exited := holds.exits ends }

theorem Sound.event {event : Value} (holds : Sound s i True (.Event event :: rest)) (unsent : i.watcher ≠ .Sent) :
    Sound s (deliver (.Event event) i) True rest := by
  cases kept : i.dropped with
  | true =>
    rw [deliver_dropped _ kept]
    exact { holds with
      open_ := fun _ _ stays => absurd stays (by simp [kept])
      closed := fun _ _ _ stays => absurd stays (by simp [kept]) }
  | false =>
    rw [deliver_kept _ kept]
    refine {
      fresh := fun isNew => absurd trivial (holds.fresh isNew).2
      refused := holds.refused
      unwatched := holds.unwatched
      connected := holds.connected
      silent := holds.silent
      bound := holds.bound
      running := holds.running
      open_ := fun _ _ _ => ?_
      closed := fun _ _ ended => absurd ended (by simpa using unsent)
      exited := fun g member => holds.exited g (by simpa using member) }
    obtain ⟨⟨events,delivered⟩,wrote⟩ := holds.open_ trivial unsent kept
    refine ⟨⟨events ++ [event],?_⟩,?_⟩
    · show i.delivered ++ _ = _
      rw [delivered,List.map_append]
      rfl
    · show i.delivered ++ [.Event event] ++ rest = i.wrote
      rw [← wrote,List.append_assoc]
      rfl

theorem Sound.wrote (holds : Sound s i listed rest) (lives : ∃ g, i.process = some g ∧ s.alive g = true)
    (items : List (WorkerStreamItem Value)) :
    Sound s { i with wrote := i.wrote ++ items } listed (rest ++ items) := by
  obtain ⟨g,isProcess,alive⟩ := lives
  have started : i.phase ≠ .New := by
    intro isNew
    rw [(holds.fresh isNew).1] at isProcess
    cases isProcess
  refine {
    fresh := fun isNew => absurd isNew started
    refused := holds.refused
    unwatched := holds.unwatched
    connected := holds.connected
    silent := fun none => absurd (none.symm.trans isProcess) nofun
    bound := holds.bound
    running := holds.running
    open_ := fun isListed unsent kept => ?_
    closed := fun began accepted ended kept => ?_
    exited := holds.exited }
  · obtain ⟨events,wrote⟩ := holds.open_ isListed unsent kept
    refine ⟨events,?_⟩
    show i.delivered ++ (rest ++ items) = i.wrote ++ items
    rw [← wrote,List.append_assoc]
  · obtain ⟨events,outcome,closed⟩ := holds.closed began accepted ended kept
    refine ⟨events,outcome,closed.delivered,closed.written.trans (List.prefix_append ..),?_,?_⟩
    · exact fun fromWorker => (closed.worker fromWorker).trans (List.prefix_append ..)
    · rintro h rfl
      have exited : .Result (.Exited h) ∈ i.delivered := by
        rw [closed.delivered]
        simp
      obtain ⟨own,dead⟩ := holds.exited h exited
      obtain rfl := Option.some.inj (own.symm.trans isProcess)
      rw [alive] at dead
      cases dead

theorem Sound.unlisted (holds : Sound s i listed rest) (absent : ¬ listed) (spawned : s.spawned ≤ t.spawned)
    (alive : t.alive = s.alive) (later : List (WorkerStreamItem Value)) : Sound t i False later where
  fresh isNew := ⟨(holds.fresh isNew).1,not_false⟩
  refused _ := not_false
  unwatched := holds.unwatched
  connected := holds.connected
  silent := holds.silent
  bound g isProcess := Nat.lt_of_lt_of_le (holds.bound g isProcess) spawned
  running := nofun
  open_ := nofun
  closed began accepted _ kept := holds.closed began accepted (.inl absent) kept
  exited := alive ▸ holds.exited

/-! ## Steps of one invocation -/

structure Rest (s : System Value) (id : Nat) : Prop where
  readers : ∀ g, g < s.spawned → s.reader g = false → s.alive g = false
  slot : ∀ g, s.process = some g → g < s.spawned
  own : ∀ other g line, other ≠ id → line ∈ s.stdout g → line.id = some other → (s.invocations other).process = some g
  others : ∀ other, other ≠ id → Sound s (s.invocations other) (other ∈ s.pending) (unread s other)

theorem Inv.without (inv : Inv s) (id : Nat) : Rest s id where
  readers := inv.readers
  slot := inv.slot
  own other g line _ := inv.own other g line
  others other _ := inv.each other

def waiting (s : System Value) (id : Nat) (i : Invocation Value) : List (WorkerStreamItem Value) :=
  i.process.elim [] fun g => (s.stdout g).filterMap (Line.item id)

theorem change_self (f : Invocation Value → Invocation Value) : (s.change id f).invocations id = f (s.invocations id) :=
  Function.update_self ..
theorem change_other (f : Invocation Value → Invocation Value) (differs : other ≠ id) :
    (s.change id f).invocations other = s.invocations other :=
  Function.update_of_ne differs ..

variable {f : Invocation Value → Invocation Value}

theorem Rest.update (rest : Rest s id) {pending : List Nat} (listed : ∀ other, other ≠ id → (other ∈ pending ↔ other ∈ s.pending))
    (lines : ∀ g line, line ∈ s.stdout g → line.id = some id → (f (s.invocations id)).process = some g)
    (sound : Sound s (f (s.invocations id)) (id ∈ pending) (waiting s id (f (s.invocations id)))) :
    Inv { s.change id f with pending := pending } where
  readers := rest.readers
  slot := rest.slot
  own other g line member isLine := by
    show ((s.change id f).invocations other).process = some g
    by_cases same : other = id
    · subst same
      rw [change_self]
      exact lines g line member isLine
    · rw [change_other f same]
      exact rest.own other g line same member isLine
  each other := by
    suffices holds : Sound s ((s.change id f).invocations other) (other ∈ pending)
        (waiting s other ((s.change id f).invocations other)) from
      holds.grows ⟨Nat.le_refl _,fun _ _ reads => reads,fun _ _ dead => dead⟩
    by_cases same : other = id
    · subst same
      rw [change_self]
      exact sound
    · rw [change_other f same,listed other same]
      exact rest.others other same

theorem Inv.change (inv : Inv s) (process : (f (s.invocations id)).process = (s.invocations id).process)
    (sound : Sound s (f (s.invocations id)) (id ∈ s.pending) (unread s id)) : Inv (s.change id f) := by
  apply (inv.without id).update (fun _ _ => Iff.rfl)
  · intro g line member isLine
    exact process.trans (inv.own id g line member isLine)
  · rw [waiting,process]
    exact sound
theorem Inv.leaves (inv : Inv s) (process : (f (s.invocations id)).process = (s.invocations id).process)
    (sound : Sound s (f (s.invocations id)) False (unread s id)) : Inv ((s.change id f).forget id) := by
  show Inv { s.change id f with pending := s.pending.filter (· ≠ id) }
  apply (inv.without id).update
  · intro other differs
    simp [differs]
  · intro g line member isLine
    exact process.trans (inv.own id g line member isLine)
  · rw [waiting,process,show (id ∈ s.pending.filter (· ≠ id)) = False by simp]
    exact sound

theorem Inv.register (inv : Inv s) (isNew : (s.invocations id).phase = .New) : Inv (register s id) := by
  obtain ⟨blank,_⟩ := (inv.each id).fresh isNew
  show Inv { s.change id (fun i => { i with phase := .Registered }) with pending := s.pending ++ [id] }
  apply (inv.without id).update
  · intro other differs
    simp [differs]
  · intro g line member isLine
    exact inv.own id g line member isLine
  · rw [blank]
    exact {
      fresh := nofun
      refused := nofun
      unwatched := fun _ => ⟨rfl,rfl⟩
      connected := nofun
      silent := fun _ => rfl
      bound := nofun
      running := nofun
      open_ := fun _ _ _ => ⟨⟨[],rfl⟩,rfl⟩
      closed := fun _ _ ended => absurd ended (by simp)
      exited := nofun }

structure Given (s t : System Value) (g : Nat) : Prop where
  grows : Grows s t
  readers : ∀ g, g < t.spawned → t.reader g = false → t.alive g = false
  slot : ∀ g, t.process = some g → g < t.spawned
  invocations : t.invocations = s.invocations
  pending : t.pending = s.pending
  stdout : t.stdout = s.stdout
  bound : g < t.spawned
  reads : t.reader g = true

theorem spawn_given (inv : Inv s) : Given s (spawn s) s.spawned where
  grows := by
    refine ⟨Nat.le_succ _,?_,?_⟩
    · intro g less reads
      exact (Function.update_of_ne (Nat.ne_of_lt less) ..).trans reads
    · intro g less dead
      exact (Function.update_of_ne (Nat.ne_of_lt less) ..).trans dead
  readers g less := by
    show Function.update s.reader s.spawned true g = false → Function.update s.alive s.spawned true g = false
    by_cases same : g = s.spawned
    · subst same
      rw [Function.update_self]
      nofun
    · rw [Function.update_of_ne same,Function.update_of_ne same]
      exact inv.readers g (Nat.lt_of_le_of_ne (Nat.le_of_lt_succ less) same)
  slot g isSlot := by
    obtain rfl : s.spawned = g := Option.some.inj isSlot
    exact Nat.lt_succ_self _
  invocations := rfl
  pending := rfl
  stdout := rfl
  bound := Nat.lt_succ_self _
  reads := Function.update_self ..

theorem stdin_given (inv : Inv s) : Given s (stdin s).1 (stdin s).2 := by
  unfold stdin
  split
  · rename_i g isSlot
    split_ifs with alive
    · refine ⟨⟨Nat.le_refl _,fun _ _ reads => reads,fun _ _ dead => dead⟩,inv.readers,inv.slot,rfl,rfl,rfl,inv.slot g isSlot,?_⟩
      -- the reader of a process that lives is at work
      cases reads : s.reader g with
      | true => rfl
      | false => exact absurd (inv.readers g (inv.slot g isSlot) reads) (by simp [alive])
    · exact spawn_given inv
  · exact spawn_given inv

variable {line : Line Value}

theorem Inv.no_lines (inv : Inv s) (free : (s.invocations id).process = none) (member : line ∈ s.stdout g) : line.item id = none := by
  cases isItem : line.item id with
  | none => rfl
  | some item =>
    have isLine : line.id = some id := by
      cases line <;> simp_all [Line.item,Line.id]
    exact absurd ((inv.own id g line member isLine).symm.trans free) nofun

theorem Inv.connect (inv : Inv s) (waits : (s.invocations id).phase = .Registered) (free : (s.invocations id).process = none) :
    Inv (connect s id) := by
  have given := stdin_given inv
  have without : Rest (stdin s).1 id := {
    readers := given.readers
    slot := given.slot
    own := fun other g line _ member isLine => by
      rw [given.invocations]
      rw [given.stdout] at member
      exact inv.own other g line member isLine
    others := fun other _ => by
      rw [given.pending,unread,given.invocations,given.stdout]
      exact (inv.each other).grows given.grows }
  show Inv { (stdin s).1.change id (fun i => { i with process := some (stdin s).2 }) with pending := (stdin s).1.pending }
  refine without.update (fun _ _ => Iff.rfl) ?_ ?_
  · intro g line member isLine
    rw [given.stdout] at member
    exact absurd ((inv.own id g line member isLine).symm.trans free) nofun
  · rw [given.invocations,given.pending,waiting,given.stdout]
    have holds := (inv.each id).grows given.grows
    have nothing : (s.stdout (stdin s).2).filterMap (Line.item id) = [] :=
      List.filterMap_eq_nil_iff.mpr fun line member => inv.no_lines free member
    have before : unread s id = [] := by rw [unread,free]; rfl
    rw [before] at holds
    refine {
      fresh := fun isNew => absurd (waits.symm.trans isNew) nofun
      refused := holds.refused
      unwatched := holds.unwatched
      connected := nofun
      silent := nofun
      bound := fun g isProcess => Option.some.inj isProcess ▸ given.bound
      running := fun _ g isProcess => Option.some.inj isProcess ▸ given.reads
      open_ := fun isListed unsent kept => ?_
      closed := fun began accepted ended kept => ?_
      exited := fun g member => absurd ((holds.exited g member).1.symm.trans free) nofun }
    · show _ ∧ _ ++ (s.stdout (stdin s).2).filterMap (Line.item id) = _
      rw [nothing]
      exact holds.open_ isListed unsent kept
    · obtain ⟨events,outcome,closed⟩ := holds.closed began accepted ended kept
      exact ⟨events,outcome,closed.delivered,closed.written,closed.worker,closed.all⟩

theorem Inv.accept (inv : Inv s) (waits : (s.invocations id).phase = .Registered) (given : (s.invocations id).process ≠ none) :
    Inv (s.change id fun i => { i with phase := .Accepted, watcher := .Watching }) := by
  have holds := inv.each id
  have idle := (holds.unwatched (by simp [waits])).1
  refine inv.change rfl {
    fresh := nofun
    refused := nofun
    unwatched := fun other => absurd rfl other
    connected := fun _ => given
    silent := holds.silent
    bound := holds.bound
    running := holds.running
    open_ := fun isListed _ kept => holds.open_ isListed (by simp [idle]) kept
    closed := fun _ _ ended kept => ?_
    exited := holds.exited }
  obtain ⟨events,outcome,closed⟩ := holds.closed (by simp [waits]) (by simp [waits]) (ended.imp_right nofun) kept
  exact ⟨events,outcome,closed.delivered,closed.written,closed.worker,closed.all⟩

theorem Inv.cleanup (inv : Inv s) (waits : (s.invocations id).phase = .Registered) : Inv (cleanup s id) := by
  have holds := inv.each id
  exact inv.leaves rfl {
    fresh := nofun
    refused := fun _ => not_false
    unwatched := fun _ => holds.unwatched (by simp [waits])
    connected := nofun
    silent := holds.silent
    bound := holds.bound
    running := nofun
    open_ := nofun
    closed := fun _ accepted => absurd rfl accepted
    exited := holds.exited }

theorem Sound.gone (holds : Sound s i listed rest) (accepted : i.phase = .Accepted) (watcher : Watcher) :
    Sound s { i with dropped := true, watcher := watcher } listed rest where
  fresh isNew := absurd (accepted.symm.trans isNew) nofun
  refused := holds.refused
  unwatched other := absurd accepted other
  connected := holds.connected
  silent := holds.silent
  bound := holds.bound
  running := holds.running
  open_ _ _ := nofun
  closed _ _ _ := nofun
  exited := holds.exited

theorem Sound.watched (holds : Sound s i listed rest) (watches : i.watcher ≠ .Idle) : i.phase = .Accepted := by
  by_contra other
  exact watches (holds.unwatched other).1

theorem Inv.cancel (inv : Inv s) (watches : (s.invocations id).watcher = .Watching)
    (allowed : id ∈ s.pending ∨ (s.invocations id).dropped = true) :
    Inv (s.change id fun i => { deliver (.Result .Cancelled) i with watcher := .Sent }) := by
  have holds := inv.each id
  have accepted := holds.watched (by simp [watches])
  cases kept : (s.invocations id).dropped with
  | true =>
    refine inv.change ?_ ?_ <;> rw [deliver_dropped _ kept]
    have gone := holds.gone accepted .Sent
    rw [show ({ s.invocations id with dropped := true, watcher := .Sent } : Invocation Value) =
      { s.invocations id with watcher := .Sent } by rw [← kept]] at gone
    exact gone
  | false =>
    have isListed : id ∈ s.pending := by simpa [kept] using allowed
    have ends : Ends s (s.invocations id) (unread s id) .Cancelled := ⟨nofun,nofun⟩
    have listed : (id ∈ s.pending) = True := eq_true isListed
    refine inv.change ?_ ?_ <;> rw [deliver_kept _ kept]
    rw [listed] at holds ⊢
    obtain ⟨events,closed⟩ := holds.closes (by simp [watches]) kept ends
    exact {
      fresh := fun isNew => absurd (accepted.symm.trans isNew) nofun
      refused := holds.refused
      unwatched := fun other => absurd accepted other
      connected := holds.connected
      silent := holds.silent
      bound := holds.bound
      running := holds.running
      open_ := fun _ unsent => absurd rfl unsent
      closed := fun _ _ _ _ => ⟨events,.Cancelled,closed.delivered,closed.written,closed.worker,closed.all⟩
      exited := holds.exits ends }

theorem Inv.remove (inv : Inv s) (sent : (s.invocations id).watcher = .Sent) :
    Inv ((s.change id fun i => { i with watcher := .Done }).forget id) := by
  have holds := inv.each id
  have accepted := holds.watched (by simp [sent])
  refine inv.leaves rfl {
    fresh := fun isNew => absurd (accepted.symm.trans isNew) nofun
    refused := fun _ => not_false
    unwatched := fun other => absurd accepted other
    connected := holds.connected
    silent := holds.silent
    bound := holds.bound
    running := nofun
    open_ := nofun
    closed := fun began refused _ kept => ?_
    exited := holds.exited }
  obtain ⟨events,outcome,closed⟩ := holds.closed began refused (.inr sent) kept
  exact ⟨events,outcome,closed.delivered,closed.written,closed.worker,closed.all⟩

theorem item_none (differs : line.id ≠ some other) : line.item other = none := by
  cases line with
  | Result own _ _ | Event own _ =>
    rw [Line.item,if_neg]
    rintro rfl
    exact differs rfl
  | Other | Broken => rfl

theorem item_event (id : Nat) (event : Value) : (Line.Event id event).item id = some (.Event event) := if_pos rfl
theorem item_result (id : Nat) (result : Value) (error : Option String) :
    (Line.Result id result error).item id = some (.Result (outcomeOf result error)) := if_pos rfl

theorem Inv.lines (inv : Inv s) {lines : List (Line Value)}
    (same : ∀ other, other ≠ id → lines.filterMap (Line.item other) = (s.stdout g).filterMap (Line.item other))
    (known : ∀ line ∈ lines, ∀ other, other ≠ id → line.id = some other → line ∈ s.stdout g) :
    Rest { s with stdout := Function.update s.stdout g lines } id where
  readers := inv.readers
  slot := inv.slot
  own other h line differs member isLine := by
    apply inv.own other h line ?_ isLine
    change line ∈ Function.update s.stdout g lines h at member
    by_cases isProcess : h = g
    · subst isProcess
      rw [Function.update_self] at member
      exact known line member other differs isLine
    · rwa [Function.update_of_ne isProcess] at member
  others other differs := by
    have unchanged : unread { s with stdout := Function.update s.stdout g lines } other = unread s other := by
      show (s.invocations other).process.elim _ _ = (s.invocations other).process.elim _ _
      cases (s.invocations other).process with
      | none => rfl
      | some h =>
        show (Function.update s.stdout g lines h).filterMap _ = (s.stdout h).filterMap _
        by_cases isProcess : h = g
        · subst isProcess
          rw [Function.update_self,same other differs]
        · rw [Function.update_of_ne isProcess]
    rw [unchanged]
    exact (inv.each other).grows ⟨Nat.le_refl _,fun _ _ reads => reads,fun _ _ dead => dead⟩

theorem Inv.of_rest (rest : ∀ id, Rest s id) : Inv s where
  readers := (rest 0).readers
  slot := (rest 0).slot
  own id g line := (rest (id + 1)).own id g line (Nat.ne_of_lt (Nat.lt_succ_self id))
  each id := (rest (id + 1)).others id (Nat.ne_of_lt (Nat.lt_succ_self id))

theorem Inv.append (inv : Inv s) (named : ∀ other, line.id = some other → other = id) : Rest (appendLine s g line) id := by
  apply inv.lines
  · intro other differs
    rw [List.filterMap_append,List.filterMap_cons_none (item_none fun isLine => differs (named other isLine))]
    simp
  · intro entry member other differs isLine
    rcases List.mem_append.mp member with before | last
    · exact before
    · rw [List.mem_singleton.mp last] at isLine
      exact absurd (named other isLine) differs

theorem Inv.write (inv : Inv s) (isLine : line.id = some id) (alive : s.alive g = true)
    (isProcess : (s.invocations id).process = some g) : Inv ((appendLine s g line).change id (note line id)) := by
  have without : Rest (appendLine s g line) id := inv.append fun other isOther => Option.some.inj (isOther.symm.trans isLine)
  have lines : (appendLine s g line).stdout g = s.stdout g ++ [line] := Function.update_self ..
  refine without.update (fun _ _ => Iff.rfl) ?_ ?_
  · intro h entry member isEntry
    show (s.invocations id).process = some h
    by_cases same : h = g
    · rw [same,isProcess]
    · rw [show (appendLine s g line).stdout h = s.stdout h from Function.update_of_ne same ..] at member
      exact inv.own id h entry member isEntry
  · have rest : waiting (appendLine s g line) id (note line id (s.invocations id)) = unread s id ++ (line.item id).toList := by
      show (s.invocations id).process.elim _ _ = (s.invocations id).process.elim _ _ ++ _
      rw [isProcess]
      show ((appendLine s g line).stdout g).filterMap _ = (s.stdout g).filterMap _ ++ _
      rw [lines,List.filterMap_append]
      cases isItem : line.item id <;> simp [isItem]
    rw [show (appendLine s g line).invocations id = s.invocations id from rfl,rest]
    exact ((inv.each id).wrote ⟨g,isProcess,alive⟩ _).grows ⟨Nat.le_refl _,fun _ _ reads => reads,fun _ _ dead => dead⟩

theorem Inv.next (inv : Inv s) {line : Line Value} {lines : List (Line Value)} (isNext : s.stdout g = line :: lines)
    (named : ∀ other, line.id = some other → other = id) : Rest { s with stdout := Function.update s.stdout g lines } id := by
  apply inv.lines
  · intro other differs
    rw [isNext,List.filterMap_cons_none (item_none fun isLine => differs (named other isLine))]
  · intro entry member other _ _
    rw [isNext]
    exact List.mem_cons_of_mem _ member

theorem Inv.unread_next (inv : Inv s) {lines : List (Line Value)} (isNext : s.stdout g = line :: lines)
    (isLine : line.id = some id) {item : WorkerStreamItem Value} (isItem : line.item id = some item) :
    unread s id = item :: unread { s with stdout := Function.update s.stdout g lines } id := by
  have isProcess : (s.invocations id).process = some g := inv.own id g line (by simp [isNext]) isLine
  show (s.invocations id).process.elim _ _ = _ :: (s.invocations id).process.elim _ _
  rw [isProcess]
  show (s.stdout g).filterMap _ = item :: (Function.update s.stdout g lines g).filterMap _
  rw [isNext,Function.update_self,List.filterMap_cons_some isItem]

theorem deliver_process (item : WorkerStreamItem Value) : (deliver item i).process = i.process := by
  unfold deliver
  split_ifs <;> rfl

theorem Inv.handle (inv : Inv s) {lines : List (Line Value)} (isNext : s.stdout g = line :: lines)
    (isLine : line.id = some id) (unsent : id ∈ s.pending → (s.invocations id).watcher ≠ .Sent) :
    Inv (handleLine { s with stdout := Function.update s.stdout g lines } line) := by
  have without : Rest { s with stdout := Function.update s.stdout g lines } id :=
    inv.next isNext fun other isOther => Option.some.inj (isOther.symm.trans isLine)
  have subset : ∀ h entry, entry ∈ Function.update s.stdout g lines h → entry ∈ s.stdout h := by
    intro h entry member
    by_cases same : h = g
    · subst same
      rw [Function.update_self] at member
      rw [isNext]
      exact List.mem_cons_of_mem _ member
    · rwa [Function.update_of_ne same] at member
  have own : ∀ item h entry, entry ∈ Function.update s.stdout g lines h → entry.id = some id →
      (deliver item (s.invocations id)).process = some h := by
    intro item h entry member isEntry
    rw [deliver_process]
    exact inv.own id h entry (subset h entry member) isEntry
  have holds := inv.each id
  -- an invocation that is not in the map
  have absent : id ∉ s.pending → Inv { s with stdout := Function.update s.stdout g lines } := by
    intro out
    refine ⟨inv.readers,inv.slot,fun other h entry member => inv.own other h entry (subset h entry member),fun other => ?_⟩
    by_cases same : other = id
    · subst same
      rw [show (other ∈ s.pending) = False from eq_false out]
      apply holds.unlisted out
      · exact Nat.le_refl _
      · rfl
    · exact without.others other same
  cases line with
  | Other | Broken => cases isLine
  | Event own_ event =>
    obtain rfl : own_ = id := Option.some.inj isLine
    rw [handleLine]
    split_ifs with listed
    · have rest := inv.unread_next isNext rfl (item_event own_ event)
      rw [rest,show (own_ ∈ s.pending) = True from eq_true listed] at holds
      refine without.update (fun _ _ => Iff.rfl) (own _) ?_
      rw [waiting,deliver_process,show (own_ ∈ s.pending) = True from eq_true listed]
      exact (holds.event (unsent listed)).grows ⟨Nat.le_refl _,fun _ _ reads => reads,fun _ _ dead => dead⟩
    · exact absent listed
  | Result own_ result error =>
    obtain rfl : own_ = id := Option.some.inj isLine
    rw [handleLine]
    split_ifs with listed
    · have rest := inv.unread_next isNext rfl (item_result own_ result error)
      rw [rest,show (own_ ∈ s.pending) = True from eq_true listed] at holds
      show Inv { System.change { s with stdout := Function.update s.stdout g lines } own_
        (deliver (.Result (outcomeOf result error))) with pending := s.pending.filter (· ≠ own_) }
      refine without.update ?_ (own _) ?_
      · intro other differs
        simp [differs]
      · rw [show (own_ ∈ s.pending.filter (· ≠ own_)) = False by simp]
        refine (holds.result (unsent listed) ⟨?_,?_⟩ _).grows ⟨Nat.le_refl _,fun _ _ reads => reads,fun _ _ dead => dead⟩
        · intro _
          exact ⟨_,rfl⟩
        · intro h isExit
          cases error <;> cases isExit
    · exact absent listed

theorem Inv.failed (inv : Inv s) (outcome : Outcome Value) {reader : Nat → Bool}
    (readers : ∀ g, g < s.spawned → reader g = false → s.alive g = false)
    (ends : ∀ id ∈ s.pending, (s.invocations id).watcher ≠ .Sent ∧ Ends s (s.invocations id) (unread s id) outcome) :
    Inv (fail_pending { s with reader := reader } outcome) := by
  have process : ∀ id, ((fail_pending { s with reader := reader } outcome).invocations id).process = (s.invocations id).process := by
    intro id
    show (if id ∈ s.pending then _ else _ : Invocation Value).process = _
    split_ifs
    · exact deliver_process _
    · rfl
  refine ⟨readers,inv.slot,fun id g line member isLine => (process id).trans (inv.own id g line member isLine),fun id => ?_⟩
  have holds := inv.each id
  show Sound _ (if id ∈ s.pending then _ else _) (id ∈ []) _
  rw [show (id ∈ ([] : List Nat)) = False by simp]
  split_ifs with listed
  · rw [show (id ∈ s.pending) = True from eq_true listed] at holds
    obtain ⟨unsent,ending⟩ := ends id listed
    apply (holds.result unsent ending []).unlisted not_false
    · exact Nat.le_refl _
    · rfl
  · apply holds.unlisted listed
    · exact Nat.le_refl _
    · rfl

theorem Inv.exits (inv : Inv s) (slot : Option Nat) (known : ∀ h, slot = some h → h < s.spawned) :
    Inv { s with process := slot, alive := Function.update s.alive g false } where
  readers h less reads := by
    show Function.update s.alive g false h = false
    by_cases same : h = g
    · rw [same,Function.update_self]
    · rw [Function.update_of_ne same]
      exact inv.readers h less reads
  slot := known
  own := inv.own
  each id := by
    refine (inv.each id).grows ⟨Nat.le_refl _,fun _ _ reads => reads,?_⟩
    intro h _ dead
    show Function.update s.alive g false h = false
    by_cases same : h = g
    · rw [same,Function.update_self]
    · rw [Function.update_of_ne same,dead]

theorem Inv.finish (inv : Inv s) (empty : s.stdout g = []) (dead : s.alive g = false)
    (allowed : ∀ id ∈ s.pending, (s.invocations id).watcher ≠ .Sent ∧ (s.invocations id).process = some g) :
    Inv (finish s g) := by
  refine inv.failed _ ?_ ?_
  · intro h less reads
    by_cases same : h = g
    · rw [same,dead]
    · rw [Function.update_of_ne same] at reads
      exact inv.readers h less reads
  · intro id listed
    obtain ⟨unsent,isProcess⟩ := allowed id listed
    refine ⟨unsent,nofun,fun h isExit => ?_⟩
    obtain rfl : g = h := Outcome.Exited.inj isExit
    refine ⟨?_,isProcess,dead⟩
    rw [unread,isProcess]
    show (s.stdout g).filterMap _ = []
    rw [empty]
    rfl

theorem Inv.step (inv : Inv s) {action : Action Value} (allowed : Allowed s action) : Inv (step s action) := by
  cases action with
  | register id =>
    rw [PluginWorker.step]
    split_ifs with isNew
    · exact inv.register isNew
    · exact inv
  | connect id =>
    rw [PluginWorker.step]
    split_ifs with ready
    · exact inv.connect ready.1 ready.2
    · exact inv
  | accept id =>
    rw [PluginWorker.step]
    split_ifs with ready
    · exact inv.accept ready.1 ready.2
    · exact inv
  | refuse id =>
    rw [PluginWorker.step]
    split_ifs with waits
    · exact inv.cleanup waits
    · exact inv
  | write g line =>
    rw [PluginWorker.step]
    split
    · rename_i id isLine
      split_ifs with ready
      · exact inv.write isLine ready.1 ready.2
      · exact inv
    · rename_i isLine
      split_ifs with alive
      · exact Inv.of_rest fun id => inv.append fun other isOther => absurd (isOther.symm.trans isLine) nofun
      · exact inv
  | exit g => exact inv.exits s.process inv.slot
  | read g =>
    rw [PluginWorker.step]
    split_ifs with reads
    · split
      · rename_i rest isNext
        exact absurd (show Line.Broken ∈ (s.stdout g).head? by rw [isNext]; rfl) allowed.1
      · rename_i line rest text isNext
        cases isLine : line.id with
        | none =>
          have unchanged : handleLine { s with stdout := Function.update s.stdout g rest } line =
              { s with stdout := Function.update s.stdout g rest } := by
            cases line with
            | Event own event => cases isLine
            | Result own result error => cases isLine
            | Other | Broken => rfl
          rw [unchanged]
          exact Inv.of_rest fun id => inv.next isNext fun other isOther => absurd (isOther.symm.trans isLine) nofun
        | some id =>
          refine inv.handle isNext isLine fun listed => allowed.2 id listed ?_
          rw [isNext]
          exact isLine
      · exact inv
    · exact inv
  | finish g =>
    rw [PluginWorker.step]
    split_ifs with ready
    · exact inv.finish ready.2.1 ready.2.2 allowed
    · exact inv
  | cancel id =>
    rw [PluginWorker.step]
    split_ifs with watches
    · exact inv.cancel watches allowed
    · exact inv
  | remove id =>
    rw [PluginWorker.step]
    split_ifs with sent
    · exact inv.remove sent
    · exact inv
  | drop id =>
    rw [PluginWorker.step]
    split_ifs with accepted
    · exact inv.change rfl ((inv.each id).gone accepted _)
    · exact inv
  | close id =>
    rw [PluginWorker.step]
    split_ifs with ready
    · have gone := (inv.each id).gone ((inv.each id).watched (by simp [ready.1])) .Done
      rw [show ({ s.invocations id with dropped := true, watcher := .Done } : Invocation Value) =
        { s.invocations id with watcher := .Done } by rw [← ready.2]] at gone
      exact inv.change rfl gone
    · exact inv
  | kill =>
    rw [PluginWorker.step]
    split
    · exact inv.exits none nofun
    · exact inv
  | stopped => exact inv.failed .Stopped inv.readers fun id listed => ⟨allowed id listed,nofun,nofun⟩

theorem Inv.start : Inv ({} : System Value) where
  readers := nofun
  slot := nofun
  own := nofun
  each _ := {
    fresh := fun _ => ⟨rfl,List.not_mem_nil⟩
    refused := nofun
    unwatched := fun _ => ⟨rfl,rfl⟩
    connected := nofun
    silent := fun _ => rfl
    bound := nofun
    running := nofun
    open_ := nofun
    closed := fun began => absurd rfl began
    exited := nofun }

theorem Inv.conforms (inv : Inv s) (accepted : (s.invocations id).phase = .Accepted) : Conforms s id where
  open_ listed unsent kept := by
    have holds := inv.each id
    obtain ⟨events,wrote⟩ := holds.open_ listed unsent kept
    obtain ⟨g,isProcess⟩ := Option.ne_none_iff_exists'.mp (holds.connected accepted)
    exact ⟨events,wrote,g,isProcess,holds.running listed g isProcess⟩
  closed ended kept := (inv.each id).closed (by simp [accepted]) (by simp [accepted]) ended kept
  exited := (inv.each id).exited

end Steps

/-- In a run whose steps are allowed, every receiver gets the events of its process
    and one result. -/
theorem invocations_conform (actions : List (Action Value)) (meets : Meets step Allowed {} actions) (id : Nat)
    (accepted : ((after step {} actions).invocations id).phase = .Accepted) : Conforms (after step {} actions) id :=
  (meets.invariant Inv.start fun _ _ inv allowed => inv.step allowed).conforms accepted

/-- The reader of process 0 comes to its end after process 1 was given a request. -/
def lateReader : List (Action Nat) :=
  [.register 0,.connect 0,.accept 0,.exit 0,.register 1,.connect 1,.accept 1,.finish 0]
def lateCancellation : List (Action Nat) :=
  [.register 0,.connect 0,.accept 0,.write 0 (.Event 0 5),.write 0 (.Result 0 7 none),.read 0,.read 0,.cancel 0]

theorem late_reader_fails : ((after step {} lateReader).invocations 1).phase = .Accepted ∧
      ((after step {} lateReader).invocations 1).process = some 1 ∧
      ((after step {} lateReader).invocations 1).delivered = [.Result (.Exited 0)] ∧
      ¬ Conforms (after step {} lateReader) 1 ∧
      ((after step {} lateCancellation).invocations 0).delivered = [.Event 5,.Result (.Returned 7),.Result .Cancelled] ∧
      ¬ Conforms (after step {} lateCancellation) 0 := by
  have process : ((after step {} lateReader).invocations 1).process = some 1 := by decide
  have failed : ((after step {} lateReader).invocations 1).delivered = [.Result (.Exited 0)] := by decide
  have twice : ((after step {} lateCancellation).invocations 0).delivered =
      [.Event 5,.Result (.Returned 7),.Result .Cancelled] := by decide
  refine ⟨by decide,process,failed,?_,twice,?_⟩
  · intro conforms
    have own := (conforms.exited 0 (by simp [failed])).1
    rw [process] at own
    cases own
  · intro conforms
    obtain ⟨events,outcome,closed⟩ := conforms.closed (.inl (by decide)) (by decide)
    have delivered := closed.delivered
    rw [twice] at delivered
    rcases events with _ | ⟨first,_ | ⟨second,_ | ⟨third,rest⟩⟩⟩ <;> simp at delivered

theorem invocations_conform_restart :
    Conforms (after step {} [.register 0,.connect 0,.accept 0,.write 0 (.Event 0 5),.exit 0,.read 0,.finish 0,
      .register 1,.connect 1,.accept 1,.cancel 1,.remove 1,.write 1 (.Result 1 7 none),.read 1]) 1 :=
  @invocations_conform Nat _ (by decide) 1 (by decide)

end MyCursor.PluginWorker

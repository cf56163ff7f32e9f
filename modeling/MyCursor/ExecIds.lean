import MyCursor.Message
import MyCursor.Text
import MyCursor.Transitions

/-!
# Tool executions of a transport

`CursorToolRuntime` of `cursor/tools/runtime.rs` with the client's messages of
`cursor/tools/codec/response.rs`. Each run of a transport has a runtime of its
own; the counter of ids and the set of interrupted ids are shared. The actor
handles one client message after the other, in the runtime of the current run,
while the tasks of this run and of earlier ones reserve, interrupt and drain.
-/
namespace MyCursor.ExecIds
open Message Text

inductive ExecStage where
  | Direct
  | DynamicMcp
  | EditRead
  | EditWrite
deriving DecidableEq

structure PendingExec where
  call : ToolCall
  stage : ExecStage
  stdout : String := ""
  stderr : String := ""
deriving DecidableEq

structure Runtime where
  execs : List (Nat × PendingExec) := []
  interactions : List (Nat × ToolCall) := []
  completed : List (Nat × String) := []
deriving DecidableEq

/-- The messages of a client about an execution. A result of any tool but the
    shell says whether an edit can go on from it; a shell stream ends when the
    command exits, goes to the background, or is refused. -/
inductive ExecMessage where
  | Absent
  | Stdout (data : String)
  | Stderr (data : String)
  | Quiet
  | ShellEnd
  | Result (edits : Bool)
deriving DecidableEq

inductive Input where
  | ExecClientMessage (id : Nat) (message : ExecMessage)
  | StreamClose (id : Nat)
  | Throw (id : Nat)
  | InteractionResponse (id : Nat) (fails : Bool)
deriving DecidableEq
def Input.id : Input → Nat
  | .ExecClientMessage id _ | .StreamClose id | .Throw id | .InteractionResponse id _ => id

/-- How far the actor is with a message: it was found not to be interrupted, or
    its execution was found too. -/
inductive Handling where
  | Idle
  | Checked (input : Input)
  | Looked (id : Nat) (message : ExecMessage)
deriving DecidableEq
def Handling.id : Handling → Option Nat
  | .Idle => none
  | .Checked input => some input.id
  | .Looked id _ => some id

/-- The runtimes of the runs, and what was reserved, interrupted and completed
    so far. `collected` are the ids that an interruption in a run has collected
    and not yet marked. -/
structure System where
  next_id : Nat := 0
  interrupted : List Nat := []
  runs : Nat → Runtime := fun _ => {}
  collected : Nat → Option (List Nat) := fun _ => none
  generations : Nat := 0
  current : Option Nat := none
  handling : Handling := .Idle
  reserved : List Nat := []
  interruptions : List Nat := []
  completions : List Nat := []

def u32Max : Nat := 2 ^ 32 - 1
def keys {α : Type} (entries : List (Nat × α)) : List Nat := entries.map (·.1)
def remove {α : Type} (entries : List (Nat × α)) (id : Nat) : List (Nat × α) := entries.filter (·.1 ≠ id)
def insert {α : Type} (entries : List (Nat × α)) (id : Nat) (value : α) : List (Nat × α) := (id,value) :: remove entries id
def find {α : Type} (entries : List (Nat × α)) (id : Nat) : Option α := (entries.find? (·.1 = id)).map (·.2)
def eq_ignore_ascii_case (a b : String) : Bool := to_ascii_lowercase a = to_ascii_lowercase b

def System.setRun (s : System) (run : Nat) (runtime : Runtime) : System :=
  { s with runs := Function.update s.runs run runtime }

def allocate_exec_id (s : System) : Option (Nat × System) :=
  if s.next_id < u32Max then
    some (s.next_id + 1,{ s with next_id := s.next_id + 1, reserved := (s.next_id + 1) :: s.reserved })
  else none
def reserve_exec_stage (s : System) (run : Nat) (call : ToolCall) (stage : ExecStage) : System :=
  match allocate_exec_id s with
  | none => s
  | some (id,s) => s.setRun run { s.runs run with execs := insert (s.runs run).execs id { call, stage } }
def reserve_interaction (s : System) (run : Nat) (call : ToolCall) : System :=
  match allocate_exec_id s with
  | none => s
  | some (id,s) => s.setRun run { s.runs run with interactions := insert (s.runs run).interactions id call }

def discard_exec (s : System) (run id : Nat) : System :=
  s.setRun run { s.runs run with execs := remove (s.runs run).execs id }
/-- The execution is taken from the running ones and noted as completed. -/
def take_exec (s : System) (run id : Nat) : Option (PendingExec × System) :=
  (find (s.runs run).execs id).map fun entry =>
    (entry,s.setRun run { s.runs run with
      execs := remove (s.runs run).execs id
      completed := insert (s.runs run).completed id entry.call.call_id })
def take_interaction (s : System) (run id : Nat) : Option (ToolCall × System) :=
  (find (s.runs run).interactions id).map fun call =>
    (call,s.setRun run { s.runs run with
      interactions := remove (s.runs run).interactions id
      completed := insert (s.runs run).completed id call.call_id })
def clear_completed (s : System) (run : Nat) : System := s.setRun run { s.runs run with completed := [] }

def drain_running (s : System) (run : Nat) : System := { s.setRun run {} with interrupted := [] }

def interrupt_for_run_replacement (s : System) (run : Nat) : System :=
  let ids := keys (s.runs run).execs ++ keys (s.runs run).interactions
  { s.setRun run {} with
    interrupted := s.interrupted ++ ids
    interruptions := s.interruptions ++ ids }

def keep_running (entry : PendingExec) : Bool := eq_ignore_ascii_case entry.call.name "Task"
/-- The first part of `interrupt_for_message`: the ids are collected, and all
    but the executions of tasks are removed. -/
def collect (s : System) (run : Nat) : System :=
  let ids := keys (s.runs run).execs ++ keys (s.runs run).interactions
  { s.setRun run { s.runs run with
      execs := (s.runs run).execs.filter fun (_,entry) => keep_running entry
      interactions := [] } with
    collected := Function.update s.collected run (some ids)
    interruptions := s.interruptions ++ ids }
/-- The second part: they are marked as interrupted. -/
def mark (s : System) (run : Nat) : System :=
  match s.collected run with
  | none => s
  | some ids => { s with interrupted := s.interrupted ++ ids, collected := Function.update s.collected run none }

/-! ## The messages of the client -/

def is_terminal : ExecMessage → Bool
  | .ShellEnd | .Result _ => true
  | .Absent | .Stdout _ | .Stderr _ | .Quiet => false

/-- Late messages of interrupted executions are dropped. -/
def dropInterrupted (s : System) (run : Nat) : Input → System
  | .ExecClientMessage id message => if is_terminal message then discard_exec s run id else s
  | .StreamClose id | .Throw id => discard_exec s run id
  | .InteractionResponse _ _ => s

def complete (s : System) (id : Nat) : System := { s with completions := id :: s.completions }
def idle (s : System) : System := { s with handling := .Idle }

def appendOutput (s : System) (run id : Nat) (append : PendingExec → PendingExec) : System :=
  s.setRun run { s.runs run with
    execs := (s.runs run).execs.map fun (other,entry) => (other,if other = id then append entry else entry) }

/-- The last part of `client_event`. An execution that has gone meanwhile is
    reported as an error. -/
def lookedEvent (s : System) (run id : Nat) : ExecMessage → System
  | .Absent | .Quiet => s
  | .Stdout data => appendOutput s run id fun entry => { entry with stdout := entry.stdout ++ data }
  | .Stderr data => appendOutput s run id fun entry => { entry with stderr := entry.stderr ++ data }
  | .ShellEnd =>
    match take_exec s run id with
    | none => s
    | some (_,s) => complete s id
  | .Result edits =>
    match take_exec s run id with
    | none => s
    | some (entry,s) =>
      if entry.stage = .EditRead ∧ edits then reserve_exec_stage s run entry.call .EditWrite else complete s id

/-- The actor goes on with the message that it handles. -/
def proceed (s : System) (run : Nat) : System :=
  match s.handling with
  | .Idle => s
  | .Checked (.ExecClientMessage id message) =>
    if (find (s.runs run).execs id).isSome then { s with handling := .Looked id message } else idle s
  | .Checked (.StreamClose id) | .Checked (.Throw id) =>
    match take_exec s run id with
    | none => idle s
    | some (_,s) => idle (complete s id)
  | .Checked (.InteractionResponse id fails) =>
    match take_interaction s run id with
    | none => idle s
    | some (_,s) => if fails then idle s else idle (complete s id)
  | .Looked id message => idle (lookedEvent s run id message)

def start_generation (s : System) : System :=
  let s := match s.current with
    | none => s
    | some run => interrupt_for_run_replacement s run
  { s with current := some s.generations, generations := s.generations + 1 }

inductive Action where
  | startGeneration
  | loadContext
  | reserveExec (run : Nat) (call : ToolCall) (stage : ExecStage)
  | reserveInteraction (run : Nat) (call : ToolCall)
  | receive (input : Input)
  | proceed
  | collect (run : Nat)
  | mark (run : Nat)
  | drainRunning (run : Nat)
  | clearCompleted (run : Nat)

def step (s : System) : Action → System
  | .startGeneration => if s.handling = .Idle then start_generation s else s
  | .loadContext => ((allocate_exec_id s).map (·.2)).getD s
  | .reserveExec run call stage => if run < s.generations then reserve_exec_stage s run call stage else s
  | .reserveInteraction run call => if run < s.generations then reserve_interaction s run call else s
  | .receive input =>
    match s.current with
    | none => s
    | some run =>
      if s.handling ≠ .Idle then s
      else if input.id ∈ s.interrupted then dropInterrupted s run input
      else { s with handling := .Checked input }
  | .proceed =>
    match s.current with
    | none => s
    | some run => proceed s run
  | .collect run => if run < s.generations ∧ s.collected run = none then collect s run else s
  | .mark run => mark s run
  | .drainRunning run => if run < s.generations then drain_running s run else s
  | .clearCompleted run => if run < s.generations then clear_completed s run else s

/-- An id is reserved once and yields at most one completion, and none if it was
    interrupted. -/
structure ExactlyOnce (s : System) : Prop where
  reserved : s.reserved.Nodup
  completed : s.completions.Nodup
  known : ∀ id ∈ s.completions, id ∈ s.reserved
  silent : ∀ id ∈ s.interruptions, id ∉ s.completions

/-- The condition on a step. The actor does not look at an execution of the
    current run while an interruption for a message goes over it, and the shared
    set is not drained for another run while the current one has executions that
    were interrupted. -/
def Calm (s : System) : Action → Prop
  | .receive input => ∀ run, s.current = some run → input.id ∉ (s.collected run).getD []
  | .collect run => s.current = some run → ∀ id, s.handling.id = some id →
      ∀ entry, (id,entry) ∈ (s.runs run).execs → keep_running entry = false
  | .drainRunning run => ∀ other, s.current = some other → run ≠ other → ∀ id ∈ keys (s.runs other).execs,
      id ∉ s.interrupted
  | _ => True

section Entries
variable {α : Type} {entries : List (Nat × α)} {id other : Nat}

theorem mem_keys : id ∈ keys entries ↔ ∃ value, (id,value) ∈ entries := by simp [keys]
@[simp] theorem mem_keys_remove : other ∈ keys (remove entries id) ↔ other ∈ keys entries ∧ other ≠ id := by
  simp [mem_keys,remove]
@[simp] theorem mem_keys_insert (value : α) : other ∈ keys (insert entries id value) ↔ other = id ∨ other ∈ keys entries := by
  by_cases same : other = id
  · simp [insert,keys,same]
  · have removed := @mem_keys_remove _ entries id other
    simp only [keys] at removed
    simp [insert,keys,same,removed]
theorem find_key {value : α} (found : find entries id = some value) : id ∈ keys entries := by
  obtain ⟨entry,isEntry,rfl⟩ := Option.map_eq_some_iff.mp found
  have same : entry.1 = id := by simpa using List.find?_some isEntry
  exact List.mem_map.mpr ⟨entry,List.mem_of_find?_eq_some isEntry,same⟩

end Entries

/-- The run has the id, as an execution or as a question to the user. -/
def Held (s : System) (run id : Nat) : Prop := id ∈ keys (s.runs run).execs ∨ id ∈ keys (s.runs run).interactions

/-- An id that is held is held in one place and has not been completed. -/
structure Books (s : System) : Prop where
  fresh : s.reserved.Nodup
  bounded : ∀ id ∈ s.reserved, id ≤ s.next_id
  known : ∀ run id, Held s run id → id ∈ s.reserved
  place : ∀ run other id, Held s run id → Held s other id → run = other
  apart : ∀ run id, id ∈ keys (s.runs run).execs → id ∉ keys (s.runs run).interactions
  running : ∀ run id, Held s run id → id ∉ s.completions
  once : s.completions.Nodup
  completed : ∀ id ∈ s.completions, id ∈ s.reserved
  interrupted : ∀ id ∈ s.interruptions, id ∈ s.reserved
  unborn : ∀ run id, s.generations ≤ run → ¬ Held s run id
  current : ∀ run, s.current = some run → run < s.generations

/-- An id that was interrupted is not completed. Where the current run still has
    its execution, it is marked or about to be, and the actor does not look at
    it. -/
structure Dead (s : System) : Prop where
  silent : ∀ id ∈ s.interruptions, id ∉ s.completions
  answered : ∀ id ∈ s.interruptions, ∀ run, id ∉ keys (s.runs run).interactions
  kept : ∀ run, s.current = some run → ∀ id ∈ s.interruptions, id ∈ keys (s.runs run).execs →
    id ∈ s.interrupted ∨ id ∈ (s.collected run).getD []
  handled : ∀ run, s.current = some run → ∀ id ∈ s.interruptions, s.handling.id = some id → id ∉ keys (s.runs run).execs

structure Inv (s : System) : Prop where
  books : Books s
  dead : Dead s

/-- Ids are only given up, and nothing else happens. -/
structure Keeps (s s' : System) : Prop where
  next_id : s'.next_id = s.next_id
  reserved : s'.reserved = s.reserved
  completions : s'.completions = s.completions
  interruptions : s'.interruptions = s.interruptions
  interrupted : s'.interrupted = s.interrupted
  collected : s'.collected = s.collected
  generations : s'.generations = s.generations
  current : s'.current = s.current
  handling : ∀ id, s'.handling.id = some id → s.handling.id = some id
  execs : ∀ run id, id ∈ keys (s'.runs run).execs → id ∈ keys (s.runs run).execs
  interactions : ∀ run id, id ∈ keys (s'.runs run).interactions → id ∈ keys (s.runs run).interactions

variable {s s' : System}

theorem Keeps.held (keeps : Keeps s s') {run id : Nat} (held : Held s' run id) : Held s run id :=
  held.imp (keeps.execs run id) (keeps.interactions run id)

theorem Keeps.trans {a b c : System} (first : Keeps a b) (second : Keeps b c) : Keeps a c where
  next_id := second.next_id.trans first.next_id
  reserved := second.reserved.trans first.reserved
  completions := second.completions.trans first.completions
  interruptions := second.interruptions.trans first.interruptions
  interrupted := second.interrupted.trans first.interrupted
  collected := second.collected.trans first.collected
  generations := second.generations.trans first.generations
  current := second.current.trans first.current
  handling id handled := first.handling id (second.handling id handled)
  execs run id isKey := first.execs run id (second.execs run id isKey)
  interactions run id isKey := first.interactions run id (second.interactions run id isKey)

theorem Books.shrinks (books : Books s) (next_id : s'.next_id = s.next_id)
    (reserved : s'.reserved = s.reserved) (completions : s'.completions = s.completions)
    (interruptions : ∀ id ∈ s'.interruptions, id ∈ s.interruptions ∨ ∃ run, Held s run id)
    (generations : s.generations ≤ s'.generations) (current : ∀ run, s'.current = some run → run < s'.generations)
    (execs : ∀ run id, id ∈ keys (s'.runs run).execs → id ∈ keys (s.runs run).execs)
    (interactions : ∀ run id, id ∈ keys (s'.runs run).interactions → id ∈ keys (s.runs run).interactions) : Books s' := by
  have held : ∀ {run id}, Held s' run id → Held s run id := fun held => held.imp (execs _ _) (interactions _ _)
  refine ⟨reserved ▸ books.fresh,?_,?_,?_,?_,?_,completions ▸ books.once,?_,?_,?_,current⟩
  · rw [reserved,next_id]
    exact books.bounded
  · rw [reserved]
    exact fun run id isHeld => books.known run id (held isHeld)
  · exact fun run other id one two => books.place run other id (held one) (held two)
  · exact fun run id isExec isInteraction => books.apart run id (execs run id isExec) (interactions run id isInteraction)
  · rw [completions]
    exact fun run id isHeld => books.running run id (held isHeld)
  · rw [completions,reserved]
    exact books.completed
  · rw [reserved]
    intro id isInterrupted
    rcases interruptions id isInterrupted with before | ⟨run,isHeld⟩
    · exact books.interrupted id before
    · exact books.known run id isHeld
  · exact fun run id unborn isHeld => books.unborn run id (generations.trans unborn) (held isHeld)

theorem Inv.keeps (inv : Inv s) (keeps : Keeps s s') : Inv s' where
  books := by
    refine inv.books.shrinks keeps.next_id keeps.reserved keeps.completions ?_ keeps.generations.ge ?_ keeps.execs
      keeps.interactions
    · exact fun id isInterrupted => .inl (keeps.interruptions ▸ isInterrupted)
    · rw [keeps.current,keeps.generations]
      exact inv.books.current
  dead := by
    refine ⟨?_,?_,?_,?_⟩
    · rw [keeps.interruptions,keeps.completions]
      exact inv.dead.silent
    · rw [keeps.interruptions]
      exact fun id isInterrupted run isKey => inv.dead.answered id isInterrupted run (keeps.interactions run id isKey)
    · rw [keeps.interruptions,keeps.interrupted,keeps.collected,keeps.current]
      exact fun run isCurrent id isInterrupted isKey =>
        inv.dead.kept run isCurrent id isInterrupted (keeps.execs run id isKey)
    · rw [keeps.interruptions,keeps.current]
      exact fun run isCurrent id isInterrupted isHandled isKey =>
        inv.dead.handled run isCurrent id isInterrupted (keeps.handling id isHandled) (keeps.execs run id isKey)

theorem Inv.complete (inv : Inv s) {id : Nat} (isReserved : id ∈ s.reserved) (free : ∀ run, ¬ Held s run id)
    (first : id ∉ s.completions) (alive : id ∉ s.interruptions) : Inv (complete s id) where
  books := by
    have books := inv.books
    refine ⟨books.fresh,books.bounded,books.known,books.place,books.apart,?_,?_,?_,books.interrupted,books.unborn,books.current⟩
    · intro run other isHeld
      have different : other ≠ id := fun same => free run (same ▸ isHeld)
      exact List.not_mem_cons_of_ne_of_not_mem different (books.running run other isHeld)
    · exact List.nodup_cons.mpr ⟨first,books.once⟩
    · intro other isCompleted
      rcases List.mem_cons.mp isCompleted with rfl | before
      · exact isReserved
      · exact books.completed other before
  dead := by
    refine ⟨?_,inv.dead.answered,inv.dead.kept,inv.dead.handled⟩
    intro other isInterrupted
    have different : other ≠ id := fun same => alive (same ▸ isInterrupted)
    exact List.not_mem_cons_of_ne_of_not_mem different (inv.dead.silent other isInterrupted)

variable {s : System} {run id : Nat}

@[simp] theorem setRun_self (runtime : Runtime) : (s.setRun run runtime).runs run = runtime := by simp [System.setRun]
theorem setRun_other (runtime : Runtime) {other : Nat} (different : other ≠ run) : (s.setRun run runtime).runs other = s.runs other := by
  simp [System.setRun,different]

theorem Keeps.setRun {runtime : Runtime} (execs : ∀ id ∈ keys runtime.execs, id ∈ keys (s.runs run).execs)
    (interactions : ∀ id ∈ keys runtime.interactions, id ∈ keys (s.runs run).interactions) :
    Keeps s (s.setRun run runtime) := by
  refine ⟨rfl,rfl,rfl,rfl,rfl,rfl,rfl,rfl,fun _ handled => handled,?_,?_⟩
  · intro other id isKey
    by_cases same : other = run
    · subst same
      rw [setRun_self] at isKey
      exact execs id isKey
    · rw [setRun_other _ same] at isKey
      exact isKey
  · intro other id isKey
    by_cases same : other = run
    · subst same
      rw [setRun_self] at isKey
      exact interactions id isKey
    · rw [setRun_other _ same] at isKey
      exact isKey

theorem Keeps.idle : Keeps s (idle s) :=
  ⟨rfl,rfl,rfl,rfl,rfl,rfl,rfl,rfl,fun _ handled => (by cases handled),fun _ _ isKey => isKey,fun _ _ isKey => isKey⟩

theorem Keeps.discard : Keeps s (discard_exec s run id) :=
  .setRun (fun _ isKey => (mem_keys_remove.mp isKey).1) fun _ isKey => isKey

theorem Keeps.append (append : PendingExec → PendingExec) : Keeps s (appendOutput s run id append) := by
  refine .setRun (fun other isKey => ?_) fun _ isKey => isKey
  simpa [keys,Function.comp_def] using isKey

theorem take_exec_spec (books : Books s) {entry : PendingExec} (taken : take_exec s run id = some (entry,s')) :
    Held s run id ∧ id ∈ keys (s.runs run).execs ∧ Keeps s s' ∧ ∀ other, ¬ Held s' other id := by
  obtain ⟨found,isFound,isTaken⟩ := Option.map_eq_some_iff.mp taken
  obtain ⟨rfl,rfl⟩ := Prod.mk.inj isTaken
  have isKey := find_key isFound
  have keeps : Keeps s (s.setRun run { s.runs run with
      execs := remove (s.runs run).execs id, completed := insert (s.runs run).completed id found.call.call_id }) :=
    .setRun (fun _ isKey => (mem_keys_remove.mp isKey).1) fun _ isKey => isKey
  refine ⟨.inl isKey,isKey,keeps,?_⟩
  intro other isHeld
  have same := books.place run other id (.inl isKey) (keeps.held isHeld)
  subst same
  rw [Held,setRun_self] at isHeld
  rcases isHeld with isExec | isInteraction
  · exact (mem_keys_remove.mp isExec).2 rfl
  · exact books.apart run id isKey isInteraction

theorem take_interaction_spec (books : Books s) {call : ToolCall} (taken : take_interaction s run id = some (call,s')) :
    Held s run id ∧ id ∈ keys (s.runs run).interactions ∧ Keeps s s' ∧ ∀ other, ¬ Held s' other id := by
  obtain ⟨found,isFound,isTaken⟩ := Option.map_eq_some_iff.mp taken
  obtain ⟨rfl,rfl⟩ := Prod.mk.inj isTaken
  have isKey := find_key isFound
  have keeps : Keeps s (s.setRun run { s.runs run with
      interactions := remove (s.runs run).interactions id
      completed := insert (s.runs run).completed id found.call_id }) :=
    .setRun (fun _ isKey => isKey) fun _ isKey => (mem_keys_remove.mp isKey).1
  refine ⟨.inr isKey,isKey,keeps,?_⟩
  intro other isHeld
  have same := books.place run other id (.inr isKey) (keeps.held isHeld)
  subst same
  rw [Held,setRun_self] at isHeld
  rcases isHeld with isExec | isInteraction
  · exact books.apart run id isExec isKey
  · exact (mem_keys_remove.mp isInteraction).2 rfl

theorem Inv.taken (inv : Inv s) (held : Held s run id) (alive : id ∉ s.interruptions) (keeps : Keeps s s')
    (free : ∀ other, ¬ Held s' other id) : Inv (ExecIds.complete s' id) := by
  refine (inv.keeps keeps).complete ?_ free ?_ ?_
  · rw [keeps.reserved]
    exact inv.books.known run id held
  · rw [keeps.completions]
    exact inv.books.running run id held
  · rw [keeps.interruptions]
    exact alive

theorem Inv.allocate (inv : Inv s) (allocated : allocate_exec_id s = some (id,s')) :
    Inv s' ∧ id ∈ s'.reserved ∧ id ∉ s'.completions ∧ id ∉ s'.interruptions ∧ (∀ other, ¬ Held s' other id) ∧
      s'.generations = s.generations := by
  unfold allocate_exec_id at allocated
  split_ifs at allocated
  obtain ⟨rfl,rfl⟩ := Prod.mk.inj (Option.some.inj allocated)
  have books := inv.books
  have new : s.next_id + 1 ∉ s.reserved := fun old => absurd (books.bounded _ old) (by omega)
  refine ⟨⟨⟨?_,?_,?_,books.place,books.apart,books.running,books.once,?_,?_,books.unborn,books.current⟩,
    ⟨inv.dead.silent,inv.dead.answered,inv.dead.kept,inv.dead.handled⟩⟩,List.mem_cons_self,?_,?_,?_,rfl⟩
  · exact List.nodup_cons.mpr ⟨new,books.fresh⟩
  · intro other member
    rcases List.mem_cons.mp member with rfl | before
    · exact le_refl _
    · exact (books.bounded other before).trans (Nat.le_succ _)
  · exact fun run id isHeld => List.mem_cons_of_mem _ (books.known run id isHeld)
  · exact fun id isCompleted => List.mem_cons_of_mem _ (books.completed id isCompleted)
  · exact fun id isInterrupted => List.mem_cons_of_mem _ (books.interrupted id isInterrupted)
  · exact fun isCompleted => new (books.completed _ isCompleted)
  · exact fun isInterrupted => new (books.interrupted _ isInterrupted)
  · exact fun other isHeld => new (books.known other _ isHeld)

theorem Inv.reserve (inv : Inv s) {runtime : Runtime} (isReserved : id ∈ s.reserved) (first : id ∉ s.completions)
    (alive : id ∉ s.interruptions) (free : ∀ other, ¬ Held s other id) (born : run < s.generations)
    (execs : ∀ other ∈ keys runtime.execs, other = id ∨ other ∈ keys (s.runs run).execs)
    (interactions : ∀ other ∈ keys runtime.interactions, other = id ∨ other ∈ keys (s.runs run).interactions)
    (either : id ∈ keys runtime.execs → id ∉ keys runtime.interactions) : Inv (s.setRun run runtime) := by
  have books := inv.books
  have held : ∀ {other one}, Held (s.setRun run runtime) other one → (one = id ∧ other = run) ∨ Held s other one := by
    intro other one isHeld
    by_cases same : other = run
    · subst same
      rw [Held,setRun_self] at isHeld
      rcases isHeld with isExec | isInteraction
      · exact (execs one isExec).imp (⟨·,rfl⟩) .inl
      · exact (interactions one isInteraction).imp (⟨·,rfl⟩) .inr
    · rw [Held,setRun_other _ same] at isHeld
      exact .inr isHeld
  have before : ∀ {other one}, one ≠ id → Held (s.setRun run runtime) other one → Held s other one :=
    fun different isHeld => (held isHeld).resolve_left fun same => different same.1
  have notDead : ∀ one ∈ s.interruptions, one ≠ id := fun one isInterrupted same => alive (same ▸ isInterrupted)
  have execsBefore : ∀ {other one}, one ≠ id → one ∈ keys ((s.setRun run runtime).runs other).execs →
      one ∈ keys (s.runs other).execs := by
    intro other one different isKey
    by_cases same : other = run
    · subst same
      rw [setRun_self] at isKey
      exact (execs one isKey).resolve_left different
    · rw [setRun_other _ same] at isKey
      exact isKey
  have interactionsBefore : ∀ {other one}, one ≠ id → one ∈ keys ((s.setRun run runtime).runs other).interactions →
      one ∈ keys (s.runs other).interactions := by
    intro other one different isKey
    by_cases same : other = run
    · subst same
      rw [setRun_self] at isKey
      exact (interactions one isKey).resolve_left different
    · rw [setRun_other _ same] at isKey
      exact isKey
  refine ⟨⟨books.fresh,books.bounded,?_,?_,?_,?_,books.once,books.completed,books.interrupted,?_,books.current⟩,
    ⟨inv.dead.silent,?_,?_,?_⟩⟩
  · intro other one isHeld
    rcases held isHeld with ⟨rfl,_⟩ | old
    · exact isReserved
    · exact books.known other one old
  · intro one two other heldOne heldTwo
    by_cases new : other = id
    · subst new
      rcases held heldOne with ⟨_,rfl⟩ | old
      · rcases held heldTwo with ⟨_,rfl⟩ | old
        · rfl
        · exact absurd old (free _)
      · exact absurd old (free _)
    · exact books.place one two other (before new heldOne) (before new heldTwo)
  · intro other one isExec isInteraction
    by_cases new : one = id
    · subst new
      rcases held (.inl isExec) with ⟨_,rfl⟩ | old
      · rw [setRun_self] at isExec isInteraction
        exact either isExec isInteraction
      · exact absurd old (free _)
    · exact books.apart other one (execsBefore new isExec) (interactionsBefore new isInteraction)
  · intro other one isHeld
    rcases held isHeld with ⟨rfl,_⟩ | old
    · exact first
    · exact books.running other one old
  · intro other one unborn isHeld
    rcases held isHeld with ⟨_,rfl⟩ | old
    · exact absurd (lt_of_lt_of_le born unborn) (lt_irrefl _)
    · exact books.unborn other one unborn old
  · exact fun one isInterrupted other isKey =>
      inv.dead.answered one isInterrupted other (interactionsBefore (notDead one isInterrupted) isKey)
  · exact fun other isCurrent one isInterrupted isKey =>
      inv.dead.kept other isCurrent one isInterrupted (execsBefore (notDead one isInterrupted) isKey)
  · exact fun other isCurrent one isInterrupted isHandled isKey =>
      inv.dead.handled other isCurrent one isInterrupted isHandled (execsBefore (notDead one isInterrupted) isKey)

theorem Inv.reserveExec (inv : Inv s) (born : run < s.generations) (call : ToolCall) (stage : ExecStage) :
    Inv (reserve_exec_stage s run call stage) := by
  unfold reserve_exec_stage
  split
  · exact inv
  · rename_i id s' allocated
    obtain ⟨inv',isReserved,first,alive,free,generations⟩ := inv.allocate allocated
    refine inv'.reserve isReserved first alive free (generations ▸ born) ?_ (fun _ isKey => .inr isKey) ?_
    · exact fun other isKey => (mem_keys_insert _).mp isKey
    · exact fun _ isInteraction => free run (.inr isInteraction)

theorem Inv.reserveInteraction (inv : Inv s) (born : run < s.generations) (call : ToolCall) : Inv (reserve_interaction s run call) := by
  unfold reserve_interaction
  split
  · exact inv
  · rename_i id s' allocated
    obtain ⟨inv',isReserved,first,alive,free,generations⟩ := inv.allocate allocated
    refine inv'.reserve isReserved first alive free (generations ▸ born) (fun _ isKey => .inr isKey) ?_ ?_
    · exact fun other isKey => (mem_keys_insert _).mp isKey
    · exact fun isExec _ => free run (.inl isExec)

theorem Inv.looked (inv : Inv s) (born : run < s.generations)
    (alive : id ∈ keys (s.runs run).execs → id ∉ s.interruptions) (message : ExecMessage) :
    Inv (lookedEvent s run id message) := by
  cases message with
  | Absent | Quiet => exact inv
  | Stdout data | Stderr data =>
    simp only [lookedEvent]
    exact inv.keeps (.append _)
  | ShellEnd =>
    simp only [lookedEvent]
    split
    · exact inv
    · rename_i entry s' taken
      obtain ⟨held,isKey,keeps,free⟩ := take_exec_spec inv.books taken
      exact inv.taken held (alive isKey) keeps free
  | Result edits =>
    simp only [lookedEvent]
    split
    · exact inv
    · rename_i entry s' taken
      obtain ⟨held,isKey,keeps,free⟩ := take_exec_spec inv.books taken
      split_ifs
      · exact (inv.keeps keeps).reserveExec (keeps.generations ▸ born) _ _
      · exact inv.taken held (alive isKey) keeps free

theorem Inv.proceed (inv : Inv s) (isCurrent : s.current = some run) : Inv (proceed s run) := by
  have born := inv.books.current run isCurrent
  have alive : ∀ {id}, s.handling.id = some id → id ∈ keys (s.runs run).execs → id ∉ s.interruptions :=
    fun isHandled isKey isInterrupted => inv.dead.handled run isCurrent _ isInterrupted isHandled isKey
  have ends : ∀ {id}, s.handling.id = some id → Inv (match take_exec s run id with
      | none => idle s
      | some (_,s) => idle (ExecIds.complete s id)) := by
    intro id isHandled
    split
    · exact inv.keeps .idle
    · rename_i entry s' taken
      obtain ⟨held,isKey,keeps,free⟩ := take_exec_spec inv.books taken
      exact (inv.taken held (alive isHandled isKey) keeps free).keeps .idle
  unfold ExecIds.proceed
  cases handling : s.handling with
  | Idle => exact inv
  | Looked id message =>
    refine Inv.keeps ?_ .idle
    exact inv.looked born (alive (by rw [handling]; rfl)) message
  | Checked input =>
    cases input with
    | ExecClientMessage id message =>
      dsimp only
      split_ifs
      · refine inv.keeps ⟨rfl,rfl,rfl,rfl,rfl,rfl,rfl,rfl,?_,fun _ _ isKey => isKey,fun _ _ isKey => isKey⟩
        rw [handling]
        exact fun _ isHandled => isHandled
      · exact inv.keeps .idle
    | StreamClose id | Throw id => exact ends (by rw [handling]; rfl)
    | InteractionResponse id fails =>
      dsimp only
      split
      · exact inv.keeps .idle
      · rename_i call s' taken
        obtain ⟨held,isKey,keeps,free⟩ := take_interaction_spec inv.books taken
        split_ifs
        · exact inv.keeps (keeps.trans .idle)
        · refine Inv.keeps (inv.taken held ?_ keeps free) .idle
          exact fun isInterrupted => inv.dead.answered id isInterrupted run isKey

/-- A late message of an interrupted id changes nothing but the execution that
    it may end. -/
theorem Inv.dropped (inv : Inv s) (input : Input) : Inv (dropInterrupted s run input) := by
  cases input with
  | ExecClientMessage id message =>
    simp only [dropInterrupted]
    split_ifs
    · exact inv.keeps .discard
    · exact inv
  | StreamClose id | Throw id => exact inv.keeps .discard
  | InteractionResponse id fails => exact inv

theorem Inv.checked (inv : Inv s) {input : Input} (isCurrent : s.current = some run) (unmarked : input.id ∉ s.interrupted)
    (calm : input.id ∉ (s.collected run).getD []) : Inv { s with handling := .Checked input } where
  books := by
    have books := inv.books
    exact ⟨books.fresh,books.bounded,books.known,books.place,books.apart,books.running,books.once,books.completed,
      books.interrupted,books.unborn,books.current⟩
  dead := by
    refine ⟨inv.dead.silent,inv.dead.answered,inv.dead.kept,?_⟩
    intro other isOther id isInterrupted isHandled isKey
    obtain rfl : run = other := Option.some.inj (isCurrent.symm.trans isOther)
    obtain rfl : input.id = id := Option.some.inj isHandled
    rcases inv.dead.kept run isCurrent _ isInterrupted isKey with marked | collected
    · exact unmarked marked
    · exact calm collected

theorem Inv.drained (inv : Inv s)
    (calm : ∀ other, s.current = some other → run ≠ other → ∀ id ∈ keys (s.runs other).execs, id ∉ s.interrupted) :
    Inv (drain_running s run) := by
  have keeps : Keeps s (s.setRun run {}) := .setRun (by simp [keys]) (by simp [keys])
  have inv' := inv.keeps keeps
  have books := inv'.books
  refine ⟨⟨books.fresh,books.bounded,books.known,books.place,books.apart,books.running,books.once,books.completed,
    books.interrupted,books.unborn,books.current⟩,⟨inv'.dead.silent,inv'.dead.answered,?_,inv'.dead.handled⟩⟩
  intro other isCurrent id isInterrupted isKey
  have isKey : id ∈ keys ((s.setRun run {}).runs other).execs := isKey
  by_cases same : other = run
  · subst same
    simp [keys] at isKey
  · rw [setRun_other _ same] at isKey
    refine .inr ((inv.dead.kept other isCurrent id isInterrupted isKey).resolve_left ?_)
    exact calm other isCurrent (Ne.symm same) id isKey

theorem Inv.marked (inv : Inv s) : Inv (mark s run) := by
  unfold mark
  split
  · exact inv
  · rename_i ids collected
    have books := inv.books
    refine ⟨⟨books.fresh,books.bounded,books.known,books.place,books.apart,books.running,books.once,books.completed,
      books.interrupted,books.unborn,books.current⟩,⟨inv.dead.silent,inv.dead.answered,?_,inv.dead.handled⟩⟩
    intro other isCurrent id isInterrupted isKey
    rcases inv.dead.kept other isCurrent id isInterrupted isKey with marked | isCollected
    · exact .inl (List.mem_append_left _ marked)
    · by_cases same : other = run
      · subst same
        rw [collected] at isCollected
        exact .inl (List.mem_append_right _ isCollected)
      · refine .inr ?_
        simp only [Function.update_of_ne same]
        exact isCollected

theorem Inv.collects (inv : Inv s) (calm : s.current = some run → ∀ id,
    s.handling.id = some id → ∀ entry, (id,entry) ∈ (s.runs run).execs → keep_running entry = false) :
    Inv (collect s run) := by
  let kept : Runtime := { s.runs run with
    execs := (s.runs run).execs.filter fun (_,entry) => keep_running entry, interactions := [] }
  have filtered : ∀ id ∈ keys kept.execs, id ∈ keys (s.runs run).execs := by
    intro id isKey
    obtain ⟨entry,isEntry⟩ := mem_keys.mp isKey
    exact mem_keys.mpr ⟨entry,List.mem_of_mem_filter isEntry⟩
  have keeps : Keeps s (s.setRun run kept) := .setRun filtered (by simp [keys,kept])
  have books := inv.books
  have new : ∀ id, id ∈ s.interruptions ++ (keys (s.runs run).execs ++ keys (s.runs run).interactions) →
      id ∈ s.interruptions ∨ Held s run id := by
    intro id member
    rcases List.mem_append.mp member with old | held
    · exact .inl old
    · exact .inr (List.mem_append.mp held)
  refine ⟨?_,?_,?_,?_,?_⟩
  · refine books.shrinks rfl rfl rfl ?_ le_rfl books.current keeps.execs keeps.interactions
    exact fun id member => (new id member).imp_right fun held => ⟨run,held⟩
  · intro id member
    rcases new id member with old | held
    · exact inv.dead.silent id old
    · exact books.running run id held
  · intro id member other isKey
    have isKey : id ∈ keys ((s.setRun run kept).runs other).interactions := isKey
    by_cases same : other = run
    · subst same
      simp [keys,kept] at isKey
    · rw [setRun_other _ same] at isKey
      rcases new id member with old | held
      · exact inv.dead.answered id old other isKey
      · exact same (books.place other run id (.inr isKey) held)
  · intro other isCurrent id member isKey
    have isKey : id ∈ keys ((s.setRun run kept).runs other).execs := isKey
    by_cases same : other = run
    · subst same
      refine .inr ?_
      simp only [collect,Function.update_self,Option.getD_some]
      exact List.mem_append_left _ (keeps.execs other id isKey)
    · have before := keeps.execs other id isKey
      rcases new id member with old | held
      · refine (inv.dead.kept other isCurrent id old before).imp_right fun collected => ?_
        simp only [collect,Function.update_of_ne same]
        exact collected
      · exact absurd (books.place other run id (.inl before) held) same
  · intro other isCurrent id member isHandled isKey
    have isKey : id ∈ keys ((s.setRun run kept).runs other).execs := isKey
    have before := keeps.execs other id isKey
    by_cases same : other = run
    · subst same
      rw [setRun_self] at isKey
      obtain ⟨entry,isEntry⟩ := mem_keys.mp isKey
      obtain ⟨isEntry,keep⟩ := List.mem_filter.mp isEntry
      have keep : keep_running entry = true := keep
      rw [calm isCurrent id isHandled entry isEntry] at keep
      cases keep
    · rcases new id member with old | held
      · exact inv.dead.handled other isCurrent id old isHandled before
      · exact same (books.place other run id (.inl before) held)

theorem Inv.started (inv : Inv s) (isIdle : s.handling = .Idle) : Inv (start_generation s) := by
  have books := inv.books
  -- The runtime of the new run was never used.
  have empty : ∀ {s' : System} {id}, Keeps s s' → ¬ Held s' s.generations id :=
    fun keeps isHeld => books.unborn s.generations _ le_rfl (keeps.held isHeld)
  unfold start_generation
  cases isCurrent : s.current with
  | none =>
    dsimp only
    have nothing : Keeps s s := ⟨rfl,rfl,rfl,rfl,rfl,rfl,rfl,rfl,fun _ h => h,fun _ _ h => h,fun _ _ h => h⟩
    refine ⟨?_,inv.dead.silent,inv.dead.answered,?_,?_⟩
    · refine books.shrinks rfl rfl rfl (fun _ old => .inl old) (Nat.le_succ _) ?_ (fun _ _ h => h) fun _ _ h => h
      rintro run isRun
      obtain rfl := Option.some.inj isRun
      exact Nat.lt_succ_self _
    · rintro run isRun id _ isKey
      obtain rfl := Option.some.inj isRun
      exact absurd (.inl isKey) (empty nothing)
    · intro run _ id _ isHandled
      rw [isIdle] at isHandled
      cases isHandled
  | some previous =>
    dsimp only
    have keeps : Keeps s (s.setRun previous {}) := .setRun (by simp [keys]) (by simp [keys])
    have new : ∀ id, id ∈ s.interruptions ++ (keys (s.runs previous).execs ++ keys (s.runs previous).interactions) →
        id ∈ s.interruptions ∨ Held s previous id := by
      intro id member
      rcases List.mem_append.mp member with old | held
      · exact .inl old
      · exact .inr (List.mem_append.mp held)
    refine ⟨?_,?_,?_,?_,?_⟩
    · refine books.shrinks rfl rfl rfl ?_ (Nat.le_succ _) ?_ keeps.execs keeps.interactions
      · exact fun id member => (new id member).imp_right fun held => ⟨previous,held⟩
      · rintro run isRun
        obtain rfl := Option.some.inj isRun
        exact Nat.lt_succ_self _
    · intro id member
      rcases new id member with old | held
      · exact inv.dead.silent id old
      · exact books.running previous id held
    · intro id member other isKey
      have isKey : id ∈ keys ((s.setRun previous {}).runs other).interactions := isKey
      by_cases same : other = previous
      · subst same
        simp [keys] at isKey
      · rw [setRun_other _ same] at isKey
        rcases new id member with old | held
        · exact inv.dead.answered id old other isKey
        · exact same (books.place other previous id (.inr isKey) held)
    · rintro run isRun id _ isKey
      obtain rfl := Option.some.inj isRun
      exact absurd (.inl isKey) (empty keeps)
    · intro run _ id _ isHandled
      have isHandled : s.handling.id = some id := isHandled
      rw [isIdle] at isHandled
      cases isHandled

theorem Inv.step (inv : Inv s) (action : Action) (calm : Calm s action) : Inv (step s action) := by
  cases action with
  | startGeneration =>
    simp only [ExecIds.step]
    split_ifs with isIdle
    · exact inv.started isIdle
    · exact inv
  | loadContext =>
    simp only [ExecIds.step]
    cases allocated : allocate_exec_id s with
    | none => exact inv
    | some result => exact (inv.allocate (show allocate_exec_id s = some (result.1,result.2) from allocated)).1
  | reserveExec run call stage =>
    simp only [ExecIds.step]
    split_ifs with born
    · exact inv.reserveExec born call stage
    · exact inv
  | reserveInteraction run call =>
    simp only [ExecIds.step]
    split_ifs with born
    · exact inv.reserveInteraction born call
    · exact inv
  | receive input =>
    simp only [ExecIds.step]
    cases isCurrent : s.current with
    | none => exact inv
    | some run =>
      dsimp only
      split_ifs with busy marked
      · exact inv
      · exact inv.dropped input
      · rw [← isCurrent]
        exact inv.checked isCurrent marked (calm run isCurrent)
  | proceed =>
    simp only [ExecIds.step]
    cases isCurrent : s.current with
    | none => exact inv
    | some run => exact inv.proceed isCurrent
  | collect run =>
    simp only [ExecIds.step]
    split_ifs
    · exact inv.collects calm
    · exact inv
  | mark run => exact inv.marked
  | drainRunning run =>
    simp only [ExecIds.step]
    split_ifs
    · exact inv.drained calm
    · exact inv
  | clearCompleted run =>
    simp only [ExecIds.step]
    split_ifs
    · exact inv.keeps (.setRun (fun _ isKey => isKey) fun _ isKey => isKey)
    · exact inv

theorem inv_start : Inv {} := by
  refine ⟨⟨by simp,by simp,?_,?_,by simp [keys],by simp,by simp,by simp,by simp,?_,by simp⟩,
    ⟨by simp,by simp,by simp,by simp⟩⟩
  · exact fun run id held => by simp [Held,keys] at held
  · exact fun run other id held => by simp [Held,keys] at held
  · exact fun run id _ held => by simp [Held,keys] at held

/-- In every run of calm steps, ids are given once, an id is completed at most
    once, and an id that was interrupted is not completed. -/
theorem execs_complete_once (actions : List Action) (calm : Transitions.Meets step Calm {} actions) :
    ExactlyOnce (Transitions.after step {} actions) := by
  have inv : Inv (Transitions.after step {} actions) := calm.invariant inv_start fun _ action inv calm => inv.step action calm
  exact ⟨inv.books.fresh,inv.books.once,inv.books.completed,inv.dead.silent⟩

section Example

def task : ToolCall := ⟨0,"t","m","Task","",.Null,none⟩
def shell : ToolCall := ⟨1,"s","m","Shell","",.Null,none⟩

/-- A shell and a task run; the shell exits, a message interrupts the task, and
    its late result comes to the next run. -/
def interruptedTask : List Action :=
  [.startGeneration,.reserveExec 0 task .Direct,.reserveExec 0 shell .Direct,.receive (.ExecClientMessage 2 .ShellEnd),
    .proceed,.proceed,.collect 0,.mark 0,.startGeneration,.drainRunning 1,.receive (.ExecClientMessage 1 (.Result false)),
    .proceed]

theorem execs_complete_once_late : Transitions.Meets step Calm {} interruptedTask ∧
    (Transitions.after step {} interruptedTask).completions = [2] ∧
    ExactlyOnce (Transitions.after step {} interruptedTask) := by
  have calm : Transitions.Meets step Calm {} interruptedTask := by
    refine ⟨trivial,trivial,trivial,?_,trivial,trivial,?_,trivial,trivial,?_,?_,trivial,trivial⟩
    · intro run isCurrent
      obtain rfl : 0 = run := Option.some.inj isCurrent
      decide +kernel
    · intro _ id isHandled
      exact nomatch (show none = some id from isHandled)
    · intro other isCurrent different
      exact absurd (Option.some.inj isCurrent) different
    · intro run isCurrent
      obtain rfl : 1 = run := Option.some.inj isCurrent
      decide +kernel
  exact ⟨calm,by decide +kernel,execs_complete_once interruptedTask calm⟩

/-- The first of three runs drains late, when the task of the third is
    interrupted and goes on. -/
def lateDrain : List Action :=
  [.startGeneration,.startGeneration,.startGeneration,.reserveExec 2 task .Direct,.collect 2,.mark 2,.drainRunning 0,
    .receive (.ExecClientMessage 1 (.Result false)),.proceed,.proceed]

/-- The result of the interrupted task is a completion. -/
theorem lateDrain_completes : 1 ∈ (Transitions.after step {} lateDrain).interruptions ∧
    1 ∈ (Transitions.after step {} lateDrain).completions := by
  decide +kernel

end Example

end MyCursor.ExecIds

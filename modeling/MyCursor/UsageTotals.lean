import MyCursor.Delivery

/-!
# The usage of a run

`run/engine.rs` adds the usage of every cycle to that of the run, and
`finish_run` gets the sum. The arms that wait for a cycle and drop its result,
and an automatic compaction that fails after its cycle, lose a usage that was
reported; every other way to end or to interrupt a cycle counts it.
-/
namespace MyCursor.UsageTotals
open Message Store Projection Compaction Run Engine
open Delivery Hoare
set_option linter.unusedSectionVars false

def reportedUsage : Entry → Option Usage
  | .Cycled result => cycleUsage result
  | _ => none
/-- The usages that the cycles reported, in the order in which they ended. -/
def reported (log : List Entry) : List Usage := log.filterMap reportedUsage
def total (usages : List Usage) : Option Usage := usages.foldl accumulate_usage none
/-- The sum with one more cycle, which may have reported nothing. -/
def withCycle (sum : Option Usage) (usage : Option Usage) : Option Usage := usage.elim sum (accumulate_usage sum)

def runsAfter (runs : Bool) : Entry → Bool
  | .Called _ _ => true
  | .Cycled _ => false
  | _ => runs
def running (log : List Entry) : Bool := log.foldl runsAfter false

def isCycle : Entry → Bool
  | .Called _ _ | .Cycled _ => true
  | _ => false
def isAnswer : Entry → Bool
  | .Answered _ _ => true
  | _ => false
/-- The context of a compacted conversation is told to the client. -/
def isReset : Entry → Bool
  | .Emitted (.UsageSnapshot usage) => usage = context_usage_snapshot 0
  | _ => false
def isFinish : Entry → Bool
  | .Stored (.finish_run _ _ _ _) _ => true
  | _ => false
/-- The entry neither belongs to a cycle nor to the end of a compaction or of the run. -/
def muted (entry : Entry) : Bool := !isCycle entry && !isAnswer entry && !isReset entry && !isFinish entry

theorem reported_append {log added : List Entry} (apart : ∀ entry ∈ added, isCycle entry = false) :
    reported (log ++ added) = reported log := by
  have none_ : added.filterMap reportedUsage = [] := by
    refine List.filterMap_eq_nil_iff.mpr fun entry member => ?_
    have other := apart entry member
    cases entry with
    | Cycled result => cases other
    | _ => rfl
  rw [reported,List.filterMap_append,none_,List.append_nil,reported]
theorem running_append {log added : List Entry} (apart : ∀ entry ∈ added, isCycle entry = false) :
    running (log ++ added) = running log := by
  rw [running,List.foldl_append]
  change added.foldl runsAfter (running log) = running log
  induction added with
  | nil => rfl
  | cons entry rest ih =>
    have same : runsAfter (running log) entry = running log := by
      have other := apart entry List.mem_cons_self
      cases entry with
      | Called invocation anchored => cases other
      | Cycled result => cases other
      | _ => rfl
    rw [List.foldl_cons,same]
    exact ih fun one member => apart one (List.mem_cons_of_mem _ member)
theorem total_cycled (log : List Entry) (result : CycleEnd) :
    total (reported (log ++ [.Cycled result])) = withCycle (total (reported log)) (cycleUsage result) := by
  rw [reported,List.filterMap_append]
  cases isUsage : cycleUsage result with
  | none => simp [reportedUsage,isUsage,withCycle,reported]
  | some usage => simp [reportedUsage,isUsage,withCycle,reported,total]

variable {Digest : Type}

/-- Messages are taken up; everything else ends the run. -/
def isMessages : Option RunCommand → Bool
  | some (.InsertMessages _) | some (.BreakMessages _) => true
  | _ => false

/-- While a cycle ran that then reported a usage, nothing but messages was taken
    from the queue. -/
def Undisturbed (w : World Digest) : Prop :=
  ∀ before command, (before,command) ∈ w.received → running before = true →
    ∀ during result since, w.log = before ++ during ++ .Cycled result :: since →
      (∀ entry ∈ during, isCycle entry = false) → (cycleUsage result).isSome = true → isMessages command = true

/-- The commands that were taken while the log had these lengths. -/
def takenBetween (w : World Digest) (first last : Nat) : Nat :=
  w.received.countP fun taken => first ≤ taken.1.length && taken.1.length ≤ last

/-- Every automatic compaction whose cycle reported a usage came to its end: the
    client was told, and the batches that were taken meanwhile were answered. -/
def CompactionsEnd (w : World Digest) : Prop :=
  ∀ before invocation during result since,
    w.log = before ++ .Called invocation none :: during ++ .Cycled result :: since →
    (∀ entry ∈ during, isCycle entry = false) → (cycleUsage result).isSome = true →
    since.any isReset = true ∧ takenBetween w (before.length + 1) (before.length + 1 + during.length) ≤ since.countP isAnswer

section Runs

variable {entry : Entry} {op : Op} {round_id : ToolRoundId} {messages : List CanonicalMessage}

variable {event : RunEvent} {checkpoint : Nat}

variable [DecidableEq Digest] [MessageHash Digest] [SerdeText] [Blobs] {prepared : PreparedRun} {α : Type}

/-- Nothing of a cycle, of the end of a compaction or of the run was written, and
    no command was taken. -/
structure Muted (w after : World Digest) : Prop where
  usage : after.usage = w.usage
  received : after.received = w.received
  log : ∃ added, after.log = w.log ++ added ∧ ∀ entry ∈ added, muted entry = true

instance : Std.Refl (Muted : World Digest → World Digest → Prop) := ⟨fun _ => ⟨rfl,rfl,[],by simp⟩⟩

variable {w after : World Digest}

theorem Muted.trans {middle : World Digest} (first : Muted w middle) (second : Muted middle after) : Muted w after := by
  obtain ⟨added,log,plain⟩ := first.log
  obtain ⟨more,log',plain'⟩ := second.log
  refine ⟨second.usage.trans first.usage,second.received.trans first.received,added ++ more,?_,?_⟩
  · rw [log',log,List.append_assoc]
  · intro entry member
    rcases List.mem_append.mp member with old | new
    · exact plain entry old
    · exact plain' entry new
instance : Trans (Muted : World Digest → World Digest → Prop) Muted Muted := ⟨Muted.trans⟩
theorem Muted.of_same (usage : after.usage = w.usage) (received : after.received = w.received)
    (log : after.log = w.log) : Muted w after := ⟨usage,received,[],by simp [log]⟩
theorem Muted.of_note (usage : after.usage = w.usage)
    (received : after.received = w.received) (log : after.log = w.log ++ [entry]) (plain : muted entry = true) :
    Muted w after := ⟨usage,received,[entry],log,by simpa using plain⟩

/-- No cycle began or ended, and the commands that were taken came after what had
    happened before. -/
structure Silent (w after : World Digest) : Prop where
  usage : after.usage = w.usage
  received : ∃ more, after.received = w.received ++ more ∧
    ∀ taken ∈ more, w.log.length ≤ taken.1.length ∧ taken.1.length ≤ after.log.length
  log : ∃ added, after.log = w.log ++ added ∧ ∀ entry ∈ added, isCycle entry = false ∧ isFinish entry = false

theorem Silent.grows (silent : Silent w after) : w.log.length ≤ after.log.length := by
  obtain ⟨added,log,_⟩ := silent.log
  rw [log,List.length_append]
  exact Nat.le_add_right _ _
instance : Std.Refl (Silent : World Digest → World Digest → Prop) := ⟨fun _ => ⟨rfl,⟨[],by simp⟩,⟨[],by simp⟩⟩⟩
theorem Silent.trans {middle : World Digest} (first : Silent w middle) (second : Silent middle after) : Silent w after := by
  obtain ⟨added,log,plain⟩ := first.log
  obtain ⟨more,log',plain'⟩ := second.log
  obtain ⟨taken,received,later⟩ := first.received
  obtain ⟨others,received',later'⟩ := second.received
  refine ⟨second.usage.trans first.usage,⟨taken ++ others,?_,?_⟩,⟨added ++ more,?_,?_⟩⟩
  · rw [received',received,List.append_assoc]
  · intro one member
    rcases List.mem_append.mp member with old | new
    · exact ⟨(later one old).1,(later one old).2.trans second.grows⟩
    · exact ⟨first.grows.trans (later' one new).1,(later' one new).2⟩
  · rw [log',log,List.append_assoc]
  · intro entry member
    rcases List.mem_append.mp member with old | new
    · exact plain entry old
    · exact plain' entry new
instance : Trans (Silent : World Digest → World Digest → Prop) Silent Silent := ⟨Silent.trans⟩
theorem Muted.silent (w after : World Digest) (same : Muted w after) : Silent w after := by
  obtain ⟨added,log,plain⟩ := same.log
  refine ⟨same.usage,⟨[],by simp [same.received]⟩,added,log,fun entry member => ?_⟩
  have isMuted := plain entry member
  simp only [muted,Bool.and_eq_true,Bool.not_eq_true'] at isMuted
  exact ⟨isMuted.1.1.1,isMuted.2⟩

theorem act_muted (r : RunId) (w : World Digest) (action : Action) : Muted w (act r w action) := by
  cases action with
  | submit_messages event_id messages should_break =>
    simp only [act]
    split_ifs
    · unfold submit_messages
      dsimp only
      split
      · exact .of_note rfl rfl rfl rfl
      · exact .of_note rfl rfl rfl rfl
      · exact .of_note rfl rfl rfl rfl
    · exact Std.Refl.refl w
  | tool_result result =>
    simp only [act,tool_result]
    split_ifs <;> exact .of_same rfl rfl rfl
  | cancel =>
    simp only [act]
    split_ifs <;> exact .of_same rfl rfl rfl
  | transaction op =>
    simp only [act]
    split_ifs <;> exact .of_same rfl rfl rfl
  | _ => exact .of_same rfl rfl rfl

theorem next_muted : Within Muted (next prepared : EngineM Digest Choice) := by
  refine .read fun w => ?_
  split
  · exact Std.Refl.refl w
  · rename_i move rest _
    have acted : ∀ (actions : List Action) (w : World Digest), Muted w (actions.foldl (act prepared.run_id) w) := by
      intro actions
      induction actions with
      | nil => exact fun w => Std.Refl.refl w
      | cons action others ih => exact fun w => (act_muted prepared.run_id w action).trans (ih _)
    have taken : Muted w { w with script := rest } := .of_same rfl rfl rfl
    exact taken.trans (acted move.actions _)
theorem note_muted (plain : muted entry = true) : Within Muted (note entry : EngineM Digest Unit) :=
  .read fun _ => .of_note rfl rfl rfl plain
theorem loopFuel_muted : Within Muted (loopFuel : EngineM Digest Nat) := .read fun w => Std.Refl.refl w
theorem emit_muted (plain : muted (.Emitted event) = true) : Within Muted (emit prepared event : EngineM Digest Bool) := by
  refine next_muted.bind fun _ => .read fun w => ?_
  split
  · exact (note_muted plain).bind (fun _ => .pure true) w
  · exact Std.Refl.refl w
theorem send_muted (plain : muted (.Emitted event) = true) : Within Muted (send prepared event : EngineM Digest Unit) := by
  refine (emit_muted plain).bind fun sent => ?_
  cases sent with
  | true => exact .pure ()
  | false => exact .throw _
theorem is_cancelled_muted : Within Muted (is_cancelled prepared : EngineM Digest Bool) :=
  next_muted.bind fun _ => .read fun w => Std.Refl.refl w
theorem whenCancelled_muted {branch : EngineM Digest α} (plain : Within Muted branch) : Within Muted (whenCancelled branch) := by
  refine .read fun w => ?_
  split
  · exact plain w
  · exact Std.Refl.refl w
theorem wait_for_state_ready_muted : Within Muted (wait_for_state_ready prepared : EngineM Digest Unit) := by
  refine next_muted.bind fun choice => ?_
  split
  · exact .pure ()
  · exact .throw _
  · exact .throw _
  · exact whenCancelled_muted (.throw _)
  · exact .throw _
section
variable (plain : ∀ reply, muted (.Stored op reply) = true)
include plain

theorem tryTransaction_muted : Within Muted (tryTransaction prepared op : EngineM Digest (Except Error Reply)) := by
  refine next_muted.bind fun choice => ?_
  split
  · exact .pure _
  · refine .read fun w => ?_
    split
    · exact Std.Refl.refl w
    · exact .of_note rfl rfl rfl (plain _)
theorem transaction_muted : Within Muted (transaction prepared op : EngineM Digest Reply) := by
  refine (tryTransaction_muted plain).bind fun result => ?_
  cases result with
  | error error => exact .throw _
  | ok reply => exact .pure reply
theorem checkpointTransaction_muted : Within Muted (checkpointTransaction prepared op : EngineM Digest Nat) := by
  refine (transaction_muted plain).bind fun reply => ?_
  split
  · exact .pure _
  · exact .throw _

end
theorem appendMessageOnce_muted {m : CanonicalMessage} :
    Within Muted (appendMessageOnce prepared checkpoint m : EngineM Digest (Nat × Bool)) := by
  refine (transaction_muted fun _ => rfl).bind fun reply => ?_
  split
  · exact .pure _
  · exact .throw _
theorem beginProviderCall_muted : Within Muted (beginProviderCall prepared : EngineM Digest Int) := by
  refine (transaction_muted fun _ => rfl).bind fun reply => ?_
  split
  · exact .pure _
  · exact .throw _
theorem commitToolResult_muted {result : ToolResult} :
    Within Muted (commitToolResult prepared round_id result : EngineM Digest ToolCommit) := by
  refine (transaction_muted fun _ => rfl).bind fun reply => ?_
  split
  · exact .pure _
  · exact .throw _
theorem loadMessages_muted : Within Muted (loadMessages prepared checkpoint : EngineM Digest (List CanonicalMessage)) := by
  refine next_muted.bind fun choice => ?_
  split
  · exact .throw _
  · exact .read fun w => Std.Refl.refl w
theorem latest_context_usage_muted : Within Muted (latest_context_usage prepared : EngineM Digest (Option ContextUsageAnchor)) := by
  refine next_muted.bind fun choice => ?_
  split
  · exact .throw _
  · exact .pure _
  · exact .throw _
theorem orFail_muted {result : Except Error α} : Within Muted (orFail result : EngineM Digest α) := by
  cases result with
  | ok a => exact .pure a
  | error error => exact .throw _

theorem begin_finalizing_muted : Within Muted (begin_finalizing prepared : EngineM Digest Unit) := by
  refine next_muted.bind fun _ => .read fun w => ?_
  change Muted w (if w.phase = .Running then { w with phase := .Finalizing } else w)
  split_ifs <;> exact .of_same rfl rfl rfl
theorem resume_running_muted : Within Muted (resume_running prepared : EngineM Digest Unit) := by
  refine next_muted.bind fun _ => .read fun w => ?_
  change Muted w (if w.phase = .Finalizing then { w with phase := .Running } else w)
  split_ifs <;> exact .of_same rfl rfl rfl
theorem finish_muted : Within Muted (finish prepared : EngineM Digest Unit) :=
  next_muted.bind fun _ => .read fun _ => .of_same rfl rfl rfl

theorem append_one_muted {m : CanonicalMessage} : Within Muted (append_one prepared checkpoint m : EngineM Digest (Nat × Bool)) := by
  unfold append_one
  split
  · exact .throw _
  · refine appendMessageOnce_muted.bind ?_
    rintro ⟨checkpoint,inserted⟩
    cases inserted with
    | false => exact .pure _
    | true => exact (send_muted rfl).bind fun _ => wait_for_state_ready_muted.bind fun _ => .pure _
theorem appendMessages_muted : ∀ {checkpoint : Nat} {inserted : Bool},
    Within Muted (appendMessages prepared checkpoint inserted messages : EngineM Digest (Nat × Bool)) := by
  induction messages with
  | nil => exact .pure _
  | cons m rest ih => exact append_one_muted.bind fun _ => ih
theorem drain_accepted_muted : Within Muted (drain_accepted prepared : EngineM Digest (List MessageBatch)) := by
  refine loopFuel_muted.bind fun fuel => ?_
  have loop : ∀ (fuel : Nat) (messages : List MessageBatch),
      Within Muted (drainLoop prepared fuel messages : EngineM Digest (List MessageBatch)) := by
    intro fuel
    induction fuel with
    | zero => exact fun _ => .throw _
    | succ fuel ih =>
      intro messages
      refine next_muted.bind fun _ => .read fun w => ?_
      have took (rest : List RunCommand) : Muted w { w with commands := rest } := .of_same rfl rfl rfl
      split
      · exact (took _).trans (ih _ _)
      · exact (took _).trans (ih _ _)
      · exact took _
      · exact (took _).trans (ih _ _)
      · split
        · exact Std.Refl.refl w
        · exact Std.Refl.refl w
  exact loop fuel []
theorem stream_muted : Within Muted (stream event : EngineM Digest Unit) := by
  refine .read fun w => ?_
  split
  · exact Std.Refl.refl w
  · rename_i streamed
    split
    · refine note_muted ?_ w
      cases event with
      | UsageSnapshot usage => simp [RunEvent.streamed] at streamed
      | _ => rfl
    · exact Std.Refl.refl w
theorem hydrate_tool_images_muted {messages : List ProjectedMessage} :
    Within Muted (hydrate_tool_images prepared messages : EngineM Digest (List ProjectedMessage)) := by
  have one (message : ProjectedMessage) : Within Muted (hydrateToolImage prepared message : EngineM Digest ProjectedMessage) := by
    unfold hydrateToolImage
    split
    · split
      · exact .pure _
      · refine orFail_muted.bind fun id => next_muted.bind fun choice => ?_
        split
        · exact .throw _
        · exact .throw _
        · exact .pure _
    · exact .pure _
  induction messages with
  | nil => exact .pure _
  | cons message rest ih => exact (one message).bind fun _ => ih.bind fun _ => .pure _

/-! ## Steps outside of cycles -/

def took (w : World Digest) (rest : List RunCommand) (command : Option RunCommand) : World Digest :=
  { w with commands := rest, received := w.received ++ [(w.log,command)] }
theorem took_silent (w : World Digest) (rest : List RunCommand) (command : Option RunCommand) :
    Silent w (took w rest command) := ⟨rfl,⟨[(w.log,command)],rfl,by simp [took]⟩,[],by simp [took]⟩
theorem recv_silent : Within Silent (recv : EngineM Digest (Option RunCommand)) := by
  refine .read fun w => ?_
  split
  · exact took_silent w _ _
  · split
    · exact Std.Refl.refl w
    · exact took_silent w w.commands none
theorem note_silent (apart : isCycle entry = false) (open_ : isFinish entry = false) :
    Within Silent (note entry : EngineM Digest Unit) := by
  refine .read fun w => ?_
  have noted : Silent w (w.note entry) := ⟨rfl,⟨[],by simp [World.note]⟩,[entry],rfl,by simp [apart,open_]⟩
  exact noted
theorem send_silent : Within Silent (send prepared event : EngineM Digest Unit) := by
  refine Within.bind ((next_muted.mono Muted.silent).bind fun _ => .read fun w => ?_) fun sent => ?_
  · split
    · exact (note_silent rfl rfl).bind (fun _ => .pure true) w
    · exact Std.Refl.refl w
  · cases sent with
    | true => exact .pure ()
    | false => exact .throw _
theorem append_batches_silent {batches : List MessageBatch} :
    Within Silent (append_batches prepared checkpoint batches : EngineM Digest (Nat × Bool)) := by
  have loop : ∀ (batches : List MessageBatch) (checkpoint : Nat) (inserted : Bool),
      Within Silent (appendBatches prepared checkpoint inserted batches : EngineM Digest (Nat × Bool)) := by
    intro batches
    induction batches with
    | nil => exact fun _ _ => .pure _
    | cons batch rest ih =>
      intro checkpoint inserted
      refine (appendMessages_muted.mono Muted.silent).bind fun result => ?_
      exact Within.bind (note_silent rfl rfl) fun _ => ih _ _
  exact loop batches checkpoint false
theorem commitResult_muted {result : ToolResult} {interrupted : Bool} :
    Within Muted (commitResult prepared round_id result interrupted : EngineM Digest Nat) := by
  refine commitToolResult_muted.bind fun committed => (send_muted rfl).bind fun _ => Within.bind ?_ fun _ => .pure _
  unfold waitSettled
  split
  · exact wait_for_state_ready_muted
  · exact .pure ()
theorem commitInterrupted_muted {calls : List ToolCall} : ∀ {checkpoint : Nat},
    Within Muted (commitInterrupted prepared round_id checkpoint calls : EngineM Digest Nat) := by
  induction calls with
  | nil => exact .pure _
  | cons call rest ih => exact commitResult_muted.bind fun _ => ih
theorem execute_silent {round : ToolRound} {insertions : List MessageBatch} :
    Within Silent (execute prepared checkpoint round insertions : EngineM Digest Nat) := by
  have loop : ∀ (fuel checkpoint remaining : Nat) (completed : List String) (pending : List MessageBatch),
      Within Silent (executeLoop prepared round.id round.calls fuel checkpoint remaining completed pending : EngineM Digest Nat) := by
    intro fuel
    induction fuel with
    | zero => exact fun _ _ _ _ => .throw _
    | succ fuel ih =>
      intro checkpoint remaining completed pending
      unfold executeLoop
      split
      · exact append_batches_silent.bind fun _ => .pure _
      · refine (next_muted.mono Muted.silent).bind fun choice => ?_
        split
        · exact (whenCancelled_muted (.throw _)).mono Muted.silent
        · refine recv_silent.bind fun command => ?_
          split
          · split
            · exact ih _ _ _ _
            · exact (commitResult_muted.mono Muted.silent).bind fun _ => ih _ _ _ _
          · refine (commitInterrupted_muted.mono Muted.silent).bind fun _ => ?_
            exact append_batches_silent.bind fun _ => append_batches_silent.bind fun _ => .pure _
          · exact ih _ _ _ _
          · exact .throw _
          · exact .throw _
        · exact .throw _
  refine ((transaction_muted fun _ => rfl).mono Muted.silent).bind fun _ => ?_
  refine ((send_muted rfl).mono Muted.silent).bind fun _ => ((send_muted rfl).mono Muted.silent).bind fun _ => ?_
  exact (loopFuel_muted.mono Muted.silent).bind fun fuel => loop fuel _ _ _ _

variable {pending : List MessageBatch}

theorem retryDelay_silent : Within Silent (retryDelay prepared pending : EngineM Digest (Option MessageBatch × List MessageBatch)) := by
  have interrupted : Within Silent (emit prepared .CycleInterrupted : EngineM Digest Bool) :=
    (emit_muted rfl).mono Muted.silent
  refine (loopFuel_muted.mono Muted.silent).bind fun fuel => ?_
  induction fuel generalizing pending with
  | zero => exact .throw _
  | succ fuel ih =>
    refine (next_muted.mono Muted.silent).bind fun choice => ?_
    split
    · exact .pure _
    · exact (whenCancelled_muted ((emit_muted rfl).bind fun _ => .throw _)).mono Muted.silent
    · refine recv_silent.bind fun command => ?_
      split
      · exact ih
      · exact .pure _
      · exact interrupted.bind fun _ => .throw _
      · exact .throw _
      · exact .throw _
    · exact .throw _
theorem interrupt_silent {interruption : MessageBatch} :
    Within Silent (interrupt prepared checkpoint pending interruption : EngineM Digest Nat) := by
  refine ((send_muted rfl).mono Muted.silent).bind fun _ => ?_
  exact append_batches_silent.bind fun _ => append_batches_silent.bind fun _ => .pure _
theorem finishCompaction_silent {cycle : ModelCycleResult} :
    Within Silent (finishCompaction prepared checkpoint cycle pending : EngineM Digest RunOutcome) := by
  unfold finishCompaction
  split
  · exact .throw _
  · dsimp only
    split
    · exact .throw _
    · refine ((checkpointTransaction_muted fun _ => rfl).mono Muted.silent).bind fun _ => ?_
      refine append_batches_silent.bind fun _ => (begin_finalizing_muted.mono Muted.silent).bind fun _ => ?_
      refine (drain_accepted_muted.mono Muted.silent).bind fun _ => append_batches_silent.bind fun _ => ?_
      refine ((send_muted rfl).mono Muted.silent).bind fun _ => ?_
      exact (wait_for_state_ready_muted.mono Muted.silent).bind fun _ => .pure _
theorem finishTurn_silent {index : Int} {cycle : ModelCycleResult} :
    Within Silent (finishTurn prepared checkpoint index cycle pending : EngineM Digest (Option Nat)) := by
  refine ((checkpointTransaction_muted fun _ => rfl).mono Muted.silent).bind fun _ => ?_
  refine append_batches_silent.bind ?_
  rintro ⟨checkpoint,inserted⟩
  dsimp only
  split
  · exact .pure _
  · refine (begin_finalizing_muted.mono Muted.silent).bind fun _ => ?_
    refine (drain_accepted_muted.mono Muted.silent).bind fun _ => ?_
    split
    · exact append_batches_silent.bind fun _ => (resume_running_muted.mono Muted.silent).bind fun _ => .pure _
    · refine ((send_muted rfl).mono Muted.silent).bind fun _ => ?_
      exact (wait_for_state_ready_muted.mono Muted.silent).bind fun _ => .pure _
theorem compactionEstimate_muted {history : List ProjectedMessage} :
    Within Muted (compactionEstimate prepared history : EngineM Digest (Option Nat)) := by
  refine .read fun w => ?_
  split
  · exact Std.Refl.refl w
  · exact (note_muted rfl).bind (fun _ => .pure _) w
theorem appendInitial_muted : ∀ {checkpoint : Nat} {changed : Bool},
    Within Muted (appendInitial prepared checkpoint changed messages : EngineM Digest (Nat × Bool)) := by
  induction messages with
  | nil => exact .pure _
  | cons m rest ih => exact appendMessageOnce_muted.bind fun _ => ih
theorem announceInitial_muted {changed : Bool} : Within Muted (announceInitial prepared checkpoint changed : EngineM Digest Unit) := by
  unfold announceInitial
  split
  · exact (send_muted rfl).bind fun _ => wait_for_state_ready_muted
  · exact .pure ()
theorem resumeRound_silent : Within Silent (resumeRound prepared checkpoint : EngineM Digest Nat) := by
  unfold resumeRound
  split
  · exact execute_silent
  · exact .pure _

/-! ## The usage between the steps -/

variable {outcome : RunOutcome}

/-- The run is not finished, and whatever was taken was taken earlier. -/
structure Regular (runs : Bool) (w : World Digest) : Prop where
  state : running w.log = runs
  unfinished : ∀ entry ∈ w.log, isFinish entry = false
  known : ∀ taken ∈ w.received, taken.1.length ≤ w.log.length

/-- Every usage that was reported is counted, but for that of the cycle that has
    just ended. -/
structure Owes (usage : Option Usage) (w : World Digest) : Prop extends Regular false w where
  owed : withCycle w.usage usage = total (reported w.log)

structure Books (runs : Bool) (w : World Digest) : Prop extends Regular runs w where
  counted : w.usage = total (reported w.log)

/-- A usage is lost: something else than messages was taken while its cycle ran, or
    an automatic compaction does not come to its end. -/
inductive Lost (w : World Digest) : Prop
  | taken (before : List Entry) (command : Option RunCommand) (during : List Entry) (result : CycleEnd)
      (since : List Entry) (member : (before,command) ∈ w.received) (runs : running before = true)
      (other : isMessages command = false) (log : w.log = before ++ during ++ .Cycled result :: since)
      (apart : ∀ entry ∈ during, isCycle entry = false) (used : (cycleUsage result).isSome = true)
  | compaction (before : List Entry) (invocation : ModelInvocation) (during : List Entry) (result : CycleEnd)
      (since : List Entry) (log : w.log = before ++ .Called invocation none :: during ++ .Cycled result :: since)
      (apart : ∀ entry ∈ during, isCycle entry = false) (used : (cycleUsage result).isSome = true)
      (short : since.any isReset = false ∨ since.countP isAnswer < takenBetween w (before.length + 1) (before.length + 1 + during.length))

/-- All usages are counted, or one is lost. -/
def Closed (w : World Digest) : Prop := (∃ runs, Books runs w) ∨ Lost w
/-- What holds wherever the run stops. -/
def Settled (_ : Halt) (w : World Digest) : Prop := Closed w

theorem Lost.excluded (lost : Lost w) (undisturbed : Undisturbed w) (ends : CompactionsEnd w) : False := by
  cases lost with
  | taken before command during result since member runs other log apart used =>
    have isMessage := undisturbed before command member runs during result since log apart used
    rw [other] at isMessage
    cases isMessage
  | compaction before invocation during result since log apart used short =>
    obtain ⟨told,answered⟩ := ends before invocation during result since log apart used
    rcases short with untold | fewer
    · rw [told] at untold
      cases untold
    · exact absurd answered (Nat.not_le.mpr fewer)
theorem Lost.grow {added : List Entry} (lost : Lost w) (received : after.received = w.received)
    (log : after.log = w.log ++ added) (plain : ∀ entry ∈ added, isAnswer entry = false ∧ isReset entry = false) :
    Lost after := by
  cases lost with
  | taken before command during result since member runs other isLog apart used =>
    exact .taken before command during result (since ++ added) (received ▸ member) runs other (by rw [log,isLog]; simp)
      apart used
  | compaction before invocation during result since isLog apart used short =>
    refine .compaction before invocation during result (since ++ added) (by rw [log,isLog]; simp) apart used ?_
    have untold : added.any isReset = false := List.any_eq_false.mpr fun entry member => by simp [(plain entry member).2]
    have unanswered : added.countP isAnswer = 0 :=
      List.countP_eq_zero.mpr fun entry member => by simp [(plain entry member).1]
    rw [List.any_append,untold,Bool.or_false,List.countP_append,unanswered,Nat.add_zero]
    rw [takenBetween,received]
    exact short
theorem Muted.lost (w after : World Digest) (same : Muted w after) (lost : Lost w) : Lost after := by
  obtain ⟨added,log,plain⟩ := same.log
  refine lost.grow same.received log fun entry member => ?_
  have isMuted := plain entry member
  simp only [muted,Bool.and_eq_true,Bool.not_eq_true'] at isMuted
  exact ⟨isMuted.1.1.2,isMuted.1.2⟩

variable {runs : Bool}

theorem Silent.regular (silent : Silent w after) (regular : Regular runs w) :
    Regular runs after ∧ reported after.log = reported w.log := by
  have grows := silent.grows
  obtain ⟨added,log,plain⟩ := silent.log
  obtain ⟨more,received,later⟩ := silent.received
  have apart : ∀ entry ∈ added, isCycle entry = false := fun entry member => (plain entry member).1
  refine ⟨⟨by rw [log,running_append apart,regular.state],?_,?_⟩,by rw [log,reported_append apart]⟩
  · intro entry member
    rw [log] at member
    rcases List.mem_append.mp member with old | new
    · exact regular.unfinished entry old
    · exact (plain entry new).2
  · intro taken member
    rw [received] at member
    rcases List.mem_append.mp member with old | new
    · exact (regular.known taken old).trans grows
    · exact (later taken new).2
theorem Silent.books (w after : World Digest) (silent : Silent w after) (books : Books runs w) : Books runs after := by
  obtain ⟨regular,same⟩ := silent.regular books.toRegular
  exact ⟨regular,by rw [silent.usage,same,books.counted]⟩

variable {usage : Option Usage}

theorem Silent.owes (w after : World Digest) (silent : Silent w after) (owes : Owes usage w) : Owes usage after := by
  obtain ⟨regular,same⟩ := silent.regular owes.toRegular
  exact ⟨regular,by rw [silent.usage,same,owes.owed]⟩

variable {x : EngineM Digest α}

theorem silent_books (silent : Within Silent x) : Triple (Books runs) x (fun _ => Books runs) Settled :=
  (silent.triple Silent.books).consequence (fun _ => id) (fun _ _ => id) fun _ _ books => .inl ⟨runs,books⟩
theorem muted_books (plain : Within Muted x) :
    Triple (Books runs) x (fun _ => Books runs) Settled := silent_books (plain.mono Muted.silent)
theorem muted_closed (plain : Within Muted x) : Triple Closed x (fun _ => Closed) Settled := by
  refine plain.triple fun w after same closed => closed.imp ?_ (Muted.lost w after same)
  rintro ⟨runs,books⟩
  exact ⟨runs,Silent.books w after (Muted.silent w after same) books⟩

variable {Q : α → World Digest → Prop}

theorem stuck_books : Triple (Books runs) (stuck : EngineM Digest α) Q Settled := .throw fun _ books => .inl ⟨runs,books⟩
theorem exit_books : Triple (Books runs) (exit outcome : EngineM Digest α) Q Settled := .throw fun _ books => .inl ⟨runs,books⟩

variable {result : CycleEnd}

theorem Regular.note (regular : Regular runs w) (entry : Entry)
    (open_ : isFinish entry = false) : Regular (runsAfter runs entry) (w.note entry) := by
  refine ⟨?_,?_,?_⟩
  · rw [World.note,running,List.foldl_append]
    exact congrArg (runsAfter · entry) regular.state
  · intro one member
    rcases List.mem_append.mp member with old | new
    · exact regular.unfinished one old
    · rw [List.mem_singleton.mp new]
      exact open_
  · intro taken member
    have earlier := regular.known taken member
    simp only [World.note,List.length_append]
    omega
theorem Books.called (books : Books false w) (invocation : ModelInvocation) (anchored : Option Nat) :
    Books true (w.note (.Called invocation anchored)) := by
  refine ⟨books.toRegular.note (.Called invocation anchored) rfl,?_⟩
  have same : reported (w.log ++ [.Called invocation anchored]) = reported w.log := by simp [reported,reportedUsage]
  exact books.counted.trans (congrArg total same.symm)
theorem Books.cycled (books : Books true w) (result : CycleEnd) : Owes (cycleUsage result) (w.note (.Cycled result)) := by
  refine ⟨books.toRegular.note (.Cycled result) rfl,?_⟩
  rw [World.note,total_cycled,← books.counted]
theorem called_books {invocation : ModelInvocation} {anchored : Option Nat} :
    Triple (Books false) (note (.Called invocation anchored) : EngineM Digest Unit) (fun _ => Books true) Settled :=
  .read fun _ books => .set fun _ _ => books.called invocation anchored
theorem Owes.none_books (owes : Owes none w) : Books false w := ⟨owes.toRegular,owes.owed⟩
theorem cycleEnds_owes :
    Triple (Books true) (cycleEnds result : EngineM Digest CycleEnd) (fun ended => Owes (cycleUsage ended)) Settled := by
  refine Triple.bind (Q := fun _ => Owes (cycleUsage result)) ?_ fun _ => .pure fun _ owes => owes
  exact .read fun w books => .set fun _ _ => books.cycled result
theorem awaitCycle_owes : Triple (Books true) (awaitCycle prepared : EngineM Digest CycleEnd)
    (fun ended => Owes (cycleUsage ended)) Settled := by
  refine Triple.bind (muted_books loopFuel_muted) fun fuel => ?_
  induction fuel with
  | zero => exact stuck_books
  | succ fuel ih =>
    refine Triple.bind (muted_books next_muted) fun choice => ?_
    split
    · exact Triple.bind (muted_books stream_muted) fun _ => ih
    · exact cycleEnds_owes
    · exact stuck_books
/-- Something else than messages was taken, and the cycle still runs. -/
structure Disturbed (w : World Digest) : Prop extends Books true w where
  taken : ∃ before command during, (before,command) ∈ w.received ∧ running before = true ∧
    isMessages command = false ∧ w.log = before ++ during ∧ ∀ entry ∈ during, isCycle entry = false

theorem Disturbed.muted (w after : World Digest) (same : Muted w after) (disturbed : Disturbed w) : Disturbed after := by
  refine ⟨Silent.books w after (Muted.silent w after same) disturbed.toBooks,?_⟩
  obtain ⟨before,command,during,member,runs,other,log,apart⟩ := disturbed.taken
  obtain ⟨added,isAdded,plain⟩ := (Muted.silent w after same).log
  refine ⟨before,command,during ++ added,same.received ▸ member,runs,other,by rw [isAdded,log]; simp,?_⟩
  intro entry inside
  rcases List.mem_append.mp inside with old | new
  · exact apart entry old
  · exact (plain entry new).1
theorem muted_disturbed (plain : Within Muted x) : Triple Disturbed x (fun _ => Disturbed) Settled :=
  (plain.triple Disturbed.muted).consequence (fun _ => id) (fun _ _ => id)
    fun _ _ disturbed => .inl ⟨true,disturbed.toBooks⟩
theorem stuck_disturbed : Triple Disturbed (stuck : EngineM Digest α) Q Settled :=
  .throw fun _ disturbed => .inl ⟨true,disturbed.toBooks⟩
theorem cycleEnds_disturbed : Triple Disturbed (cycleEnds result : EngineM Digest CycleEnd) (fun _ => Closed) Settled := by
  refine Triple.bind (Q := fun _ => Closed) (.read fun w disturbed => .set fun _ _ => ?_)
    fun _ => .pure fun _ closed => closed
  have owes := disturbed.toBooks.cycled result
  cases isUsage : cycleUsage result with
  | none => exact .inl ⟨false,Owes.none_books (isUsage ▸ owes)⟩
  | some usage =>
    obtain ⟨before,command,during,member,runs,other,log,apart⟩ := disturbed.taken
    refine .inr (.taken before command during result [] member runs other ?_ apart (by simp [isUsage]))
    rw [World.note,log]
theorem abandonCycle_settled : Triple Disturbed (abandonCycle prepared outcome : EngineM Digest α) Q Settled := by
  have loop : ∀ fuel,
      Triple Disturbed (awaitCycleLoop prepared fuel : EngineM Digest CycleEnd) (fun _ => Closed) Settled := by
    intro fuel
    induction fuel with
    | zero => exact stuck_disturbed
    | succ fuel ih =>
      refine Triple.bind (muted_disturbed next_muted) fun choice => ?_
      split
      · exact Triple.bind (muted_disturbed stream_muted) fun _ => ih
      · exact cycleEnds_disturbed
      · exact stuck_disturbed
  refine Triple.bind (Q := fun _ => Closed) (Triple.bind (muted_disturbed loopFuel_muted) loop) fun _ => ?_
  exact Triple.bind (muted_closed (emit_muted rfl)) fun _ => .throw fun _ closed => closed
theorem recv_takes {P : World Digest → Prop} {Q : Option RunCommand → World Digest → Prop}
    (takes : ∀ w rest command, P w → Q command (took w rest command)) (stops : ∀ w, P w → Settled .Stuck w) :
    Triple P (recv : EngineM Digest (Option RunCommand)) Q Settled := by
  refine .read fun w here => ?_
  split
  · exact .write (.pure fun _ same => same ▸ takes w _ _ here)
  · split
    · exact .throw fun _ same => same ▸ stops w here
    · exact .write (.pure fun _ same => same ▸ takes w w.commands none here)
theorem Books.took (books : Books true w) (rest : List RunCommand) (command : Option RunCommand)
    (other : isMessages command = false) : Disturbed (took w rest command) :=
  ⟨Silent.books w _ (took_silent w rest command) books,w.log,command,[],by simp [UsageTotals.took],books.state,other,
    by simp [UsageTotals.took],by simp⟩
theorem recv_books : Triple (Books true) (recv : EngineM Digest (Option RunCommand))
    (fun command w => Books true w ∧ (isMessages command = false → Disturbed w)) Settled :=
  recv_takes (fun w rest command books => ⟨Silent.books w _ (took_silent w rest command) books,books.took rest command⟩)
    fun _ books => .inl ⟨true,books⟩

def AfterCycle : Interruption → World Digest → Prop
  | .Ended result => Owes (cycleUsage result)
  | .Broken _ => Books true

theorem consumeCycle_books : Triple (Books true) (consumeCycle prepared pending : EngineM Digest (Interruption × List MessageBatch))
      (fun result => AfterCycle result.1) Settled := by
  refine Triple.bind (muted_books loopFuel_muted) fun fuel => ?_
  induction fuel generalizing pending with
  | zero => exact stuck_books
  | succ fuel ih =>
    refine Triple.bind (muted_books next_muted) fun choice => ?_
    split
    · exact Triple.bind (muted_books stream_muted) fun _ => ih
    · exact Triple.bind cycleEnds_owes fun _ => .pure fun _ owes => owes
    · refine Triple.bind recv_books fun command => ?_
      split
      · exact ih.before fun _ both => both.1
      · exact .pure fun _ both => both.1
      · exact abandonCycle_settled.before fun _ both => both.2 rfl
      · exact abandonCycle_settled.before fun _ both => both.2 rfl
      · exact abandonCycle_settled.before fun _ both => both.2 rfl
    · exact stuck_books

theorem recordUsage_books {anchored : Nat} :
    Triple (Owes usage) (recordUsage usage anchored : EngineM Digest Unit) (fun _ => Books false) Settled := by
  unfold recordUsage
  split
  · exact .pure fun _ owes => owes.none_books
  · exact .read fun w owes => .set fun _ _ => ⟨⟨owes.state,owes.unfinished,owes.known⟩,owes.owed⟩
theorem recordCompaction_books : Triple (Owes usage) (recordCompaction usage : EngineM Digest Unit) (fun _ => Books false) Settled := by
  refine .read fun w owes => ?_
  split
  · exact .set fun _ _ => ⟨⟨owes.state,owes.unfinished,owes.known⟩,owes.owed⟩
  · exact .set fun _ _ => ⟨⟨owes.state,owes.unfinished,owes.known⟩,owes.owed⟩

/-- The cycle of a compaction runs, and so many commands were taken since its call. -/
structure Summarizing (before : List Entry) (taken : Nat) (w : World Digest) : Prop extends Books true w where
  log : ∃ invocation during, w.log = before ++ .Called invocation none :: during ∧ ∀ entry ∈ during, isCycle entry = false
  commands : w.received.countP (fun command => before.length + 1 ≤ command.1.length) = taken

/-- The cycle of a compaction has ended, and its usage is not counted yet. Since
    then so many batches were answered. -/
structure Summarized (before : List Entry) (result : CycleEnd) (taken : Nat) (told : Bool) (answered : Nat)
    (w : World Digest) : Prop extends Owes (cycleUsage result) w where
  log : ∃ invocation during since, w.log = before ++ .Called invocation none :: during ++ .Cycled result :: since ∧
    (∀ entry ∈ during, isCycle entry = false) ∧ (told = false → since.any isReset = false) ∧
    since.countP isAnswer = answered ∧
    takenBetween w (before.length + 1) (before.length + 1 + during.length) = taken

variable {before : List Entry} {taken : Nat}

theorem Summarizing.muted (w after : World Digest) (same : Muted w after)
    (summarizing : Summarizing before taken w) : Summarizing before taken after := by
  refine ⟨Silent.books w after (Muted.silent w after same) summarizing.toBooks,?_,?_⟩
  · obtain ⟨invocation,during,log,apart⟩ := summarizing.log
    obtain ⟨added,isAdded,plain⟩ := same.log
    refine ⟨invocation,during ++ added,by rw [isAdded,log]; simp,fun entry member => ?_⟩
    rcases List.mem_append.mp member with old | new
    · exact apart entry old
    · have isMuted := plain entry new
      simp only [UsageTotals.muted,Bool.and_eq_true,Bool.not_eq_true'] at isMuted
      exact isMuted.1.1.1
  · rw [same.received]
    exact summarizing.commands

variable {answered : Nat} {told : Bool}

theorem Summarized.muted (w after : World Digest) (same : Muted w after) (summarized : Summarized before result taken told answered w) :
    Summarized before result taken told answered after := by
  refine ⟨Silent.owes w after (Muted.silent w after same) summarized.toOwes,?_⟩
  obtain ⟨invocation,during,since,log,apart,untold,answers,commands⟩ := summarized.log
  obtain ⟨added,isAdded,plain⟩ := same.log
  have untold' : added.any isReset = false := by
    refine List.any_eq_false.mpr fun entry member => ?_
    have isMuted := plain entry member
    simp only [UsageTotals.muted,Bool.and_eq_true,Bool.not_eq_true'] at isMuted
    simp [isMuted.1.2]
  have unanswered : added.countP isAnswer = 0 := by
    refine List.countP_eq_zero.mpr fun entry member => ?_
    have isMuted := plain entry member
    simp only [UsageTotals.muted,Bool.and_eq_true,Bool.not_eq_true'] at isMuted
    simp [isMuted.1.1.2]
  refine ⟨invocation,during,since ++ added,by rw [isAdded,log]; simp,apart,?_,?_,?_⟩
  · intro isUntold
    rw [List.any_append,untold isUntold,untold',Bool.or_false]
  · rw [List.countP_append,answers,unanswered,Nat.add_zero]
  · rw [takenBetween,same.received]
    exact commands

theorem Summarized.note (summarized : Summarized before result taken told answered w) (entry : Entry) (apart : isCycle entry = false)
    (open_ : isFinish entry = false) :
    Summarized before result taken (told || isReset entry) (answered + [entry].countP isAnswer) (w.note entry) := by
  have noted : Silent w (w.note entry) := ⟨rfl,⟨[],by simp [World.note]⟩,[entry],rfl,by simp [apart,open_]⟩
  refine ⟨Silent.owes w _ noted summarized.toOwes,?_⟩
  obtain ⟨invocation,during,since,log,within,untold,answers,commands⟩ := summarized.log
  refine ⟨invocation,during,since ++ [entry],by rw [World.note,log]; simp,within,?_,?_,commands⟩
  · intro isUntold
    obtain ⟨first,second⟩ := Bool.or_eq_false_iff.mp isUntold
    simp [List.any_append,untold first,second]
  · rw [List.countP_append,answers]

theorem Summarizing.cycled (summarizing : Summarizing before taken w)
    (result : CycleEnd) : Summarized before result taken false 0 (w.note (.Cycled result)) := by
  refine ⟨summarizing.toBooks.cycled result,?_⟩
  obtain ⟨invocation,during,log,apart⟩ := summarizing.log
  refine ⟨invocation,during,[],by rw [World.note,log],apart,fun _ => rfl,rfl,?_⟩
  rw [← summarizing.commands]
  refine List.countP_congr fun command member => ?_
  have earlier := summarizing.known command member
  rw [log,List.length_append,List.length_cons] at earlier
  simp only [Bool.and_eq_true,decide_eq_true_eq]
  omega

theorem Summarized.settled
    (summarized : Summarized before result taken told answered w) (short : told = false ∨ answered < taken) (halt : Halt) :
    Settled halt w := by
  cases isUsage : cycleUsage result with
  | none => exact .inl ⟨false,Owes.none_books (isUsage ▸ summarized.toOwes)⟩
  | some usage =>
    obtain ⟨invocation,during,since,log,apart,untold,answers,commands⟩ := summarized.log
    refine .inr (.compaction before invocation during result since log apart (by simp [isUsage]) ?_)
    rw [answers,commands]
    exact short.imp_left untold
theorem muted_summarized (plain : Within Muted x) (short : told = false ∨ answered < taken) :
    Triple (Summarized before result taken told answered) x (fun _ => Summarized before result taken told answered)
      Settled :=
  (plain.triple Summarized.muted).consequence (fun _ => id) (fun _ _ => id)
    fun halt _ summarized => summarized.settled short halt
theorem throw_summarized {halt : Halt} :
    Triple (Summarized before result taken false answered) (throw halt : EngineM Digest α) Q Settled :=
  .throw fun _ summarized => summarized.settled (.inl rfl) halt
theorem muted_summarizing (plain : Within Muted x) : Triple (Summarizing before taken) x (fun _ => Summarizing before taken) Settled :=
  (plain.triple Summarizing.muted).consequence (fun _ => id) (fun _ _ => id)
    fun _ _ summarizing => .inl ⟨true,summarizing.toBooks⟩

theorem cycleEnds_summarized : Triple (Summarizing before taken) (cycleEnds result : EngineM Digest CycleEnd)
      (fun ended => Summarized before ended taken false 0) Settled := by
  refine Triple.bind (Q := fun _ => Summarized before result taken false 0) ?_ fun _ => .pure fun _ summarized => summarized
  exact .read fun w summarizing => .set fun _ _ => summarizing.cycled result
theorem recv_summarizing : Triple (Summarizing before taken) (recv : EngineM Digest (Option RunCommand))
      (fun command w => Summarizing before (taken + 1) w ∧ (isMessages command = false → Disturbed w)) Settled := by
  refine recv_takes (fun w rest command summarizing => ⟨⟨?_,summarizing.log,?_⟩,summarizing.toBooks.took rest command⟩)
    fun _ summarizing => .inl ⟨true,summarizing.toBooks⟩
  · exact Silent.books w _ (took_silent w rest command) summarizing.toBooks
  · obtain ⟨invocation,during,log,_⟩ := summarizing.log
    have later : before.length + 1 ≤ w.log.length := by
      rw [log,List.length_append,List.length_cons]
      omega
    rw [UsageTotals.took,List.countP_append,summarizing.commands,List.countP_cons_of_pos (by simpa using later),List.countP_nil]
theorem awaitSilent_settled : Triple Disturbed (do
      let _ ← compactionCycleLoop.awaitSilent prepared
      exit outcome : EngineM Digest α) Q Settled := by
  refine Triple.bind (Q := fun _ => Closed) (Triple.bind (muted_disturbed next_muted) fun choice => ?_)
    fun _ => .throw fun _ closed => closed
  split
  · exact cycleEnds_disturbed
  · exact stuck_disturbed
theorem compactionCycleLoop_summarized (fuel : Nat) : ∀ (pending : List MessageBatch),
    Triple (Summarizing before pending.length)
      (compactionCycleLoop prepared fuel pending : EngineM Digest (CycleEnd × Option MessageBatch × List MessageBatch))
      (fun result => Summarized before result.1 (result.2.2.length + result.2.1.toList.length) false 0) Settled := by
  induction fuel with
  | zero => exact fun _ => .throw fun _ summarizing => .inl ⟨true,summarizing.toBooks⟩
  | succ fuel ih =>
    intro pending
    refine Triple.bind (muted_summarizing next_muted) fun choice => ?_
    split
    · exact Triple.bind cycleEnds_summarized fun _ => .pure fun _ summarized => summarized
    · refine Triple.bind recv_summarizing fun command => ?_
      split
      · rename_i insertion
        refine (ih (pending ++ [insertion])).before fun w both => ?_
        rw [List.length_append]
        exact both.1
      · refine Triple.bind (Q := fun ended => Summarized before ended (pending.length + 1) false 0) ?_
          fun _ => .pure fun _ summarized => summarized
        refine Triple.bind ((muted_summarizing next_muted).before fun _ both => both.1) fun choice => ?_
        split
        · exact cycleEnds_summarized
        · exact .throw fun _ summarizing => .inl ⟨true,summarizing.toBooks⟩
      · exact awaitSilent_settled.before fun _ both => both.2 rfl
      · exact awaitSilent_settled.before fun _ both => both.2 rfl
      · exact awaitSilent_settled.before fun _ both => both.2 rfl
    · exact .throw fun _ summarizing => .inl ⟨true,summarizing.toBooks⟩

theorem append_batches_summarized {batches : List MessageBatch} (enough : answered + batches.length ≤ taken) :
    Triple (Summarized before result taken told answered) (append_batches prepared checkpoint batches : EngineM Digest (Nat × Bool))
      (fun _ => Summarized before result taken told (answered + batches.length)) Settled := by
  have loop : ∀ (batches : List MessageBatch) (answered checkpoint : Nat) (inserted : Bool),
      answered + batches.length ≤ taken →
      Triple (Summarized before result taken told answered)
        (appendBatches prepared checkpoint inserted batches : EngineM Digest (Nat × Bool))
        (fun _ => Summarized before result taken told (answered + batches.length)) Settled := by
    intro batches
    induction batches with
    | nil => exact fun _ _ _ _ => .pure fun _ summarized => summarized
    | cons batch rest ih =>
      intro answered checkpoint inserted enough
      rw [List.length_cons] at enough
      refine Triple.bind (muted_summarized appendMessages_muted (.inr (by omega))) fun one => ?_
      refine Triple.bind (Q := fun _ => Summarized before result taken told (answered + 1)) ?_ fun _ => ?_
      · refine .read fun w summarized => .set fun _ _ => ?_
        simpa [isReset,isAnswer] using summarized.note (.Answered batch.ticket _) rfl rfl
      · refine (ih (answered + 1) _ _ (by omega)).consequence (fun _ => id) (fun _ _ summarized => ?_) fun _ _ => id
        rw [List.length_cons,show answered + (rest.length + 1) = answered + 1 + rest.length by omega]
        exact summarized
  exact loop batches answered checkpoint false enough

theorem send_reset_summarized :
    Triple (Summarized before result taken false 0) (send prepared (.UsageSnapshot (context_usage_snapshot 0)) : EngineM Digest Unit)
      (fun _ => Summarized before result taken true 0) Settled := by
  refine Triple.bind (Q := fun sent w => if sent then Summarized before result taken true 0 w
    else Summarized before result taken false 0 w) ?_ fun sent => ?_
  · refine Triple.bind (muted_summarized next_muted (.inl rfl)) fun _ => .read fun w summarized => ?_
    split
    · refine .bind (Q := fun _ => Summarized before result taken true 0) ?_ fun _ => .pure fun _ there => there
      refine .read fun now same => .set fun _ _ => ?_
      subst same
      simpa [isReset,isAnswer] using summarized.note (.Emitted (.UsageSnapshot (context_usage_snapshot 0))) rfl rfl
    · exact .pure fun _ same => by simpa using same ▸ summarized
  · cases sent with
    | true => exact .pure fun _ summarized => summarized
    | false => exact throw_summarized

theorem auto_compact_owes : Triple (Books false) (auto_compact prepared checkpoint messages : EngineM Digest (Nat × Option Usage))
      (fun result => Owes result.2) Settled := by
  unfold auto_compact
  dsimp only
  split
  · refine Triple.bind (muted_books orFail_muted) fun _ => ?_
    split
    · exact exit_books
    · exact exit_books
  · refine Triple.bind (muted_books (send_muted rfl)) fun _ => ?_
    refine Triple.bind (muted_books beginProviderCall_muted) fun _ => Triple.bind (muted_books orFail_muted) fun _ => ?_
    refine Triple.bind (Q := fun _ w => ∃ before, Summarizing before 0 w) ?_ fun _ => .exists_ fun before => ?_
    · refine .read fun w books => .set fun _ _ => ⟨w.log,books.called _ _,⟨_,[],rfl,by simp⟩,?_⟩
      refine List.countP_eq_zero.mpr fun command member => ?_
      have earlier := books.known command member
      simp only [decide_eq_true_eq]
      omega
    · refine Triple.bind (muted_summarizing loopFuel_muted) fun fuel => ?_
      refine Triple.bind (compactionCycleLoop_summarized fuel []) ?_
      rintro ⟨result,broken,pending⟩
      refine Triple.bind (muted_summarized orFail_muted (.inl rfl)) fun _ => ?_
      split
      · exact throw_summarized
      · refine Triple.bind (muted_summarized (checkpointTransaction_muted fun _ => rfl) (.inl rfl)) fun _ => ?_
        refine Triple.bind (muted_summarized (send_muted rfl) (.inl rfl)) fun _ => ?_
        refine Triple.bind (muted_summarized wait_for_state_ready_muted (.inl rfl)) fun _ => ?_
        refine Triple.bind (muted_summarized (send_muted rfl) (.inl rfl)) fun _ => ?_
        refine Triple.bind send_reset_summarized fun _ => ?_
        refine Triple.bind (append_batches_summarized (by simp)) fun _ => ?_
        cases broken with
        | none => exact .pure fun _ summarized => summarized.toOwes
        | some messages =>
          refine Triple.bind (append_batches_summarized (by simp)) fun _ => ?_
          exact .pure fun _ summarized => summarized.toOwes

def AfterAttempt : Attempt → World Digest → Prop
  | .Cycle cycle _ => Owes cycle.usage
  | .Continue _ _ => Books false

theorem attemptLoop_books {provider_call_index : Int} {request : ModelRequest} {anchored : Nat}
    {overflow_compacted : Bool} (fuel : Nat) : ∀ (retries : Nat) (pending : List MessageBatch),
    Triple (Books false) (attemptLoop prepared provider_call_index request anchored checkpoint overflow_compacted fuel retries pending :
        EngineM Digest Attempt) AfterAttempt Settled := by
  induction fuel with
  | zero => exact fun _ _ => stuck_books
  | succ fuel ih =>
    intro retries pending
    refine Triple.bind called_books fun _ => Triple.bind consumeCycle_books fun ended => ?_
    split
    · refine Triple.bind awaitCycle_owes fun _ => Triple.bind recordUsage_books fun _ => ?_
      exact Triple.bind (silent_books interrupt_silent) fun _ => .pure fun _ books => books
    · exact .pure fun _ owes => owes
    · refine Triple.bind recordUsage_books fun _ => Triple.bind (muted_books is_cancelled_muted) fun cancelled => ?_
      split
      · exact Triple.bind (muted_books (emit_muted rfl)) fun _ => exit_books
      · split
        · refine Triple.bind (silent_books append_batches_silent) fun _ => ?_
          refine Triple.bind (muted_books loadMessages_muted) fun _ => Triple.bind auto_compact_owes fun _ => ?_
          exact Triple.bind recordCompaction_books fun _ => .pure fun _ books => books
        · split
          · exact exit_books
          · refine Triple.bind (muted_books (send_muted rfl)) fun _ => ?_
            refine Triple.bind (silent_books retryDelay_silent) fun delay => ?_
            split
            · exact ih _ _
            · exact Triple.bind (silent_books interrupt_silent) fun _ => .pure fun _ books => books

theorem modelLoop_books (fuel : Nat) : ∀ (checkpoint : Nat) (overflow_compacted : Bool),
    Triple (Books false) (modelLoop prepared fuel checkpoint overflow_compacted : EngineM Digest RunOutcome)
      (fun _ => Books false) Settled := by
  induction fuel with
  | zero => exact fun _ _ => stuck_books
  | succ fuel ih =>
    intro checkpoint overflow_compacted
    refine Triple.bind (muted_books is_cancelled_muted) fun cancelled => ?_
    split
    · exact exit_books
    · refine Triple.bind (muted_books loadMessages_muted) fun _ => Triple.bind (muted_books orFail_muted) fun _ => ?_
      refine Triple.bind (muted_books compactionEstimate_muted) fun estimate => ?_
      split
      · refine Triple.bind (silent_books send_silent) fun _ => ?_
        exact Triple.bind auto_compact_owes fun _ => Triple.bind recordCompaction_books fun _ => ih _ _
      · refine Triple.bind (muted_books beginProviderCall_muted) fun _ => ?_
        refine Triple.bind (muted_books hydrate_tool_images_muted) fun _ => ?_
        refine Triple.bind (muted_books loopFuel_muted) fun attempts => ?_
        refine Triple.bind (attemptLoop_books attempts 0 []) fun attempt => ?_
        split
        · exact ih _ _
        · refine Triple.bind recordUsage_books fun _ => ?_
          split
          · exact silent_books finishCompaction_silent
          · split
            · refine Triple.bind (silent_books finishTurn_silent) fun next => ?_
              split
              · exact ih _ _
              · exact .pure fun _ books => books
            · exact Triple.bind (silent_books execute_silent) fun _ => ih _ _

theorem run_claimed_books : Triple (Books false)
    (run_claimed prepared checkpoint : EngineM Digest RunOutcome) (fun _ => Books false) Settled := by
  refine Triple.bind (muted_books latest_context_usage_muted) fun anchor => ?_
  refine .read fun w books => .write ?_
  refine Triple.before (P := Books false) ?_ fun now same => same ▸ ?_
  · refine Triple.bind (muted_books appendInitial_muted) fun _ => ?_
    refine Triple.bind (muted_books announceInitial_muted) fun _ => ?_
    refine Triple.bind (silent_books resumeRound_silent) fun _ => ?_
    exact Triple.bind (muted_books loopFuel_muted) fun fuel => modelLoop_books fuel _ _
  · exact Silent.books w _ (Muted.silent w _ (.of_note rfl rfl rfl rfl)) books

/-- The usage of the run, and the one that it is finished with, is the sum of
    what its cycles reported. -/
def Accounted (w : World Digest) : Prop :=
  w.usage = total (reported w.log) ∧
    ∀ run_id status usage failure reply, .Stored (.finish_run run_id status usage failure) reply ∈ w.log → usage = total (reported w.log)

theorem Books.accounted (books : Books runs w) : Accounted w := by
  refine ⟨books.counted,fun run_id status usage failure reply member => ?_⟩
  have unfinished := books.unfinished _ member
  cases unfinished
theorem Accounted.grow {added : List Entry} (accounted : Accounted w)
    (usage : after.usage = w.usage) (log : after.log = w.log ++ added) (apart : ∀ entry ∈ added, isCycle entry = false)
    (finished : ∀ run_id status usage failure reply, .Stored (.finish_run run_id status usage failure) reply ∈ added →
      usage = w.usage) : Accounted after := by
  have same : reported after.log = reported w.log := by rw [log,reported_append apart]
  refine ⟨by rw [usage,same,accounted.1],?_⟩
  intro run_id status passed failure reply member
  rw [same]
  rw [log] at member
  rcases List.mem_append.mp member with old | new
  · exact accounted.2 run_id status passed failure reply old
  · exact (finished run_id status passed failure reply new).trans accounted.1
theorem Muted.accounted (w after : World Digest) (same : Muted w after) (accounted : Accounted w ∨ Lost w) :
    Accounted after ∨ Lost after := by
  refine accounted.imp (fun accounted => ?_) (Muted.lost w after same)
  obtain ⟨added,log,plain⟩ := same.log
  have isMuted : ∀ entry ∈ added, isCycle entry = false ∧ isFinish entry = false := by
    intro entry member
    have isMuted := plain entry member
    simp only [muted,Bool.and_eq_true,Bool.not_eq_true'] at isMuted
    exact ⟨isMuted.1.1.1,isMuted.2⟩
  refine accounted.grow same.usage log (fun entry member => (isMuted entry member).1) ?_
  intro run_id status usage failure reply member
  exact absurd (isMuted _ member).2 (by simp [isFinish])

theorem finish_run_accounts {run_id : RunId} {status : RunStatus} {failure : Option (String × String)} :
    Triple (fun w : World Digest => (Accounted w ∨ Lost w) ∧ w.usage = usage)
      (tryTransaction prepared (.finish_run run_id status usage failure))
      (fun _ w => Accounted w ∨ Lost w) (fun _ w => Accounted w ∨ Lost w) := by
  refine Triple.bind (Q := fun _ w => (Accounted w ∨ Lost w) ∧ w.usage = usage) ?_ fun choice => ?_
  · refine (next_muted.triple fun w after same both => ?_).consequence (fun _ => id) (fun _ _ => id) fun _ _ both => both.1
    exact ⟨Muted.accounted w after same both.1,same.usage.trans both.2⟩
  · split
    · exact .pure fun _ both => both.1
    · refine .read fun w both => ?_
      split
      · exact .pure fun _ same => same ▸ both.1
      · refine .write (.pure fun _ same => same ▸ ?_)
        refine both.1.imp (fun accounted => ?_) fun lost => lost.grow rfl rfl (by simp [isAnswer,isReset])
        refine accounted.grow rfl rfl (by simp [isCycle]) ?_
        intro run_id' status' passed failure' reply' member
        obtain ⟨same,_⟩ := Entry.Stored.inj (List.mem_singleton.mp member)
        obtain ⟨_,_,isUsage,_⟩ := Op.finish_run.inj same
        exact isUsage.trans both.2.symm
theorem endRun_accounts : Triple (fun w : World Digest => Accounted w ∨ Lost w) (endRun prepared outcome)
      (fun _ w => Accounted w ∨ Lost w) (fun _ w => Accounted w ∨ Lost w) :=
  (finish_muted.bind fun _ => (emit_muted rfl).bind fun _ => .pure outcome).triple Muted.accounted
theorem run_accounts : Triple (Books false) (run prepared : EngineM Digest RunOutcome)
    (fun _ w => Accounted w ∨ Lost w) (fun _ w => Accounted w ∨ Lost w) := by
  have stopped : ∀ halt (w : World Digest), Settled halt w → Accounted w ∨ Lost w :=
    fun _ _ settled => settled.imp_left fun ⟨_,books⟩ => books.accounted
  refine Triple.bind (Q := fun _ => Books false)
    ((muted_books (tryTransaction_muted fun _ => rfl)).consequence (fun _ => id) (fun _ _ => id) stopped) fun claimed => ?_
  split
  · refine Triple.bind (Q := fun _ w => Accounted w ∨ Lost w) (Triple.tryCatch (C := Settled) ?_ fun halt => ?_)
      fun outcome => ?_
    · exact run_claimed_books.consequence (fun _ => id) (fun _ _ books => .inl books.accounted) fun _ _ => id
    · cases halt with
      | Stuck => exact .throw (stopped .Stuck)
      | Ended outcome => exact .pure (stopped (.Ended outcome))
    · refine .read fun w accounted => Triple.bind (Q := fun _ w => Accounted w ∨ Lost w) ?_ fun _ => endRun_accounts
      refine finish_run_accounts.before fun now same => ?_
      subst same
      exact ⟨accounted,rfl⟩
  · exact .throw fun _ books => .inl books.accounted
  · exact endRun_accounts.before fun _ books => .inl books.accounted

/-- Where nothing but messages is taken while a cycle runs that reports a usage,
    and every automatic compaction whose cycle reported one comes to its end, the
    usage that a run is finished with is the sum of what its cycles reported. -/
theorem usage_counted_once (prepared : PreparedRun) (store : Tables Digest) (script : List Move)
    {result : Except Halt RunOutcome} {w : World Digest} (ran : runFrom (run prepared) (initial store script) = (result,w))
    (undisturbed : Undisturbed w) (ends : CompactionsEnd w) :
    w.usage = total (reported w.log) ∧
      ∀ run_id status usage failure reply, .Stored (.finish_run run_id status usage failure) reply ∈ w.log →
        usage = total (reported w.log) := by
  have fresh : Books false (initial store script) := ⟨⟨rfl,by simp [initial],by simp [initial]⟩,rfl⟩
  have accounts := @run_accounts Digest _ _ _ _ prepared (initial store script) fresh
  rw [ran] at accounts
  have accounted : Accounted w ∨ Lost w := by
    cases result with
    | ok outcome => exact accounts
    | error halt => exact accounts
  rcases accounted with accounted | lost
  · exact accounted
  · exact (lost.excluded undisturbed ends).elim

end Runs

section Identity
local instance : MessageHash (List CanonicalMessage) := ⟨id⟩
-- Neither tools, tool calls nor images occur in the runs below, so nothing of these is used.
local instance : SerdeText := ⟨fun _ => "",fun _ => "",fun _ => ""⟩
local instance : Blobs := ⟨fun _ => .ok [],id⟩

def oneUsage : Usage := ⟨some 100,some 100,some 5,some 105,none,none,none⟩
def starting : List Move := [{},{ choice := .Anchor none },{},{},{}]
/-- A cycle that was cancelled after the provider had reported its usage. -/
def cancelledCycle : Move := { choice := .Cycle (.error ⟨.Provider "cancelled","","",some oneUsage,false⟩) }
/-- A reminder breaks the first cycle; the second one ends the run. -/
def brokenRun : List Move :=
  starting ++ [{ actions := [.submit_messages "reminder" [reminder] true], choice := .Command },cancelledCycle,
    {},{},{},ready,{},{},{},{ choice := .Cycle (.ok ⟨"call","done","",none,[],some oneUsage,.Stop⟩) },{},{},{},{},ready,{},{},{}]
def cancelledRun : List Move := starting ++ [{ actions := [.cancel], choice := .Command },cancelledCycle,{},{},{},{}]

def finishedWith : Entry → Option (Option Usage)
  | .Stored (.finish_run _ _ usage _) _ => some usage
  | _ => none
def isCompactionCall : Entry → Bool
  | .Called _ none => true
  | _ => false

theorem undisturbed_of_all {w : World Digest}
    (messages : w.received.all (fun taken => !running taken.1 || isMessages taken.2) = true) : Undisturbed w := by
  intro before command member runs _ _ _ _ _ _
  have isMessage := List.all_eq_true.mp messages _ member
  simpa [runs] using isMessage
theorem compactionsEnd_of_none {w : World Digest} (none_ : w.log.any isCompactionCall = false) : CompactionsEnd w := by
  intro before invocation during result since log _ _
  rw [log] at none_
  simp [isCompactionCall] at none_

theorem usage_counted_once_broken : (runOf brokenRun).1 = .ok .Completed ∧ reported (runOf brokenRun).2.log = [oneUsage,oneUsage] ∧
      ∃ usage, (runOf brokenRun).2.log.filterMap finishedWith = [usage] ∧ usage = total [oneUsage,oneUsage] := by
  have counts : reported (runOf brokenRun).2.log = [oneUsage,oneUsage] := by decide +kernel
  have finished : (runOf brokenRun).2.log.filterMap finishedWith = [(runOf brokenRun).2.usage] := by decide +kernel
  have sum := (usage_counted_once turn (replay [.import_checkpoint "c" [greeting]]) brokenRun
    (w := (runOf brokenRun).2) Prod.mk.eta.symm (undisturbed_of_all (by decide +kernel))
    (compactionsEnd_of_none (by decide +kernel))).1
  rw [counts] at sum
  exact ⟨by decide +kernel,counts,_,finished,sum⟩

/-- The engine waits for the cycle that is cancelled and drops what it returns, so
    the run is finished with no usage although its cycle reported one. -/
theorem cancelled_usage_lost : (runOf cancelledRun).1 = .ok .Cancelled ∧ reported (runOf cancelledRun).2.log = [oneUsage] ∧
    ¬ ∀ run_id status usage failure reply,
      .Stored (.finish_run run_id status usage failure) reply ∈ (runOf cancelledRun).2.log →
        usage = total (reported (runOf cancelledRun).2.log) := by
  have counts : reported (runOf cancelledRun).2.log = [oneUsage] := by decide +kernel
  have finished : (runOf cancelledRun).2.log.filterMap finishedWith = [none] := by decide +kernel
  refine ⟨by decide +kernel,counts,fun claim => ?_⟩
  have member : none ∈ (runOf cancelledRun).2.log.filterMap finishedWith := by
    rw [finished]
    exact List.mem_singleton_self _
  obtain ⟨entry,logged,isFinished⟩ := List.mem_filterMap.mp member
  cases entry with
  | Stored op reply =>
    cases op with
    | finish_run run_id status usage failure =>
      have none_ : usage = none := Option.some.inj isFinished
      have sum := claim run_id status usage failure reply logged
      rw [none_,counts] at sum
      cases sum
    | _ => cases isFinished
  | _ => cases isFinished

end Identity

end MyCursor.UsageTotals

import MyCursor.RunSteps

/-!
# The engine takes only steps of a run

Every function of the engine, from a control state it can be called in, ends
in the control state that belongs to its result, or stops in some control
state with another outcome than completion.
-/
namespace MyCursor.EngineSteps
open Message Store StoreSteps Projection Compaction Run
open Engine RunSteps Hoare
set_option linter.unusedSectionVars false

variable {Digest : Type} [DecidableEq Digest] [MessageHash Digest] [SerdeText] [Blobs] {prepared : PreparedRun}
variable {start : Start Digest} {c d : Control} {α : Type}

variable {outcome : RunOutcome}

variable (prepared start) in
def At (c : Control) (w : World Digest) : Prop := Reach prepared start ⟨c,w⟩
variable (prepared start) in
/-- The run has come to some control state and stops without being completed. -/
def Stopped (halt : Halt) (w : World Digest) : Prop := halt ≠ .Ended .Completed ∧ ∃ c, At prepared start c w
variable (prepared start) in
/-- The program brings the run from a control state to that of its result. -/
def Moves (c : Control) (x : EngineM Digest α) (after : α → Control) : Prop :=
  Triple (At prepared start c) x (fun a => At prepared start (after a)) (Stopped prepared start)

variable {w : World Digest}

theorem At.step {w' : World Digest} (here : At prepared start c w) (step : Step prepared ⟨c,w⟩ ⟨d,w'⟩) :
    At prepared start d w' := Relation.ReflTransGen.tail here step
theorem At.grounded (here : At prepared start c w) : Grounded prepared ⟨c,w⟩ := Reach.grounded here

variable {Q : α → World Digest → Prop}

variable {P : World Digest → Prop}

theorem stuck_triple (here : ∀ w, P w → ∃ c, At prepared start c w) : Triple P (stuck : EngineM Digest α) Q (Stopped prepared start) :=
  .throw fun w holds => ⟨by simp,here w holds⟩
theorem exit_triple (other : outcome ≠ .Completed) (here : ∀ w, P w → ∃ c, At prepared start c w) :
    Triple P (exit outcome : EngineM Digest α) Q (Stopped prepared start) :=
  .throw fun w holds => ⟨by simpa using other,here w holds⟩

variable {after : α → Control}

theorem stuck_moves : Moves prepared start c (stuck : EngineM Digest α) after :=
  stuck_triple fun _ here => ⟨c,here⟩
theorem exit_moves (other : outcome ≠ .Completed) : Moves prepared start c (exit outcome : EngineM Digest α) after :=
  exit_triple other fun _ here => ⟨c,here⟩
theorem failed_moves {error : Error} : Moves prepared start c (failed error : EngineM Digest α) after := exit_moves (by simp)
theorem pure_moves {a : α} (same : after a = c) : Moves prepared start c (pure a : EngineM Digest α) after :=
  .pure fun _ here => same ▸ here
theorem Moves.bind {β : Type} {x : EngineM Digest α} {f : α → EngineM Digest β} {middle : α → Control} {after : β → Control}
    (first : Moves prepared start c x middle) (later : ∀ a, Moves prepared start (middle a) (f a) after) :
    Moves prepared start c (x >>= f) after := Triple.bind first later

variable {entry : Entry}

variable {event : RunEvent}

theorem foldl_act_at (here : At prepared start c w) (actions : List Action) :
    At prepared start c (actions.foldl (act prepared.run_id) w) := by
  induction actions generalizing w with
  | nil => exact here
  | cons action rest ih => exact ih (here.step (.act action))
theorem foldl_act_phase (r : RunId) (actions : List Action) (w : World Digest) : (actions.foldl (act r) w).phase = w.phase := by
  induction actions generalizing w with
  | nil => rfl
  | cons action rest ih => exact (ih _).trans (act_acted r w action).phase

theorem next_phase (phase : RunPhase) : Triple (fun w => At prepared start c w ∧ w.phase = phase) (next prepared)
      (fun _ w => At prepared start c w ∧ w.phase = phase) (Stopped prepared start) := by
  refine .read fun w here => ?_
  split
  · exact stuck_triple fun _ same => ⟨c,same ▸ here.1⟩
  · rename_i move rest _
    refine .write (.pure ?_)
    rintro _ rfl
    refine ⟨foldl_act_at ?_ _,(foldl_act_phase _ _ _).trans here.2⟩
    exact here.1.step (.internal rest w.received)
theorem next_moves : Moves prepared start c (next prepared) fun _ => c := by
  intro w here
  exact (next_phase w.phase).consequence (fun _ same => same) (fun _ _ both => both.1) (fun _ _ stop => stop) w ⟨here,rfl⟩

theorem loopFuel_triple : Triple P loopFuel (fun _ => P) (Stopped prepared start) :=
  .read fun _ holds => .pure fun _ same => same ▸ holds
theorem note_moves (noted : ∀ w, At prepared start c w → At prepared start d (w.note entry)) :
    Moves prepared start c (note entry) fun _ => d :=
  .read fun w here => .set fun _ _ => noted w here

theorem emit_triple {Q : World Digest → Prop} (noted : ∀ w, At prepared start c w → Q (w.note (.Emitted event))) :
    Triple (At prepared start c) (emit prepared event) (fun sent w => if sent then Q w else At prepared start c w)
      (Stopped prepared start) := by
  refine Triple.bind next_moves fun _ => .read fun w here => ?_
  split
  · refine .bind (Q := fun _ => Q) ?_ fun _ => .pure fun _ there => there
    refine .read fun now same => .set fun _ _ => noted now ?_
    exact same ▸ here
  · exact .pure fun _ same => same ▸ here
theorem send_triple {Q : World Digest → Prop} (noted : ∀ w, At prepared start c w → Q (w.note (.Emitted event))) :
    Triple (At prepared start c) (send prepared event) (fun _ => Q) (Stopped prepared start) := by
  refine (emit_triple noted).bind fun sent => ?_
  cases sent with
  | true => exact .pure fun _ there => there
  | false => exact exit_triple (by simp [client_failure]) fun _ here => ⟨c,here⟩
theorem send_moves (noted : ∀ w, At prepared start c w → At prepared start d (w.note (.Emitted event))) :
    Moves prepared start c (send prepared event) fun _ => d := send_triple noted
theorem emit_plain (plain : Plain (.Emitted event)) : Moves prepared start c (emit prepared event) fun _ => c := by
  have moves : Triple (At prepared start c) (emit prepared event)
      (fun sent w => if sent then At prepared start c w else At prepared start c w) (Stopped prepared start) :=
    emit_triple fun _ here => here.step (.plain plain)
  simpa [Moves] using moves
theorem send_plain (plain : Plain (.Emitted event)) : Moves prepared start c (send prepared event) fun _ => c :=
  send_moves fun _ here => here.step (.plain plain)
def Control.telling (c : Control) (cause : CommitCause) : Control :=
  { c with flags := { c.flags with rewritten := c.flags.rewritten && !isCompaction cause } }
theorem At.tells (here : At prepared start c w) (state : MessagesCommitted) (closed : c.round = none)
    (reached : c.checkpoint = some state.checkpoint_id) (plain : PlainCause state.cause)
    (order : c.flags.rewritten = true → isCompaction state.cause = true ∨
      (prepared.action = .Compact ∧ ∃ event_id, state.cause = .RuntimeEvent event_id))
    (busy : ∀ event_id, state.cause = .RuntimeEvent event_id → c.applied ≠ []) :
    At prepared start (Control.telling c state.cause) (w.note (.Emitted (.MessagesCommitted state))) :=
  here.step (.announce closed reached plain order busy)
theorem send_commit {state : MessagesCommitted} (closed : c.round = none) (reached : c.checkpoint = some state.checkpoint_id)
    (plain : PlainCause state.cause) (order : c.flags.rewritten = true → isCompaction state.cause = true)
    (own : ∀ event_id, state.cause ≠ .RuntimeEvent event_id) :
    Moves prepared start c (send prepared (.MessagesCommitted state)) fun _ => Control.telling c state.cause :=
  send_moves fun _ here => here.tells state closed reached plain (fun rewritten => .inl (order rewritten))
    fun event_id isEvent => absurd isEvent (own event_id)

theorem is_cancelled_moves : Moves prepared start c (is_cancelled prepared) fun _ => c :=
  next_moves.bind fun _ => .read fun _ here => .pure fun _ same => same ▸ here
theorem whenCancelled_triple {branch : EngineM Digest α} (triple : Triple (At prepared start c) branch Q (Stopped prepared start)) :
    Triple (At prepared start c) (whenCancelled branch) Q (Stopped prepared start) := by
  refine .read fun w here => ?_
  split
  · exact triple.before fun _ same => same ▸ here
  · exact stuck_triple fun _ same => ⟨c,same ▸ here⟩
theorem wait_for_state_ready_moves : Moves prepared start c (wait_for_state_ready prepared) fun _ => c := by
  refine next_moves.bind fun choice => ?_
  split
  · exact pure_moves rfl
  · exact exit_moves (by simp)
  · exact exit_moves (by simp [client_failure])
  · exact whenCancelled_triple (exit_moves (by simp))
  · exact stuck_moves

def Control.taking (c : Control) (command : Option RunCommand) : Control :=
  { c with held := c.held ++ (command.map batchesOf).getD [] }
theorem recv_moves : Moves prepared start c recv (Control.taking c) := by
  refine .read fun w here => ?_
  split
  · rename_i command rest queued
    refine .write (.pure fun _ same => ?_)
    exact same ▸ (here.step (.receive queued)).step (.internal w.script _)
  · split
    · exact stuck_triple fun _ same => ⟨c,same ▸ here⟩
    · refine .write (.pure fun _ same => ?_)
      have there := here.step (.internal w.script (w.received ++ [(w.log,none)]))
      simpa [Control.taking,same] using there

variable {m : CanonicalMessage}

variable {op : Op} {checkpoint : Nat}

theorem tryTransaction_triple {Q : Reply → World Digest → Prop}
    (stored : ∀ w reply store, At prepared start c w → transact w.store op = .ok (reply,store) →
      Q reply (World.stored w op reply store)) :
    Triple (At prepared start c) (tryTransaction prepared op) (fun result w => match result with
        | .ok reply => Q reply w
        | .error _ => At prepared start c w) (Stopped prepared start) := by
  refine Triple.bind next_moves fun choice => ?_
  split
  · exact .pure fun _ here => here
  · refine .read fun w here => ?_
    split
    · exact .pure fun _ same => same ▸ here
    · rename_i reply store done
      exact .write (.pure fun _ same => same ▸ stored w reply store here done)
theorem transaction_triple {Q : Reply → World Digest → Prop}
    (stored : ∀ w reply store, At prepared start c w → transact w.store op = .ok (reply,store) →
      Q reply (World.stored w op reply store)) :
    Triple (At prepared start c) (transaction prepared op) Q (Stopped prepared start) := by
  refine (tryTransaction_triple stored).bind fun result => ?_
  cases result with
  | error error => exact exit_triple (by simp) fun _ here => ⟨c,here⟩
  | ok reply => exact .pure fun _ holds => holds

theorem appendMessageOnce_moves (after : Nat → Control) (stored : ∀ w id inserted store, At prepared start c w →
      transact w.store (.append_message_once prepared.conversation_id prepared.run_id checkpoint m) = .ok (.Appended id inserted,store) →
      At prepared start (after id) (World.stored w
        (.append_message_once prepared.conversation_id prepared.run_id checkpoint m) (.Appended id inserted) store)) :
    Moves prepared start c (appendMessageOnce prepared checkpoint m) fun result => after result.1 := by
  refine Triple.bind (Q := fun reply w => ∃ id inserted, reply = .Appended id inserted ∧ At prepared start (after id) w)
    (transaction_triple ?_) ?_
  · intro w reply store here done
    have shape := done
    rw [transact] at shape
    obtain ⟨⟨id,inserted⟩,_,rfl⟩ := replyWith_ok shape
    exact ⟨id,inserted,rfl,stored w id inserted store here done⟩
  · rintro reply w ⟨id,inserted,rfl,there⟩
    exact there
theorem beginProviderCall_moves : Moves prepared start c (beginProviderCall prepared) fun _ => c := by
  refine Triple.bind (Q := fun _ => At prepared start c) (transaction_triple ?_) fun reply => ?_
  · intro w reply store here done
    exact here.step (.provider_call done)
  · split
    · exact .pure fun _ here => here
    · exact stuck_moves

theorem checkpoint_moves (after : Nat → Control)
    (shape : ∀ (s : Tables Digest) reply store, transact s op = .ok (reply,store) → ∃ id, reply = .Checkpoint id)
    (stored : ∀ w id store, At prepared start c w → transact w.store op = .ok (.Checkpoint id,store) →
      At prepared start (after id) (World.stored w op (.Checkpoint id) store)) :
    Moves prepared start c (checkpointTransaction prepared op) after := by
  refine Triple.bind (Q := fun reply w => ∃ id, reply = .Checkpoint id ∧ At prepared start (after id) w)
    (transaction_triple ?_) ?_
  · intro w reply store here done
    obtain ⟨id,rfl⟩ := shape _ _ _ done
    exact ⟨id,rfl,stored w id store here done⟩
  · rintro reply w ⟨id,rfl,there⟩
    exact there

theorem loadMessages_moves (reached : c.checkpoint = some checkpoint) :
    Moves prepared start c (loadMessages prepared checkpoint) fun messages => { c with read := some messages } := by
  refine next_moves.bind fun choice => ?_
  split
  · exact failed_moves
  · refine .read fun w here => .pure ?_
    rintro _ rfl
    exact here.step (.load reached)
theorem latest_context_usage_moves : Moves prepared start c (latest_context_usage prepared) fun _ => c := by
  refine next_moves.bind fun choice => ?_
  split
  · exact failed_moves
  · exact pure_moves rfl
  · exact stuck_moves

theorem begin_finalizing_triple : Triple (At prepared start c) (begin_finalizing prepared)
    (fun _ w => At prepared start c w ∧ w.phase ≠ .Running) (Stopped prepared start) := by
  refine Triple.bind next_moves fun _ => .read fun w here => .set fun _ _ => ?_
  split_ifs with running
  · refine ⟨?_,by simp⟩
    have closed := here.step (.phase .Finalizing)
    simpa using closed
  · exact ⟨here,running⟩
theorem resume_running_triple : Triple (At prepared start c) (resume_running prepared)
    (fun _ w => ∃ drained, At prepared start { c with flags := { c.flags with drained := drained } } w)
    (Stopped prepared start) := by
  refine Triple.bind next_moves fun _ => .read fun w here => .set fun _ _ => ?_
  split_ifs
  · exact ⟨_,here.step (.phase .Running)⟩
  · exact ⟨c.flags.drained,here⟩
theorem finish_moves : Moves prepared start c (finish prepared) fun _ => c := by
  refine next_moves.bind fun _ => .read fun w here => .set fun _ _ => ?_
  have closed := here.step (.phase .Ended)
  simpa using closed

/-! ## What is written to the log -/

def Quiet (w after : World Digest) : Prop :=
  ∃ added, after.log = w.log ++ added ∧ ∀ entry ∈ added, isCall entry = false

instance : Std.Refl (Quiet : World Digest → World Digest → Prop) := ⟨fun _ => ⟨[],by simp⟩⟩

variable {after : World Digest}

theorem Quiet.trans {middle : World Digest} (first : Quiet w middle) (second : Quiet middle after) : Quiet w after := by
  obtain ⟨added,log,silent⟩ := first
  obtain ⟨more,log',silent'⟩ := second
  refine ⟨added ++ more,by rw [log',log,List.append_assoc],?_⟩
  intro entry member
  rcases List.mem_append.mp member with first | second
  · exact silent entry first
  · exact silent' entry second
instance : Trans (Quiet : World Digest → World Digest → Prop) Quiet Quiet := ⟨Quiet.trans⟩
theorem Quiet.of_same (same : after.log = w.log) : Quiet w after := ⟨[],by simp [same]⟩
theorem Quiet.of_note (log : after.log = w.log ++ [entry])
    (silent : isCall entry = false) : Quiet w after := ⟨[entry],log,by simpa using silent⟩
theorem Quiet.grows (quiet : Quiet w after) : w.log <+: after.log := by
  obtain ⟨added,log,_⟩ := quiet
  exact log ▸ List.prefix_append _ _

theorem next_quiet : Within Quiet (next prepared : EngineM Digest Choice) := by
  refine .read fun w => ?_
  split
  · exact Std.Refl.refl w
  · rename_i move rest _
    have acted : ∀ (actions : List Action) (w : World Digest), Quiet w (actions.foldl (act prepared.run_id) w) := by
      intro actions
      induction actions with
      | nil => exact fun w => Std.Refl.refl w
      | cons action others ih =>
        intro w
        refine Quiet.trans ?_ (ih _)
        rcases (act_acted prepared.run_id w action).log with same | ⟨entry,log,⟨result,rfl⟩ | ⟨batch,rfl⟩⟩
        · exact .of_same same
        · exact .of_note log rfl
        · exact .of_note log rfl
    exact acted move.actions { w with script := rest }
theorem note_quiet (silent : isCall entry = false) : Within Quiet (note entry : EngineM Digest Unit) :=
  .read fun _ => .of_note rfl silent
theorem loopFuel_quiet : Within Quiet (loopFuel : EngineM Digest Nat) := .read fun w => Std.Refl.refl w
theorem emit_quiet : Within Quiet (emit prepared event : EngineM Digest Bool) := by
  refine next_quiet.bind fun _ => .read fun w => ?_
  split
  · exact (note_quiet rfl).bind (fun _ => .pure true) w
  · exact Std.Refl.refl w
theorem send_quiet : Within Quiet (send prepared event : EngineM Digest Unit) := by
  refine emit_quiet.bind fun sent => ?_
  cases sent with
  | true => exact .pure ()
  | false => exact .throw _
theorem whenCancelled_quiet {branch : EngineM Digest α} (quiet : Within Quiet branch) : Within Quiet (whenCancelled branch) := by
  refine .read fun w => ?_
  split
  · exact quiet w
  · exact Std.Refl.refl w
theorem wait_for_state_ready_quiet : Within Quiet (wait_for_state_ready prepared : EngineM Digest Unit) := by
  refine next_quiet.bind fun choice => ?_
  split
  · exact .pure ()
  · exact .throw _
  · exact .throw _
  · exact whenCancelled_quiet (.throw _)
  · exact .throw _
theorem transaction_quiet : Within Quiet (transaction prepared op : EngineM Digest Reply) := by
  refine Within.bind (next_quiet.bind fun choice => ?_) fun result => ?_
  · split
    · exact .pure _
    · refine .read fun w => ?_
      split
      · exact Std.Refl.refl w
      · exact .of_note rfl rfl
  · cases result with
    | error error => exact .throw _
    | ok reply => exact .pure reply

variable (prepared start) in
/-- The run is at the checkpoint, outside of tool rounds, with the given
    batches in hand. -/
def Working (checkpoint : Nat) (held : List MessageBatch) (flags : Flags) (w : World Digest) : Prop :=
  ∃ read, At prepared start ⟨some checkpoint,read,held,[],none,flags⟩ w

variable {held : List MessageBatch} {flags : Flags}

theorem Working.stops (working : Working prepared start checkpoint held flags w) : ∃ c, At prepared start c w :=
  working.elim fun _ here => ⟨_,here⟩

/-- Messages may be appended: a replaced history has been announced, or the run
    compacts the conversation. -/
def Appendable (prepared : PreparedRun) (flags : Flags) : Prop := flags.rewritten = true → prepared.action = .Compact

theorem Appendable.of_settled (settled : flags.rewritten = false) : Appendable prepared flags := by
  intro rewritten
  rw [settled] at rewritten
  cases rewritten

theorem append_one_triple {batch : MessageBatch} {rest : List MessageBatch}
    {more : List CanonicalMessage} (appendable : Appendable prepared c.flags) (reached : c.checkpoint = some checkpoint)
    (closed : c.round = none) (first : c.held = batch :: rest) (turn : batch.messages = c.applied ++ m :: more) :
    Triple (At prepared start c) (append_one prepared checkpoint m)
      (fun result w => At prepared start { c.goTo result.1 with applied := c.applied ++ [m] } w ∧
        (result.2 = true → Announced batch w.log)) (Stopped prepared start) := by
  unfold append_one
  split
  · exact exit_triple (by simp) fun _ here => ⟨c,here⟩
  · rename_i event_id identified
    refine Triple.bind (appendMessageOnce_moves (fun id => { c.goTo id with applied := c.applied ++ [m] }) ?_) ?_
    · intro w id inserted store here done
      exact here.step (.batch_message reached closed appendable first turn (by simp [identified]) done)
    · rintro ⟨checkpoint,inserted⟩
      cases inserted with
      | false => exact .pure fun _ here => ⟨here,by simp⟩
      | true =>
        refine Triple.bind (Q := fun _ w => At prepared start { c.goTo checkpoint with applied := c.applied ++ [m] } w ∧
          Announced batch w.log) (send_triple ?_) fun _ => ?_
        · intro w here
          refine ⟨?_,w.log,checkpoint,event_id,[],rfl,?_,m,by simp [turn],identified⟩
          · have told := here.tells ⟨checkpoint,0,.RuntimeEvent event_id,.BeforeContinue⟩ closed rfl trivial
              (fun rewritten => .inr ⟨appendable rewritten,event_id,rfl⟩) fun _ _ => by simp
            simpa [Control.telling,isCompaction] using told
          · exact Reach.accepted here batch (by simp [Control.goTo,first])
        · refine Triple.bind (wait_for_state_ready_moves.within wait_for_state_ready_quiet
            fun _ after quiet (announced : Announced batch _) => announced.mono quiet.grows) fun _ => ?_
          exact .pure fun _ both => ⟨both.1,fun _ => both.2⟩
theorem append_one_quiet : Within Quiet (append_one prepared checkpoint m : EngineM Digest (Nat × Bool)) := by
  unfold append_one
  split
  · exact .throw _
  · refine Within.bind (transaction_quiet.bind fun reply => ?_) ?_
    · split
      · exact .pure _
      · exact .throw _
    · rintro ⟨checkpoint,inserted⟩
      cases inserted with
      | false => exact .pure _
      | true => exact send_quiet.bind fun _ => wait_for_state_ready_quiet.bind fun _ => .pure _

theorem appendMessages_triple (batch : MessageBatch) (rest : List MessageBatch) (messages : List CanonicalMessage) :
    ∀ {c : Control} {checkpoint : Nat} {inserted : Bool}, Appendable prepared c.flags → c.checkpoint = some checkpoint →
      c.round = none → c.held = batch :: rest → batch.messages = c.applied ++ messages →
      Triple (fun w => At prepared start c w ∧ (inserted = true → Announced batch w.log))
        (appendMessages prepared checkpoint inserted messages)
        (fun result w => ∃ read, At prepared start
          { c with checkpoint := some result.1, read := read, applied := batch.messages } w ∧
            (result.2 = true → Announced batch w.log)) (Stopped prepared start) := by
  induction messages with
  | nil =>
    intro c checkpoint inserted appendable reached closed first turn
    refine .pure fun w both => ⟨c.read,?_,both.2⟩
    rw [List.append_nil] at turn
    rw [turn,← reached]
    exact both.1
  | cons m more ih =>
    intro c checkpoint inserted appendable reached closed first turn
    refine Triple.bind ((append_one_triple appendable reached closed first turn).within append_one_quiet
      fun _ _ quiet told isInserted => (told isInserted).mono quiet.grows) ?_
    rintro ⟨checkpoint,one⟩
    refine (ih (c := { c.goTo checkpoint with applied := c.applied ++ [m] }) appendable rfl closed first
      (by rw [turn]; simp)).before ?_
    rintro w ⟨⟨here,new⟩,old⟩
    refine ⟨here,fun either => ?_⟩
    rcases Bool.or_eq_true_iff.mp either with earlier | now
    · exact old earlier
    · exact new now

theorem appendBatches_triple {rest : List MessageBatch} (appendable : Appendable prepared flags)
    (batches : List MessageBatch) : ∀ {checkpoint : Nat} {inserted : Bool},
      Triple (Working prepared start checkpoint (batches ++ rest) flags) (appendBatches prepared checkpoint inserted batches)
        (fun result => Working prepared start result.1 rest flags) (Stopped prepared start) := by
  induction batches with
  | nil => exact .pure fun _ working => working
  | cons batch others ih =>
    intro checkpoint inserted
    refine .exists_ fun read => ?_
    refine Triple.bind ((appendMessages_triple batch (others ++ rest) batch.messages appendable rfl rfl rfl rfl).before
      fun _ here => ⟨here,by simp⟩) ?_
    rintro ⟨checkpoint,batch_inserted⟩
    refine Triple.bind (Q := fun _ => Working prepared start checkpoint (others ++ rest) flags) ?_ fun _ => ih
    refine .exists_ fun read => .read fun w here => .set fun _ _ => ⟨read,here.1.step (.answer rfl rfl ?_ ?_)⟩
    · cases batch_inserted
      · exact .inr rfl
      · exact .inl rfl
    · cases batch_inserted
      · simp
      · exact fun _ => here.2 rfl
theorem append_batches_triple {checkpoint : Nat} {batches rest : List MessageBatch} {flags : Flags}
    (appendable : Appendable prepared flags) :
    Triple (Working prepared start checkpoint (batches ++ rest) flags) (append_batches prepared checkpoint batches)
      (fun result => Working prepared start result.1 rest flags) (Stopped prepared start) :=
  appendBatches_triple appendable batches

theorem append_all_triple {batches : List MessageBatch} (appendable : Appendable prepared flags) :
    Triple (Working prepared start checkpoint batches flags) (append_batches prepared checkpoint batches)
      (fun result => Working prepared start result.1 [] flags) (Stopped prepared start) := by
  have all := @append_batches_triple Digest _ _ _ _ prepared start checkpoint batches [] flags appendable
  rwa [List.append_nil] at all
theorem append_both_triple {batches : List MessageBatch} {batch : MessageBatch} (appendable : Appendable prepared flags) :
    Triple (Working prepared start checkpoint (batches ++ [batch]) flags) (do
        let (checkpoint,_) ← append_batches prepared checkpoint batches
        let (checkpoint,_) ← append_batches prepared checkpoint [batch]
        pure checkpoint) (fun checkpoint => Working prepared start checkpoint [] flags) (Stopped prepared start) := by
  refine Triple.bind (append_batches_triple appendable) ?_
  rintro ⟨checkpoint,_⟩
  refine Triple.bind (append_all_triple appendable) ?_
  rintro ⟨checkpoint,_⟩
  exact .pure fun _ working => working

theorem drainLoop_triple {phase : RunPhase} (closed : phase ≠ .Running) (fuel : Nat) :
    ∀ (checkpoint : Nat) (messages : List MessageBatch) (flags : Flags),
      Triple (fun w => Working prepared start checkpoint messages flags w ∧ w.phase = phase)
        (drainLoop prepared fuel messages)
        (fun result => Working prepared start checkpoint result { flags with drained := true })
        (Stopped prepared start) := by
  induction fuel with
  | zero => exact fun _ _ _ => stuck_triple fun _ both => both.1.stops
  | succ fuel ih =>
    intro checkpoint messages flags
    rintro w ⟨⟨read,here⟩,isPhase⟩
    refine Triple.bind (next_phase phase) (fun _ => .read fun w both => ?_) w ⟨here,isPhase⟩
    obtain ⟨here,isPhase⟩ := both
    have taken : ∀ {command : RunCommand} {rest : List RunCommand}, w.commands = command :: rest →
        Working prepared start checkpoint (messages ++ batchesOf command) flags { w with commands := rest } :=
      fun queued => ⟨read,here.step (.receive queued)⟩
    split
    · rename_i batch rest queued
      refine .write ((ih _ _ flags).before ?_)
      rintro _ rfl
      exact ⟨taken queued,isPhase⟩
    · rename_i batch rest queued
      refine .write ((ih _ _ flags).before ?_)
      rintro _ rfl
      exact ⟨taken queued,isPhase⟩
    · rename_i rest queued
      refine .write (exit_triple (by simp) ?_)
      rintro _ rfl
      exact (taken queued).stops
    · rename_i result rest queued
      refine .write ((ih _ _ flags).before ?_)
      rintro _ rfl
      exact ⟨by simpa [batchesOf] using taken queued,isPhase⟩
    · rename_i empty
      split
      · refine .pure ?_
        rintro _ rfl
        exact ⟨read,here.step (.drain (by rw [isPhase]; exact closed) empty)⟩
      · refine exit_triple (by simp [client_failure]) ?_
        rintro _ rfl
        exact ⟨_,here⟩
theorem drain_accepted_triple :
    Triple (fun w => Working prepared start checkpoint [] flags w ∧ w.phase ≠ .Running) (drain_accepted prepared)
      (fun result => Working prepared start checkpoint result { flags with drained := true })
      (Stopped prepared start) := by
  rintro w ⟨working,closed⟩
  exact Triple.bind loopFuel_triple (fun fuel => drainLoop_triple closed fuel checkpoint [] flags) w ⟨working,rfl⟩

variable (prepared start) in
/-- The run is at the checkpoint, in a tool round whose commits are all
    announced, with the given batches in hand. -/
def InRound (checkpoint : Nat) (held : List MessageBatch) (flags : Flags) (id : ToolRoundId) (calls : List ToolCall)
    (done : List String) (w : World Digest) : Prop :=
  ∃ read, At prepared start ⟨some checkpoint,read,held,[],some ⟨id,calls,done,some done,true⟩,flags⟩ w

variable {calls : List ToolCall} {done : List String}

theorem InRound.stops {id : ToolRoundId}
    (inRound : InRound prepared start checkpoint held flags id calls done w) : ∃ c, At prepared start c w :=
  inRound.elim fun _ here => ⟨_,here⟩

theorem commitToolResult_triple {id : ToolRoundId} {result : ToolResult} :
    Triple (InRound prepared start checkpoint held flags id calls done) (commitToolResult prepared id result)
      (fun commit w => (commit.settled = true ↔ (done ++ [result.call_id]).length = calls.length) ∧
        At prepared start ⟨some commit.checkpoint_id,none,held,[],some ⟨id,calls,done ++ [result.call_id],some done,true⟩,flags⟩ w)
      (Stopped prepared start) := by
  refine .exists_ fun read => ?_
  refine Triple.bind (Q := fun reply w => ∃ commit, reply = .Committed commit ∧
    (commit.settled = true ↔ (done ++ [result.call_id]).length = calls.length) ∧
    At prepared start ⟨some commit.checkpoint_id,none,held,[],some ⟨id,calls,done ++ [result.call_id],some done,true⟩,flags⟩ w)
    (transaction_triple ?_) ?_
  · intro w reply store here transacted
    have shape := transacted
    obtain ⟨commit,_,rfl⟩ := replyWith_ok shape
    have grounded := here.grounded
    obtain ⟨row,call,head,middle,committed⟩ := transact_commit grounded.consistent.wellFormed transacted
    have opened : RoundOpen w.store prepared.run_id ⟨id,calls,done,some done,true⟩ := grounded.round _ rfl
    exact ⟨commit,rfl,(Committed.opened ⟨id,calls,done,some done,true⟩ committed opened).2,
      here.step (.commit_result ⟨id,calls,done,some done,true⟩ rfl rfl rfl transacted)⟩
  · rintro reply w ⟨commit,rfl,facts⟩
    exact facts

theorem waitSettled_moves {commit : ToolCommit} : Moves prepared start c (waitSettled prepared commit) fun _ => c := by
  unfold waitSettled
  split
  · exact wait_for_state_ready_moves
  · exact pure_moves rfl

theorem commitResult_triple {id : ToolRoundId} {result : ToolResult} {interrupted : Bool} :
    Triple (InRound prepared start checkpoint held flags id calls done) (commitResult prepared id result interrupted)
      (fun checkpoint => InRound prepared start checkpoint held flags id calls (done ++ [result.call_id])) (Stopped prepared start) := by
  refine Triple.bind commitToolResult_triple fun commit => .assume fun settled => ?_
  refine Triple.bind (Q := fun _ => At prepared start ⟨some commit.checkpoint_id,none,held,[],
    some ⟨id,calls,done ++ [result.call_id],some (done ++ [result.call_id]),true⟩,flags⟩) (send_moves ?_) fun _ => ?_
  · intro w here
    refine here.step (.announce_result ⟨id,calls,done ++ [result.call_id],some done,true⟩ rfl rfl rfl rfl rfl ?_)
    rw [← settled]
    cases commit.settled <;> simp [CommitBarrier.is_required]
  · refine Triple.bind waitSettled_moves fun _ => .pure fun _ here => ⟨none,here⟩

theorem commitInterrupted_triple {id : ToolRoundId} (left : List ToolCall) : ∀ {checkpoint : Nat} {done : List String},
      Triple (InRound prepared start checkpoint held flags id calls done) (commitInterrupted prepared id checkpoint left)
        (fun checkpoint => InRound prepared start checkpoint held flags id calls (done ++ left.map (·.call_id)))
        (Stopped prepared start) := by
  induction left with
  | nil =>
    intro checkpoint done
    exact .pure fun _ here => by simpa using here
  | cons call rest ih =>
    intro checkpoint done
    refine Triple.bind commitResult_triple fun checkpoint => ?_
    have later := @ih checkpoint (done ++ [(interruptedResult call).call_id])
    simpa [interruptedResult] using later

theorem InRound.close {id : ToolRoundId}
    (inRound : InRound prepared start checkpoint held flags id calls done w) (all : done.length = calls.length) :
    Working prepared start checkpoint held flags w :=
  inRound.elim fun read here => ⟨read,here.step (.close_round ⟨id,calls,done,some done,true⟩ rfl rfl all)⟩
theorem InRound.opened {id : ToolRoundId} (inRound : InRound prepared start checkpoint held flags id calls done w) :
    RoundOpen w.store prepared.run_id ⟨id,calls,done,some done,true⟩ :=
  inRound.elim fun _ here => here.grounded.round _ rfl
theorem InRound.close_left {id : ToolRoundId} (inRound : InRound prepared start checkpoint held flags id calls
      (done ++ (calls.filter fun call => !done.contains call.call_id).map (·.call_id)) w) :
    Working prepared start checkpoint held flags w := by
  refine inRound.close (inRound.opened.all_iff.mpr ?_)
  intro call_id member
  obtain ⟨call,isCall,rfl⟩ := List.mem_map.mp member
  by_cases completed : call.call_id ∈ done
  · exact List.mem_append_left _ completed
  · refine List.mem_append_right _ (List.mem_map_of_mem (List.mem_filter.mpr ⟨isCall,?_⟩))
    simpa using completed

theorem executeLoop_triple {id : ToolRoundId} (appendable : Appendable prepared flags) (fuel : Nat) :
    ∀ {checkpoint remaining : Nat} {done : List String} {pending : List MessageBatch},
      remaining + done.length = calls.length →
      Triple (InRound prepared start checkpoint pending flags id calls done)
        (executeLoop prepared id calls fuel checkpoint remaining done pending)
        (fun checkpoint => Working prepared start checkpoint [] flags) (Stopped prepared start) := by
  induction fuel with
  | zero => exact fun _ => stuck_triple fun _ here => here.stops
  | succ fuel ih =>
    intro checkpoint remaining done pending counted
    unfold executeLoop
    split
    · -- Every call has a result: the batches that came in meanwhile are appended.
      rename_i none_left
      refine Triple.before (P := Working prepared start checkpoint pending flags) ?_ fun _ here => here.close (by omega)
      refine Triple.bind (append_all_triple appendable) ?_
      rintro ⟨checkpoint,_⟩
      exact .pure fun _ working => working
    · rename_i some_left
      refine .exists_ fun read => Triple.bind next_moves fun choice => ?_
      split
      · exact whenCancelled_triple (exit_triple (by simp) fun _ here => ⟨_,here⟩)
      · refine Triple.bind recv_moves fun command => ?_
        split
        · rename_i result
          have unmoved : ∀ w, At prepared start (Control.taking ⟨some checkpoint,read,pending,[],
              some ⟨id,calls,done,some done,true⟩,flags⟩ (some (.ToolResult result))) w →
              InRound prepared start checkpoint pending flags id calls done w :=
            fun w here => ⟨read,by simpa [Control.taking,batchesOf] using here⟩
          split
          · exact (ih counted).before unmoved
          · refine Triple.before (Triple.bind commitResult_triple fun checkpoint => ih ?_) unmoved
            simp only [List.length_append,List.length_singleton]
            omega
        · rename_i messages
          refine Triple.before (P := InRound prepared start checkpoint (pending ++ [messages]) flags id calls done) ?_
            fun w here => ⟨read,here⟩
          refine Triple.bind (commitInterrupted_triple _) fun checkpoint => ?_
          exact (append_both_triple appendable).before fun _ here => here.close_left
        · exact (ih counted).before fun w here => ⟨read,here⟩
        · exact exit_triple (by simp) fun _ here => ⟨_,here⟩
        · exact exit_triple (by simp [client_failure]) fun _ here => ⟨_,here⟩
      · exact stuck_triple fun _ here => ⟨_,here⟩

theorem execute_triple {round : ToolRound} {insertions : List MessageBatch}
    (settled : flags.rewritten = false) (own : OwnRound prepared.run_id round.id) :
    Triple (Working prepared start checkpoint insertions flags) (execute prepared checkpoint round insertions)
      (fun checkpoint => Working prepared start checkpoint [] flags) (Stopped prepared start) := by
  refine .exists_ fun read => ?_
  refine Triple.bind (Q := fun _ => At prepared start
    ⟨some checkpoint,read,insertions,[],some ⟨round.id,round.calls,[],none,false⟩,flags⟩) (transaction_triple ?_) fun _ => ?_
  · intro w reply store here done
    exact here.step (.create_round rfl rfl settled own done)
  refine Triple.bind (Q := fun _ => At prepared start
    ⟨some checkpoint,read,insertions,[],some ⟨round.id,round.calls,[],some [],false⟩,flags⟩) (send_moves ?_) fun _ => ?_
  · intro w here
    exact here.step (.announce_round ⟨round.id,round.calls,[],none,false⟩ rfl rfl rfl)
  refine Triple.bind (Q := fun _ => At prepared start
    ⟨some checkpoint,read,insertions,[],some ⟨round.id,round.calls,[],some [],true⟩,flags⟩) (send_moves ?_) fun _ => ?_
  · intro w here
    exact here.step (.execute_round ⟨round.id,round.calls,[],some [],false⟩ rfl rfl rfl)
  refine Triple.bind loopFuel_triple fun fuel => ?_
  exact (executeLoop_triple (.of_settled settled) fuel (by simp)).before fun _ here => ⟨read,here⟩

variable {invocation : ModelInvocation}

variable {messages : List CanonicalMessage}

variable {history : List ProjectedMessage}

theorem recordUsage_triple (result : CycleEnd) (closed : c.round = none) (loaded : c.read = some messages)
    (projected : project_messages messages = .ok history) (sent : invocation.request.history = withTail prepared (history.map hydrated)) :
    Triple (fun w => At prepared start c w ∧ Reported invocation history.length result w.log)
      (recordUsage (cycleUsage result) history.length) (fun _ => At prepared start c) (Stopped prepared start) := by
  unfold recordUsage
  split
  · exact .pure fun _ both => both.1
  · rename_i usage used
    exact .read fun w both => .set fun _ _ => both.1.step (.usage closed loaded projected sent both.2 used)
theorem recordCompaction_moves {usage : Option Usage} :
    Moves prepared start c (recordCompaction usage) fun _ => { c with flags := { c.flags with stale := false } } := by
  refine .read fun w here => ?_
  cases usage with
  | none => exact .set fun _ _ => here.step (.compacted w.usage)
  | some usage => exact .set fun _ _ => here.step (.compacted (accumulate_usage w.usage usage))
theorem compactionEstimate_moves (loaded : c.read = some messages) (projected : project_messages messages = .ok history)
    (fresh : c.flags.stale = false) : Moves prepared start c (compactionEstimate prepared history) fun _ => c := by
  refine .read fun w here => ?_
  split
  · exact .pure fun _ same => same ▸ here
  · refine Triple.bind (Q := fun _ => At prepared start c) ?_ fun _ => .pure fun _ there => there
    refine .read fun now same => .set fun _ _ => ?_
    rw [same]
    exact here.step (.estimate loaded projected fresh)

theorem stream_moves : Moves prepared start c (stream event) fun _ => c := by
  refine .read fun w here => ?_
  split
  · exact stuck_triple fun _ same => ⟨c,same ▸ here⟩
  · rename_i streamed
    split
    · refine (note_moves (c := c) (d := c) fun w here => here.step (.plain ?_)).before fun _ same => same ▸ here
      cases event <;> simp_all [RunEvent.streamed,Plain]
    · exact .pure fun _ same => same ▸ here
theorem stream_quiet : Within Quiet (stream event : EngineM Digest Unit) := by
  refine .read fun w => ?_
  split
  · exact Std.Refl.refl w
  · split
    · exact note_quiet rfl w
    · exact Std.Refl.refl w
theorem recv_quiet : Within Quiet (recv : EngineM Digest (Option RunCommand)) := by
  refine .read fun w => ?_
  split
  · exact .of_same rfl
  · split
    · exact Std.Refl.refl w
    · exact .of_same rfl

def JustEnded (result : CycleEnd) (w : World Digest) : Prop := w.log.getLast? = some (.Cycled result)

variable {result : CycleEnd}

theorem cycleEnds_triple : Triple (At prepared start c) (cycleEnds result)
    (fun ended w => At prepared start c w ∧ JustEnded ended w) (Stopped prepared start) := by
  refine Triple.bind (Q := fun _ w => At prepared start c w ∧ JustEnded result w) ?_ fun _ => .pure fun _ both => both
  exact .read fun w here => .set fun _ _ => ⟨here.step (.plain trivial),List.getLast?_concat⟩
theorem cycleEnds_quiet : Within Quiet (cycleEnds result : EngineM Digest CycleEnd) :=
  (note_quiet rfl).bind fun _ => .pure result
theorem awaitCycle_triple : Triple (At prepared start c) (awaitCycle prepared)
    (fun ended w => At prepared start c w ∧ JustEnded ended w) (Stopped prepared start) := by
  have loop : ∀ fuel, Triple (At prepared start c) (awaitCycleLoop prepared fuel)
      (fun ended w => At prepared start c w ∧ JustEnded ended w) (Stopped prepared start) := by
    intro fuel
    induction fuel with
    | zero => exact stuck_triple fun _ here => ⟨c,here⟩
    | succ fuel ih =>
      refine Triple.bind next_moves fun choice => ?_
      split
      · exact Triple.bind stream_moves fun _ => ih
      · exact cycleEnds_triple
      · exact stuck_triple fun _ here => ⟨c,here⟩
  exact Triple.bind loopFuel_triple loop
theorem awaitCycle_quiet : Within Quiet (awaitCycle prepared : EngineM Digest CycleEnd) := by
  refine loopFuel_quiet.bind fun fuel => ?_
  induction fuel with
  | zero => exact .throw _
  | succ fuel ih =>
    refine next_quiet.bind fun choice => ?_
    split
    · exact stream_quiet.bind fun _ => ih
    · exact cycleEnds_quiet
    · exact .throw _
theorem abandonCycle_triple (other : outcome ≠ .Completed) :
    Triple (At prepared start c) (abandonCycle prepared outcome) Q (Stopped prepared start) := by
  refine Triple.bind awaitCycle_triple fun _ => ?_
  refine Triple.before (P := At prepared start c) ?_ fun _ both => both.1
  exact Triple.bind (emit_plain trivial) fun _ => exit_triple other fun _ here => ⟨c,here⟩
theorem abandonCycle_quiet : Within Quiet (abandonCycle prepared outcome : EngineM Digest α) :=
  awaitCycle_quiet.bind fun _ => emit_quiet.bind fun _ => .throw _

def heldAfter : Interruption × List MessageBatch → List MessageBatch
  | (.Ended _,pending) => pending
  | (.Broken messages,pending) => pending ++ [messages]
def EndedSo : Interruption → World Digest → Prop
  | .Ended result => JustEnded result
  | .Broken _ => fun _ => True

variable {pending : List MessageBatch}

theorem consumeCycle_triple (held : c.held = pending) : Triple (At prepared start c) (consumeCycle prepared pending)
      (fun result w => At prepared start { c with held := heldAfter result } w ∧ EndedSo result.1 w)
      (Stopped prepared start) := by
  have loop : ∀ (fuel : Nat) (pending : List MessageBatch), Triple (At prepared start { c with held := pending })
      (consumeCycleLoop prepared fuel pending)
      (fun result w => At prepared start { c with held := heldAfter result } w ∧ EndedSo result.1 w)
      (Stopped prepared start) := by
    intro fuel
    induction fuel with
    | zero => exact fun _ => stuck_triple fun _ here => ⟨_,here⟩
    | succ fuel ih =>
      intro pending
      refine Triple.bind next_moves fun choice => ?_
      split
      · exact Triple.bind stream_moves fun _ => ih pending
      · exact Triple.bind cycleEnds_triple fun _ => .pure fun _ both => both
      · refine Triple.bind recv_moves fun command => ?_
        split
        · exact ih _
        · exact .pure fun _ here => ⟨here,trivial⟩
        · exact abandonCycle_triple (by simp)
        · exact abandonCycle_triple (by simp)
        · exact abandonCycle_triple (by simp [client_failure])
      · exact stuck_triple fun _ here => ⟨_,here⟩
  subst held
  exact Triple.bind loopFuel_triple fun fuel => loop fuel c.held
theorem consumeCycle_quiet : Within Quiet (consumeCycle prepared pending : EngineM Digest (Interruption × List MessageBatch)) := by
  refine loopFuel_quiet.bind fun fuel => ?_
  induction fuel generalizing pending with
  | zero => exact .throw _
  | succ fuel ih =>
    refine next_quiet.bind fun choice => ?_
    split
    · exact stream_quiet.bind fun _ => ih
    · exact cycleEnds_quiet.bind fun _ => .pure _
    · refine recv_quiet.bind fun command => ?_
      split
      · exact ih
      · exact .pure _
      · exact abandonCycle_quiet
      · exact abandonCycle_quiet
      · exact abandonCycle_quiet
    · exact .throw _

def Calling (invocation : ModelInvocation) (anchored_messages : Nat) (w : World Digest) : Prop :=
  ∃ before middle, w.log = before ++ .Called invocation (some anchored_messages) :: middle ∧ ∀ entry ∈ middle, isCall entry = false

theorem Calling.quiet {anchored_messages : Nat}
    (quiet : Quiet w after) (calling : Calling invocation anchored_messages w) : Calling invocation anchored_messages after := by
  obtain ⟨added,log,silent⟩ := quiet
  obtain ⟨before,middle,same,none_⟩ := calling
  refine ⟨before,middle ++ added,by rw [log,same]; simp,?_⟩
  intro entry member
  rcases List.mem_append.mp member with first | second
  · exact none_ entry first
  · exact silent entry second
theorem Calling.reported {anchored_messages : Nat} (calling : Calling invocation anchored_messages w) (ended : JustEnded result w) :
    Reported invocation anchored_messages result w.log := by
  obtain ⟨before,middle,same,none_⟩ := calling
  rcases List.eq_nil_or_concat middle with rfl | ⟨others,last,rfl⟩
  · simp [JustEnded,same] at ended
  · rw [JustEnded,same,List.concat_eq_append,← List.cons_append,← List.append_assoc,List.getLast?_concat,
      Option.some.injEq] at ended
    subst ended
    refine ⟨before,others,by rw [same]; simp,?_⟩
    exact fun entry member => none_ entry (by simp [member])

theorem retryDelay_moves (held : c.held = pending) :
    Moves prepared start c (retryDelay prepared pending) fun result => { c with held := result.2 ++ result.1.toList } := by
  have loop : ∀ (fuel : Nat) (pending : List MessageBatch), Moves prepared start { c with held := pending }
      (retryDelayLoop prepared fuel pending) fun result => { c with held := result.2 ++ result.1.toList } := by
    intro fuel
    induction fuel with
    | zero => exact fun _ => stuck_moves
    | succ fuel ih =>
      intro pending
      refine next_moves.bind fun choice => ?_
      split
      · exact pure_moves (by simp)
      · exact whenCancelled_triple (Moves.bind (emit_plain trivial) fun _ => exit_moves (by simp))
      · refine recv_moves.bind fun command => ?_
        split
        · exact ih _
        · exact pure_moves rfl
        · exact Moves.bind (emit_plain trivial) fun _ => exit_moves (by simp)
        · exact exit_moves (by simp)
        · exact exit_moves (by simp [client_failure])
      · exact stuck_moves
  subst held
  exact Triple.bind loopFuel_triple fun fuel => loop fuel c.held

variable {drained : Bool}

theorem orFail_triple {result : Except Error α} :
    Triple (At prepared start c) (orFail result) (fun a w => result = .ok a ∧ At prepared start c w)
      (Stopped prepared start) := by
  unfold orFail
  split
  · exact .pure fun _ here => ⟨rfl,here⟩
  · exact exit_triple (by simp) fun _ here => ⟨c,here⟩

theorem compactionCycleLoop_moves (held : c.held = pending) (fuel : Nat) :
    Moves prepared start c (compactionCycleLoop prepared fuel pending)
      fun result => { c with held := result.2.2 ++ result.2.1.toList } := by
  have ends : ∀ {c : Control} {result : CycleEnd}, Moves prepared start c (cycleEnds result) fun _ => c :=
    cycleEnds_triple.consequence (fun _ here => here) (fun _ _ both => both.1) (fun _ _ stop => stop)
  have silent : ∀ {c : Control}, Moves prepared start c (compactionCycleLoop.awaitSilent prepared) fun _ => c := by
    intro c
    refine next_moves.bind fun choice => ?_
    split
    · exact ends
    · exact stuck_moves
  have loop : ∀ pending : List MessageBatch, Moves prepared start { c with held := pending }
      (compactionCycleLoop prepared fuel pending) fun result => { c with held := result.2.2 ++ result.2.1.toList } := by
    induction fuel with
    | zero => exact fun _ => stuck_moves
    | succ fuel ih =>
      intro pending
      refine next_moves.bind fun choice => ?_
      split
      · exact ends.bind fun _ => pure_moves (by simp)
      · refine recv_moves.bind fun command => ?_
        split
        · exact ih _
        · exact silent.bind fun _ => pure_moves rfl
        · exact silent.bind fun _ => exit_moves (by simp)
        · exact silent.bind fun _ => exit_moves (by simp)
        · exact silent.bind fun _ => exit_moves (by simp [client_failure])
      · exact stuck_moves
  subst held
  exact loop c.held

def Control.replaced (c : Control) (id : Nat) : Control :=
  { c.goTo id with flags := { c.flags with rewritten := true, stale := true } }
theorem replace_moves (reached : c.checkpoint = some checkpoint)
    (closed : c.round = none) (between : c.applied = []) (settled : c.flags.rewritten = false)
    (replacement : Replacement prepared c.read messages) :
    Moves prepared start c (checkpointTransaction prepared
      (.replace_checkpoint prepared.conversation_id prepared.run_id checkpoint messages)) (Control.replaced c) := by
  refine checkpoint_moves (Control.replaced c) ?_ fun w id store here done =>
    here.step (.replace reached closed between settled replacement done)
  intro s reply store done
  obtain ⟨id,_,rfl⟩ := replyWith_ok done
  exact ⟨id,rfl⟩

theorem auto_compact_triple : Triple (At prepared start ⟨some checkpoint,some messages,[],[],none,⟨drained,false,false⟩⟩)
      (auto_compact prepared checkpoint messages)
      (fun result => Working prepared start result.1 [] ⟨drained,false,true⟩) (Stopped prepared start) := by
  unfold auto_compact
  dsimp only
  split
  · refine Triple.bind orFail_triple fun projected => .assume fun _ => ?_
    split
    · exact exit_triple (by simp) fun _ here => ⟨_,here⟩
    · exact exit_triple (by simp) fun _ here => ⟨_,here⟩
  · refine Triple.bind (send_plain trivial) fun _ => Triple.bind beginProviderCall_moves fun provider_call_index => ?_
    refine Triple.bind orFail_triple fun projected => .assume fun _ => ?_
    refine Triple.bind (note_moves fun _ here => here.step (.plain trivial)) fun _ => ?_
    refine Triple.bind loopFuel_triple fun fuel => Triple.bind (compactionCycleLoop_moves rfl fuel) ?_
    rintro ⟨result,break_messages,pending⟩
    refine Triple.bind orFail_triple fun projected => .assume fun _ => ?_
    split
    · exact exit_triple (by simp) fun _ here => ⟨_,here⟩
    · refine Triple.bind (replace_moves rfl rfl rfl rfl (.compaction _ _ rfl)) fun checkpoint => ?_
      refine Triple.bind (send_commit rfl rfl trivial (fun _ => rfl) (by simp)) fun _ => ?_
      refine Triple.bind wait_for_state_ready_moves fun _ => ?_
      refine Triple.bind (send_plain trivial) fun _ => Triple.bind (send_plain trivial) fun _ => ?_
      have appendable : Appendable prepared ⟨drained,false,true⟩ := .of_settled rfl
      refine Triple.before
        (P := Working prepared start checkpoint (pending ++ break_messages.toList) ⟨drained,false,true⟩) ?_
        fun _ here => ⟨none,here⟩
      refine Triple.bind (append_batches_triple appendable) ?_
      rintro ⟨checkpoint,_⟩
      cases break_messages with
      | none => exact .pure fun _ working => working
      | some messages =>
        refine Triple.bind (append_all_triple appendable) ?_
        rintro ⟨checkpoint,_⟩
        exact .pure fun _ working => working

theorem interrupt_triple {interruption : MessageBatch} (appendable : Appendable prepared flags) :
    Triple (Working prepared start checkpoint (pending ++ [interruption]) flags) (interrupt prepared checkpoint pending interruption)
      (fun checkpoint => Working prepared start checkpoint [] flags) (Stopped prepared start) := by
  refine .exists_ fun read => Triple.bind (send_plain trivial) fun _ => ?_
  exact (append_both_triple appendable).before fun _ here => ⟨read,here⟩

theorem hydrate_tool_images_triple (messages : List ProjectedMessage) :
    Triple (At prepared start c) (hydrate_tool_images prepared messages)
      (fun result w => result = messages.map hydrated ∧ At prepared start c w) (Stopped prepared start) := by
  induction messages with
  | nil => exact .pure fun _ here => ⟨rfl,here⟩
  | cons message rest ih =>
    have one : Triple (At prepared start c) (hydrateToolImage prepared message)
        (fun result w => result = hydrated message ∧ At prepared start c w) (Stopped prepared start) := by
      unfold hydrateToolImage
      split
      · rename_i result isResult
        split
        · rename_i plain
          exact .pure fun _ here => ⟨by simp only [hydrated,isResult,plain],here⟩
        · rename_i image pictured
          refine Triple.bind orFail_triple fun id => .assume fun found => Triple.bind next_moves fun choice => ?_
          split
          · exact exit_triple (by simp) fun _ here => ⟨c,here⟩
          · exact exit_triple (by simp) fun _ here => ⟨c,here⟩
          · exact .pure fun _ here => ⟨by simp only [hydrated,isResult,pictured,found],here⟩
      · rename_i other
        refine .pure fun _ here => ⟨?_,here⟩
        unfold hydrated
        split
        · rename_i result isResult
          exact absurd isResult (other result)
        · rfl
    refine Triple.bind one fun first => .assume fun isFirst => Triple.bind ih fun others => .assume fun areOthers => ?_
    exact .pure fun _ here => ⟨by rw [isFirst,areOthers,List.map_cons],here⟩

variable (prepared start) in
/-- Where an attempt leaves the run: with the cycle of the last call, or ready
    for the next cycle. -/
def AfterAttempt (checkpoint : Nat) (messages : List CanonicalMessage) (request : ModelRequest) (anchored_messages : Nat)
    (drained : Bool) : Attempt → World Digest → Prop
  | .Cycle cycle pending => fun w =>
    At prepared start ⟨some checkpoint,some messages,pending,[],none,⟨drained,false,false⟩⟩ w ∧
      ∃ invocation : ModelInvocation, invocation.request = request ∧ Reported invocation anchored_messages (.ok cycle) w.log
  | .Continue checkpoint _ => Working prepared start checkpoint [] ⟨drained,false,false⟩

theorem attemptLoop_triple {index : Int} {request : ModelRequest} {overflow_compacted : Bool}
    (projected : project_messages messages = .ok history)
    (sent : request.history = withTail prepared (history.map hydrated)) (fuel : Nat) :
    ∀ {retries : Nat} {pending : List MessageBatch},
      Triple (At prepared start ⟨some checkpoint,some messages,pending,[],none,⟨drained,false,false⟩⟩)
        (attemptLoop prepared index request history.length checkpoint overflow_compacted fuel retries pending)
        (AfterAttempt prepared start checkpoint messages request history.length drained) (Stopped prepared start) := by
  have appendable : Appendable prepared ⟨drained,false,false⟩ := .of_settled rfl
  induction fuel with
  | zero => exact stuck_triple fun _ here => ⟨_,here⟩
  | succ fuel ih =>
    intro retries pending
    unfold attemptLoop
    generalize isInvocation : (⟨callId prepared index retries,prepared.run_id,prepared.conversation_id,index,request⟩ :
      ModelInvocation) = invocation
    have isRequest : invocation.request = request := by rw [← isInvocation]
    have sent' : invocation.request.history = withTail prepared (history.map hydrated) := isRequest ▸ sent
    refine Triple.bind (Q := fun _ w => At prepared start
      ⟨some checkpoint,some messages,pending,[],none,⟨drained,false,false⟩⟩ w ∧ Calling invocation history.length w) ?_
      fun _ => ?_
    · exact .read fun w here => .set fun _ _ => ⟨here.step (.call rfl rfl projected sent'),w.log,[],rfl,by simp⟩
    refine Triple.bind ((consumeCycle_triple rfl).within consumeCycle_quiet
      fun _ after quiet (calling : Calling invocation history.length _) => calling.quiet quiet) ?_
    rintro ⟨ended,pending⟩
    split
    · rename_i messages' pending' same
      obtain ⟨rfl,rfl⟩ := Prod.mk.inj same
      refine Triple.before (P := fun w => At prepared start
        ⟨some checkpoint,some messages,pending ++ [messages'],[],none,⟨drained,false,false⟩⟩ w ∧
        Calling invocation history.length w) ?_ fun _ both => ⟨both.1.1,both.2⟩
      refine Triple.bind (awaitCycle_triple.within awaitCycle_quiet
        fun _ after quiet (calling : Calling invocation history.length _) => calling.quiet quiet) fun interrupted => ?_
      refine Triple.bind ((recordUsage_triple _ rfl rfl projected sent').before
        fun _ both => ⟨both.1.1,both.2.reported both.1.2⟩) fun _ => ?_
      refine Triple.bind ((interrupt_triple appendable).before fun _ here => ⟨_,here⟩) fun checkpoint => ?_
      exact .pure fun _ working => working
    · rename_i cycle pending' same
      obtain ⟨rfl,rfl⟩ := Prod.mk.inj same
      exact .pure fun _ both => ⟨both.1.1,invocation,isRequest,both.2.reported both.1.2⟩
    · rename_i cycle_failure pending' same
      obtain ⟨rfl,rfl⟩ := Prod.mk.inj same
      refine Triple.bind (Q := fun _ => At prepared start
        ⟨some checkpoint,some messages,pending,[],none,⟨drained,false,false⟩⟩) ?_ fun _ => ?_
      · exact (recordUsage_triple (.error cycle_failure) rfl rfl projected sent').before
          fun _ both => ⟨both.1.1,both.2.reported both.1.2⟩
      refine Triple.bind is_cancelled_moves fun cancelled => ?_
      split
      · refine Triple.bind (emit_plain trivial) fun _ => exit_triple (by simp) fun _ here => ⟨_,here⟩
      · split
        · refine Triple.bind ((append_all_triple appendable).before fun _ here => ⟨_,here⟩) ?_
          rintro ⟨checkpoint,_⟩
          refine .exists_ fun read => Triple.bind (loadMessages_moves rfl) fun loaded => ?_
          refine Triple.bind auto_compact_triple ?_
          rintro ⟨checkpoint,usage⟩
          refine .exists_ fun read => Triple.bind recordCompaction_moves fun _ => ?_
          exact .pure fun _ here => ⟨_,here⟩
        · split
          · exact exit_triple (by simp) fun _ here => ⟨_,here⟩
          · refine Triple.bind (send_plain trivial) fun _ => Triple.bind (retryDelay_moves rfl) ?_
            rintro ⟨broken,pending⟩
            split
            · rename_i pending' same
              obtain ⟨rfl,rfl⟩ := Prod.mk.inj same
              exact ih.before fun _ here => by simpa using here
            · rename_i messages' pending' same
              obtain ⟨rfl,rfl⟩ := Prod.mk.inj same
              refine Triple.bind ((interrupt_triple appendable).before fun _ here => ⟨_,here⟩) fun checkpoint => ?_
              exact .pure fun _ working => working

variable (prepared start) in
/-- The run is completed: it holds nothing and the queue was drained. -/
def Completed (outcome : RunOutcome) (w : World Digest) : Prop :=
  outcome = .Completed ∧ ∃ checkpoint flags, flags.drained = true ∧ Working prepared start checkpoint [] flags w

theorem finishCompaction_triple {cycle : ModelCycleResult} (compacting : prepared.action = .Compact) :
    Triple (Working prepared start checkpoint pending ⟨drained,false,false⟩)
      (finishCompaction prepared checkpoint cycle pending) (Completed prepared start) (Stopped prepared start) := by
  have appendable : ∀ drained, Appendable prepared ⟨drained,true,true⟩ := fun _ _ => compacting
  refine .exists_ fun read => ?_
  unfold finishCompaction
  dsimp only
  split
  · exact exit_triple (by simp) fun _ here => ⟨_,here⟩
  · split
    · exact exit_triple (by simp) fun _ here => ⟨_,here⟩
    · refine Triple.bind (replace_moves rfl rfl rfl rfl (.summary _ _ compacting)) fun checkpoint => ?_
      refine Triple.bind ((append_all_triple (appendable drained)).before fun _ here => ⟨_,here⟩) ?_
      rintro ⟨checkpoint,_⟩
      refine .exists_ fun read => Triple.bind begin_finalizing_triple fun _ => ?_
      refine Triple.bind (drain_accepted_triple.before fun _ both => ⟨⟨read,both.1⟩,both.2⟩) fun closing => ?_
      refine Triple.bind (append_all_triple (appendable true)) ?_
      rintro ⟨checkpoint,_⟩
      refine .exists_ fun read => Triple.bind (send_commit rfl rfl trivial (fun _ => rfl) (by simp)) fun _ => ?_
      refine Triple.bind wait_for_state_ready_moves fun _ => .pure fun _ here => ?_
      exact ⟨rfl,checkpoint,_,rfl,_,here⟩

variable (prepared start) in
def AfterTurn : Option Nat → World Digest → Prop
  | some checkpoint => fun w => ∃ drained, Working prepared start checkpoint [] ⟨drained,false,false⟩ w
  | none => fun w => ∃ checkpoint, Working prepared start checkpoint [] ⟨true,false,false⟩ w

theorem finishTurn_triple {index : Int} {cycle : ModelCycleResult} :
    Triple (Working prepared start checkpoint pending ⟨drained,false,false⟩)
      (finishTurn prepared checkpoint index cycle pending) (AfterTurn prepared start) (Stopped prepared start) := by
  have appendable : ∀ drained, Appendable prepared ⟨drained,false,false⟩ := fun _ => .of_settled rfl
  refine .exists_ fun read => ?_
  refine Triple.bind (Q := fun checkpoint => Working prepared start checkpoint pending ⟨drained,false,false⟩) ?_
    fun checkpoint => ?_
  · refine (checkpoint_moves (fun id => ⟨some id,none,pending,[],none,⟨drained,false,false⟩⟩) ?_ ?_).consequence
      (fun _ here => here) (fun _ _ here => ⟨none,here⟩) (fun _ _ stop => stop)
    · intro s reply store done
      obtain ⟨id,_,rfl⟩ := replyWith_ok done
      exact ⟨id,rfl⟩
    · intro w id store here done
      exact here.step (.assistant rfl rfl rfl done)
  · refine Triple.bind (append_all_triple (appendable drained)) ?_
    rintro ⟨checkpoint,inserted⟩
    dsimp only
    split
    · exact .pure fun _ working => ⟨drained,working⟩
    · refine .exists_ fun read => Triple.bind begin_finalizing_triple fun _ => ?_
      refine Triple.bind (drain_accepted_triple.before fun _ both => ⟨⟨read,both.1⟩,both.2⟩) fun closing => ?_
      split
      · refine Triple.bind (append_all_triple (appendable true)) ?_
        rintro ⟨checkpoint,_⟩
        refine .exists_ fun read => Triple.bind resume_running_triple fun _ => ?_
        exact .pure fun _ there => there.elim fun drained here => ⟨drained,read,here⟩
      · rename_i nothing
        have empty : closing = [] := by simpa using nothing
        subst empty
        refine .exists_ fun read => Triple.bind (send_commit rfl rfl trivial (by simp) (by simp)) fun _ => ?_
        exact Triple.bind wait_for_state_ready_moves fun _ => .pure fun _ here => ⟨checkpoint,_,here⟩

theorem modelLoop_triple (fuel : Nat) : ∀ {checkpoint : Nat} {overflow_compacted drained : Bool},
    Triple (Working prepared start checkpoint [] ⟨drained,false,false⟩)
      (modelLoop prepared fuel checkpoint overflow_compacted) (Completed prepared start) (Stopped prepared start) := by
  induction fuel with
  | zero => exact stuck_triple fun _ working => working.stops
  | succ fuel ih =>
    intro checkpoint overflow_compacted drained
    unfold modelLoop
    refine .exists_ fun read => Triple.bind is_cancelled_moves fun cancelled => ?_
    split
    · exact exit_triple (by simp) fun _ here => ⟨_,here⟩
    · refine Triple.bind (loadMessages_moves rfl) fun messages => ?_
      refine Triple.bind orFail_triple fun history => .assume fun projected => ?_
      refine Triple.bind (compactionEstimate_moves rfl projected rfl) fun estimate => ?_
      split
      · refine Triple.bind (send_plain trivial) fun _ => Triple.bind auto_compact_triple ?_
        rintro ⟨checkpoint,usage⟩
        refine .exists_ fun read => Triple.bind recordCompaction_moves fun _ => ?_
        exact ih.before fun _ here => ⟨_,here⟩
      · refine Triple.bind beginProviderCall_moves fun index => ?_
        refine Triple.bind (hydrate_tool_images_triple history) fun sent => .assume fun isSent => ?_
        subst isSent
        refine Triple.bind loopFuel_triple fun attempts => ?_
        rw [List.length_map]
        refine Triple.bind (attemptLoop_triple projected rfl attempts) fun attempt => ?_
        split
        · exact ih
        · rename_i cycle pending
          refine Triple.bind (Q := fun _ => At prepared start
            ⟨some checkpoint,some messages,pending,[],none,⟨drained,false,false⟩⟩) ?_ fun _ => ?_
          · rintro w ⟨here,invocation,isRequest,reported⟩
            exact recordUsage_triple (.ok cycle) rfl rfl projected (by rw [isRequest]) w ⟨here,reported⟩
          split
          · rename_i compacting
            exact (finishCompaction_triple compacting).before fun _ here => ⟨_,here⟩
          · split
            · refine Triple.bind (finishTurn_triple.before fun _ here => ⟨_,here⟩) fun next => ?_
              split
              · exact .exists_ fun drained => ih
              · exact .pure fun _ done => ⟨rfl,done.elim fun checkpoint working => ⟨checkpoint,_,rfl,working⟩⟩
            · refine Triple.bind ((execute_triple rfl (.inr ⟨index,rfl⟩)).before fun _ here => ⟨_,here⟩) fun checkpoint => ?_
              exact ih

theorem appendInitial_triple (messages : List CanonicalMessage) :
    ∀ {checkpoint : Nat} {changed : Bool}, messages ⊆ prepared.initial_messages →
      Triple (Working prepared start checkpoint [] ⟨drained,false,false⟩) (appendInitial prepared checkpoint changed messages)
        (fun result => Working prepared start result.1 [] ⟨drained,false,false⟩) (Stopped prepared start) := by
  induction messages with
  | nil => exact fun _ => .pure fun _ working => working
  | cons m rest ih =>
    intro checkpoint changed initial
    refine .exists_ fun read => ?_
    refine Triple.bind (appendMessageOnce_moves (fun id => ⟨some id,none,[],[],none,⟨drained,false,false⟩⟩) ?_) ?_
    · intro w id inserted store here done
      exact here.step (.initial_message rfl rfl rfl (initial (by simp)) done)
    · rintro ⟨checkpoint,inserted⟩
      exact (ih fun m later => initial (List.mem_cons_of_mem _ later)).before fun _ here => ⟨none,here⟩

theorem announceInitial_triple {changed : Bool} :
    Triple (Working prepared start checkpoint [] ⟨drained,false,false⟩) (announceInitial prepared checkpoint changed)
      (fun _ => Working prepared start checkpoint [] ⟨drained,false,false⟩) (Stopped prepared start) := by
  unfold announceInitial
  split
  · refine .exists_ fun read => Triple.bind (send_commit rfl rfl trivial (by simp) (by simp)) fun _ => ?_
    exact wait_for_state_ready_moves.consequence (fun _ here => here) (fun _ _ here => ⟨read,here⟩) (fun _ _ stop => stop)
  · exact .pure fun _ working => working

theorem resumeRound_triple : Triple (Working prepared start checkpoint [] ⟨drained,false,false⟩) (resumeRound prepared checkpoint)
      (fun checkpoint => Working prepared start checkpoint [] ⟨drained,false,false⟩) (Stopped prepared start) := by
  unfold resumeRound
  split
  · exact execute_triple rfl (.inl rfl)
  · exact .pure fun _ working => working

theorem run_claimed_triple :
    Triple (Working prepared start prepared.base_checkpoint_id [] {}) (run_claimed prepared prepared.base_checkpoint_id)
      (Completed prepared start) (Stopped prepared start) := by
  refine .exists_ fun read => Triple.bind latest_context_usage_moves fun anchor => .read fun w here => .write ?_
  refine Triple.before (P := Working prepared start prepared.base_checkpoint_id [] {}) ?_ ?_
  · refine Triple.bind (appendInitial_triple _ (fun _ member => member)) ?_
    rintro ⟨checkpoint,changed⟩
    refine Triple.bind announceInitial_triple fun _ => Triple.bind resumeRound_triple fun checkpoint => ?_
    exact Triple.bind loopFuel_triple fun fuel => modelLoop_triple fuel
  · rintro _ rfl
    exact ⟨read,here.step (.anchored anchor rfl rfl rfl)⟩

/-- A completed run is at a checkpoint, holds nothing and has drained its queue. -/
def Finished (outcome : RunOutcome) (c : Control) : Prop :=
  outcome = .Completed → (∃ checkpoint, c.checkpoint = some checkpoint) ∧ c.held = [] ∧ c.flags.drained = true

variable (prepared start) in
/-- The run has come to a control state, from which it may have announced its end. -/
def Ends (outcome : RunOutcome) (w : World Digest) : Prop :=
  ∃ c last, At prepared start c last ∧ (w = last ∨ w = last.note (.Emitted (.Ended outcome))) ∧ Finished outcome c

theorem endRun_triple (finished : Finished outcome c) :
    Triple (At prepared start c) (endRun prepared outcome) (Ends prepared start) (Stopped prepared start) := by
  refine Triple.bind finish_moves fun _ => ?_
  refine Triple.bind (Q := fun _ => Ends prepared start outcome) ?_ fun _ => .pure fun _ ends => ends
  refine Triple.bind next_moves fun _ => .read fun w here => ?_
  split
  · refine Triple.bind (Q := fun _ now => now = w.note (.Emitted (.Ended outcome))) ?_ fun _ => .pure ?_
    · exact .read fun w' same => .set fun _ _ => same ▸ rfl
    · rintro _ rfl
      exact ⟨c,w,here,.inr rfl,finished⟩
  · refine .pure ?_
    rintro _ rfl
    exact ⟨c,_,here,.inl rfl,finished⟩

theorem claimed_triple : Triple (Working prepared start prepared.base_checkpoint_id [] {})
      (tryCatch (run_claimed prepared prepared.base_checkpoint_id) outcomeOf)
      (fun outcome w => ∃ c, Finished outcome c ∧ At prepared start c w) (Stopped prepared start) := by
  refine Triple.tryCatch (C := Stopped prepared start) (run_claimed_triple.consequence (fun _ here => here) ?_
    (fun _ _ stop => stop)) ?_
  · rintro outcome w ⟨_,checkpoint,flags,drained,read,here⟩
    exact ⟨_,fun _ => ⟨⟨checkpoint,rfl⟩,rfl,drained⟩,here⟩
  · intro halt
    cases halt with
    | Stuck => exact stuck_triple fun _ stop => stop.2
    | Ended outcome =>
      refine .pure fun w stop => ?_
      obtain ⟨other,c,here⟩ := stop
      exact ⟨c,fun completed => absurd (by rw [completed]) other,here⟩

theorem run_triple : Triple (At prepared start {}) (run prepared) (Ends prepared start) (Stopped prepared start) := by
  refine Triple.bind (tryTransaction_triple (Q := fun reply w => ∃ claimed : ClaimedRun, reply = .Claimed claimed ∧
    claimed.head_checkpoint_id = prepared.base_checkpoint_id ∧
    Working prepared start prepared.base_checkpoint_id [] {} w) ?_) fun result => ?_
  · intro w reply store here done
    have shape := done
    obtain ⟨claimed,claims,rfl⟩ := replyWith_ok shape
    have isBase : claimed.head_checkpoint_id = prepared.base_checkpoint_id := (claim_run_runs claims).1
    have there := here.step (.claim rfl rfl done)
    rw [isBase] at there
    exact ⟨claimed,rfl,isBase,none,there⟩
  · cases result with
    | error error => exact endRun_triple (by simp [Finished])
    | ok reply =>
      refine .exists_ fun claimed => .assume fun isClaimed => .assume fun isBase => ?_
      subst isClaimed
      simp only [isBase]
      refine Triple.bind claimed_triple fun outcome => .exists_ fun c => .assume fun finished => .read fun w here => ?_
      refine Triple.before (P := At prepared start c) ?_ fun _ same => same ▸ here
      refine Triple.bind (Q := fun _ => At prepared start c) ?_ fun _ => endRun_triple finished
      refine (tryTransaction_triple (Q := fun _ => At prepared start c) ?_).consequence (fun _ here => here) ?_
        (fun _ _ stop => stop)
      · intro w reply store here done
        exact here.step (.finish_run done)
      · intro result w there
        cases result with
        | error error => exact there
        | ok reply => exact there

/-- Every run, whatever happens around it, takes steps of a run only; where it
    stops, it has come to some control state. -/
theorem run_reaches {result : Except Halt RunOutcome} {w : World Digest}
    (ran : runFrom (run prepared) (initial start.store start.script) = (result,w)) :
    ∃ c last, Reach prepared start ⟨c,last⟩ ∧ (w = last ∨ ∃ outcome, w = last.note (.Emitted (.Ended outcome))) ∧
      (result = .ok .Completed → (∃ checkpoint, c.checkpoint = some checkpoint) ∧ c.held = [] ∧ c.flags.drained = true) := by
  have done := @run_triple Digest _ _ _ _ prepared start (initial start.store start.script) Relation.ReflTransGen.refl
  rw [ran] at done
  cases result with
  | error halt =>
    obtain ⟨_,c,here⟩ := done
    exact ⟨c,w,here,.inl rfl,by simp⟩
  | ok outcome =>
    obtain ⟨c,last,here,same,finished⟩ := done
    refine ⟨c,last,here,same.imp_right fun ended => ⟨outcome,ended⟩,?_⟩
    intro completed
    exact finished (by simpa using completed)

end MyCursor.EngineSteps

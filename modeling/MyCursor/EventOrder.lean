import MyCursor.ToolRounds
import MyCursor.Transitions

/-!
# The order of a run's events

A round is announced, executed once and settled before anything else is
committed or another round begins, and the submitter of a batch is told that it
was applied only after one of its messages was announced. The client side
relies on this order.
-/
namespace MyCursor.EventOrder
open Message Store StoreSteps Projection Compaction Run
open Engine RunSteps ToolRounds Transitions Hoare
set_option linter.unusedSectionVars false

/-- The round that was announced and is not executed yet, the calls of the last
    executed round without a committed result, and all announced rounds. -/
structure Progress where
  waiting : Option ToolRoundId := none
  uncommitted : List String := []
  announced : List ToolRoundId := []
deriving DecidableEq

def commitProgress (p : Progress) : CommitCause → Progress
  | .ToolRoundStarted round_id => { p with waiting := some round_id, announced := round_id :: p.announced }
  | .ToolResult call_id _ => { p with uncommitted := p.uncommitted.filter (· ≠ call_id) }
  | .InitialMessages | .FinalTurn | .Compaction _ | .RuntimeEvent _ => p
def progress (p : Progress) : RunEvent → Progress
  | .MessagesCommitted state => commitProgress p state.cause
  | .ExecuteToolRound _ calls => { p with waiting := none, uncommitted := calls.map (·.call_id) }
  | _ => p

def Progress.Idle (p : Progress) : Prop := p.waiting = none ∧ p.uncommitted = []

def CommitAllowed (p : Progress) (barrier : CommitBarrier) : CommitCause → Prop
  | .ToolRoundStarted round_id => p.Idle ∧ round_id ∉ p.announced
  | .ToolResult call_id _ => p.uncommitted.filter (· ≠ call_id) = [] → barrier.is_required = true
  | .InitialMessages | .FinalTurn | .Compaction _ | .RuntimeEvent _ => p.Idle
/-- What may come next. -/
def Allowed (p : Progress) : RunEvent → Prop
  | .MessagesCommitted state => CommitAllowed p state.barrier state.cause
  | .ExecuteToolRound round_id calls =>
    p.waiting = some round_id ∧ p.uncommitted = [] ∧ calls ≠ [] ∧ (calls.map (·.call_id)).Nodup
  | _ => True

def emittedEvent : Entry → Option RunEvent
  | .Emitted event => some event
  | _ => none
def emitted (log : List Entry) : List RunEvent := log.filterMap emittedEvent

theorem emitted_append (log : List Entry) (entry : Entry) : emitted (log ++ [entry]) = emitted log ++ (emittedEvent entry).toList := by
  cases found : emittedEvent entry <;> simp [emitted,found]
theorem progress_plain {event : RunEvent} (plain : Plain (.Emitted event)) (p : Progress) : progress p event = p ∧ Allowed p event := by
  cases event <;> first | exact ⟨rfl,trivial⟩ | exact plain.elim
theorem progress_plainCause {cause : CommitCause} (plain : PlainCause cause) (p : Progress) (barrier : CommitBarrier) :
    commitProgress p cause = p ∧ (p.Idle → CommitAllowed p barrier cause) := by
  cases cause <;> first | exact ⟨rfl,id⟩ | exact plain.elim

section Runs
variable {Digest : Type} [DecidableEq Digest] [MessageHash Digest] [SerdeText] [Blobs] {prepared : PreparedRun}
variable {a b : Config Digest} {start : Start Digest}

/-! ## Every step keeps the order -/

/-- What the events tell agrees with the round that the engine is in. -/
structure InOrder (run_id : RunId) (a : Config Digest) (p : Progress) : Prop where
  stored : ∀ id ∈ p.announced, ∃ row, a.world.store.tool_rounds id = some row ∧ row.run_id = run_id
  closed : a.control.round = none → p.Idle
  created : ∀ round, a.control.round = some round → round.told = none →
    round.done = [] ∧ round.executed = false ∧ p.Idle ∧ round.id ∉ p.announced
  started : ∀ round told, a.control.round = some round → round.told = some told → round.executed = false →
    round.done = [] ∧ p.waiting = some round.id ∧ p.uncommitted = []
  executed : ∀ round told, a.control.round = some round → round.told = some told → round.executed = true →
    p.waiting = none ∧ p.uncommitted = (round.calls.map (·.call_id)).filter fun call_id => !told.contains call_id

/-- The events so far were allowed, and they agree with the engine. -/
def Ordered (run_id : RunId) (a : Config Digest) : Prop :=
  Meets progress Allowed {} (emitted a.world.log) ∧ InOrder run_id a (after progress {} (emitted a.world.log))

theorem InOrder.keep {run_id : RunId} {p : Progress} (order : InOrder run_id a p)
    (keeps : KeepsCalls run_id a.world.store b.world.store) (round : b.control.round = a.control.round) :
    InOrder run_id b p := by
  refine ⟨?_,round ▸ order.closed,round ▸ order.created,round ▸ order.started,round ▸ order.executed⟩
  intro id member
  obtain ⟨row,found,own⟩ := order.stored id member
  obtain ⟨row',found',own',_⟩ := keeps id row found own
  exact ⟨row',found',own'⟩

theorem InOrder.opened {run_id : RunId} {p : Progress} {round : OpenRound} (isRound : b.control.round = some round)
    (stored : ∀ id ∈ p.announced, ∃ row, b.world.store.tool_rounds id = some row ∧ row.run_id = run_id)
    (created : round.told = none → round.done = [] ∧ round.executed = false ∧ p.Idle ∧ round.id ∉ p.announced)
    (started : ∀ told, round.told = some told → round.executed = false → round.done = [] ∧ p.waiting = some round.id ∧ p.uncommitted = [])
    (executed : ∀ told, round.told = some told → round.executed = true →
      p.waiting = none ∧ p.uncommitted = (round.calls.map (·.call_id)).filter fun call_id => !told.contains call_id) :
    InOrder run_id b p := by
  refine ⟨stored,fun closed => (by cases isRound.symm.trans closed),fun other isOther => ?_,fun other told isOther => ?_,
    fun other told isOther => ?_⟩
  all_goals
    obtain rfl := Option.some.inj (isRound.symm.trans isOther)
  · exact created
  · exact started told
  · exact executed told

theorem Ordered.silent (ordered : Ordered prepared.run_id a) (keeps : KeepsCalls prepared.run_id a.world.store b.world.store)
    (log : emitted b.world.log = emitted a.world.log) (round : b.control.round = a.control.round) :
    Ordered prepared.run_id b := by
  unfold Ordered
  rw [log]
  exact ⟨ordered.1,ordered.2.keep keeps round⟩
theorem Ordered.emit (ordered : Ordered prepared.run_id a) (event : RunEvent) (log : b.world.log = a.world.log ++ [.Emitted event])
    (allowed : Allowed (after progress {} (emitted a.world.log)) event)
    (order : InOrder prepared.run_id b (progress (after progress {} (emitted a.world.log)) event)) :
    Ordered prepared.run_id b := by
  have grown : emitted b.world.log = emitted a.world.log ++ [event] := by
    rw [log,emitted_append]
    rfl
  unfold Ordered
  rw [grown,after_append,after_cons,after_nil]
  exact ⟨ordered.1.snoc allowed,order⟩

theorem emitted_act (r : RunId) (w : World Digest) (action : Action) : emitted (act r w action).log = emitted w.log :=
  (act_acted r w action).filterMap (fun _ => rfl) fun _ => rfl

theorem step_ordered (step : Step prepared a b) (grounded : Grounded prepared a) (ordered : Ordered prepared.run_id a) :
    Ordered prepared.run_id b := by
  have keeps := step_keepsCalls step grounded
  have order := ordered.2
  cases step with
  | @act c w action => exact ordered.silent keeps (emitted_act prepared.run_id w action) rfl
  | internal | phase | receive | drain | load | usage | compacted => exact ordered.silent keeps rfl rfl
  | answer | call | anchored | estimate =>
    exact ordered.silent keeps (by simp [World.note,emitted_append,emittedEvent]) rfl
  | provider_call | finish_run | claim | initial_message | batch_message | assistant | replace =>
    exact ordered.silent keeps (by simp [World.stored,emitted_append,emittedEvent]) rfl
  | @plain c w entry plain =>
    cases entry with
    | Emitted event =>
      obtain ⟨same,allowed⟩ := progress_plain plain (after progress {} (emitted w.log))
      refine ordered.emit event rfl allowed ?_
      rw [same]
      exact order.keep keeps rfl
    | _ => exact ordered.silent keeps (by simp [World.note,emitted_append,emittedEvent]) rfl
  | @announce c w state closed reached plain _ _ =>
    obtain ⟨same,allowed⟩ := progress_plainCause plain (after progress {} (emitted w.log)) state.barrier
    refine ordered.emit (.MessagesCommitted state) rfl (allowed (order.closed closed)) ?_
    rw [progress,same]
    exact order.keep keeps rfl
  | @create_round c w checkpoint id assistant calls created_at_ms reply store reached closed settled own done =>
    obtain ⟨_,_,unused,_,_⟩ := create_tool_round_ok (transact_create done).2
    have log : emitted (World.stored w (.create_tool_round id prepared.run_id checkpoint assistant calls created_at_ms)
        reply store).log = emitted w.log := by
      simp [World.stored,emitted_append,emittedEvent]
    unfold Ordered
    rw [log]
    have kept := order.keep (b := ⟨c,World.stored w (.create_tool_round id prepared.run_id checkpoint assistant calls
      created_at_ms) reply store⟩) keeps rfl
    refine ⟨ordered.1,.opened rfl kept.stored (fun _ => ⟨rfl,rfl,order.closed closed,fun member => ?_⟩)
      (fun _ isTold => by cases isTold) fun _ isTold => by cases isTold⟩
    obtain ⟨row,found,_⟩ := order.stored id member
    rw [unused] at found
    cases found
  | @announce_round c w checkpoint round reached opened silent =>
    obtain ⟨none_done,unexecuted,idle,fresh⟩ := order.created round opened silent
    obtain ⟨row,found,own,_⟩ := (grounded.round round opened).row
    refine ordered.emit (.MessagesCommitted ⟨checkpoint,0,.ToolRoundStarted round.id,.None⟩) rfl ⟨idle,fresh⟩ ?_
    refine .opened rfl (fun id member => ?_) (fun isTold => by cases isTold) (fun _ _ _ => ⟨none_done,rfl,idle.2⟩)
      fun _ _ isExecuted => by cases unexecuted.symm.trans isExecuted
    rcases List.mem_cons.mp member with rfl | earlier
    · exact ⟨row,found,own⟩
    · exact order.stored id earlier
  | @execute_round c w round opened told unexecuted =>
    obtain ⟨_,waiting,none_left⟩ := order.started round [] opened told unexecuted
    have isOpen := grounded.round round opened
    refine ordered.emit (.ExecuteToolRound round.id round.calls) rfl
      ⟨waiting,none_left,isOpen.some_call,isOpen.distinct⟩ ?_
    refine .opened rfl order.stored (fun isTold => by cases told.symm.trans isTold)
      (fun _ _ isExecuted => by cases isExecuted) fun told' isTold _ => ?_
    obtain rfl := Option.some.inj (told.symm.trans isTold)
    simp [progress]
  | @commit_result c w round result commit store opened told executed done =>
    have log : emitted (World.stored w (.commit_tool_result prepared.conversation_id prepared.run_id round.id result)
        (.Committed commit) store).log = emitted w.log := by
      simp [World.stored,emitted_append,emittedEvent]
    have kept := order.keep (b := ⟨c,World.stored w (.commit_tool_result prepared.conversation_id prepared.run_id round.id
      result) (.Committed commit) store⟩) keeps rfl
    unfold Ordered
    rw [log]
    exact ⟨ordered.1,.opened rfl kept.stored (fun isTold => by cases told.symm.trans isTold)
      (fun _ _ isExecuted => by cases executed.symm.trans isExecuted)
      fun told' isTold _ => order.executed round told' opened isTold executed⟩
  | @announce_result c w round told state call_id interrupted opened isTold next reached cause barrier =>
    have executed : round.executed = true := by
      by_contra unexecuted
      have := (order.started round told opened isTold (by simpa using unexecuted)).1
      rw [next] at this
      simp at this
    obtain ⟨waiting,left⟩ := order.executed round told opened isTold executed
    have left_after : (after progress {} (emitted w.log)).uncommitted.filter (· ≠ call_id) =
        (round.calls.map (·.call_id)).filter fun one => !round.done.contains one := by
      rw [left,List.filter_filter,next]
      refine List.filter_congr fun one _ => ?_
      simp [Bool.and_comm]
    refine ordered.emit (.MessagesCommitted state) rfl ?_ ?_
    · simp only [Allowed,cause,CommitAllowed,left_after]
      intro none_left
      refine barrier.mpr ((grounded.round round opened).all_iff.mpr fun one member => ?_)
      simpa using List.filter_eq_nil_iff.mp none_left one member
    simp only [progress,cause,commitProgress]
    refine .opened rfl order.stored (fun isTold => by cases isTold)
      (fun _ _ isExecuted => by cases executed.symm.trans isExecuted) fun told' isTold' _ => ?_
    obtain rfl := Option.some.inj isTold'
    exact ⟨waiting,left_after⟩
  | @close_round c w round opened told all =>
    have isOpen := grounded.round round opened
    have some_done : round.done ≠ [] := by
      rw [← List.length_pos_iff,all]
      exact List.length_pos_iff.mpr isOpen.some_call
    have executed : round.executed = true := by
      by_contra unexecuted
      exact some_done (order.started round round.done opened told (by simpa using unexecuted)).1
    obtain ⟨waiting,left⟩ := order.executed round round.done opened told executed
    refine ⟨ordered.1,order.stored,fun _ => ⟨waiting,?_⟩,by simp,by simp,by simp⟩
    rw [left,List.filter_eq_nil_iff]
    intro call_id member
    simpa using isOpen.all_iff.mp all member

theorem reach_ordered (reach : Reach prepared start a) : Ordered prepared.run_id a := by
  induction reach with
  | refl => exact ⟨trivial,by simp [initial,emitted],fun _ => ⟨rfl,rfl⟩,by simp,by simp,by simp⟩
  | tail earlier step ih => exact step_ordered step (Reach.grounded earlier) ih

theorem emitted_in_order {ops : List Op} {script : List Move} {result : Except Halt RunOutcome} {w : World Digest}
    (ran : runFrom (run prepared) (initial (replay ops) script) = (result,w)) :
    Meets progress Allowed {} (emitted w.log) := by
  obtain ⟨c,last,reach,ended,_⟩ :=
    @EngineSteps.run_reaches Digest _ _ _ _ prepared ⟨replay ops,script,ops,rfl⟩ result w ran
  have ordered := (reach_ordered reach).1
  rcases ended with rfl | ⟨outcome,rfl⟩
  · exact ordered
  · simp only [World.note,emitted_append,emittedEvent,Option.toList_some]
    exact ordered.snoc trivial

/-- Whoever is told that a batch was applied had one of its messages announced. -/
def AppliedAnnounced (log : List Entry) : Prop :=
  ∀ before ticket after, log = before ++ .Answered ticket .Applied :: after →
    ∃ batch : MessageBatch, batch.ticket = ticket ∧ Announced batch before

theorem AppliedAnnounced.snoc {log : List Entry} {entry : Entry} (applied : AppliedAnnounced log)
    (other : ∀ ticket, entry ≠ .Answered ticket .Applied) : AppliedAnnounced (log ++ [entry]) := by
  intro before ticket after split
  rcases split_snoc split with ⟨_,_,same⟩ | ⟨earlier,_,shorter⟩
  · exact absurd same (other ticket)
  · exact applied before ticket earlier shorter

theorem reach_applied (reach : Reach prepared start a) : AppliedAnnounced a.world.log := by
  induction reach with
  | refl =>
    intro before ticket after split
    simp [initial] at split
  | tail _ step ih =>
    cases step with
    | @act c w action =>
      rcases (act_acted prepared.run_id w action).log with same | ⟨entry,same,⟨result,rfl⟩ | ⟨batch,rfl⟩⟩
      · exact same ▸ ih
      · exact same ▸ ih.snoc (by simp)
      · exact same ▸ ih.snoc (by simp)
    | internal | phase | receive | drain | load | usage | compacted | close_round => exact ih
    | @plain c w entry plain =>
      refine ih.snoc ?_
      rintro ticket rfl
      exact plain
    | @answer c w batch rest result first whole delivered told =>
      intro before ticket after split
      rcases split_snoc split with ⟨_,rfl,same⟩ | ⟨earlier,_,shorter⟩
      · simp only [Entry.Answered.injEq] at same
        exact ⟨batch,same.1,told same.2⟩
      · exact ih before ticket earlier shorter
    | _ => exact ih.snoc (by simp)

theorem applied_announced {ops : List Op} {script : List Move} {result : Except Halt RunOutcome} {w : World Digest}
    (ran : runFrom (run prepared) (initial (replay ops) script) = (result,w)) : AppliedAnnounced w.log := by
  obtain ⟨c,last,reach,ended,_⟩ :=
    @EngineSteps.run_reaches Digest _ _ _ _ prepared ⟨replay ops,script,ops,rfl⟩ result w ran
  rcases ended with rfl | ⟨outcome,rfl⟩
  · exact reach_applied reach
  · exact (reach_applied reach).snoc (by simp)

def Unended (log : List Entry) : Prop := ∀ outcome, Entry.Emitted (.Ended outcome) ∉ log

theorem step_unended (step : Step prepared a b) (unended : Unended a.world.log) : Unended b.world.log := by
  cases step with
  | @act c w action =>
    rcases (act_acted prepared.run_id w action).log with same | ⟨entry,same,⟨result,rfl⟩ | ⟨batch,rfl⟩⟩
    · exact same ▸ unended
    all_goals simpa [Unended,same] using unended
  | @plain c w entry plain =>
    intro outcome isIn
    rcases List.mem_append.mp isIn with earlier | last
    · exact unended outcome earlier
    · obtain rfl := List.mem_singleton.mp last
      exact plain
  | _ => simpa [Unended,World.note,World.stored] using unended
theorem reach_unended (reach : Reach prepared start a) : Unended a.world.log := by
  induction reach with
  | refl => exact fun _ isIn => by cases isIn
  | tail _ step ih => exact step_unended step ih

/-- The end is told at most once, as the last of all entries and with what is returned. -/
def EndTold (ran : Except Halt RunOutcome × World Digest) : Prop := Unended ran.2.log ∨
  ∃ before outcome, Unended before ∧ ran.1 = .ok outcome ∧ ran.2.log = before ++ [.Emitted (.Ended outcome)]

theorem end_told_last (ops : List Op) (script : List Move) (prepared : PreparedRun) :
    EndTold (runFrom (run prepared) (initial (replay ops) script) : Except Halt RunOutcome × World Digest) := by
  have done := @EngineSteps.run_triple Digest _ _ _ _ prepared ⟨replay ops,script,ops,rfl⟩ (initial (replay ops) script)
    Relation.ReflTransGen.refl
  generalize (runFrom (run prepared) (initial (replay ops) script) : _ × World Digest) = ran at done ⊢
  obtain ⟨halt | outcome,w⟩ := ran
  · obtain ⟨_,_,here⟩ := done
    exact .inl (reach_unended here)
  · obtain ⟨_,last,here,rfl | rfl,_⟩ := done
    · exact .inl (reach_unended here)
    · exact .inr ⟨last.log,outcome,reach_unended here,rfl,rfl⟩

end Runs

end MyCursor.EventOrder

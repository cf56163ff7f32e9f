import MyCursor.EngineSteps

/-!
# Tool rounds

Between the start of a tool round and the commit that settles it, a run
commits the results of the round's own calls and nothing else, each of them
once, and it waits for the client on the last of them. A stored round is
settled exactly when each of its calls has a committed result.
-/
namespace MyCursor.ToolRounds
open Message Store StoreSteps Projection Compaction Run
open Engine RunSteps Hoare
set_option linter.unusedSectionVars false

variable {Digest : Type} [DecidableEq Digest] [MessageHash Digest] [SerdeText] [Blobs] {prepared : PreparedRun}
variable {a b : Config Digest}

def announced : Entry → Option MessagesCommitted
  | .Emitted (.MessagesCommitted state) => some state
  | _ => none
def commits (log : List Entry) : List MessagesCommitted := log.filterMap announced

def resultOf : CommitCause → Option String
  | .ToolResult call_id _ => some call_id
  | _ => none
theorem resultOf_some {cause : CommitCause} {call_id : String} :
    resultOf cause = some call_id ↔ ∃ interrupted, cause = .ToolResult call_id interrupted := by
  cases cause <;> simp [resultOf]

/-- What follows the start of a round with the given calls: as many commits as
    there are calls, unless the run ends, are results of the calls, no call has
    two, and the client is waited for on the last one only. -/
structure RoundCommits (call_ids : List String) (states : List MessagesCommitted) : Prop where
  own : ∀ state ∈ states.take call_ids.length, ∃ call_id ∈ call_ids, ∃ interrupted,
    state.cause = .ToolResult call_id interrupted
  once : ((states.take call_ids.length).map fun state => resultOf state.cause).Nodup
  barrier : ∀ i state, states[i]? = some state → i < call_ids.length → (state.barrier.is_required = true ↔ i + 1 = call_ids.length)

variable {states : List MessagesCommitted}

theorem RoundCommits.append {call_ids : List String}
    (round : RoundCommits call_ids states) (whole : call_ids.length ≤ states.length) (more : List MessagesCommitted) :
    RoundCommits call_ids (states ++ more) := by
  have same : (states ++ more).take call_ids.length = states.take call_ids.length := List.take_append_of_le_length whole
  refine ⟨by rw [same]; exact round.own,by rw [same]; exact round.once,?_⟩
  intro i state found bound
  rw [List.getElem?_append_left (by omega)] at found
  exact round.barrier i state found bound

variable {told : List String}

theorem RoundCommits.of_told {call_ids : List String}
    (told_eq : states.map (fun state => resultOf state.cause) = told.map some) (once : told.Nodup) (own : told ⊆ call_ids)
    (barrier : ∀ i state, states[i]? = some state → (state.barrier.is_required = true ↔ i + 1 = call_ids.length)) :
    RoundCommits call_ids states := by
  refine ⟨?_,?_,fun i state found _ => barrier i state found⟩
  · intro state member
    have later : resultOf state.cause ∈ states.map fun state => resultOf state.cause :=
      List.mem_map_of_mem (List.mem_of_mem_take member)
    rw [told_eq] at later
    obtain ⟨call_id,isTold,same⟩ := List.mem_map.mp later
    exact ⟨call_id,own isTold,resultOf_some.mp same.symm⟩
  · rw [List.map_take,told_eq]
    exact (List.Nodup.map (Option.some_injective _) once).sublist (List.take_sublist _ _)

/-! ## Every step keeps the commits of the rounds in order -/

def KeepsCalls (run_id : RunId) (s after : Tables Digest) : Prop :=
  ∀ id row, s.tool_rounds id = some row → row.run_id = run_id → ∃ row', after.tool_rounds id = some row' ∧ row'.run_id = run_id ∧
      row'.calls.map (·.call_id) = row.calls.map (·.call_id) ∧
      ∀ call_id, (∀ call ∈ row.calls, call.call_id = call_id → call.status = .Completed) →
        ∀ call ∈ row'.calls, call.call_id = call_id → call.status = .Completed

variable {run_id : RunId} {s after : Tables Digest}

theorem keepsCalls_of_untouched (untouched : Untouched s after run_id) : KeepsCalls run_id s after :=
  fun id row found own => ⟨row,untouched.rounds id row found own,own,rfl,fun _ completed => completed⟩
theorem keepsCalls_of_same (rounds : after.tool_rounds = s.tool_rounds) : KeepsCalls run_id s after :=
  fun id row found own => ⟨row,by rw [rounds,found],own,rfl,fun _ completed => completed⟩

theorem step_keepsCalls (step : Step prepared a b) (grounded : Grounded prepared a) :
    KeepsCalls prepared.run_id a.world.store b.world.store := by
  have wf := grounded.consistent.wellFormed
  cases step with
  | @act c w action =>
    rcases (act_acted prepared.run_id w action).store with same | ⟨op,foreign,same⟩
    · exact keepsCalls_of_same (by rw [same])
    · rw [same]
      exact keepsCalls_of_untouched (step_foreign grounded.consistent foreign)
  | internal | phase | receive | drain | plain | announce | answer | load | call | anchored | estimate | usage | compacted
  | announce_round | execute_round | announce_result | close_round => exact keepsCalls_of_same rfl
  | provider_call done =>
    obtain ⟨index,done,_⟩ := replyWith_ok done
    exact keepsCalls_of_untouched (begin_provider_call_untouched done)
  | finish_run done =>
    obtain ⟨released,done,_⟩ := replyWith_ok done
    exact keepsCalls_of_same (finish_run_untouched prepared.run_id done).2
  | @claim c w claimed store first closed done =>
    obtain ⟨_,done,_⟩ := replyWith_ok done
    obtain ⟨_,middle,ensured,_,_,_,_,_,_,rounds⟩ := claim_run_ok wf done
    exact keepsCalls_of_same (rounds.trans (ensure_conversation_runs ensured).2)
  | initial_message reached closed settled member done =>
    rcases transact_once wf done with ⟨_,_,_,rfl⟩ | ⟨_,_,appended⟩
    · exact keepsCalls_of_same rfl
    · exact keepsCalls_of_same (Appended.runs appended).1
  | batch_message reached closed settled first turn identified done =>
    rcases transact_once wf done with ⟨_,_,_,rfl⟩ | ⟨_,_,appended⟩
    · exact keepsCalls_of_same rfl
    · exact keepsCalls_of_same (Appended.runs appended).1
  | assistant reached closed settled done => exact keepsCalls_of_same (Appended.runs (transact_append wf done)).1
  | replace reached closed between settled replacement done =>
    obtain ⟨_,_,appended⟩ := transact_replace wf done
    exact keepsCalls_of_same (Appended.runs appended).1
  | create_round reached closed settled own done =>
    exact keepsCalls_of_untouched (create_tool_round_untouched (transact_create done).2)
  | @commit_result c w round result commit store opened told executed done =>
    obtain ⟨row,call,head,middle,committed⟩ := transact_commit wf done
    intro id row' found own
    simp only [World.stored,committed.after_eq]
    by_cases same : id = round.id
    · subst same
      rw [committed.isRound,Option.some.injEq] at found
      subst found
      refine ⟨_,setToolRound_self middle round.id _,own,by simp [completeRound,completeCall_id],?_⟩
      intro call_id completed call' later named
      simp only [completeRound,List.mem_map] at later
      obtain ⟨old,isOld,rfl⟩ := later
      rw [completeCall_id] at named
      exact (completeCall_status _ _ _ old).mpr (.inl (completed old isOld named))
    · refine ⟨row',?_,own,rfl,fun _ completed => completed⟩
      exact (Function.update_of_ne same _ _).trans ((congrFun (Appended.runs committed.appended).1 id).trans found)

/-- Every announced round is stored with its calls and followed by its
    commits; by all of them when `whole`. -/
def Rounds (run_id : RunId) (whole : Prop) (s : Tables Digest) (states : List MessagesCommitted) : Prop :=
  ∀ before state after id, states = before ++ state :: after → state.cause = .ToolRoundStarted id →
    ∃ row, s.tool_rounds id = some row ∧ row.run_id = run_id ∧ row.calls ≠ [] ∧
      RoundCommits (row.calls.map (·.call_id)) after ∧ (whole → row.calls.length ≤ after.length)

variable {whole : Prop}

theorem Rounds.later (rounds : Rounds run_id whole s states) (keeps : KeepsCalls run_id s after) : Rounds run_id whole after states := by
  intro before state rest id split started
  obtain ⟨row,found,own,some_call,round,all⟩ := rounds before state rest id split started
  obtain ⟨row',found',own',ids,_⟩ := keeps id row found own
  have length : row'.calls.length = row.calls.length := by simpa using congrArg List.length ids
  refine ⟨row',found',own',?_,ids ▸ round,by rw [length]; exact all⟩
  rw [← List.length_pos_iff,length]
  exact List.length_pos_iff.mpr some_call

theorem Rounds.append
    (rounds : Rounds run_id True s states) {state : MessagesCommitted} (plain : ∀ id, state.cause ≠ .ToolRoundStarted id) :
    Rounds run_id True s (states ++ [state]) := by
  intro before start after id split started
  rcases split_snoc split with ⟨_,_,rfl⟩ | ⟨earlier,rfl,shorter⟩
  · exact absurd started (plain id)
  · obtain ⟨row,found,own,some_call,round,all⟩ := rounds before start earlier id shorter started
    refine ⟨row,found,own,some_call,?_,?_⟩
    · exact round.append (by simpa using all trivial) _
    · intro _
      have := all trivial
      simp only [List.length_append,List.length_singleton]
      omega

theorem Rounds.add {before after : List MessagesCommitted} {start : MessagesCommitted} (rounds : Rounds run_id True s before)
    (told_eq : after.map (fun state => resultOf state.cause) = told.map some)
    (opened : ∀ id, start.cause = .ToolRoundStarted id → ∃ row, s.tool_rounds id = some row ∧ row.run_id = run_id ∧
      row.calls ≠ [] ∧ RoundCommits (row.calls.map (·.call_id)) after ∧ (whole → row.calls.length ≤ after.length)) :
    Rounds run_id whole s (before ++ start :: after) := by
  intro before' state after' id split started
  have noStart : ∀ state ∈ after, ∀ id, state.cause ≠ .ToolRoundStarted id := by
    intro state member id isStart
    have later : resultOf state.cause ∈ after.map fun state => resultOf state.cause := List.mem_map_of_mem member
    rw [told_eq,isStart] at later
    simp [resultOf] at later
  rcases List.append_eq_append_iff.mp split with ⟨more,longer,rest⟩ | ⟨more,shorter,rest⟩
  · cases more with
    | nil =>
      simp only [List.nil_append,List.cons.injEq] at rest
      obtain ⟨rfl,rfl⟩ := rest
      exact opened id started
    | cons first more =>
      -- The start would lie among the results of the open round.
      simp only [List.cons_append,List.cons.injEq] at rest
      exact absurd started (noStart state (by rw [rest.2]; simp) id)
  · cases more with
    | nil =>
      simp only [List.nil_append,List.cons.injEq] at rest
      obtain ⟨rfl,rfl⟩ := rest
      exact opened id started
    | cons first more =>
      simp only [List.cons_append,List.cons.injEq] at rest
      obtain ⟨rfl,rfl⟩ := rest
      obtain ⟨row,found,own,some_call,round,all⟩ := rounds before' state more id shorter started
      refine ⟨row,found,own,some_call,round.append (by simpa using all trivial) _,?_⟩
      intro _
      have := all trivial
      simp only [List.length_append]
      omega

/-- Outside of an announced round all rounds are settled; in one, the commits
    after its start are those that the engine has announced. -/
def RoundLog (run_id : RunId) (a : Config Digest) : Prop :=
  match a.control.round.bind fun round => round.told.map fun told => (round,told) with
  | none => Rounds run_id True a.world.store (commits a.world.log)
  | some (round,told) =>
    ∃ before start after, commits a.world.log = before ++ start :: after ∧ start.cause = .ToolRoundStarted round.id ∧
      Rounds run_id True a.world.store before ∧ told <+: round.done ∧
      after.map (fun state => resultOf state.cause) = told.map some ∧
      ∀ i state, after[i]? = some state → (state.barrier.is_required = true ↔ i + 1 = round.calls.length)

theorem RoundOpen.commits {round : OpenRound}
    {start : MessagesCommitted} {after : List MessagesCommitted} (isOpen : RoundOpen s run_id round)
    (started : start.cause = .ToolRoundStarted round.id) (part : told <+: round.done)
    (told_eq : after.map (fun state => resultOf state.cause) = told.map some)
    (barriers : ∀ i state, after[i]? = some state → (state.barrier.is_required = true ↔ i + 1 = round.calls.length))
    (all : whole → told.length = round.calls.length) :
    ∀ id, start.cause = .ToolRoundStarted id → ∃ row, s.tool_rounds id = some row ∧ row.run_id = run_id ∧
      row.calls ≠ [] ∧ RoundCommits (row.calls.map (·.call_id)) after ∧ (whole → row.calls.length ≤ after.length) := by
  intro id isStart
  obtain rfl : round.id = id := by simpa [started] using isStart
  obtain ⟨row,found,own,ids,_⟩ := isOpen.row
  have length : row.calls.length = round.calls.length := by simpa using congrArg List.length ids
  refine ⟨row,found,own,?_,?_,?_⟩
  · rw [← List.length_pos_iff,length]
    exact List.length_pos_iff.mpr isOpen.some_call
  · refine .of_told told_eq (isOpen.once.sublist part.sublist) ?_ ?_
    · rw [ids]
      exact fun call_id isTold => isOpen.own (part.subset isTold)
    · simpa [length] using barriers
  · intro isWhole
    have := congrArg List.length told_eq
    simp only [List.length_map] at this
    have := all isWhole
    omega

theorem RoundLog.keep (roundLog : RoundLog prepared.run_id a) (keeps : KeepsCalls prepared.run_id a.world.store b.world.store)
    (same : commits b.world.log = commits a.world.log) (round : b.control.round = a.control.round) :
    RoundLog prepared.run_id b := by
  unfold RoundLog at roundLog ⊢
  rw [round,same]
  split at roundLog
  · exact roundLog.later keeps
  · obtain ⟨before,start,after,split,started,rounds,rest⟩ := roundLog
    exact ⟨before,start,after,split,started,rounds.later keeps,rest⟩

theorem commits_append (log : List Entry) (entry : Entry) : commits (log ++ [entry]) = commits log ++ (announced entry).toList := by
  cases found : announced entry <;> simp [commits,found]
theorem commits_act (r : RunId) (w : World Digest) (action : Action) : commits (act r w action).log = commits w.log :=
  (act_acted r w action).filterMap (fun _ => rfl) fun _ => rfl
theorem announced_plain {entry : Entry} (plain : Plain entry) : announced entry = none := by
  cases entry with
  | Emitted event => cases event <;> first | rfl | exact plain.elim
  | _ => rfl

theorem step_roundLog (step : Step prepared a b) (grounded : Grounded prepared a) (roundLog : RoundLog prepared.run_id a) :
    RoundLog prepared.run_id b := by
  have keeps := step_keepsCalls step grounded
  have grounded' := step.grounded grounded
  cases step with
  | @act c w action => exact roundLog.keep keeps (commits_act prepared.run_id w action) rfl
  | internal | phase | receive | drain | load | usage | compacted => exact roundLog.keep keeps rfl rfl
  | plain plain => exact roundLog.keep keeps (by simp [World.note,commits_append,announced_plain plain]) rfl
  | answer => exact roundLog.keep keeps (by simp [World.note,commits_append,announced]) rfl
  | call => exact roundLog.keep keeps (by simp [World.note,commits_append,announced]) rfl
  | anchored => exact roundLog.keep keeps (by simp [World.note,commits_append,announced]) rfl
  | estimate => exact roundLog.keep keeps (by simp [World.note,commits_append,announced]) rfl
  | provider_call => exact roundLog.keep keeps (by simp [World.stored,commits_append,announced]) rfl
  | finish_run => exact roundLog.keep keeps (by simp [World.stored,commits_append,announced]) rfl
  | claim => exact roundLog.keep keeps (by simp [World.stored,commits_append,announced]) rfl
  | initial_message => exact roundLog.keep keeps (by simp [World.stored,commits_append,announced]) rfl
  | batch_message => exact roundLog.keep keeps (by simp [World.stored,commits_append,announced]) rfl
  | assistant => exact roundLog.keep keeps (by simp [World.stored,commits_append,announced]) rfl
  | replace => exact roundLog.keep keeps (by simp [World.stored,commits_append,announced]) rfl
  | @announce c w state closed reached plain =>
    simp only [RoundLog,closed,Option.bind_none] at roundLog ⊢
    simp only [World.note,commits_append,announced,Option.toList_some]
    refine roundLog.append ?_
    intro id started
    rw [started] at plain
    exact plain
  | @create_round c w checkpoint id assistant calls created_at_ms reply store reached closed settled own done =>
    simp only [RoundLog,closed,Option.bind_none] at roundLog
    simp only [RoundLog,Option.bind_some,Option.map_none,World.stored,commits_append,announced,Option.toList_none,List.append_nil]
    exact roundLog.later keeps
  | @announce_round c w checkpoint round reached opened silent =>
    simp only [RoundLog,opened,Option.bind_some,silent,Option.map_none] at roundLog
    refine ⟨commits w.log,⟨checkpoint,0,.ToolRoundStarted round.id,.None⟩,[],?_,rfl,roundLog,List.nil_prefix,rfl,by simp⟩
    simp [World.note,commits_append,announced]
  | @execute_round c w round opened told unexecuted =>
    simp only [RoundLog,opened,Option.bind_some,told,Option.map_some] at roundLog ⊢
    simpa [World.note,commits_append,announced] using roundLog
  | @commit_result c w round result commit store opened told executed done =>
    simp only [RoundLog,opened,Option.bind_some,told,Option.map_some] at roundLog
    obtain ⟨before,start,after,split,started,rounds,_,rest⟩ := roundLog
    simp only [RoundLog,Option.bind_some,told,Option.map_some]
    refine ⟨before,start,after,?_,started,rounds.later keeps,List.prefix_append _ _,rest⟩
    simp [World.stored,commits_append,announced,split]
  | @announce_result c w round told state call_id interrupted opened isTold next reached cause barrier =>
    simp only [RoundLog,opened,Option.bind_some,isTold,Option.map_some] at roundLog
    obtain ⟨before,start,after,split,started,rounds,_,told_eq,barriers⟩ := roundLog
    have length : after.length = told.length := by simpa using congrArg List.length told_eq
    simp only [RoundLog,Option.bind_some,Option.map_some]
    refine ⟨before,start,after ++ [state],?_,started,rounds,List.prefix_rfl,?_,?_⟩
    · simp [World.note,commits_append,announced,split]
    · rw [List.map_append,told_eq,next]
      simp [cause,resultOf]
    · intro i state' found
      by_cases earlier : i < after.length
      · rw [List.getElem?_append_left earlier] at found
        exact barriers i state' found
      · have last : i = after.length := by
          have := (List.getElem?_eq_some_iff.mp found).1
          simp only [List.length_append,List.length_singleton] at this
          omega
        subst last
        simp only [List.getElem?_append_right (Nat.le_refl _),Nat.sub_self,List.getElem?_cons_zero,Option.some.injEq] at found
        subst found
        rw [barrier,next,length]
        simp
  | @close_round c w round opened told all =>
    simp only [RoundLog,opened,Option.bind_some,told,Option.map_some] at roundLog
    obtain ⟨before,start,after,split,started,rounds,_,told_eq,barriers⟩ := roundLog
    have isOpen := grounded.round round opened
    simp only [RoundLog,Option.bind_none,split]
    exact rounds.add told_eq (RoundOpen.commits isOpen started List.prefix_rfl told_eq barriers fun _ => all)

variable {start : Start Digest}

theorem reach_roundLog (reach : Reach prepared start a) : RoundLog prepared.run_id a := by
  induction reach with
  | refl =>
    intro before state after id split
    simp [initial,commits] at split
  | @tail b c earlier step ih => exact step_roundLog step (Reach.grounded earlier) ih

theorem RoundLog.rounds (roundLog : RoundLog prepared.run_id a) (grounded : Grounded prepared a) :
    Rounds prepared.run_id False a.world.store (commits a.world.log) := by
  unfold RoundLog at roundLog
  split at roundLog
  · intro before state after id split started
    obtain ⟨row,found,own,some_call,round,_⟩ := roundLog before state after id split started
    exact ⟨row,found,own,some_call,round,False.elim⟩
  · rename_i round told isOpen
    obtain ⟨before,start,after,split,started,rounds,part,told_eq,barriers⟩ := roundLog
    obtain ⟨round',opened,isTold⟩ := Option.bind_eq_some_iff.mp isOpen
    obtain ⟨told',_,same⟩ := Option.map_eq_some_iff.mp isTold
    simp only [Prod.mk.injEq] at same
    obtain ⟨rfl,rfl⟩ := same
    rw [split]
    exact rounds.add told_eq (RoundOpen.commits (grounded.round round' opened) started part told_eq barriers False.elim)

/-! ## No call is committed twice -/

def committedCall (id : ToolRoundId) : Entry → Option String
  | .Stored (.commit_tool_result _ _ round_id result) (.Committed _) => if round_id = id then some result.call_id else none
  | _ => none
/-- The calls of the round in the order in which the run committed their results. -/
def committedCalls (id : ToolRoundId) (log : List Entry) : List String := log.filterMap (committedCall id)

/-- The commits of a round are distinct, and the stored calls are completed. -/
structure CallsOnce (run_id : RunId) (id : ToolRoundId) (a : Config Digest) : Prop where
  once : (committedCalls id a.world.log).Nodup
  completed : ∀ call_id ∈ committedCalls id a.world.log, ∃ row, a.world.store.tool_rounds id = some row ∧
    row.run_id = run_id ∧ ∀ call ∈ row.calls, call.call_id = call_id → call.status = .Completed

theorem CallsOnce.keep {id : ToolRoundId} (callsOnce : CallsOnce prepared.run_id id a)
    (keeps : KeepsCalls prepared.run_id a.world.store b.world.store)
    (same : committedCalls id b.world.log = committedCalls id a.world.log) : CallsOnce prepared.run_id id b := by
  refine ⟨by rw [same]; exact callsOnce.once,?_⟩
  intro call_id member
  rw [same] at member
  obtain ⟨row,found,own,completed⟩ := callsOnce.completed call_id member
  obtain ⟨row',found',own',_,still⟩ := keeps id row found own
  exact ⟨row',found',own',still call_id completed⟩

theorem committedCalls_append (id : ToolRoundId) (log : List Entry) (entry : Entry) :
    committedCalls id (log ++ [entry]) = committedCalls id log ++ (committedCall id entry).toList := by
  cases found : committedCall id entry <;> simp [committedCalls,found]
theorem committedCalls_act (id : ToolRoundId) (r : RunId) (w : World Digest) (action : Action) :
    committedCalls id (act r w action).log = committedCalls id w.log :=
  (act_acted r w action).filterMap (fun _ => rfl) fun _ => rfl
theorem committedCall_plain {id : ToolRoundId} {entry : Entry} (plain : Plain entry) : committedCall id entry = none := by
  cases entry with
  | Stored => exact plain.elim
  | _ => rfl

theorem step_callsOnce {id : ToolRoundId} (step : Step prepared a b) (grounded : Grounded prepared a)
    (callsOnce : CallsOnce prepared.run_id id a) : CallsOnce prepared.run_id id b := by
  have keeps := step_keepsCalls step grounded
  cases step with
  | @act c w action => exact callsOnce.keep keeps (committedCalls_act id prepared.run_id w action)
  | internal | phase | receive | drain | load | usage | compacted | close_round => exact callsOnce.keep keeps rfl
  | plain plain => exact callsOnce.keep keeps (by simp [World.note,committedCalls_append,committedCall_plain plain])
  | announce | answer | call | anchored | estimate | announce_round | execute_round | announce_result =>
    exact callsOnce.keep keeps (by simp [World.note,committedCalls_append,committedCall])
  | provider_call | finish_run | claim | initial_message | batch_message | assistant | replace | create_round =>
    exact callsOnce.keep keeps (by simp [World.stored,committedCalls_append,committedCall])
  | @commit_result c w round result commit store opened told executed done =>
    by_cases same : round.id = id
    · subst same
      obtain ⟨row,call,head,middle,committed⟩ := transact_commit grounded.consistent.wellFormed done
      have added : committedCalls round.id (World.stored w (.commit_tool_result prepared.conversation_id prepared.run_id
          round.id result) (.Committed commit) store).log = committedCalls round.id w.log ++ [result.call_id] := by
        simp [World.stored,committedCalls_append,committedCall]
      have fresh : result.call_id ∉ committedCalls round.id w.log := by
        intro earlier
        obtain ⟨row',found,_,completed⟩ := callsOnce.completed _ earlier
        obtain rfl : row = row' := Option.some.inj (committed.isRound.symm.trans found)
        have := completed call (List.mem_of_find?_eq_some committed.isCall)
          (by simpa using List.find?_some committed.isCall)
        rw [committed.callPending] at this
        cases this
      refine ⟨?_,?_⟩
      · rw [added,List.nodup_append]
        refine ⟨callsOnce.once,by simp,?_⟩
        rintro a earlier b new rfl
        rw [List.mem_singleton] at new
        exact fresh (new ▸ earlier)
      · intro call_id member
        rw [added] at member
        rcases List.mem_append.mp member with earlier | new
        · obtain ⟨row',found,own,completed⟩ := callsOnce.completed _ earlier
          obtain ⟨row'',found',own',_,still⟩ := keeps round.id row' found own
          exact ⟨row'',found',own',still call_id completed⟩
        · rw [List.mem_singleton] at new
          subst new
          refine ⟨completeRound row result commit.checkpoint_id,?_,committed.owner,?_⟩
          · simp only [World.stored,committed.after_eq]
            exact setToolRound_self middle round.id _
          · intro call' later named
            simp only [completeRound,List.mem_map] at later
            obtain ⟨old,_,rfl⟩ := later
            rw [completeCall_id] at named
            exact (completeCall_status _ _ _ old).mpr (.inr named)
    · refine callsOnce.keep keeps ?_
      simp [World.stored,committedCalls_append,committedCall,same]

theorem reach_callsOnce (id : ToolRoundId) (reach : Reach prepared start a) : CallsOnce prepared.run_id id a := by
  induction reach with
  | refl => exact ⟨by simp [initial,committedCalls],by simp [initial,committedCalls]⟩
  | @tail b c earlier step ih => exact step_callsOnce step (Reach.grounded earlier) ih

/-- The checkpoint of the call's commit holds its result. -/
def HasResult (s : Tables Digest) (call : ToolRoundCallRow) : Prop :=
  ∃ checkpoint, call.committed_checkpoint_id = some checkpoint ∧ ∃ m ∈ load_checkpoint_messages s checkpoint,
    ∃ result, m.content = .ToolResult result ∧ result.call_id = call.call_id ∧ call.result_content = some result.content ∧
      call.result_is_error = some result.is_error

structure RoundStored (s : Tables Digest) (row : ToolRoundRow) : Prop where
  settled : row.status = .Settled ↔ ∀ call ∈ row.calls, call.status = .Completed
  completed : ∀ call ∈ row.calls, call.status = .Completed → HasResult s call ∧
    ∀ checkpoint, call.committed_checkpoint_id = some checkpoint → ∃ c, Belongs s c checkpoint
  pending : ∀ call ∈ row.calls, call.status = .Pending → call.committed_checkpoint_id = none

theorem RoundStored.later {row : ToolRoundRow} (stored : RoundStored s row) (forest : Forest s)
    (extends_ : Extends s after) : RoundStored after row := by
  refine ⟨stored.settled,?_,stored.pending⟩
  intro call member completed
  obtain ⟨⟨checkpoint,isCheckpoint,held⟩,belongs⟩ := stored.completed call member completed
  obtain ⟨c,row,rowMember,named,_⟩ := belongs checkpoint isCheckpoint
  refine ⟨⟨checkpoint,isCheckpoint,?_⟩,fun checkpoint' same => (belongs checkpoint' same).imp fun _ => extends_.belongs⟩
  rw [forest.load_stable extends_ checkpoint ⟨row,rowMember,named⟩]
  exact held

theorem RoundStored.settled_iff {row : ToolRoundRow} (stored : RoundStored s row) :
    row.status = .Settled ↔ ∀ call ∈ row.calls, HasResult s call := by
  rw [stored.settled]
  constructor
  · exact fun all call member => (stored.completed call member (all call member)).1
  · intro all call member
    cases status : call.status with
    | Completed => rfl
    | Pending =>
      obtain ⟨checkpoint,isCheckpoint,_⟩ := all call member
      rw [stored.pending call member status] at isCheckpoint
      cases isCheckpoint

def RoundsStored (s : Tables Digest) : Prop := ∀ id row, s.tool_rounds id = some row → RoundStored s row

theorem transact_tool_rounds (consistent : Consistent s) {op : Op} {reply : Reply} (done : transact s op = .ok (reply,after))
    (create : ∀ id r base assistant calls created, op ≠ .create_tool_round id r base assistant calls created)
    (commit : ∀ c r id result, op ≠ .commit_tool_result c r id result) : after.tool_rounds = s.tool_rounds := by
  have wf := consistent.wellFormed
  cases op with
  | ensure_conversation c =>
    obtain ⟨id,done,_⟩ := replyWith_ok done
    exact (ensure_conversation_runs done).2
  | import_checkpoint c messages =>
    obtain ⟨id,done,_⟩ := replyWith_ok done
    obtain ⟨_,middle,ensured,_,⟨_,rfl⟩ | ⟨_,_,_,inserted⟩⟩ := import_checkpoint_ok wf done
    · exact (ensure_conversation_runs ensured).2
    · exact inserted.tool_rounds.trans (ensure_conversation_runs ensured).2
  | claim_run claim =>
    obtain ⟨_,done,_⟩ := replyWith_ok done
    obtain ⟨_,middle,ensured,_,_,_,_,_,_,rounds⟩ := claim_run_ok wf done
    exact rounds.trans (ensure_conversation_runs ensured).2
  | append_checkpoint c r expected additions =>
    obtain ⟨id,done,_⟩ := replyWith_ok done
    rcases append_checkpoint_ok wf done with ⟨_,_,rfl⟩ | appended
    · rfl
    · exact (Appended.runs appended).1
  | append_message_once c r expected m =>
    rw [transact] at done
    obtain ⟨⟨id,inserted⟩,done,_⟩ := replyWith_ok done
    rcases append_message_once_ok wf done with ⟨_,_,_,rfl⟩ | ⟨_,_,appended⟩
    · rfl
    · exact (Appended.runs appended).1
  | replace_checkpoint c r expected messages =>
    obtain ⟨id,done,_⟩ := replyWith_ok done
    obtain ⟨_,_,appended⟩ := replace_checkpoint_ok wf done
    exact (Appended.runs appended).1
  | create_tool_round id r base assistant calls created => exact absurd rfl (create id r base assistant calls created)
  | commit_tool_result c r id result => exact absurd rfl (commit c r id result)
  | begin_provider_call r =>
    obtain ⟨index,done,_⟩ := replyWith_ok done
    unfold begin_provider_call at done
    split at done
    · cases done
    · split_ifs at done
      simp only [Except.ok.injEq,Prod.mk.injEq] at done
      rw [← done.2]
      rfl
  | finish_run r status usage failure =>
    obtain ⟨released,done,_⟩ := replyWith_ok done
    exact (finish_run_untouched r done).2

theorem RoundStored.created {r : RunId} {base : Nat} {assistant : ToolRoundAssistant}
    {calls : List ToolCall} {created_at_ms : Option Nat} (some_call : calls ≠ []) :
    RoundStored s ⟨r,base,assistant,.Pending,0,0,created_at_ms,calls.map pendingCall⟩ := by
  obtain ⟨first,rest,rfl⟩ := List.exists_cons_of_ne_nil some_call
  refine ⟨?_,?_,?_⟩
  · simp [pendingCall]
  · intro call member completed
    obtain ⟨_,_,rfl⟩ := List.mem_map.mp member
    cases completed
  · intro call member _
    obtain ⟨_,_,rfl⟩ := List.mem_map.mp member
    rfl

theorem completeRound_settled (row : ToolRoundRow) (result : ToolResult) (checkpoint : Nat) :
    (completeRound row result checkpoint).status = .Settled ↔
      ∀ call ∈ (completeRound row result checkpoint).calls, call.status = .Completed := by
  simp only [completeRound]
  split_ifs with none_pending
  · simp only [true_iff]
    intro call member
    have := List.countP_eq_zero.mp none_pending call member
    cases status : call.status with
    | Completed => rfl
    | Pending => simp [isPending,status] at this
  · simp only [false_iff]
    intro all
    refine none_pending (List.countP_eq_zero.mpr ?_)
    intro call member
    simp [isPending,all call member]

theorem Committed.stored {s middle after : Tables Digest} {c : ConversationId} {r : RunId} {id : ToolRoundId}
    {result : ToolResult} {row : ToolRoundRow} {call : ToolRoundCallRow} {head : Nat} {commit : ToolCommit}
    (committed : Committed s c r id result row call head commit middle after) (stored : RoundStored s row) (wf : WellFormed s) :
    RoundStored after (completeRound row result commit.checkpoint_id) := by
  have extends_ := Writes.extends_ committed.writes wf
  have loads : load_checkpoint_messages after commit.checkpoint_id =
      load_checkpoint_messages s head ++ commitMessages id row call result := by
    rw [committed.after_eq,← committed.appended.loads]
    apply load_congr <;> rfl
  have belongs : Belongs after c commit.checkpoint_id := by
    obtain ⟨_,_,inserted,_,same⟩ := committed.appended.written
    rw [committed.after_eq,same]
    exact inserted.belongs
  have old := stored.later wf.toForest extends_
  refine ⟨completeRound_settled row result commit.checkpoint_id,?_,?_⟩
  · intro call' member completed
    simp only [completeRound,List.mem_map] at member
    obtain ⟨before,isBefore,rfl⟩ := member
    unfold completeCall at completed ⊢
    split_ifs at completed ⊢ with matches_
    · refine ⟨⟨commit.checkpoint_id,rfl,?_⟩,?_⟩
      · refine ⟨_,by rw [loads]; exact List.mem_append_right _ (List.mem_cons_of_mem _ (List.mem_singleton.mpr rfl)),_,rfl,?_⟩
        exact ⟨matches_.1.symm,rfl,rfl⟩
      · intro checkpoint same
        simp only [Option.some.injEq] at same
        exact ⟨c,same ▸ belongs⟩
    · exact old.completed before isBefore completed
  · intro call' member pending
    simp only [completeRound,List.mem_map] at member
    obtain ⟨before,isBefore,rfl⟩ := member
    unfold completeCall at pending ⊢
    split_ifs at pending ⊢
    exact stored.pending before isBefore pending

theorem transact_stored (consistent : Consistent s) (stored : RoundsStored s) {op : Op}
    {reply : Reply} (done : transact s op = .ok (reply,after)) : RoundsStored after := by
  have wf := consistent.wellFormed
  have extends_ := Writes.extends_ (transact_writes consistent done) wf
  have later : ∀ {id row}, s.tool_rounds id = some row → RoundStored after row :=
    fun found => (stored _ _ found).later wf.toForest extends_
  by_cases create : ∃ id r base assistant calls created, op = .create_tool_round id r base assistant calls created
  · obtain ⟨round_id,r,base,assistant,calls,created,rfl⟩ := create
    obtain ⟨some_call,_,_,_,rfl⟩ := create_tool_round_ok (transact_create done).2
    intro id row found
    by_cases same : id = round_id
    · subst same
      rw [setToolRound_self,Option.some.injEq] at found
      rw [← found]
      exact RoundStored.created some_call
    · exact later ((Function.update_of_ne same _ _).symm.trans found)
  by_cases commit : ∃ c r id result, op = .commit_tool_result c r id result
  · obtain ⟨c,r,round_id,result,rfl⟩ := commit
    obtain ⟨commit,done,_⟩ := replyWith_ok done
    obtain ⟨row,call,head,middle,committed⟩ := commit_tool_result_ok wf done
    intro id row' found
    rw [committed.after_eq] at found
    by_cases same : id = round_id
    · subst same
      rw [setToolRound_self,Option.some.injEq] at found
      rw [← found]
      exact Committed.stored committed (stored _ _ committed.isRound) wf
    · refine later (((congrFun (Appended.runs committed.appended).1 id).symm.trans ?_))
      exact (Function.update_of_ne same _ _).symm.trans found
  · intro id row found
    have rounds := transact_tool_rounds consistent done (fun id r base assistant calls created same =>
      create ⟨id,r,base,assistant,calls,created,same⟩) (fun c r id result same => commit ⟨c,r,id,result,same⟩)
    exact later (rounds ▸ found)

theorem replay_stored (ops : List Op) : RoundsStored (replay ops : Tables Digest) := by
  induction ops using List.reverseRecOn with
  | nil => exact fun id row found => by cases found
  | append_singleton ops op ih =>
    rw [replay_snoc]
    unfold step
    cases done : transact (replay ops : Tables Digest) op with
    | error e => exact ih
    | ok result => exact transact_stored (replay_consistent ops) ih done

/-- What holds of the tool rounds of every run on every reachable store. -/
structure RoundProtocol (run_id : RunId) (w : World Digest) : Prop where
  /-- What is committed from the start of a round to its settling. -/
  commits : ∀ before state after id, commits w.log = before ++ state :: after → state.cause = .ToolRoundStarted id →
    ∃ row, w.store.tool_rounds id = some row ∧ row.run_id = run_id ∧ row.calls ≠ [] ∧ RoundCommits (row.calls.map (·.call_id)) after
  /-- No call of a round is committed twice. -/
  once : ∀ id, (committedCalls id w.log).Nodup
  /-- A stored round is settled iff each of its calls has a committed result. -/
  settled : ∀ id row, w.store.tool_rounds id = some row → (row.status = .Settled ↔ ∀ call ∈ row.calls, HasResult w.store call)

theorem reach_protocol (reach : Reach prepared start a) : RoundProtocol prepared.run_id a.world := by
  have grounded := Reach.grounded reach
  refine ⟨?_,fun id => (reach_callsOnce id reach).once,?_⟩
  · intro before state after id split started
    obtain ⟨row,found,own,some_call,round,_⟩ :=
      (reach_roundLog reach).rounds grounded before state after id split started
    exact ⟨row,found,own,some_call,round⟩
  · intro id row found
    obtain ⟨ops,same⟩ := grounded.reachable
    have stored : RoundsStored a.world.store := by
      rw [same]
      exact replay_stored ops
    exact (stored id row found).settled_iff

/-- Every run keeps the protocol of tool rounds, in every order in which
    results, messages and cancellations arrive, and wherever it has got to. -/
theorem tool_rounds_keep_protocol (ops : List Op) (script : List Move) (prepared : PreparedRun) :
    RoundProtocol prepared.run_id (runFrom (run prepared) (initial (replay ops) script) : _ × World Digest).2 := by
  cases ran : (runFrom (run prepared) (initial (replay ops) script) : _ × World Digest) with
  | mk result w =>
    obtain ⟨c,last,reach,ended,_⟩ :=
      @EngineSteps.run_reaches Digest _ _ _ _ prepared ⟨replay ops,script,ops,rfl⟩ result w ran
    have protocol := reach_protocol reach
    rcases ended with rfl | ⟨outcome,rfl⟩
    · exact protocol
    · refine ⟨?_,?_,protocol.settled⟩
      · have same : commits (last.note (.Emitted (.Ended outcome))).log = commits last.log := by
          simp [World.note,commits,List.filterMap_cons,announced]
        rw [same]
        exact protocol.commits
      · simpa [World.note,committedCalls_append,committedCall] using protocol.once

end MyCursor.ToolRounds

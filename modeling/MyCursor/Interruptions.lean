import MyCursor.ClientSession

/-!
# Interrupted tool calls

The client side keeps the ids of interrupted calls for the whole run, while
they are unique within a round only. Where no id of a round was interrupted in
another round, the completions that are dropped are those of calls that were
interrupted in their own round.
-/
namespace MyCursor.Interruptions
open Message Compaction Run Engine
open Store hiding step
open Delivery EventOrder ConversationOutput ClientSession Transitions Hoare

/-! ## Dispatched and interrupted calls -/

/-- A call that was dispatched is interrupted, or it belongs to the round that
    is executed and has no result yet; the calls of that round were not
    interrupted in an earlier one. -/
structure Traced (o : Output) (dispatched interrupted : List (ToolRoundId × String)) (p : Progress) : Prop where
  named : ∀ call_id ∈ o.interrupted_tool_calls, ∃ round_id, (round_id,call_id) ∈ interrupted
  running : ∀ round_id call_id, (round_id,call_id) ∈ dispatched →
    (round_id,call_id) ∈ interrupted ∨ (o.completed_round = some round_id ∧ call_id ∈ p.uncommitted)
  completions : ∀ call_id ∈ o.completions, (∃ round_id, (round_id,call_id) ∈ interrupted) ∨
    (call_id ∈ p.uncommitted ∧ ∀ round_id, o.completed_round = some round_id → (round_id,call_id) ∉ dispatched)
  own : ∀ call_id ∈ p.uncommitted, ∀ round_id, (round_id,call_id) ∈ interrupted → o.completed_round = some round_id
  distinct : dispatched.Nodup
  executed : ∀ round_id, (o.completed_round = some round_id ∨ (∃ call_id, (round_id,call_id) ∈ interrupted) ∨
    ∃ call_id, (round_id,call_id) ∈ dispatched) → round_id ∈ p.announced ∧ p.waiting ≠ some round_id
  started : o.completed_round = none → o.active_tool_calls = [] ∧ p.uncommitted = []
  waiting : ∀ round_id, p.waiting = some round_id → round_id ∈ p.announced

section Steps
variable {o o' : Output} {dispatched interrupted : List (ToolRoundId × String)} {p : Progress}

variable {round_id : ToolRoundId} {call_id : String}

theorem Traced.dropped (traced : Traced o dispatched interrupted p)
    (member : (round_id,call_id) ∈ dispatched) (drops : call_id ∈ o.interrupted_tool_calls) : (round_id,call_id) ∈ interrupted := by
  rcases traced.running round_id call_id member with done | ⟨isRound,uncommitted⟩
  · exact done
  · obtain ⟨other,isInterrupted⟩ := traced.named call_id drops
    have same := traced.own call_id uncommitted other isInterrupted
    rw [isRound,Option.some.injEq] at same
    exact same ▸ isInterrupted

/-- None of the calls was interrupted in another round. -/
def Unshared (interrupted : List (ToolRoundId × String)) (round_id : ToolRoundId) (calls : List ToolCall) : Prop :=
  ∀ call ∈ calls, ∀ one ∈ interrupted, one.2 = call.call_id → one.1 = round_id

section
variable (traced : Traced o dispatched interrupted p)
include traced

theorem Traced.settled {calls : List ToolCall} (allowed : Allowed p (.ExecuteToolRound round_id calls)) :
    (∀ one ∈ dispatched, one ∈ interrupted) ∧ (∀ call_id ∈ o.completions, ∃ other, (other,call_id) ∈ interrupted) ∧
      (∀ call_id, (round_id,call_id) ∉ interrupted) ∧ ∀ call_id, (round_id,call_id) ∉ dispatched := by
  obtain ⟨waiting,none_left,_⟩ := allowed
  have apart := fun holds => (traced.executed round_id holds).2 waiting
  refine ⟨?_,?_,fun call_id member => apart (.inr (.inl ⟨call_id,member⟩)),
    fun call_id member => apart (.inr (.inr ⟨call_id,member⟩))⟩
  · rintro ⟨other,call_id⟩ member
    rcases traced.running other call_id member with done | ⟨_,left⟩
    · exact done
    · rw [none_left] at left
      cases left
  · intro call_id member
    rcases traced.completions call_id member with done | ⟨left,_⟩
    · exact done
    · rw [none_left] at left
      cases left

theorem Traced.skip {calls : List ToolCall}
    (allowed : Allowed p (.ExecuteToolRound round_id calls)) (unshared : Unshared interrupted round_id calls)
    (done : execute_tool_round o round_id calls = (o',none)) :
    Traced o' dispatched (calls.map (fun call => (round_id,call.call_id)) ++ interrupted)
      (progress p (.ExecuteToolRound round_id calls)) := by
  obtain ⟨known,answered,fresh,_⟩ := traced.settled allowed
  have announced := traced.waiting round_id allowed.1
  obtain ⟨_,completed,rfl⟩ := execute_skipped done
  refine ⟨?_,?_,?_,?_,traced.distinct,?_,by simp,by simp [progress]⟩
  · intro call_id member
    rcases List.mem_append.mp member with new | old
    · obtain ⟨call,isCall,rfl⟩ := List.mem_map.mp new
      exact ⟨round_id,List.mem_append_left _ (List.mem_map_of_mem isCall)⟩
    · obtain ⟨other,isInterrupted⟩ := traced.named call_id old
      exact ⟨other,List.mem_append_right _ isInterrupted⟩
  · exact fun other call_id member => .inl (List.mem_append_right _ (known _ member))
  · intro call_id member
    obtain ⟨other,isInterrupted⟩ := answered call_id member
    exact .inl ⟨other,List.mem_append_right _ isInterrupted⟩
  · intro call_id member other isInterrupted
    rcases List.mem_append.mp isInterrupted with new | old
    · obtain ⟨call,_,same⟩ := List.mem_map.mp new
      exact congrArg some (Prod.mk.inj same).1
    · obtain ⟨call,isCall,rfl⟩ := List.mem_map.mp member
      exact congrArg some (unshared call isCall _ old rfl).symm
  · intro other holds
    refine ⟨?_,by simp [progress]⟩
    rcases holds with isRound | ⟨call_id,member⟩ | old
    · exact Option.some.inj isRound ▸ announced
    · rcases List.mem_append.mp member with new | old
      · obtain ⟨call,_,same⟩ := List.mem_map.mp new
        exact (Prod.mk.inj same).1 ▸ announced
      · exact (traced.executed other (.inr (.inl ⟨call_id,old⟩))).1
    · exact (traced.executed other (.inr (.inr old))).1

theorem Traced.dispatch {calls batch : List ToolCall}
    (allowed : Allowed p (.ExecuteToolRound round_id calls)) (unshared : Unshared interrupted round_id calls)
    (done : execute_tool_round o round_id calls = (o',some batch)) :
    Traced o' (batch.map (fun call => (round_id,call.call_id)) ++ dispatched) interrupted
      (progress p (.ExecuteToolRound round_id calls)) := by
  obtain ⟨known,answered,fresh,undispatched⟩ := traced.settled allowed
  have announced := traced.waiting round_id allowed.1
  have distinct := allowed.2.2.2
  obtain ⟨completed,rfl,rfl⟩ := execute_dispatched done
  refine ⟨traced.named,?_,?_,?_,?_,?_,by simp,by simp [progress]⟩
  · intro other call_id member
    rcases List.mem_append.mp member with new | old
    · obtain ⟨call,isCall,same⟩ := List.mem_map.mp new
      obtain ⟨rfl,rfl⟩ := Prod.mk.inj same
      exact .inr ⟨rfl,List.mem_map_of_mem (List.mem_filter.mp isCall).1⟩
    · exact .inl (known _ old)
  · exact fun call_id member => .inl (answered call_id member)
  · intro call_id member other isInterrupted
    obtain ⟨call,isCall,rfl⟩ := List.mem_map.mp member
    exact congrArg some (unshared call isCall _ isInterrupted rfl).symm
  · refine List.nodup_append.mpr ⟨?_,traced.distinct,?_⟩
    · have fewer : (start_batch calls completed).Sublist calls := List.filter_sublist
      refine List.Nodup.of_map Prod.snd ?_
      rw [List.map_map]
      exact distinct.sublist (fewer.map _)
    · rintro one new two old rfl
      obtain ⟨call,_,rfl⟩ := List.mem_map.mp new
      exact undispatched _ old
  · intro other holds
    refine ⟨?_,by simp [progress]⟩
    rcases holds with isRound | old | ⟨call_id,member⟩
    · exact Option.some.inj isRound ▸ announced
    · exact (traced.executed other (.inr (.inl old))).1
    · rcases List.mem_append.mp member with new | old
      · obtain ⟨call,_,same⟩ := List.mem_map.mp new
        exact (Prod.mk.inj same).1 ▸ announced
      · exact (traced.executed other (.inr (.inr ⟨call_id,old⟩))).1

end

theorem mem_interruptCalls {calls : List String} : (round_id,call_id) ∈ interruptCalls o calls interrupted ↔
      (o.completed_round = some round_id ∧ call_id ∈ calls) ∨ (round_id,call_id) ∈ interrupted := by
  simp [interruptCalls]

section
variable (traced : Traced o dispatched interrupted p)
include traced

theorem Traced.interrupt (calls : List String) (round : o'.completed_round = o.completed_round)
    (named : ∀ call_id ∈ o'.interrupted_tool_calls, call_id ∈ o.interrupted_tool_calls ∨ (call_id ∈ calls ∧ o.completed_round ≠ none))
    (completions : o'.completions = o.completions) (active : o'.active_tool_calls ⊆ o.active_tool_calls) :
    Traced o' dispatched (interruptCalls o calls interrupted) p := by
  have grows : ∀ {round_id call_id}, (round_id,call_id) ∈ interrupted →
      (round_id,call_id) ∈ interruptCalls o calls interrupted := fun old => mem_interruptCalls.mpr (.inr old)
  refine ⟨?_,?_,?_,?_,traced.distinct,?_,?_,traced.waiting⟩
  · intro call_id member
    rcases named call_id member with old | ⟨new,isSome⟩
    · obtain ⟨round_id,isInterrupted⟩ := traced.named call_id old
      exact ⟨round_id,grows isInterrupted⟩
    · obtain ⟨round_id,isRound⟩ := Option.ne_none_iff_exists'.mp isSome
      exact ⟨round_id,mem_interruptCalls.mpr (.inl ⟨isRound,new⟩)⟩
  · rw [round]
    exact fun round_id call_id member => (traced.running round_id call_id member).imp_left grows
  · rw [round,completions]
    exact fun call_id member => (traced.completions call_id member).imp_left fun ⟨round_id,old⟩ => ⟨round_id,grows old⟩
  · rw [round]
    intro call_id uncommitted round_id isInterrupted
    rcases mem_interruptCalls.mp isInterrupted with ⟨isRound,_⟩ | old
    · exact isRound
    · exact traced.own call_id uncommitted round_id old
  · rw [round]
    rintro round_id (isRound | ⟨call_id,isInterrupted⟩ | old)
    · exact traced.executed round_id (.inl isRound)
    · rcases mem_interruptCalls.mp isInterrupted with ⟨isRound,_⟩ | old
      · exact traced.executed round_id (.inl isRound)
      · exact traced.executed round_id (.inr (.inl ⟨call_id,old⟩))
    · exact traced.executed round_id (.inr (.inr old))
  · rw [round]
    intro isNone
    obtain ⟨none_active,none_left⟩ := traced.started isNone
    refine ⟨?_,none_left⟩
    rw [none_active] at active
    exact List.subset_nil.mp active

theorem Traced.commit {barrier : CommitBarrier} {cause : CommitCause}
    (committed : Committed o cause o') (allowed : CommitAllowed p barrier cause)
    (other : ∀ call_id isInterrupted, cause ≠ .ToolResult call_id isInterrupted) :
    Traced o' dispatched interrupted (commitProgress p cause) := by
  have uncommitted : (commitProgress p cause).uncommitted = p.uncommitted := by
    cases cause <;> first | rfl | exact absurd rfl (other _ _)
  have rounds : ∀ round_id ∈ p.announced, round_id ∈ (commitProgress p cause).announced ∧
      ((commitProgress p cause).waiting = some round_id → p.waiting = some round_id) := by
    intro round_id member
    cases cause with
    | ToolRoundStarted started =>
      refine ⟨List.mem_cons_of_mem _ member,fun isWaiting => ?_⟩
      exact absurd (Option.some.inj isWaiting ▸ member) allowed.2
    | _ => exact ⟨member,id⟩
  refine ⟨committed.interrupted ▸ traced.named,?_,?_,?_,traced.distinct,?_,?_,?_⟩
  · rw [committed.completed_round,uncommitted]
    exact traced.running
  · rw [committed.completed_round,uncommitted]
    exact fun call_id member => traced.completions call_id (committed.completions member)
  · rw [committed.completed_round,uncommitted]
    exact traced.own
  · rw [committed.completed_round]
    intro round_id holds
    obtain ⟨announced,apart⟩ := traced.executed round_id holds
    obtain ⟨still,same⟩ := rounds round_id announced
    exact ⟨still,fun isWaiting => apart (same isWaiting)⟩
  · rw [committed.completed_round,uncommitted]
    intro isNone
    obtain ⟨none_active,none_left⟩ := traced.started isNone
    exact ⟨List.subset_nil.mp (none_active ▸ committed.active),none_left⟩
  · intro round_id isWaiting
    cases cause with
    | ToolRoundStarted started => exact Option.some.inj isWaiting ▸ List.mem_cons_self
    | ToolResult call_id isInterrupted => exact absurd rfl (other call_id isInterrupted)
    | _ => exact traced.waiting round_id isWaiting

/-- The result of a call is committed: the call is interrupted, or its
    completion was forwarded. -/
theorem Traced.result {isInterrupted : Bool} (committed : Committed o (.ToolResult call_id isInterrupted) o') :
    Traced o' dispatched (interruptCalls o (interruptedCall (.ToolResult call_id isInterrupted)) interrupted)
      (commitProgress p (.ToolResult call_id isInterrupted)) := by
  have grown : Traced o dispatched (interruptCalls o (interruptedCall (.ToolResult call_id isInterrupted)) interrupted) p :=
    traced.interrupt (interruptedCall (.ToolResult call_id isInterrupted)) rfl (fun _ => .inl) rfl fun _ => id
  generalize isCalls : interruptCalls o (interruptedCall (.ToolResult call_id isInterrupted)) interrupted = now at grown
  have left : ∀ {other}, other ∈ p.uncommitted → other ≠ call_id →
      other ∈ (commitProgress p (.ToolResult call_id isInterrupted)).uncommitted := by
    intro other member different
    simpa [commitProgress] using ⟨member,different⟩
  have fewer : (commitProgress p (.ToolResult call_id isInterrupted)).uncommitted ⊆ p.uncommitted :=
    fun _ member => (List.mem_filter.mp member).1
  -- A call that still runs when its result is committed was interrupted in this round.
  have ended : ∀ round_id, (round_id,call_id) ∈ dispatched → o.completed_round = some round_id →
      call_id ∈ p.uncommitted → (round_id,call_id) ∈ now := by
    intro round_id member isRound uncommitted
    cases isInterrupted with
    | true =>
      rw [← isCalls]
      exact mem_interruptCalls.mpr (.inl ⟨isRound,by simp [interruptedCall]⟩)
    | false =>
      rcases grown.completions call_id (committed.typed call_id rfl) with ⟨other,earlier⟩ | ⟨_,apart⟩
      · have same := grown.own call_id uncommitted other earlier
        rw [isRound,Option.some.injEq] at same
        exact same ▸ earlier
      · exact absurd member (apart round_id isRound)
  refine ⟨committed.interrupted ▸ grown.named,?_,?_,?_,grown.distinct,?_,?_,grown.waiting⟩
  · rw [committed.completed_round]
    intro round_id other member
    rcases grown.running round_id other member with done | ⟨isRound,uncommitted⟩
    · exact .inl done
    · by_cases same : other = call_id
      · subst same
        exact .inl (ended round_id member isRound uncommitted)
      · exact .inr ⟨isRound,left uncommitted same⟩
  · rw [committed.completed_round]
    intro other member
    rcases grown.completions other (committed.completions member) with done | ⟨uncommitted,apart⟩
    · exact .inl done
    · by_cases same : other = call_id
      · subst same
        cases isInterrupted with
        | false => exact absurd member (committed.removed other rfl)
        | true =>
          by_cases isNone : o.completed_round = none
          · rw [(grown.started isNone).2] at uncommitted
            cases uncommitted
          · obtain ⟨round_id,isRound⟩ := Option.ne_none_iff_exists'.mp isNone
            refine .inl ⟨round_id,?_⟩
            rw [← isCalls]
            exact mem_interruptCalls.mpr (.inl ⟨isRound,by simp [interruptedCall]⟩)
      · exact .inr ⟨left uncommitted same,apart⟩
  · rw [committed.completed_round]
    exact fun other uncommitted => grown.own other (fewer uncommitted)
  · rw [committed.completed_round]
    exact grown.executed
  · rw [committed.completed_round]
    intro isNone
    obtain ⟨none_active,none_left⟩ := grown.started isNone
    refine ⟨List.subset_nil.mp (none_active ▸ committed.active),List.subset_nil.mp ?_⟩
    exact none_left ▸ fewer

theorem Traced.complete
    (member : (round_id,call_id) ∈ dispatched) (same : o' = o ∨ o' = { o with completions := call_id :: o.completions }) :
    Traced o' (dispatched.erase (round_id,call_id)) interrupted p := by
  have fewer := List.erase_subset (a := (round_id,call_id)) (l := dispatched)
  have rest : Traced o (dispatched.erase (round_id,call_id)) interrupted p := by
    refine ⟨traced.named,fun _ _ left => traced.running _ _ (fewer left),?_,traced.own,traced.distinct.erase _,?_,
      traced.started,traced.waiting⟩
    · intro other isCompleted
      refine (traced.completions other isCompleted).imp_right fun ⟨uncommitted,apart⟩ => ⟨uncommitted,?_⟩
      exact fun one isRound left => apart one isRound (fewer left)
    · rintro other (isRound | old | ⟨call,left⟩)
      · exact traced.executed other (.inl isRound)
      · exact traced.executed other (.inr (.inl old))
      · exact traced.executed other (.inr (.inr ⟨call,fewer left⟩))
  rcases same with rfl | rfl
  · exact rest
  · refine ⟨rest.named,rest.running,?_,rest.own,rest.distinct,rest.executed,rest.started,rest.waiting⟩
    intro other isCompleted
    rcases List.mem_cons.mp isCompleted with rfl | old
    · refine (traced.running round_id other member).imp (fun done => ⟨round_id,done⟩) fun ⟨isRound,uncommitted⟩ => ?_
      refine ⟨uncommitted,fun one isOne => ?_⟩
      rw [isRound,Option.some.injEq] at isOne
      subst isOne
      exact traced.distinct.not_mem_erase
    · exact rest.completions other old

end

end Steps

/-- Its calls were not interrupted in another round. -/
def Apart (s : Session) (label : Label) : Prop :=
  ∀ round ∈ nextRound s label, Unshared s.interrupted round.1 round.2
instance (interrupted : List (ToolRoundId × String)) (round_id : ToolRoundId) (calls : List ToolCall) :
    Decidable (Unshared interrupted round_id calls) :=
  inferInstanceAs (Decidable (∀ call ∈ calls, ∀ one ∈ interrupted, one.2 = call.call_id → one.1 = round_id))
instance (s : Session) (label : Label) : Decidable (Apart s label) :=
  inferInstanceAs (Decidable (∀ round ∈ nextRound s label, Unshared s.interrupted round.1 round.2))

def CallsTraced (s : Session) : Prop :=
  s.ended = false → Traced s.output s.dispatched s.interrupted s.progress

theorem step_traced {log : List Entry} (ordered : Meets progress Allowed {} (emitted log)) {s t : Session} {label : Label}
    (follows : Follows log s) (change : Change s label t) (traced : CallsTraced s) (apart : Apart s label) : CallsTraced t := by
  cases change with
  | stay | take | elsewhere | submit => exact traced
  | ending _ _ ended => exact fun still => absurd (ended.symm.trans still) (by simp)
  | commit state rest waits output running next committed =>
    have allowed := follows.allowed ordered next
    have traced := traced running
    intro _
    show Traced output s.dispatched (interruptCalls s.output (interruptedCall state.cause) s.interrupted)
      (s.taken (.MessagesCommitted state) rest).progress
    rw [s.progress_taken]
    by_cases isResult : ∃ call_id isInterrupted, state.cause = .ToolResult call_id isInterrupted
    · obtain ⟨call_id,isInterrupted,isCause⟩ := isResult
      simp only [progress]
      rw [isCause] at committed ⊢
      exact traced.result committed
    · have other := not_exists.mp isResult
      have none_ : interruptedCall state.cause = [] := by
        unfold interruptedCall
        split
        · next call_id isCause => exact absurd ⟨true,isCause⟩ (other call_id)
        · rfl
      have same : interruptCalls s.output (interruptedCall state.cause) s.interrupted = s.interrupted := by
        simp [interruptCalls,none_]
      rw [same]
      exact traced.commit committed allowed fun call_id isInterrupted isCause => other call_id ⟨isInterrupted,isCause⟩
  | skip round_id calls rest waits output running next done =>
    have unshared : Unshared s.interrupted round_id calls := apart (round_id,calls) (by simp [nextRound,next])
    have skipped := (traced running).skip (follows.allowed ordered next) unshared done
    rw [← s.progress_taken _ rest] at skipped
    exact fun _ => skipped
  | dispatch round_id calls batch rest waits output running next done =>
    have unshared : Unshared s.interrupted round_id calls := apart (round_id,calls) (by simp [nextRound,next])
    have started := (traced running).dispatch (follows.allowed ordered next) unshared done
    rw [← s.progress_taken _ rest] at started
    exact fun _ => started
  | other event rest waits running next uncommitted unexecuted =>
    have same : (s.taken event rest).progress = s.progress :=
      (s.progress_taken event rest).trans (progress_other uncommitted unexecuted _)
    exact fun _ => same ▸ traced running
  | complete round_id call_id waits output running member same => exact fun _ => (traced running).complete member same
  | reject action injection_ids running =>
    have traced := traced running
    exact fun _ => ⟨traced.named,traced.running,traced.completions,traced.own,traced.distinct,traced.executed,
      traced.started,traced.waiting⟩
  | queue action compiled running identified =>
    have traced := traced running
    refine fun _ => traced.interrupt (activeCalls s.output) rfl ?_ rfl fun _ => id
    intro call_id member
    rcases List.mem_append.mp member with new | old
    · refine .inr ⟨new,fun isNone => ?_⟩
      rw [(traced.started isNone).1] at new
      cases new
    · exact .inl old

/-- The completion of a call that was dispatched in the round is dropped. -/
def drops (s : Session) (round_id : ToolRoundId) (call_id : String) (waits : Forwarding) : Bool :=
  !s.ended && s.dispatched.contains (round_id,call_id) && (forward_completion s.output call_id waits).toOption.any (·.2 = .Discarded)

section Runs
variable {Digest : Type} [DecidableEq Digest] [MessageHash Digest] [SerdeText] [Blobs]

/-- Where no call id of a round was interrupted in another round, a completion
    is dropped only if the call was interrupted in its own round. -/
theorem dropped_completion_interrupted (prepared : PreparedRun) (ops : List Op) (script : List Move) (request_id : String)
    {result : Except Halt RunOutcome} {w : World Digest}
    (ran : runFrom (run prepared) (initial (replay ops) script) = (result,w)) (labels : List Label)
    (apart : Meets step Apart (.initial request_id prepared.run_id w.log) labels) (round_id : ToolRoundId)
    (call_id : String) (waits : Forwarding)
    (isDropped : drops (after step (.initial request_id prepared.run_id w.log) labels) round_id call_id waits = true) :
    (round_id,call_id) ∈ (after step (.initial request_id prepared.run_id w.log) labels).interrupted := by
  have ordered := emitted_in_order ran
  have start : Follows w.log (.initial request_id prepared.run_id w.log) ∧ CallsTraced (.initial request_id prepared.run_id w.log) := by
    refine ⟨⟨rfl,rfl⟩,fun _ => ⟨by simp [Session.initial],by simp [Session.initial],by simp [Session.initial],?_,
      List.nodup_nil,by simp [Session.initial],fun _ => ⟨rfl,rfl⟩,?_⟩⟩
    · simp [Session.initial]
    · simp [Session.progress,Session.initial]
  obtain ⟨_,traced⟩ := apart.invariant (P := fun s => Follows w.log s ∧ CallsTraced s) start
    fun s label holds isApart => ⟨step_follows holds.1 label,step_traced ordered holds.1 (step_change s label) holds.2 isApart⟩
  generalize after step (.initial request_id prepared.run_id w.log) labels = s at traced isDropped ⊢
  simp only [drops,Bool.and_eq_true,Bool.not_eq_true',List.contains_iff_mem] at isDropped
  obtain ⟨⟨running,member⟩,discards⟩ := isDropped
  cases done : forward_completion s.output call_id waits with
  | error error => simp [done,Except.toOption] at discards
  | ok forwarded =>
    obtain ⟨output,result⟩ := forwarded
    obtain rfl : result = .Discarded := by simpa [done,Except.toOption] using discards
    rcases forward_completion_ok done with ⟨_,isInterrupted,_⟩ | ⟨other,_⟩ | ⟨other,_⟩
    · exact (traced running).dropped member isInterrupted
    · cases other
    · cases other

end Runs

section Identity
local instance : MessageHash (List CanonicalMessage) := ⟨id⟩
-- The arguments are the only value that is measured.
local instance : SerdeText := ⟨fun _ => "null",fun _ => "",fun _ => ""⟩
local instance : Blobs := ⟨fun _ => .ok [],id⟩

def lookup : ToolCall := ⟨0,"lookup","call","read","null",.Null,none⟩
def callsTool : Move := { choice := .Cycle (.ok ⟨"call","","",none,[lookup],none,.ToolUse⟩) }
def question (message_id : String) : CanonicalMessage :=
  { text message_id .User .User "stop" with runtime_event_id := some ("user-message:" ++ message_id) }
def asks (message_id : String) : Run.Action := .submit_messages ("user-message:" ++ message_id) [question message_id] true
def asked (message_id : String) : Label :=
  .Action (.UserMessage ⟨some message_id,.ok (text message_id .User .User "stop")⟩)

/-- The claim, the first call of the provider and its tool round. -/
def lookingUp : List Move :=
  [{},{ choice := .Anchor none },{},{},{},callsTool,{},{},{}]
/-- A question breaks the round; the answer calls a tool under the same id. -/
def lookingUpAgain : List Move :=
  lookingUp ++ [{ actions := [asks "m"], choice := .Command },{},{},ready,{},{},ready,{},{},{},callsTool,{},{},{}]

def ranOn (script : List Move) : Except Halt RunOutcome × World (List CanonicalMessage) :=
  runFrom (run turn) (initial (replay [.import_checkpoint "c" [greeting]]) script)
def sessionAfter (script : List Move) (labels : List Label) : Session :=
  after step (.initial "request" turn.run_id (ranOn script).2.log) labels

/-- The call is dispatched, interrupted and settled, and dispatched again in
    the next round. -/
def reused : List Label :=
  List.replicate 9 .Run ++ [.Event {},.Event {},asked "m",.Deliver 0 none,.Run,.Run,
    .Event { snapshot := some ⟨["lookup"],true⟩ },.Run,.Run,.Event {}] ++ List.replicate 8 .Run ++ [.Event {},.Event {}]

/-- The result of the second call is dropped for the interruption of the first. -/
theorem reused_call_dropped : drops (sessionAfter lookingUpAgain reused) "run:round:1" "lookup" {} = true ∧
      ("run:round:1","lookup") ∉ (sessionAfter lookingUpAgain reused).interrupted := by
  constructor <;> decide +kernel

/-- The result of the call that was interrupted is dropped as it should be. -/
theorem dropped_completion_interrupted_lookup : drops (sessionAfter lookingUpAgain (reused.take 12)) "run:round:0" "lookup" {} = true ∧
      ("run:round:0","lookup") ∈ (sessionAfter lookingUpAgain (reused.take 12)).interrupted := by
  have isDropped : drops (sessionAfter lookingUpAgain (reused.take 12)) "run:round:0" "lookup" {} = true := by decide +kernel
  have apart : Meets step Apart (.initial "request" turn.run_id (ranOn lookingUpAgain).2.log) (reused.take 12) := by
    decide +kernel
  have isInterrupted := dropped_completion_interrupted turn [.import_checkpoint "c" [greeting]] lookingUpAgain "request"
    (w := (ranOn lookingUpAgain).2) Prod.mk.eta.symm (reused.take 12) apart "run:round:0" "lookup" {} isDropped
  exact ⟨isDropped,isInterrupted⟩

end Identity

end MyCursor.Interruptions

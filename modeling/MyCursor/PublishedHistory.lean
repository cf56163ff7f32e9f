import MyCursor.Delivery
import Mathlib.Data.List.Chain

/-!
# The history that a run publishes

Every commit tells the client of a checkpoint. Its history extends that of the
commit before, and a history that was replaced is told of first by the commit
of the compaction. A run that compacts the conversation keeps this order only
where no message is inserted after the replacement: what is on its way is
appended and told of before the compaction is.
-/
namespace MyCursor.PublishedHistory
open Message Store StoreSteps Projection Compaction Run
open Engine RunSteps Delivery Hoare
set_option linter.unusedSectionVars false

def committedState : Entry → Option MessagesCommitted
  | .Emitted (.MessagesCommitted state) => some state
  | _ => none
def commits (log : List Entry) : List MessagesCommitted := log.filterMap committedState
def replaced : Entry → Option Nat
  | .Stored (.replace_checkpoint _ _ _ _) (.Checkpoint id) => some id
  | _ => none

theorem commits_append (log : List Entry) (entry : Entry) : commits (log ++ [entry]) = commits log ++ (committedState entry).toList := by
  cases found : committedState entry <;> simp [commits,found]

/-- Entries that neither tell of a commit nor replace the history. -/
def Silent (entry : Entry) : Prop := committedState entry = none ∧ replaced entry = none
theorem Silent.of_plain {entry : Entry} (plain : Plain entry) : Silent entry := by
  cases entry with
  | Emitted event =>
    cases event with
    | MessagesCommitted => exact plain.elim
    | _ => exact ⟨rfl,rfl⟩
  | Stored => exact plain.elim
  | _ => exact ⟨rfl,rfl⟩

/-- The first commit after a replacement is that of the compaction. -/
def AnnouncedFirst (log : List Entry) : Prop :=
  ∀ before entry after id, log = before ++ entry :: after → replaced entry = some id →
    ∀ state rest, commits after = state :: rest → isCompaction state.cause = true ∧ state.checkpoint_id = id

/-- No message is on its way when the history is replaced or comes in later. -/
def Undisturbed (log : List Entry) : Prop :=
  ∀ before entry after id, log = before ++ entry :: after → replaced entry = some id →
    ∀ batch, .Accepted batch ∈ log → batch.messages ≠ [] → ∃ result, .Answered batch.ticket result ∈ before

theorem Undisturbed.earlier {log later : List Entry} (undisturbed : Undisturbed later) (grows : log <+: later) : Undisturbed log := by
  obtain ⟨more,rfl⟩ := grows
  intro before entry after id split isReplaced batch isAccepted
  exact undisturbed before entry (after ++ more) id (by rw [split]; simp) isReplaced batch (List.mem_append_left _ isAccepted)

section Runs
variable {Digest : Type} [DecidableEq Digest] [MessageHash Digest] [SerdeText] [Blobs] {prepared : PreparedRun}
variable {a b : Config Digest} {start : Start Digest}

/-- The history of a commit extends that of the commit before, unless it tells
    of a compaction. -/
def Continues (s : Tables Digest) (before after : MessagesCommitted) : Prop :=
  isCompaction after.cause = true ∨ load_checkpoint_messages s before.checkpoint_id <+: load_checkpoint_messages s after.checkpoint_id

/-! ## Every step keeps the order -/

structure Growing (prepared : PreparedRun) (a : Config Digest) : Prop where
  chain : (commits a.world.log).IsChain (Continues a.world.store)
  stored : ∀ state ∈ commits a.world.log, Belongs a.world.store prepared.conversation_id state.checkpoint_id
  unclaimed : a.control.checkpoint = none → commits a.world.log = []
  last : a.control.flags.rewritten = false → ∀ state, (commits a.world.log).getLast? = some state →
    load_checkpoint_messages a.world.store state.checkpoint_id <+: a.history
  closed : a.control.flags.rewritten = true → a.control.round = none
  told : AnnouncedFirst a.world.log
  untold : ∀ before entry after id, a.world.log = before ++ entry :: after → replaced entry = some id →
    commits after = [] → a.control.flags.rewritten = true ∧ a.control.checkpoint = some id
  rewritten : a.control.flags.rewritten = true → ∃ before entry after id,
    a.world.log = before ++ entry :: after ∧ replaced entry = some id
  applied : a.control.applied ≠ [] → ∃ batch rest, a.control.held = batch :: rest ∧ batch.messages ≠ []

section
variable (growing : Growing prepared a)
include growing

theorem Growing.idle {done : List MessageBatch} (queue : Queue a done)
    (undisturbed : Undisturbed a.world.log) (rewritten : a.control.flags.rewritten = true) {batch : MessageBatch}
    (held : batch ∈ a.control.held) : batch.messages = [] := by
  by_contra some_
  obtain ⟨before,entry,after,id,split,isReplaced⟩ := growing.rewritten rewritten
  have inFlight : batch ∈ inFlight a := List.mem_append_left _ held
  obtain ⟨result,isAnswered⟩ := undisturbed before entry after id split isReplaced batch
    (accepted_of_inFlight queue inFlight) some_
  have answered : batch.ticket ∈ done.map (·.ticket) := by
    rw [queue.tickets]
    refine List.mem_map.mpr ⟨(batch.ticket,result),List.mem_filterMap.mpr ⟨.Answered batch.ticket result,?_,rfl⟩,rfl⟩
    rw [split]
    exact List.mem_append_left _ isAnswered
  have distinct := queue.distinct
  rw [queue.order,List.map_append] at distinct
  exact List.disjoint_of_nodup_append distinct answered (List.mem_map_of_mem inFlight)

theorem Growing.loads (grounded : Grounded prepared a)
    (writes : Writes a.world.store b.world.store) {state : MessagesCommitted} (member : state ∈ commits a.world.log) :
    load_checkpoint_messages b.world.store state.checkpoint_id = load_checkpoint_messages a.world.store state.checkpoint_id :=
  grounded.load_stable writes (growing.stored state member)
theorem Growing.chain_stable (grounded : Grounded prepared a)
    (writes : Writes a.world.store b.world.store) : (commits a.world.log).IsChain (Continues b.world.store) := by
  refine growing.chain.imp_of_mem_imp ?_
  intro x y isX isY continues
  rw [Continues,growing.loads grounded writes isX,growing.loads grounded writes isY]
  exact continues

theorem Growing.keep (grounded : Grounded prepared a) (writes : Writes a.world.store b.world.store)
    (log : b.world.log = a.world.log ∨ ∃ entry, b.world.log = a.world.log ++ [entry] ∧ Silent entry)
    (history : b.control.checkpoint = a.control.checkpoint ∨
      (a.control.flags.rewritten = false ∧ a.history <+: b.history ∧ b.control.checkpoint.isSome))
    (flag : b.control.flags.rewritten = a.control.flags.rewritten)
    (round : a.control.flags.rewritten = true → b.control.round = a.control.round)
    (applied : b.control.applied ≠ [] → ∃ batch rest, b.control.held = batch :: rest ∧ batch.messages ≠ []) :
    Growing prepared b := by
  have same : commits b.world.log = commits a.world.log := by
    rcases log with same | ⟨entry,same,silent⟩
    · rw [same]
    · rw [same,commits_append,silent.1]
      simp
  -- Where the history is replaced the log is the same as before.
  have earlier : ∀ before entry after id, b.world.log = before ++ entry :: after → replaced entry = some id →
      ∃ shorter, a.world.log = before ++ entry :: shorter ∧ commits after = commits shorter := by
    intro before entry after id split isReplaced
    rcases log with same | ⟨last,same,silent⟩
    · exact ⟨after,same ▸ split,rfl⟩
    · rw [same] at split
      rcases split_snoc split with ⟨_,_,rfl⟩ | ⟨shorter,rfl,isShorter⟩
      · rw [silent.2] at isReplaced
        cases isReplaced
      · refine ⟨shorter,isShorter,?_⟩
        rw [commits_append,silent.1]
        simp
  refine ⟨?_,?_,?_,?_,?_,?_,?_,?_,applied⟩
  · rw [same]
    exact growing.chain_stable grounded writes
  · rw [same]
    exact fun state member =>
      (Writes.extends_ writes grounded.consistent.wellFormed).belongs (growing.stored state member)
  · intro none_
    rw [same]
    rcases history with unmoved | ⟨_,_,reached⟩
    · exact growing.unclaimed (unmoved ▸ none_)
    · rw [none_] at reached
      cases reached
  · intro settled state isLast
    rw [same] at isLast
    rw [growing.loads grounded writes (List.mem_of_getLast? isLast)]
    have old := growing.last (flag ▸ settled) state isLast
    rcases history with unmoved | ⟨_,grows,_⟩
    · rw [grounded.history_stable writes unmoved]
      exact old
    · exact old.trans grows
  · intro isRewritten
    rw [flag] at isRewritten
    rw [round isRewritten]
    exact growing.closed isRewritten
  · intro before entry after id split isReplaced state rest first
    obtain ⟨shorter,isShorter,sameCommits⟩ := earlier before entry after id split isReplaced
    exact growing.told before entry shorter id isShorter isReplaced state rest (sameCommits ▸ first)
  · intro before entry after id split isReplaced none_
    obtain ⟨shorter,isShorter,sameCommits⟩ := earlier before entry after id split isReplaced
    obtain ⟨isRewritten,reached⟩ := growing.untold before entry shorter id isShorter isReplaced (sameCommits ▸ none_)
    rw [flag]
    refine ⟨isRewritten,?_⟩
    rcases history with unmoved | ⟨settled,_⟩
    · rw [unmoved,reached]
    · rw [isRewritten] at settled
      cases settled
  · intro isRewritten
    obtain ⟨before,entry,after,id,split,isReplaced⟩ := growing.rewritten (flag ▸ isRewritten)
    rcases log with same | ⟨last,same,_⟩
    · exact ⟨before,entry,after,id,same.trans split,isReplaced⟩
    · exact ⟨before,entry,after ++ [last],id,by rw [same,split]; simp,isReplaced⟩

theorem Growing.commit (grounded : Grounded prepared a) {state : MessagesCommitted}
    (log : b.world.log = a.world.log ++ [.Emitted (.MessagesCommitted state)]) (store : b.world.store = a.world.store)
    (reached : a.control.checkpoint = some state.checkpoint_id) (unmoved : b.control.checkpoint = a.control.checkpoint)
    (order : a.control.flags.rewritten = true → isCompaction state.cause = true)
    (flag : b.control.flags.rewritten = (a.control.flags.rewritten && !isCompaction state.cause))
    (applied : b.control.applied = a.control.applied) (held : b.control.held = a.control.held) : Growing prepared b := by
  have grown : commits b.world.log = commits a.world.log ++ [state] := by
    rw [log,commits_append]
    rfl
  have settled : b.control.flags.rewritten = false := by
    rw [flag]
    cases isRewritten : a.control.flags.rewritten with
    | false => rfl
    | true => simp [order isRewritten]
  have history : a.history = load_checkpoint_messages a.world.store state.checkpoint_id := by
    simp only [Config.history,reached]
  have history' : b.history = a.history := by
    simp only [Config.history,unmoved,reached,store]
  have earlier : ∀ before entry after id, b.world.log = before ++ entry :: after → replaced entry = some id →
      ∃ shorter, a.world.log = before ++ entry :: shorter ∧ commits after = commits shorter ++ [state] := by
    intro before entry after id split isReplaced
    rw [log] at split
    rcases split_snoc split with ⟨_,_,rfl⟩ | ⟨shorter,rfl,isShorter⟩
    · cases isReplaced
    · refine ⟨shorter,isShorter,?_⟩
      rw [commits_append]
      rfl
  refine ⟨?_,?_,?_,?_,?_,?_,?_,?_,by rw [applied,held]; exact growing.applied⟩
  · rw [grown,store,List.isChain_append]
    refine ⟨growing.chain,List.isChain_singleton _,?_⟩
    intro before isLast after isNext
    simp only [List.head?_cons,Option.mem_def,Option.some.injEq] at isNext
    subst isNext
    cases isRewritten : a.control.flags.rewritten with
    | true => exact .inl (order isRewritten)
    | false => exact .inr (history ▸ growing.last isRewritten before isLast)
  · rw [grown,store]
    intro one member
    rcases List.mem_append.mp member with old | new
    · exact growing.stored one old
    · rw [List.mem_singleton.mp new]
      exact (grounded.head _ reached).1
  · rw [unmoved,reached]
    simp
  · intro _ one isLast
    rw [grown,List.getLast?_concat,Option.some.injEq] at isLast
    rw [← isLast,store,history',history]
  · rw [settled]
    simp
  · intro before entry after id split isReplaced first rest isFirst
    obtain ⟨shorter,isShorter,grownAfter⟩ := earlier before entry after id split isReplaced
    rw [grownAfter] at isFirst
    cases isOld : commits shorter with
    | nil =>
      rw [isOld,List.nil_append,List.cons.injEq] at isFirst
      obtain ⟨isRewritten,isId⟩ := growing.untold before entry shorter id isShorter isReplaced isOld
      rw [← isFirst.1]
      rw [reached,Option.some.injEq] at isId
      exact ⟨order isRewritten,isId⟩
    | cons old others =>
      rw [isOld,List.cons_append,List.cons.injEq] at isFirst
      rw [← isFirst.1]
      exact growing.told before entry shorter id isShorter isReplaced old others isOld
  · intro before entry after id split isReplaced none_
    obtain ⟨shorter,_,grownAfter⟩ := earlier before entry after id split isReplaced
    rw [grownAfter] at none_
    simp at none_
  · rw [settled]
    simp

end

theorem once_grows (grounded : Grounded prepared a) {checkpoint id : Nat} {m : CanonicalMessage} {inserted : Bool}
    {store : Tables Digest} (reached : a.control.checkpoint = some checkpoint)
    (done : transact a.world.store (.append_message_once prepared.conversation_id prepared.run_id checkpoint m) =
      .ok (.Appended id inserted,store))
    (isStore : b.world.store = store) (isId : b.control.checkpoint = some id) : a.history <+: b.history := by
  rcases grounded.once_history reached done isStore isId with ⟨_,history⟩ | ⟨_,history⟩
  · rw [history]
  · rw [history]
    exact List.prefix_append _ _

theorem Growing.replace (growing : Growing prepared a) (grounded : Grounded prepared a)
    (writes : Writes a.world.store b.world.store) {entry : Entry} {id : Nat} (log : b.world.log = a.world.log ++ [entry])
    (isReplaced : replaced entry = some id) (silent : committedState entry = none) (closed : b.control.round = none)
    (settled : a.control.flags.rewritten = false) (reached : b.control.checkpoint = some id)
    (flag : b.control.flags.rewritten = true) (applied : b.control.applied = []) : Growing prepared b := by
  have same : commits b.world.log = commits a.world.log := by
    rw [log,commits_append,silent]
    simp
  refine ⟨?_,?_,by simp [reached],by simp [flag],fun _ => closed,?_,?_,?_,by simp [applied]⟩
  · rw [same]
    exact growing.chain_stable grounded writes
  · rw [same]
    exact fun state member =>
      (Writes.extends_ writes grounded.consistent.wellFormed).belongs (growing.stored state member)
  · intro before one after other split isOne state rest first
    rw [log] at split
    rcases split_snoc split with ⟨rfl,_,_⟩ | ⟨shorter,rfl,isShorter⟩
    · cases first
    · rw [commits_append,silent] at first
      exact growing.told before one shorter other isShorter isOne state rest (by simpa using first)
  · intro before one after other split isOne none_
    rw [log] at split
    rcases split_snoc split with ⟨_,_,rfl⟩ | ⟨shorter,rfl,isShorter⟩
    · rw [isReplaced,Option.some.injEq] at isOne
      exact ⟨flag,isOne ▸ reached⟩
    · -- The replacement before this one was told of.
      rw [commits_append,silent] at none_
      have unsettled := (growing.untold before one shorter other isShorter isOne (by simpa using none_)).1
      rw [settled] at unsettled
      cases unsettled
  · exact fun _ => ⟨a.world.log,entry,[],id,log,isReplaced⟩

theorem Growing.settled_of_open (growing : Growing prepared a) {round : OpenRound} (isOpen : a.control.round = some round) :
    a.control.flags.rewritten = false := by
  by_contra rewritten
  rw [growing.closed (by simpa using rewritten)] at isOpen
  cases isOpen

theorem step_growing {done : List MessageBatch} (step : Step prepared a b) (grounded : Grounded prepared a)
    (queue : Queue a done) (opened : a.control.round.isSome → a.control.checkpoint.isSome)
    (undisturbed : prepared.action = .Compact → Undisturbed a.world.log) (growing : Growing prepared a) :
    Growing prepared b := by
  have wf := grounded.consistent.wellFormed
  have writes := step.writes grounded
  have applied := growing.applied
  -- After the history was replaced no message is appended before the compaction is told of.
  have idle : prepared.action = .Compact → a.control.flags.rewritten = true → ∀ batch ∈ a.control.held, batch.messages = [] :=
    fun compacts rewritten batch member => growing.idle queue (undisturbed compacts) rewritten member
  cases step with
  | @act c w action =>
    refine growing.keep grounded writes ?_ (.inl rfl) rfl (fun _ => rfl) applied
    rcases (act_acted prepared.run_id w action).log with same | ⟨entry,same,⟨result,rfl⟩ | ⟨batch,rfl⟩⟩
    · exact .inl same
    · exact .inr ⟨_,same,rfl,rfl⟩
    · exact .inr ⟨_,same,rfl,rfl⟩
  | internal | phase | drain | load | usage | compacted =>
    exact growing.keep grounded writes (.inl rfl) (.inl rfl) rfl (fun _ => rfl) applied
  | @receive c w command rest queued =>
    refine growing.keep grounded writes (.inl rfl) (.inl rfl) rfl (fun _ => rfl) fun some_ => ?_
    obtain ⟨batch,others,held,messages⟩ := applied some_
    exact ⟨batch,others ++ batchesOf command,congrArg (· ++ batchesOf command) held,messages⟩
  | plain plain =>
    exact growing.keep grounded writes (.inr ⟨_,rfl,.of_plain plain⟩) (.inl rfl) rfl (fun _ => rfl) applied
  | @answer c w batch rest result first whole delivered told =>
    exact growing.keep grounded writes (.inr ⟨_,rfl,rfl,rfl⟩) (.inl rfl) rfl (fun _ => rfl) (by simp)
  | call | anchored | estimate =>
    exact growing.keep grounded writes (.inr ⟨_,rfl,rfl,rfl⟩) (.inl rfl) rfl (fun _ => rfl) applied
  | provider_call | finish_run =>
    exact growing.keep grounded writes (.inr ⟨_,rfl,rfl,rfl⟩) (.inl rfl) rfl (fun _ => rfl) applied
  | @announce c w state closed reached plain order busy =>
    refine growing.commit grounded rfl rfl reached rfl ?_ rfl rfl rfl
    intro rewritten
    rcases order rewritten with isCompaction | ⟨compacts,event_id,isCause⟩
    · exact isCompaction
    · obtain ⟨batch,rest,held,some_⟩ := applied (busy event_id isCause)
      exact absurd (idle compacts rewritten batch (held ▸ List.mem_cons_self)) some_
  | @claim c w claimed store first closed transacted =>
    have none_ := growing.unclaimed first
    have settled : c.flags.rewritten = false := by
      by_contra rewritten
      obtain ⟨before,entry,after,id,split,isReplaced⟩ := growing.rewritten (by simpa using rewritten)
      have later : commits after = [] := by
        have whole : commits w.log = commits before ++ commits (entry :: after) := by
          rw [show w.log = before ++ entry :: after from split,commits,List.filterMap_append]
          rfl
        rw [show commits w.log = [] from none_] at whole
        have := (List.append_eq_nil_iff.mp whole.symm).2
        exact List.filterMap_eq_nil_iff.mpr fun one member =>
          List.filterMap_eq_nil_iff.mp this one (List.mem_cons_of_mem _ member)
      have reached := (growing.untold before entry after id split isReplaced later).2
      rw [show c.checkpoint = none from first] at reached
      cases reached
    refine growing.keep grounded writes (.inr ⟨_,rfl,rfl,rfl⟩) (.inr ⟨settled,?_,rfl⟩) rfl (fun _ => rfl) applied
    simp [Config.history,first]
  | @initial_message c w checkpoint id m inserted store reached closed settled member transacted =>
    refine growing.keep grounded writes (.inr ⟨_,rfl,rfl,rfl⟩) (.inr ⟨settled,?_,rfl⟩) rfl (fun _ => rfl) applied
    exact once_grows grounded reached transacted rfl rfl
  | @batch_message c w checkpoint id batch rest m more inserted store reached closed settled first turn identified transacted =>
    have some_ : batch.messages ≠ [] := by simp [turn]
    refine growing.keep grounded writes (.inr ⟨_,rfl,rfl,rfl⟩) (.inr ⟨?_,?_,rfl⟩) rfl (fun _ => rfl)
      fun _ => ⟨batch,rest,first,some_⟩
    · by_contra rewritten
      have rewritten : c.flags.rewritten = true := by simpa using rewritten
      exact some_ (idle (settled rewritten) rewritten batch (by simp [first]))
    · exact once_grows grounded reached transacted rfl rfl
  | @assistant c w checkpoint id index cycle store reached closed settled transacted =>
    refine growing.keep grounded writes (.inr ⟨_,rfl,rfl,rfl⟩) (.inr ⟨settled,?_,rfl⟩) rfl (fun _ => rfl) applied
    exact ⟨_,(grounded.append_history reached transacted rfl rfl).symm⟩
  | @replace c w checkpoint id messages store reached closed between settled replacement transacted =>
    exact growing.replace grounded writes rfl rfl rfl closed settled rfl rfl between
  | @create_round c w checkpoint id assistant calls created_at_ms reply store reached closed settled own transacted =>
    refine growing.keep grounded writes (.inr ⟨_,rfl,rfl,rfl⟩) (.inl rfl) rfl (fun rewritten => ?_) applied
    exact absurd (settled.symm.trans rewritten) (by simp)
  | @announce_round c w checkpoint round reached isOpen silent =>
    have settled := growing.settled_of_open isOpen
    exact growing.commit grounded rfl rfl reached rfl (fun rewritten => absurd (settled.symm.trans rewritten) (by simp))
      (by simp [show c.flags.rewritten = false from settled]) rfl rfl
  | @execute_round c w round isOpen told unexecuted =>
    refine growing.keep grounded writes (.inr ⟨_,rfl,rfl,rfl⟩) (.inl rfl) rfl (fun rewritten => ?_) applied
    exact absurd ((growing.settled_of_open isOpen).symm.trans rewritten) (by simp)
  | @commit_result c w round result commit store isOpen told executed transacted =>
    obtain ⟨row,call,head,middle,committed⟩ := transact_commit wf transacted
    obtain ⟨checkpoint,reached⟩ := Option.isSome_iff_exists.mp (opened (by simp [isOpen]))
    have settled := growing.settled_of_open isOpen
    refine growing.keep grounded writes (.inr ⟨_,rfl,rfl,rfl⟩) (.inr ⟨settled,?_,rfl⟩) rfl (fun rewritten => ?_) applied
    · exact ⟨_,(grounded.commit_history reached committed rfl rfl).symm⟩
    · exact absurd (settled.symm.trans rewritten) (by simp)
  | @announce_result c w round told state call_id interrupted isOpen before next reached cause barrier =>
    have settled := growing.settled_of_open isOpen
    exact growing.commit grounded rfl rfl reached rfl (fun rewritten => absurd (settled.symm.trans rewritten) (by simp))
      (by simp [show c.flags.rewritten = false from settled]) rfl rfl
  | @close_round c w round isOpen told all =>
    refine growing.keep grounded writes (.inl rfl) (.inl rfl) rfl (fun rewritten => ?_) applied
    exact absurd ((growing.settled_of_open isOpen).symm.trans rewritten) (by simp)

theorem reach_growing (reach : Reach prepared start a) (undisturbed : prepared.action = .Compact → Undisturbed a.world.log) :
    Growing prepared a := by
  induction reach with
  | refl =>
    refine ⟨?_,?_,?_,?_,?_,?_,?_,?_,?_⟩ <;> simp [initial,commits,AnnouncedFirst]
  | @tail b c earlier step ih =>
    obtain ⟨done,queue⟩ := reach_queue earlier
    have undisturbed : prepared.action = .Compact → Undisturbed b.world.log :=
      fun compacts => (undisturbed compacts).earlier step.log
    exact step_growing step (Reach.grounded earlier) queue (Reach.opened earlier) undisturbed (ih undisturbed)

/-- The published history only grows, and a replaced one is told of by its
    compaction first; in a run that compacts the conversation this is so where
    no message is on its way when the history is replaced. -/
theorem published_history_grows (ops : List Op) (script : List Move) (prepared : PreparedRun)
    {result : Except Halt RunOutcome} {w : World Digest}
    (ran : runFrom (run prepared) (initial (replay ops) script) = (result,w))
    (undisturbed : prepared.action = .Compact → Undisturbed w.log) :
    (commits w.log).IsChain (Continues w.store) ∧ AnnouncedFirst w.log := by
  obtain ⟨c,last,reach,ended,_⟩ :=
    @EngineSteps.run_reaches Digest _ _ _ _ prepared ⟨replay ops,script,ops,rfl⟩ result w ran
  rcases ended with rfl | ⟨outcome,rfl⟩
  · have growing := reach_growing reach undisturbed
    exact ⟨growing.chain,growing.told⟩
  · have growing := reach_growing reach fun compacts => (undisturbed compacts).earlier (List.prefix_append _ _)
    have same : commits (last.note (.Emitted (.Ended outcome))).log = commits last.log := by
      simp [World.note,commits_append,committedState]
    refine ⟨same ▸ growing.chain,?_⟩
    intro before entry after id split isReplaced state rest first
    rcases split_snoc split with ⟨rfl,_,_⟩ | ⟨shorter,rfl,isShorter⟩
    · cases first
    · rw [commits_append] at first
      exact growing.told before entry shorter id isShorter isReplaced state rest (by simpa [committedState] using first)

end Runs

section Identity
local instance : MessageHash (List CanonicalMessage) := ⟨id⟩
-- Neither tools, tool calls nor images occur in the runs below, so nothing of these is used.
local instance : SerdeText := ⟨fun _ => "",fun _ => "",fun _ => ""⟩
local instance : Blobs := ⟨fun _ => .ok [],id⟩
instance (s : Tables (List CanonicalMessage)) (x y : MessagesCommitted) : Decidable (Continues s x y) :=
  inferInstanceAs (Decidable (_ ∨ _))

def compaction : PreparedRun := { turn with action := .Compact }
def later : CanonicalMessage := RuntimeEvent.into_message ⟨"later","go on"⟩
def compacted (script : List Move) : Except Halt RunOutcome × World (List CanonicalMessage) :=
  runFrom (run compaction) (initial (replay [.import_checkpoint "c" [greeting]]) script)

def breaking : List Move :=
  [{},{ choice := .Anchor none },{},{},{},{ actions := [.submit_messages "reminder" [reminder] true], choice := .Command },
   answered "",{},{},{},ready,{},{},{}]
def disturbed : List Move :=
  breaking ++ [{ actions := [.submit_messages "later" [later] false], choice := .Command },answered "a summary",
    {},{},{},ready,{},{},{},ready,{},{},{}]
def summarised : List Move := breaking ++ [answered "a summary",{},{},{},{},ready,{},{},{}]

/-- The commit of the message, which is built on the summary, is told of before
    the compaction. -/
theorem disturbed_compaction_shrinks : ¬ (commits (compacted disturbed).2.log).IsChain (Continues (compacted disturbed).2.store) ∧
      ¬ AnnouncedFirst (compacted disturbed).2.log := by
  refine ⟨by decide +kernel,?_⟩
  intro told
  have isReplaced : ((compacted disturbed).2.log[14]?).bind replaced = some 4 := by decide +kernel
  have first : (commits ((compacted disturbed).2.log.drop 15)).head?.map (·.cause) = some (.RuntimeEvent "later") := by
    decide +kernel
  obtain ⟨entry,isEntry,isReplaced⟩ := Option.bind_eq_some_iff.mp isReplaced
  obtain ⟨state,isState,isCause⟩ := Option.map_eq_some_iff.mp first
  obtain ⟨rest,isFirst⟩ := List.head?_eq_some_iff.mp isState
  obtain ⟨inside,isEntry⟩ := List.getElem?_eq_some_iff.mp isEntry
  have split := (List.take_append_drop 14 (compacted disturbed).2.log).symm
  rw [List.drop_eq_getElem_cons inside,isEntry] at split
  have isCompaction := (told _ entry _ 4 split isReplaced state rest isFirst).1
  rw [isCause] at isCompaction
  cases isCompaction

theorem undisturbed_summarised : Undisturbed (compacted summarised).2.log := by
  have none_ : ((compacted summarised).2.log.take 13).all (fun entry => !isReplacement entry) = true := by decide +kernel
  have isAnswered : answers ((compacted summarised).2.log.take 13) = [(0,.Applied)] := by decide +kernel
  have isAccepted : (accepted (compacted summarised).2.log).map (·.ticket) = [0] := by decide +kernel
  intro before entry after id split isReplaced batch member _
  have isTicket : batch.ticket = 0 := by
    have : batch.ticket ∈ (accepted (compacted summarised).2.log).map (·.ticket) :=
      List.mem_map_of_mem (List.mem_filterMap.mpr ⟨_,member,rfl⟩)
    simpa [isAccepted] using this
  -- The replacement is not among the first entries, which answer the batch.
  have long : 13 ≤ before.length := by
    by_contra short
    have isEntry : entry ∈ (compacted summarised).2.log.take 13 := by
      rw [split,List.take_append,List.take_cons (by omega)]
      simp
    have := List.all_eq_true.mp none_ entry isEntry
    cases entry with
    | Stored op reply =>
      cases op with
      | replace_checkpoint => cases this
      | _ => cases isReplaced
    | _ => cases isReplaced
  refine ⟨.Applied,?_⟩
  obtain ⟨one,isOne,isAnswer⟩ := List.mem_filterMap.mp (isAnswered ▸ List.mem_singleton_self _ : (0,CommandResult.Applied) ∈
    answers ((compacted summarised).2.log.take 13))
  rw [split,List.take_append_of_le_length long] at isOne
  cases one with
  | Answered ticket result =>
    obtain ⟨rfl,rfl⟩ := Prod.mk.inj (Option.some.inj isAnswer)
    exact isTicket ▸ List.mem_of_mem_take isOne
  | _ => cases isAnswer

theorem published_history_grows_summarised :
    (commits (compacted summarised).2.log).map (·.cause) = [.RuntimeEvent "reminder",.Compaction "a summary"] ∧
      AnnouncedFirst (compacted summarised).2.log := by
  have causes : (commits (compacted summarised).2.log).map (·.cause) = [.RuntimeEvent "reminder",.Compaction "a summary"] := by
    decide +kernel
  have grows := published_history_grows [.import_checkpoint "c" [greeting]] summarised compaction
    (w := (compacted summarised).2) Prod.mk.eta.symm fun _ => undisturbed_summarised
  exact ⟨causes,grows.2⟩

end Identity

end MyCursor.PublishedHistory

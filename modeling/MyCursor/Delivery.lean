import MyCursor.EngineSteps

/-!
# Delivery of message batches

A batch is accepted while the run is running, taken from the queue in the
order of acceptance, appended message by message and answered once. A run that
is completed has closed and emptied the queue before, so nothing accepted is
left behind.
-/
namespace MyCursor.Delivery
open Message Store StoreSteps Projection Compaction Run
open Engine RunSteps Hoare
set_option linter.unusedSectionVars false

def acceptedBatch : Entry → Option MessageBatch
  | .Accepted batch => some batch
  | _ => none
def accepted (log : List Entry) : List MessageBatch := log.filterMap acceptedBatch

def answer : Entry → Option (Nat × CommandResult)
  | .Answered ticket result => some (ticket,result)
  | _ => none
def answers (log : List Entry) : List (Nat × CommandResult) := log.filterMap answer

theorem accepted_append (log : List Entry) (entry : Entry) :
    accepted (log ++ [entry]) = accepted log ++ (acceptedBatch entry).toList := by
  cases found : acceptedBatch entry <;> simp [accepted,found]
theorem answers_append (log : List Entry) (entry : Entry) : answers (log ++ [entry]) = answers log ++ (answer entry).toList := by
  cases found : answer entry <;> simp [answers,found]

theorem accepted_once {log : List Entry} (distinct : ((accepted log).map (·.ticket)).Nodup)
    {before after before' after' : List Entry} {batch batch' : MessageBatch} (split : log = before ++ .Accepted batch :: after)
    (split' : log = before' ++ .Accepted batch' :: after') (same : batch'.ticket = batch.ticket) :
    batch' = batch ∧ before' = before ∧ after' = after := by
  have isBatch : ∀ {l : List Entry}, .Accepted batch ∈ l → batch ∈ accepted l :=
    fun member => List.mem_filterMap.mpr ⟨_,member,rfl⟩
  obtain rfl : batch' = batch := by
    refine List.inj_on_of_nodup_map distinct ?_ ?_ same
    · rw [split']
      exact List.mem_filterMap.mpr ⟨.Accepted batch',by simp,rfl⟩
    · rw [split]
      exact isBatch (by simp)
  have nodup := distinct.of_map
  have parts : accepted log = accepted before ++ batch' :: accepted after := by
    rw [split,accepted,List.filterMap_append]
    rfl
  rw [parts] at nodup
  have apart := List.nodup_middle.mp nodup
  have outside := (List.nodup_cons.mp apart).1
  rw [List.mem_append,not_or] at outside
  have inj := (List.append_cons_inj_of_notMem (fun member => outside.1 (isBatch member))
    (fun member => outside.2 (isBatch member))).mp (split.symm.trans split')
  exact ⟨rfl,inj.1.symm,inj.2.2.symm⟩

def Unrelated (entry : Entry) : Prop := acceptedBatch entry = none ∧ answer entry = none
theorem Unrelated.of_plain {entry : Entry} (plain : Plain entry) : Unrelated entry := by
  cases entry with
  | Accepted | Answered => exact plain.elim
  | _ => exact ⟨rfl,rfl⟩

section Runs
variable {Digest : Type} [DecidableEq Digest] [MessageHash Digest] [SerdeText] [Blobs] {prepared : PreparedRun}
variable {a b : Config Digest} {start : Start Digest}

/-- The batches that have been accepted and are not answered yet. -/
def inFlight (a : Config Digest) : List MessageBatch := a.control.held ++ a.world.commands.flatMap batchesOf

/-- The batches in `done` have been answered, in the order of acceptance; the
    others are on their way. -/
structure Queue (a : Config Digest) (done : List MessageBatch) : Prop where
  order : accepted a.world.log = done ++ inFlight a
  tickets : done.map (·.ticket) = (answers a.world.log).map (·.1)
  issued : (accepted a.world.log).map (·.ticket) = List.range a.world.tickets
  delivered : ∀ one ∈ answers a.world.log, one.2 = .Applied ∨ one.2 = .Duplicate
  closed : a.control.flags.drained = true → a.world.phase ≠ .Running ∧ a.world.commands.flatMap batchesOf = []

variable {done : List MessageBatch}

theorem Queue.keep (queue : Queue a done) (flight : inFlight b = inFlight a)
    (log : b.world.log = a.world.log ∨ ∃ entry, b.world.log = a.world.log ++ [entry] ∧ Unrelated entry)
    (tickets : b.world.tickets = a.world.tickets)
    (closed : b.control.flags.drained = true → b.world.phase ≠ .Running ∧ b.world.commands.flatMap batchesOf = []) :
    Queue b done := by
  have same : accepted b.world.log = accepted a.world.log ∧ answers b.world.log = answers a.world.log := by
    rcases log with same | ⟨entry,same,notAccepted,notAnswer⟩
    · rw [same]
      exact ⟨rfl,rfl⟩
    · rw [same,accepted_append,answers_append,notAccepted,notAnswer]
      simp
  refine ⟨?_,?_,?_,?_,closed⟩
  · rw [same.1,flight]
    exact queue.order
  · rw [same.2]
    exact queue.tickets
  · rw [same.1,tickets]
    exact queue.issued
  · rw [same.2]
    exact queue.delivered

theorem Queue.act {done : List MessageBatch} {c : Control} {w after : World Digest} (queue : Queue ⟨c,w⟩ done)
    (acted : Acted prepared.run_id w after) : Queue ⟨c,after⟩ done := by
  rcases acted.batches with ⟨batch,running,isTicket,tickets,commands,log⟩ | ⟨tickets,commands,log⟩
  · have grown : accepted after.log = accepted w.log ++ [batch] := by
      rw [log,accepted_append]
      rfl
    have same : answers after.log = answers w.log := by
      rw [log,answers_append]
      simp [answer]
    refine ⟨?_,?_,?_,?_,?_⟩
    · rw [grown,queue.order]
      simp [inFlight,commands]
    · rw [same]
      exact queue.tickets
    · rw [grown,List.map_append,queue.issued,tickets,List.range_succ]
      simp [isTicket]
    · rw [same]
      exact queue.delivered
    · intro drained
      exact absurd running (queue.closed drained).1
  · refine queue.keep ?_ ?_ tickets ?_
    · simp [inFlight,commands]
    · rcases log with same | ⟨result,same⟩
      · exact .inl same
      · exact .inr ⟨_,same,rfl,rfl⟩
    · intro drained
      simp only [commands,acted.phase]
      exact queue.closed drained

theorem step_queue (step : Step prepared a b) (queue : Queue a done) : ∃ done, Queue b done := by
  cases step with
  | @act c w action => exact ⟨done,queue.act (act_acted prepared.run_id w action)⟩
  | internal | load | usage | compacted | close_round => exact ⟨done,queue.keep rfl (.inl rfl) rfl queue.closed⟩
  | @phase c w phase =>
    refine ⟨done,queue.keep rfl (.inl rfl) rfl ?_⟩
    intro drained
    simp only [Bool.and_eq_true,decide_eq_true_eq] at drained
    exact ⟨drained.2,(queue.closed drained.1).2⟩
  | @receive c w command rest queued =>
    refine ⟨done,queue.keep ?_ (.inl rfl) rfl ?_⟩
    · simp [inFlight,queued]
    · intro drained
      obtain ⟨running,empty⟩ := queue.closed drained
      rw [queued,List.flatMap_cons] at empty
      exact ⟨running,(List.append_eq_nil_iff.mp empty).2⟩
  | drain closed empty => exact ⟨done,queue.keep rfl (.inl rfl) rfl fun _ => ⟨closed,by rw [empty]; rfl⟩⟩
  | plain plain => exact ⟨done,queue.keep rfl (.inr ⟨_,rfl,.of_plain plain⟩) rfl queue.closed⟩
  | @answer c w batch rest result first whole delivered =>
    have grown : answers (w.note (.Answered batch.ticket result)).log = answers w.log ++ [(batch.ticket,result)] := by
      simp only [World.note,answers_append]
      rfl
    have same : accepted (w.note (.Answered batch.ticket result)).log = accepted w.log := by
      simp only [World.note,accepted_append]
      simp [acceptedBatch]
    refine ⟨done ++ [batch],?_,?_,?_,?_,queue.closed⟩
    · rw [same,queue.order]
      simp [inFlight,first,World.note]
    · rw [grown,List.map_append,List.map_append,queue.tickets]
      rfl
    · rw [same]
      exact queue.issued
    · intro one member
      rw [grown,List.mem_append,List.mem_singleton] at member
      rcases member with earlier | rfl
      · exact queue.delivered one earlier
      · exact delivered
  | _ => exact ⟨done,queue.keep rfl (.inr ⟨_,rfl,rfl,rfl⟩) rfl queue.closed⟩

theorem reach_queue (reach : Reach prepared start a) : ∃ done, Queue a done := by
  induction reach with
  | refl => exact ⟨[],by simp [initial,accepted,inFlight],by simp [initial,answers],by simp [initial,accepted],
      by simp [initial,answers],by simp⟩
  | tail _ step ih =>
    obtain ⟨done,queue⟩ := ih
    exact step_queue step queue

variable {batch : MessageBatch}

variable {checkpoint : Nat}

def isReplacement : Entry → Bool
  | .Stored (.replace_checkpoint _ _ _ _) _ => true
  | _ => false

def baseHistory (prepared : PreparedRun) (s : Tables Digest) : List CanonicalMessage :=
  load_checkpoint_messages s prepared.base_checkpoint_id

/-- The messages of an answered batch stay in the history until the run
    replaces it, and no message that can come in a batch is added to the
    history when it is there. -/
structure Kept (prepared : PreparedRun) (a : Config Digest) : Prop where
  known : a.control.checkpoint.isSome → Belongs a.world.store prepared.conversation_id prepared.base_checkpoint_id
  applied : a.control.applied ⊆ a.history
  identified : ∀ m ∈ a.control.applied, m.runtime_event_id.isSome
  answered : ∀ before ticket result after, a.world.log = before ++ .Answered ticket result :: after →
    ∃ batch, .Accepted batch ∈ before ∧ batch.ticket = ticket ∧ (∀ m ∈ batch.messages, m.runtime_event_id.isSome) ∧
      ((∀ entry ∈ after, isReplacement entry = false) → batch.messages ⊆ a.history)
  single : ∀ m, m.runtime_event_id.isSome → a.history.count m ≤ max 1 ((baseHistory prepared a.world.store).count m)

theorem accepted_of_inFlight (queue : Queue a done) (member : batch ∈ inFlight a) : Entry.Accepted batch ∈ a.world.log := by
  have isAccepted : batch ∈ accepted a.world.log := by
    rw [queue.order]
    exact List.mem_append_right _ member
  obtain ⟨entry,logged,same⟩ := List.mem_filterMap.mp isAccepted
  cases entry with
  | Accepted other =>
    simp only [acceptedBatch,Option.some.injEq] at same
    exact same ▸ logged
  | _ => cases same

section
variable (kept : Kept prepared a)
include kept

theorem Kept.base (grounded : Grounded prepared a) (writes : Writes a.world.store b.world.store) (reached : a.control.checkpoint.isSome) :
    Belongs b.world.store prepared.conversation_id prepared.base_checkpoint_id ∧
      baseHistory prepared b.world.store = baseHistory prepared a.world.store :=
  ⟨(Writes.extends_ writes grounded.consistent.wellFormed).belongs (kept.known reached),
    grounded.load_stable writes (kept.known reached)⟩

theorem Kept.still (log : b.world.log = a.world.log ∨ ∃ entry, b.world.log = a.world.log ++ [entry] ∧ answer entry = none)
    (grows : a.history ⊆ b.history ∨ ∃ entry, b.world.log = a.world.log ++ [entry] ∧ isReplacement entry = true)
    {before after : List Entry} {ticket : Nat} {result : CommandResult}
    (split : b.world.log = before ++ .Answered ticket result :: after) :
    ∃ batch, .Accepted batch ∈ before ∧ batch.ticket = ticket ∧ (∀ m ∈ batch.messages, m.runtime_event_id.isSome) ∧
      ((∀ entry ∈ after, isReplacement entry = false) → batch.messages ⊆ b.history) := by
  -- The answer was in the log before, and what came after it only got longer.
  obtain ⟨after',earlier,added,later⟩ : ∃ after', a.world.log = before ++ .Answered ticket result :: after' ∧
      ∃ added, b.world.log = a.world.log ++ added ∧ after = after' ++ added := by
    rcases log with same | ⟨entry,same,notAnswer⟩
    · exact ⟨after,same ▸ split,[],by simp [same],by simp⟩
    · rw [same] at split
      rcases split_snoc split with ⟨_,_,rfl⟩ | ⟨after',rfl,shorter⟩
      · cases notAnswer
      · exact ⟨after',shorter,[entry],same,rfl⟩
  obtain ⟨batch,isAccepted,isTicket,identified,inside⟩ := kept.answered before ticket result after' earlier
  refine ⟨batch,isAccepted,isTicket,identified,fun unreplaced => ?_⟩
  rw [later.2] at unreplaced
  rcases grows with grows | ⟨entry,replaced,isReplaced⟩
  · exact List.Subset.trans (inside fun entry member => unreplaced entry (List.mem_append_left _ member)) grows
  · have same : added = [entry] := List.append_cancel_left (later.1.symm.trans replaced)
    rw [unreplaced entry (by simp [same])] at isReplaced
    cases isReplaced

theorem Kept.same_history (grounded : Grounded prepared a)
    (writes : Writes a.world.store b.world.store) (checkpoint : b.control.checkpoint = a.control.checkpoint)
    (applied : b.control.applied = a.control.applied)
    (log : b.world.log = a.world.log ∨ ∃ entry, b.world.log = a.world.log ++ [entry] ∧ answer entry = none) :
    Kept prepared b := by
  have history := grounded.history_stable writes checkpoint
  refine ⟨?_,?_,?_,?_,?_⟩
  · rw [checkpoint]
    exact fun reached => (kept.base grounded writes reached).1
  · rw [history,applied]
    exact kept.applied
  · rw [applied]
    exact kept.identified
  · exact fun before ticket result after => kept.still log (.inl (history ▸ List.Subset.refl _))
  · intro m identified
    rw [history]
    cases reached : a.control.checkpoint with
    | none => simp [Config.history,reached]
    | some checkpoint =>
      rw [(kept.base grounded writes (by simp [reached])).2]
      exact kept.single m identified

theorem Kept.appended (grounded : Grounded prepared a)
    (writes : Writes a.world.store b.world.store) (reached : a.control.checkpoint.isSome)
    {additions : List CanonicalMessage} (history : b.history = a.history ++ additions)
    (applied : b.control.applied ⊆ a.history ++ additions)
    (identified : ∀ m ∈ b.control.applied, m.runtime_event_id.isSome)
    (log : b.world.log = a.world.log ∨ ∃ entry, b.world.log = a.world.log ++ [entry] ∧ answer entry = none)
    (single : ∀ m, m.runtime_event_id.isSome → additions.count m = 0 ∨ (m ∉ a.history ∧ additions.count m ≤ 1)) :
    Kept prepared b := by
  obtain ⟨belongs,base⟩ := kept.base grounded writes reached
  refine ⟨fun _ => belongs,history ▸ applied,identified,?_,?_⟩
  · exact fun before ticket result after => kept.still log (.inl (history ▸ List.subset_append_left _ _))
  · intro m identified
    rw [history,base,List.count_append]
    have := kept.single m identified
    rcases single m identified with none_ | ⟨new,one⟩
    · omega
    · rw [List.count_eq_zero_of_not_mem new]
      omega

theorem Kept.once (grounded : Grounded prepared a) {id : Nat} {m : CanonicalMessage}
    {inserted : Bool} {store : Tables Digest} (reached : a.control.checkpoint = some checkpoint)
    (done : transact a.world.store (.append_message_once prepared.conversation_id prepared.run_id checkpoint m) =
      .ok (.Appended id inserted,store)) (isStore : b.world.store = store) (isId : b.control.checkpoint = some id)
    (applied : b.control.applied ⊆ m :: a.control.applied) (identified : ∀ m ∈ b.control.applied, m.runtime_event_id.isSome)
    (log : b.world.log = a.world.log ∨ ∃ entry, b.world.log = a.world.log ++ [entry] ∧ answer entry = none) :
    Kept prepared b := by
  have writes : Writes a.world.store b.world.store := isStore ▸ transact_writes grounded.consistent done
  have known : a.control.checkpoint.isSome := by simp [reached]
  rcases grounded.once_history reached done isStore isId with ⟨member,history⟩ | ⟨new,history⟩
  · refine kept.appended grounded writes known (history.trans (List.append_nil _).symm) ?_ identified log
      fun _ _ => .inl rfl
    rw [List.append_nil]
    exact List.Subset.trans applied (List.cons_subset.mpr ⟨member,kept.applied⟩)
  · refine kept.appended grounded writes known history ?_ identified log ?_
    · refine List.Subset.trans applied (List.cons_subset.mpr ⟨by simp,?_⟩)
      exact List.Subset.trans kept.applied (List.subset_append_left _ _)
    · intro m' _
      by_cases same : m' = m
      · subst same
        refine .inr ⟨fun member => new m' member ?_,by simp⟩
        simp [sameIdentity]
      · exact .inl (List.count_eq_zero_of_not_mem (by simpa using same))

end

theorem count_own {additions : List CanonicalMessage} (own : ∀ m ∈ additions, m.runtime_event_id = none)
    {m : CanonicalMessage} (identified : m.runtime_event_id.isSome) : additions.count m = 0 := by
  refine List.count_eq_zero_of_not_mem fun member => ?_
  rw [own m member] at identified
  cases identified

theorem count_replacement {s store : Tables Digest} (wf : WellFormed s) {c : ConversationId} {r : RunId}
    {id : Nat} {messages : List CanonicalMessage}
    (done : transact s (.replace_checkpoint c r checkpoint messages) = .ok (.Checkpoint id,store))
    (m : CanonicalMessage) : messages.count m ≤ 1 := by
  obtain ⟨_,_,appended⟩ := transact_replace wf done
  obtain ⟨_,_,inserted,_,_⟩ := appended.written
  exact List.nodup_iff_count_le_one.mp inserted.distinct.of_map m

theorem step_kept (step : Step prepared a b) (grounded : Grounded prepared a)
    (queue : Queue a done) (opened : a.control.round.isSome → a.control.checkpoint.isSome) (kept : Kept prepared a) :
    Kept prepared b := by
  have wf := grounded.consistent.wellFormed
  have writes := step.writes grounded
  cases step with
  | @act c w action =>
    refine kept.same_history grounded writes rfl rfl ?_
    rcases (act_acted prepared.run_id w action).log with same | ⟨entry,same,⟨result,rfl⟩ | ⟨batch,rfl⟩⟩
    · exact .inl same
    · exact .inr ⟨_,same,rfl⟩
    · exact .inr ⟨_,same,rfl⟩
  | internal | phase | receive | drain | load | usage | compacted | close_round =>
    exact kept.same_history grounded writes rfl rfl (.inl rfl)
  | plain plain => exact kept.same_history grounded writes rfl rfl (.inr ⟨_,rfl,(Unrelated.of_plain plain).2⟩)
  | announce | call | anchored | estimate | provider_call | finish_run | create_round | announce_round | execute_round
  | announce_result =>
    exact kept.same_history grounded writes rfl rfl (.inr ⟨_,rfl,rfl⟩)
  | @answer c w batch rest result first whole delivered =>
    refine ⟨kept.known,by simp,by simp,?_,kept.single⟩
    intro before ticket result' after split
    rcases split_snoc split with ⟨rfl,rfl,same⟩ | ⟨after',rfl,shorter⟩
    · simp only [Entry.Answered.injEq] at same
      refine ⟨batch,accepted_of_inFlight queue (by simp [inFlight,first]),same.1,?_⟩
      rw [← whole]
      exact ⟨kept.identified,fun _ => kept.applied⟩
    · obtain ⟨batch,isAccepted,isTicket,identified,inside⟩ := kept.answered before ticket result' after' shorter
      exact ⟨batch,isAccepted,isTicket,identified,fun unreplaced => inside fun entry member =>
        unreplaced entry (List.mem_append_left _ member)⟩
  | @claim c w claimed store first closed transacted =>
    have base := transacted
    have empty : Config.history (⟨c,w⟩ : Config Digest) = [] := by simp [Config.history,first]
    obtain ⟨value,transacted,_⟩ := replyWith_ok transacted
    obtain ⟨_,middle,_,_,_,belongs,_,checkpoints,_⟩ := claim_run_ok wf transacted
    refine ⟨?_,?_,kept.identified,?_,?_⟩
    · intro _
      simp only [World.stored,Belongs,checkpoints]
      exact belongs
    · have none_ : c.applied ⊆ Config.history (⟨c,w⟩ : Config Digest) := kept.applied
      rw [empty] at none_
      rw [show (c.goTo claimed.head_checkpoint_id).applied = [] from List.subset_nil.mp none_]
      exact List.nil_subset _
    · exact fun before ticket result after => kept.still (.inr ⟨_,rfl,rfl⟩) (.inl (by rw [empty]; exact List.nil_subset _))
    · intro m _
      rw [claim_history base rfl rfl]
      exact le_max_right _ _
  | @initial_message c w checkpoint id m inserted store reached closed settled member transacted =>
    exact kept.once grounded reached transacted rfl rfl (List.subset_cons_self _ _) kept.identified (.inr ⟨_,rfl,rfl⟩)
  | @batch_message c w checkpoint id batch rest m more inserted store reached closed settled first turn identified transacted =>
    refine kept.once grounded reached transacted rfl rfl ?_ ?_ (.inr ⟨_,rfl,rfl⟩)
    · intro one member
      simpa [or_comm] using member
    · intro one member
      rcases List.mem_append.mp member with earlier | new
      · exact kept.identified one earlier
      · rw [List.mem_singleton.mp new]
        exact identified
  | @assistant c w checkpoint id index cycle store reached closed settled transacted =>
    refine kept.appended grounded writes (by simp [reached]) (grounded.append_history reached transacted rfl rfl) ?_
      kept.identified (.inr ⟨_,rfl,rfl⟩) ?_
    · exact List.Subset.trans kept.applied (List.subset_append_left _ _)
    · exact fun m identified => .inl (count_own (by simp [assistantMessage]) identified)
  | @replace c w checkpoint id messages store reached closed between settled kept transacted =>
    refine ⟨fun _ => (kept.base grounded writes (by simp [reached])).1,?_,kept.identified,?_,?_⟩
    · rw [show (c.goTo id).applied = [] from between]
      exact List.nil_subset _
    · exact fun before ticket result after => kept.still (.inr ⟨_,rfl,rfl⟩) (.inr ⟨_,rfl,rfl⟩)
    · intro m _
      rw [grounded.replace_history transacted rfl rfl]
      exact (count_replacement wf transacted m).trans (le_max_left _ _)
  | @commit_result c w round result commit store isOpen told executed transacted =>
    obtain ⟨row,call,head,middle,committed⟩ := transact_commit wf transacted
    have known := opened (by simp [isOpen])
    obtain ⟨checkpoint,reached⟩ := Option.isSome_iff_exists.mp known
    refine kept.appended grounded writes known (grounded.commit_history reached committed rfl rfl) ?_
      kept.identified (.inr ⟨_,rfl,rfl⟩) ?_
    · exact List.Subset.trans kept.applied (List.subset_append_left _ _)
    · exact fun m identified => .inl (count_own (by simp [commitMessages]) identified)

theorem reach_kept (reach : Reach prepared start a) : Kept prepared a := by
  induction reach with
  | refl =>
    refine ⟨by simp,by simp,by simp,?_,by simp [Config.history]⟩
    intro before ticket result after split
    simp [initial] at split
  | tail earlier step ih =>
    obtain ⟨done,queue⟩ := reach_queue earlier
    exact step_kept step (Reach.grounded earlier) queue (Reach.opened earlier) ih

theorem reach_unended (reach : Reach prepared start a) (outcome : RunOutcome) : Entry.Emitted (.Ended outcome) ∉ a.world.log := by
  induction reach with
  | refl => simp [initial]
  | tail _ step ih =>
    cases step with
    | @act c w action =>
      rcases (act_acted prepared.run_id w action).log with same | ⟨entry,same,⟨result,rfl⟩ | ⟨batch,rfl⟩⟩
      · exact same ▸ ih
      · simpa [same] using ih
      · simpa [same] using ih
    | internal | phase | receive | drain | load | usage | compacted | close_round => exact ih
    | @plain c w entry plain =>
      simp only [World.note,List.mem_append,List.mem_singleton,not_or]
      exact ⟨ih,fun same => by subst same; exact plain⟩
    | announce | answer | call | anchored | estimate | announce_round | execute_round | announce_result =>
      simpa [World.note] using ih
    | _ => simpa [World.stored] using ih

def finalHistory (run_id : RunId) (s : Tables Digest) : List CanonicalMessage :=
  match s.runs run_id with
  | some run => load_checkpoint_messages s run.head_checkpoint_id
  | none => []

theorem Grounded.finalHistory_eq (grounded : Grounded prepared a)
    (reached : a.control.checkpoint = some checkpoint) : finalHistory prepared.run_id a.world.store = a.history := by
  obtain ⟨_,run,found,isHead⟩ := grounded.head checkpoint reached
  simp only [finalHistory,found,isHead,Config.history,reached]

/-- A batch and what is in the log before and after it was accepted: it is
    answered before the end of the run, and unless the run replaces its history
    later, its messages are in the final history, none more often than once or
    than in the history that the run started from. -/
def BatchDelivered (prepared : PreparedRun) (w : World Digest) (before after : List Entry) (batch : MessageBatch) : Prop :=
  ∃ middle result later, after = middle ++ .Answered batch.ticket result :: later ∧
    (result = .Applied ∨ result = .Duplicate) ∧ (∀ outcome, .Emitted (.Ended outcome) ∉ before ++ middle) ∧
    ((∀ entry ∈ later, isReplacement entry = false) → ∀ m ∈ batch.messages,
      m ∈ finalHistory prepared.run_id w.store ∧
        (finalHistory prepared.run_id w.store).count m ≤ max 1 ((baseHistory prepared w.store).count m))

theorem Queue.distinct (queue : Queue a done) : ((accepted a.world.log).map (·.ticket)).Nodup := by
  rw [queue.issued]
  exact List.nodup_range
theorem Queue.answered_once (queue : Queue a done) : ((answers a.world.log).map (·.1)).Nodup := by
  have distinct := queue.distinct
  rw [queue.order,List.map_append,queue.tickets] at distinct
  exact distinct.of_append_left
theorem Queue.all_answered (queue : Queue a done) (held : a.control.held = [])
    (drained : a.control.flags.drained = true) (member : batch ∈ accepted a.world.log) :
    ∃ result, Entry.Answered batch.ticket result ∈ a.world.log ∧ (result = .Applied ∨ result = .Duplicate) := by
  have order := queue.order
  rw [inFlight,held,(queue.closed drained).2,List.append_nil,List.append_nil] at order
  have isTicket : batch.ticket ∈ (answers a.world.log).map (·.1) := by
    rw [← queue.tickets,← order]
    exact List.mem_map_of_mem member
  obtain ⟨⟨ticket,result⟩,isAnswer,rfl⟩ := List.mem_map.mp isTicket
  refine ⟨result,?_,queue.delivered _ isAnswer⟩
  obtain ⟨entry,logged,same⟩ := List.mem_filterMap.mp isAnswer
  cases entry with
  | Answered =>
    simp only [answer,Option.some.injEq,Prod.mk.injEq] at same
    exact same.1 ▸ same.2 ▸ logged
  | _ => cases same

theorem reach_delivered (reach : Reach prepared start a) (reached : a.control.checkpoint = some checkpoint)
    (held : a.control.held = []) (drained : a.control.flags.drained = true) {before after : List Entry}
    (split : a.world.log = before ++ .Accepted batch :: after) : BatchDelivered prepared a.world before after batch := by
  obtain ⟨done,queue⟩ := reach_queue reach
  have kept := reach_kept reach
  have member : batch ∈ accepted a.world.log := by
    rw [split]
    exact List.mem_filterMap.mpr ⟨.Accepted batch,by simp,rfl⟩
  obtain ⟨result,logged,delivered⟩ := queue.all_answered held drained member
  obtain ⟨before',later,split'⟩ := List.append_of_mem logged
  obtain ⟨batch',earlier,isTicket,identified,inside⟩ := kept.answered before' _ result later split'
  -- The batch that was answered is this one, so the answer comes after it.
  obtain ⟨front,middle,rfl⟩ := List.append_of_mem earlier
  rw [List.append_assoc,List.cons_append] at split'
  obtain ⟨rfl,rfl,rfl⟩ := accepted_once queue.distinct split split' isTicket
  refine ⟨middle,result,later,rfl,delivered,?_,?_⟩
  · intro outcome ended
    refine reach_unended reach outcome ?_
    rw [split]
    rcases List.mem_append.mp ended with early | late
    · exact List.mem_append_left _ early
    · exact List.mem_append_right _ (List.mem_cons_of_mem _ (List.mem_append_left _ late))
  · intro unreplaced m isMessage
    rw [Grounded.finalHistory_eq (Reach.grounded reach) reached]
    exact ⟨inside unreplaced isMessage,kept.single m (identified m isMessage)⟩

theorem accepted_distinct {ops : List Op} {script : List Move} {result : Except Halt RunOutcome} {w : World Digest}
    (ran : runFrom (run prepared) (initial (replay ops) script) = (result,w)) :
    ((accepted w.log).map (·.ticket)).Nodup := by
  obtain ⟨c,last,reach,ended,_⟩ :=
    @EngineSteps.run_reaches Digest _ _ _ _ prepared ⟨replay ops,script,ops,rfl⟩ result w ran
  obtain ⟨done,queue⟩ := reach_queue reach
  rcases ended with rfl | ⟨outcome,rfl⟩
  · exact queue.distinct
  · simpa [World.note,accepted_append,acceptedBatch] using queue.distinct

/-- No submitter is answered twice, and a run that ends completed has delivered
    every batch that it accepted. -/
theorem accepted_batches_delivered (ops : List Op) (script : List Move) (prepared : PreparedRun)
    {result : Except Halt RunOutcome} {w : World Digest}
    (ran : runFrom (run prepared) (initial (replay ops) script) = (result,w)) :
    ((answers w.log).map (·.1)).Nodup ∧ (result = .ok .Completed → ∀ before batch after, w.log = before ++ .Accepted batch :: after →
        BatchDelivered prepared w before after batch) := by
  obtain ⟨c,last,reach,ended,completed⟩ :=
    @EngineSteps.run_reaches Digest _ _ _ _ prepared ⟨replay ops,script,ops,rfl⟩ result w ran
  obtain ⟨done,queue⟩ := reach_queue reach
  have delivered : result = .ok .Completed → ∀ before batch after, last.log = before ++ .Accepted batch :: after →
      BatchDelivered prepared last before after batch := by
    intro isCompleted before batch after split
    obtain ⟨⟨checkpoint,reached⟩,held,drained⟩ := completed isCompleted
    exact reach_delivered reach reached held drained split
  rcases ended with rfl | ⟨outcome,rfl⟩
  · exact ⟨queue.answered_once,delivered⟩
  · constructor
    · simpa [World.note,answers_append,answer] using queue.answered_once
    · intro isCompleted before batch after split
      rcases split_snoc split with ⟨_,_,same⟩ | ⟨after',rfl,shorter⟩
      · cases same
      · obtain ⟨middle,result',later,rfl,isDelivered,unended,inside⟩ := delivered isCompleted before batch after' shorter
        refine ⟨middle,result',later ++ [.Emitted (.Ended outcome)],by simp,isDelivered,unended,?_⟩
        exact fun unreplaced => inside fun entry member => unreplaced entry (List.mem_append_left _ member)

end Runs

section Identity
local instance : MessageHash (List CanonicalMessage) := ⟨id⟩
-- Neither tools, tool calls nor images occur in the runs below, so nothing of these is used.
local instance : SerdeText := ⟨fun _ => "",fun _ => "",fun _ => ""⟩
local instance : Blobs := ⟨fun _ => .ok [],id⟩

def greeting : CanonicalMessage := text "user" .User .User "hello"
def reminder : CanonicalMessage := RuntimeEvent.into_message ⟨"reminder","wait"⟩
def turn : PreparedRun :=
  { run_id := "run", cursor_request_id := none, conversation_id := "c", kind := .Root,
    model := ⟨"model",⟨false,none⟩,none,none,.Null⟩, prompt := ⟨"",[]⟩, initial_messages := [], action := .Start,
    base_checkpoint_id := 2 }
def answered (text : String) : Move := { choice := .Cycle (.ok ⟨"call",text,"",none,[],none,.Stop⟩) }
def ready : Move := { choice := .Ready (.ok ()) }

/-- The run is claimed and calls the provider; a reminder is inserted meanwhile
    and applied after the answer; then the provider is called again. -/
def reminded : List Move :=
  [{},{ choice := .Anchor none },{},{},{},
   { actions := [.submit_messages "reminder" [reminder] false], choice := .Command },answered "hello",
   {},{},{},ready,{},{},{}]
def ending : List Move := [answered "done",{},{},{},{},ready,{},{},{}]
/-- The provider refuses the history, which is replaced by a summary. -/
def overflow : List Move :=
  [{ choice := .Cycle (.error ⟨.Provider "prompt is too long","","",none,false⟩) },{},{},{},{},answered "a summary",
   {},{},ready,{},{},{},{},{}]

def runOf (script : List Move) : Except Halt RunOutcome × World (List CanonicalMessage) :=
  runFrom (run turn) (initial (replay [.import_checkpoint "c" [greeting]]) script)

theorem accepted_batches_delivered_reminder : (runOf (reminded ++ ending)).1 = .ok .Completed ∧
      ∃ before batch after, (runOf (reminded ++ ending)).2.log = before ++ .Accepted batch :: after ∧
        batch.messages = [reminder] ∧ BatchDelivered turn (runOf (reminded ++ ending)).2 before after batch := by
  have completed : (runOf (reminded ++ ending)).1 = .ok .Completed := by decide +kernel
  have isAccepted : (accepted (runOf (reminded ++ ending)).2.log).map (·.messages) = [[reminder]] := by decide +kernel
  obtain ⟨batch,rest,isBatch⟩ : ∃ batch rest, accepted (runOf (reminded ++ ending)).2.log = batch :: rest :=
    List.exists_cons_of_ne_nil fun none_ => by rw [none_] at isAccepted; cases isAccepted
  rw [isBatch,List.map_cons,List.cons.injEq] at isAccepted
  obtain ⟨entry,logged,same⟩ := List.mem_filterMap.mp (isBatch ▸ List.mem_cons_self : batch ∈ accepted _)
  obtain ⟨before,after,split⟩ : ∃ before after, (runOf (reminded ++ ending)).2.log = before ++ .Accepted batch :: after := by
    cases entry with
    | Accepted other =>
      simp only [acceptedBatch,Option.some.injEq] at same
      exact List.append_of_mem (same ▸ logged)
    | _ => cases same
  have delivered := accepted_batches_delivered [.import_checkpoint "c" [greeting]] (reminded ++ ending) turn
    (Prod.mk.eta (p := runOf (reminded ++ ending))).symm
  exact ⟨completed,before,batch,after,split,isAccepted.1,delivered.2 completed before batch after split⟩

/-- A reminder that was applied before the history is replaced is not a part of
    the final history. -/
theorem applied_batch_compacted : (runOf (reminded ++ overflow ++ ending)).1 = .ok .Completed ∧
      (accepted (runOf (reminded ++ overflow ++ ending)).2.log) = [⟨0,"reminder",[reminder]⟩] ∧
      answers (runOf (reminded ++ overflow ++ ending)).2.log = [(0,.Applied)] ∧
      (finalHistory "run" (runOf (reminded ++ overflow ++ ending)).2.store).count reminder = 0 := by
  exact ⟨by decide +kernel,by decide +kernel,by decide +kernel,by decide +kernel⟩
end Identity

end MyCursor.Delivery

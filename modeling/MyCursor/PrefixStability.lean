import MyCursor.Delivery
import MyCursor.ToolRounds
import Mathlib.Data.List.Chain

/-!
# Prefix stability

As long as a run does not compact its history, what it sends to the provider
with one call is a prefix of what it sends with the next one: every path by
which the history grows appends to it, and no addition is grouped with a tool
round that was sent before.
-/
namespace MyCursor.PrefixStability
open Message Store StoreSteps Projection Compaction Run
open Engine RunSteps Delivery ToolRounds Hoare
set_option linter.unusedSectionVars false

section Runs
variable {Digest : Type} [DecidableEq Digest] [MessageHash Digest] [SerdeText] [Blobs] {prepared : PreparedRun}
variable {a b : Config Digest} {start : Start Digest}

/-- The persisted history that goes with a call for the conversation. -/
def sentHistory : Entry → Option (List ProjectedMessage)
  | .Called invocation (some anchored_messages) => some (invocation.request.history.take anchored_messages)
  | _ => none
/-- The persisted histories that a run has sent, in order. -/
def sentHistories (log : List Entry) : List (List ProjectedMessage) := log.filterMap sentHistory

theorem sentHistories_append (log : List Entry) (entry : Entry) :
    sentHistories (log ++ [entry]) = sentHistories log ++ (sentHistory entry).toList := by
  cases found : sentHistory entry <;> simp [sentHistories,found]
theorem sentHistories_act (r : RunId) (w : World Digest) (action : Action) : sentHistories (act r w action).log = sentHistories w.log :=
  (act_acted r w action).filterMap (fun _ => rfl) fun _ => rfl
theorem sentHistory_plain {entry : Entry} (plain : Plain entry) : sentHistory entry = none := by
  cases entry with
  | Called invocation anchored_messages =>
    cases anchored_messages with
    | none => rfl
    | some n => exact plain.elim
  | _ => rfl

/-- A message as the callers of a run make them, with parts as content. -/
def Spoken (m : CanonicalMessage) : Prop := ∃ parts, m.content = .Parts parts

/-- The run has not replaced its history, and the batches it has accepted are
    made of such messages. -/
structure Uncompacted (log : List Entry) : Prop where
  unreplaced : ∀ entry ∈ log, isReplacement entry = false
  spoken : ∀ batch, Entry.Accepted batch ∈ log → ∀ m ∈ batch.messages, Spoken m

theorem Uncompacted.earlier {log later : List Entry} (uncompacted : Uncompacted later) (extends_ : log <+: later) : Uncompacted log :=
  ⟨fun entry member => uncompacted.unreplaced entry (extends_.subset member),
    fun batch member => uncompacted.spoken batch (extends_.subset member)⟩

/-- What a run is prepared with: its base checkpoint is stored, its initial
    messages are made by callers, and since its id is new, no message of the
    base belongs to a tool round of the run. -/
structure Supplied (prepared : PreparedRun) (s : Tables Digest) : Prop where
  known : Belongs s prepared.conversation_id prepared.base_checkpoint_id
  fresh : ∀ m ∈ baseHistory prepared s, ∀ id, roundStart m = some id → ¬ OwnRound prepared.run_id id
  spoken : ∀ m ∈ prepared.initial_messages, Spoken m

/-- The base checkpoint was stored before the run and still loads to the same messages. -/
theorem Supplied.base_stable {s after : Tables Digest} (supplied : Supplied prepared s) (writes : Writes s after)
    (consistent : Consistent s) :
    load_checkpoint_messages after prepared.base_checkpoint_id = baseHistory prepared s := by
  obtain ⟨row,isRow,named,_⟩ := supplied.known
  exact consistent.wellFormed.toForest.load_stable (Writes.extends_ writes consistent.wellFormed)
    prepared.base_checkpoint_id ⟨row,isRow,named⟩
theorem Supplied.fresh_later {s after : Tables Digest} (supplied : Supplied prepared s) (writes : Writes s after)
    (consistent : Consistent s) :
    ∀ m ∈ load_checkpoint_messages after prepared.base_checkpoint_id, ∀ id, roundStart m = some id → ¬ OwnRound prepared.run_id id := by
  rw [supplied.base_stable writes consistent]
  exact supplied.fresh

/-- What was sent last is the projection of the beginning of the history, and
    what came after it is not grouped with it. -/
structure Sent (a : Config Digest) (sent : List ProjectedMessage) (loaded later : List CanonicalMessage)
    (projected : List ProjectedMessage) : Prop where
  history : a.history = loaded ++ later
  isProjected : project_messages loaded = .ok projected
  isSent : sent = projected.map hydrated
  apart : ∀ m, later.head? = some m → Unabsorbed loaded m
  round : ∀ round, a.control.round = some round → ∀ m ∈ loaded, roundStart m ≠ some round.id

def RoundsKnown (prepared : PreparedRun) (a : Config Digest) : Prop :=
  ∀ m ∈ a.history, ∀ id, roundStart m = some id → OwnRound prepared.run_id id →
    ∃ row, a.world.store.tool_rounds id = some row ∧ row.run_id = prepared.run_id

structure Stable (prepared : PreparedRun) (a : Config Digest) : Prop where
  stored : RoundsKnown prepared a
  unread : a.control.checkpoint = none → a.control.read = none ∧ sentHistories a.world.log = []
  chain : (sentHistories a.world.log).IsChain (· <+: ·)
  last : ∀ sent, (sentHistories a.world.log).getLast? = some sent → ∃ loaded later projected, Sent a sent loaded later projected

variable {m : CanonicalMessage}

theorem unabsorbed_of_noRound {history : List CanonicalMessage}
    (noResult : ∀ result, m.content ≠ .ToolResult result) (noRound : roundStart m = none) : Unabsorbed history m :=
  ⟨noResult,fun id start => by rw [noRound] at start; cases start⟩
theorem Spoken.roundStart (spoken : Spoken m) : roundStart m = none := by
  obtain ⟨parts,content⟩ := spoken
  simp [Projection.roundStart,content]
theorem Spoken.unabsorbed {history : List CanonicalMessage} (spoken : Spoken m) : Unabsorbed history m := by
  refine unabsorbed_of_noRound ?_ spoken.roundStart
  obtain ⟨parts,content⟩ := spoken
  simp [content]

/-! ## What a step does to the history -/

/-- The history stays, and a round that is opened is a new one; or it grows,
    outside of tool rounds or in the open one; or it is replaced; or the run
    starts from its base. -/
inductive HistoryStep (prepared : PreparedRun) (a b : Config Digest) : Prop
  | same (history : b.history = a.history)
      (round : ∀ round, b.control.round = some round → (∃ round', a.control.round = some round' ∧ round'.id = round.id) ∨
        (OwnRound prepared.run_id round.id ∧ a.world.store.tool_rounds round.id = none))
  | appended (m : CanonicalMessage) (more : List CanonicalMessage) (history : b.history = a.history ++ m :: more)
      (reached : b.control.checkpoint.isSome)
      (round : ∀ round, b.control.round = some round → ∃ round', a.control.round = some round' ∧ round'.id = round.id)
      (stored : ∀ m' ∈ m :: more, ∀ id, roundStart m' = some id → OwnRound prepared.run_id id →
        ∃ row, b.world.store.tool_rounds id = some row ∧ row.run_id = prepared.run_id)
      (apart : ∀ loaded, (∀ round, a.control.round = some round → ∀ m' ∈ loaded, roundStart m' ≠ some round.id) → Unabsorbed loaded m)
  | replaced (entry : Entry) (log : b.world.log = a.world.log ++ [entry]) (isReplaced : isReplacement entry = true)
      (kept : ∀ m ∈ b.history, ∀ id, roundStart m = some id → m ∈ a.history) (stale : b.control.flags.stale = true)
      (reached : b.control.checkpoint.isSome)
  | claimed (first : a.control.checkpoint = none) (reached : b.control.checkpoint.isSome)
      (base : b.history = load_checkpoint_messages b.world.store prepared.base_checkpoint_id)

theorem HistoryStep.once (grounded : Grounded prepared a) {checkpoint id : Nat} {inserted : Bool}
    {store : Tables Digest} (reached : a.control.checkpoint = some checkpoint)
    (done : transact a.world.store (.append_message_once prepared.conversation_id prepared.run_id checkpoint m) =
      .ok (.Appended id inserted,store)) (spoken : Spoken m) (isStore : b.world.store = store) (isId : b.control.checkpoint = some id)
    (closed : b.control.round = none) : HistoryStep prepared a b := by
  rcases grounded.once_history reached done isStore isId with ⟨_,history⟩ | ⟨_,history⟩
  · exact .same history (by simp [closed])
  · refine .appended m [] history (by simp [isId]) (by simp [closed]) ?_ fun _ _ => spoken.unabsorbed
    intro m' member id start
    rw [List.mem_singleton.mp member,spoken.roundStart] at start
    cases start

theorem commitMessages_roundStart (round_id : ToolRoundId) (row : ToolRoundRow) (call : ToolRoundCallRow)
    (result : ToolResult) : ∃ first second, commitMessages round_id row call result = [first,second] ∧
      (∀ result', first.content ≠ .ToolResult result') ∧ roundStart first = some round_id ∧ roundStart second = none :=
  ⟨_,_,rfl,by simp,rfl,rfl⟩

theorem step_history {done : List MessageBatch} (step : Step prepared a b) (grounded : Grounded prepared a)
    (queue : Queue a done) (opened : a.control.round.isSome → a.control.checkpoint.isSome)
    (initial : ∀ m ∈ prepared.initial_messages, Spoken m)
    (spoken : ∀ batch, Entry.Accepted batch ∈ a.world.log → ∀ m ∈ batch.messages, Spoken m) : HistoryStep prepared a b := by
  have wf := grounded.consistent.wellFormed
  have keeps := step_keepsCalls step grounded
  have history : b.control.checkpoint = a.control.checkpoint → b.history = a.history :=
    grounded.history_stable (step.writes grounded)
  have unchanged : ∀ round, a.control.round = some round → (∃ round', a.control.round = some round' ∧ round'.id = round.id) ∨
        (OwnRound prepared.run_id round.id ∧ a.world.store.tool_rounds round.id = none) :=
    fun round isOpen => .inl ⟨round,isOpen,rfl⟩
  cases step with
  | act | internal | phase | receive | drain | plain | announce | answer | load | call | anchored | estimate | usage
  | compacted | provider_call | finish_run => exact .same (history rfl) unchanged
  | close_round => exact .same (history rfl) (by simp)
  | @claim c w claimed store first closed transacted => exact .claimed first rfl (claim_history transacted rfl rfl)
  | @initial_message c w checkpoint id m inserted store reached closed settled member transacted =>
    exact .once grounded reached transacted (initial m member) rfl rfl closed
  | @batch_message c w checkpoint id batch rest m more inserted store reached closed settled first turn identified transacted =>
    have logged := accepted_of_inFlight queue (List.mem_append_left _ (by simp [first] : batch ∈ c.held))
    exact .once grounded reached transacted (spoken batch logged m (by simp [turn])) rfl rfl closed
  | @assistant c w checkpoint id index cycle store reached closed settled transacted =>
    have noRound : roundStart (assistantMessage prepared index cycle) = none := rfl
    refine .appended _ [] (grounded.append_history reached transacted rfl rfl) rfl (by simp [Control.goTo,closed]) ?_
      fun _ _ => unabsorbed_of_noRound (by simp [assistantMessage]) noRound
    intro m' member id start
    rw [List.mem_singleton.mp member,noRound] at start
    cases start
  | @replace c w checkpoint id messages store reached closed between settled replacement transacted =>
    refine .replaced _ rfl rfl ?_ rfl rfl
    rw [grounded.replace_history transacted rfl rfl]
    intro m member id start
    rcases replacement.mem member with isParts | isInitial | ⟨loaded,isRead,isLoaded⟩
    · rw [Spoken.roundStart isParts] at start
      cases start
    · rw [(initial m isInitial).roundStart] at start
      cases start
    · exact grounded.read loaded isRead ▸ isLoaded
  | @create_round c w checkpoint id assistant calls created_at_ms reply store reached closed settled own transacted =>
    obtain ⟨_,_,unused,_,_⟩ := create_tool_round_ok (transact_create transacted).2
    refine .same (history rfl) ?_
    intro round isRound
    simp only [Option.some.injEq] at isRound
    subst isRound
    exact .inr ⟨own,unused⟩
  | announce_round round _ isOpen | execute_round round isOpen | announce_result round isOpen =>
    refine .same (history rfl) ?_
    intro round' isRound
    simp only [Option.some.injEq] at isRound
    exact .inl ⟨round,isOpen,by rw [← isRound]⟩
  | @commit_result c w round result commit store isOpen told executed transacted =>
    obtain ⟨row,call,head,middle,committed⟩ := transact_commit wf transacted
    obtain ⟨checkpoint,reached⟩ := Option.isSome_iff_exists.mp (opened (by simp [isOpen]))
    obtain ⟨first,second,two,noResult,start,noStart⟩ := commitMessages_roundStart round.id row call result
    refine .appended first [second] (two ▸ grounded.commit_history reached committed rfl rfl) rfl ?_ ?_ ?_
    · intro round' isRound
      simp only [Option.some.injEq] at isRound
      exact ⟨round,isOpen,by rw [← isRound]⟩
    · intro m' member id isStart _
      simp only [List.mem_cons,List.not_mem_nil,or_false] at member
      rcases member with rfl | rfl
      · rw [start,Option.some.injEq] at isStart
        subst isStart
        obtain ⟨row',found,owner,_⟩ := keeps round.id row committed.isRound committed.owner
        exact ⟨row',found,owner⟩
      · rw [noStart] at isStart
        cases isStart
    · intro loaded other
      refine ⟨noResult,?_⟩
      intro id isStart m' member
      rw [start,Option.some.injEq] at isStart
      exact isStart ▸ other round isOpen m' member

theorem RoundsKnown.step (stored : RoundsKnown prepared a) (history : HistoryStep prepared a b)
    (keeps : KeepsCalls prepared.run_id a.world.store b.world.store)
    (fresh : ∀ m ∈ load_checkpoint_messages b.world.store prepared.base_checkpoint_id, ∀ id, roundStart m = some id →
      ¬ OwnRound prepared.run_id id) : RoundsKnown prepared b := by
  have still : ∀ m ∈ a.history, ∀ id, roundStart m = some id → OwnRound prepared.run_id id →
      ∃ row, b.world.store.tool_rounds id = some row ∧ row.run_id = prepared.run_id := by
    intro m member id start own
    obtain ⟨row,found,owner⟩ := stored m member id start own
    obtain ⟨row',found',owner',_⟩ := keeps id row found owner
    exact ⟨row',found',owner'⟩
  intro m member id start own
  cases history with
  | same history => exact still m (history ▸ member) id start own
  | appended first more history reached round new =>
    rw [history,List.mem_append] at member
    rcases member with old | isNew
    · exact still m old id start own
    · exact new m isNew id start own
  | replaced _ _ _ kept => exact still m (kept m member id start) id start own
  | claimed first reached base => exact absurd own (fresh m (base ▸ member) id start)

theorem Sent.step {sent : List ProjectedMessage} {loaded later : List CanonicalMessage} {projected : List ProjectedMessage}
    (old : Sent a sent loaded later projected) (stored : RoundsKnown prepared a) (history : HistoryStep prepared a b)
    (unreplaced : b.control.flags.stale = true → ∀ entry, b.world.log = a.world.log ++ [entry] → isReplacement entry = false)
    (reached : a.control.checkpoint ≠ none) : ∃ later, Sent b sent loaded later projected := by
  cases history with
  | same history round =>
    refine ⟨later,history.trans old.history,old.isProjected,old.isSent,old.apart,?_⟩
    intro opened isOpen m member
    rcases round opened isOpen with ⟨round',isOpen',same⟩ | ⟨own,unused⟩
    · rw [← same]
      exact old.round round' isOpen' m member
    · intro start
      have inHistory : m ∈ a.history := old.history ▸ List.mem_append_left _ member
      obtain ⟨row,found,_⟩ := stored m inHistory opened.id start own
      rw [unused] at found
      cases found
  | appended m more history reached round new apart =>
    refine ⟨later ++ m :: more,?_,old.isProjected,old.isSent,?_,?_⟩
    · rw [history,old.history,List.append_assoc]
    · intro first isFirst
      cases later with
      | nil =>
        simp only [List.nil_append,List.head?_cons,Option.some.injEq] at isFirst
        exact isFirst ▸ apart loaded old.round
      | cons other rest => exact old.apart first isFirst
    · intro opened isOpen m' member
      obtain ⟨round',isOpen',same⟩ := round opened isOpen
      rw [← same]
      exact old.round round' isOpen' m' member
  | replaced entry log isReplaced _ stale =>
    rw [unreplaced stale entry log] at isReplaced
    cases isReplaced
  | claimed first => exact absurd first reached

theorem Stable.call (stable : Stable prepared a) {history : List ProjectedMessage} {sent : List ProjectedMessage}
    (same : b.history = a.history) (store : b.world.store = a.world.store) (closed : b.control.round = none)
    (reached : b.control.checkpoint.isSome) (projected : project_messages a.history = .ok history)
    (isSent : sent = history.map hydrated) (log : sentHistories b.world.log = sentHistories a.world.log ++ [sent]) :
    Stable prepared b := by
  refine ⟨?_,?_,?_,?_⟩
  · unfold RoundsKnown
    rw [same,store]
    exact stable.stored
  · intro none_
    rw [none_] at reached
    cases reached
  · rw [log,List.isChain_append]
    refine ⟨stable.chain,List.isChain_singleton _,?_⟩
    intro before isLast after isNext
    simp only [List.head?_cons,Option.mem_def,Option.some.injEq] at isNext
    subst isNext
    obtain ⟨loaded,later,earlier,old⟩ := stable.last before isLast
    -- What was added since is projected by itself, behind what was sent.
    rw [old.history,project_append old.isProjected old.apart] at projected
    cases rest : project_messages later with
    | error e => simp [rest,Except.map] at projected
    | ok added =>
      simp only [rest,Except.map,Except.ok.injEq] at projected
      rw [isSent,← projected,old.isSent,List.map_append]
      exact List.prefix_append _ _
  · intro last isLast
    rw [log,List.getLast?_concat,Option.some.injEq] at isLast
    subst isLast
    exact ⟨a.history,[],history,by simp [same],projected,isSent,by simp,by simp [closed]⟩

theorem step_sent (step : Step prepared a b) (grounded : Grounded prepared a) : sentHistories b.world.log = sentHistories a.world.log ∨
      (a.control.read ≠ none ∧ b.control = a.control ∧ b.world.store = a.world.store ∧ a.control.round = none ∧
        ∃ projected, project_messages a.history = .ok projected ∧
          sentHistories b.world.log = sentHistories a.world.log ++ [projected.map hydrated]) := by
  cases step with
  | @act c w action => exact .inl (sentHistories_act prepared.run_id w action)
  | internal | phase | receive | drain | load | usage | compacted | close_round => exact .inl rfl
  | @plain c w entry plain => exact .inl (by simp [World.note,sentHistories_append,sentHistory_plain plain])
  | @call c w messages projected invocation closed loaded isProjected sent =>
    refine .inr ⟨by simp [loaded],rfl,rfl,closed,projected,grounded.read messages loaded ▸ isProjected,?_⟩
    simp only [World.note,sentHistories_append,sentHistory,Option.toList_some]
    rw [sent,withTail]
    split_ifs <;>
    · rw [← @List.length_map _ _ projected hydrated,user_terminated_take]
  | announce | answer | anchored | estimate | announce_round | execute_round | announce_result =>
    exact .inl (by simp [World.note,sentHistories_append,sentHistory])
  | _ => exact .inl (by simp [World.stored,sentHistories_append,sentHistory])

theorem step_unread (step : Step prepared a b) (unread : a.control.checkpoint = none → a.control.read = none)
    (none_ : b.control.checkpoint = none) : a.control.checkpoint = none ∧ b.control.read = none := by
  cases step with
  | load reached =>
    rw [reached] at none_
    cases none_
  | claim | initial_message | batch_message | assistant | replace | commit_result => cases none_
  | _ => exact ⟨none_,unread none_⟩

theorem step_stable {done : List MessageBatch} (step : Step prepared a b) (grounded : Grounded prepared a)
    (queue : Queue a done) (opened : a.control.round.isSome → a.control.checkpoint.isSome)
    (supplied : Supplied prepared start.store) (writes : Writes start.store b.world.store) (consistent : Consistent start.store)
    (uncompacted : Uncompacted b.world.log) (stable : Stable prepared a) : Stable prepared b := by
  have spoken := (uncompacted.earlier step.log).spoken
  have history := step_history step grounded queue opened supplied.spoken spoken
  have fresh : ∀ m ∈ load_checkpoint_messages b.world.store prepared.base_checkpoint_id, ∀ id, roundStart m = some id →
      ¬ OwnRound prepared.run_id id := supplied.fresh_later writes consistent
  have unreplaced : ∀ entry, b.world.log = a.world.log ++ [entry] → isReplacement entry = false :=
    fun entry log => uncompacted.unreplaced entry (by simp [log])
  rcases step_sent step grounded with same | ⟨isRead,control,store,closed,projected,isProjected,grown⟩
  · have stored := stable.stored.step history (step_keepsCalls step grounded) fresh
    refine ⟨stored,?_,same ▸ stable.chain,?_⟩
    · intro none_
      obtain ⟨before,unread⟩ := step_unread step (fun none_ => (stable.unread none_).1) none_
      exact ⟨unread,same ▸ (stable.unread before).2⟩
    · intro sent isLast
      rw [same] at isLast
      obtain ⟨loaded,later,projected,old⟩ := stable.last sent isLast
      have reached : a.control.checkpoint ≠ none := by
        intro none_
        rw [(stable.unread none_).2] at isLast
        cases isLast
      obtain ⟨later,new⟩ := old.step stable.stored history (fun _ => unreplaced) reached
      exact ⟨loaded,later,projected,new⟩
  · have reached : b.control.checkpoint.isSome := by
      rw [control,Option.isSome_iff_ne_none]
      exact fun none_ => isRead (stable.unread none_).1
    have sameHistory : b.history = a.history := by
      simp only [Config.history,control,store]
    exact stable.call sameHistory store (control ▸ closed) reached isProjected rfl grown

theorem reach_stable (supplied : Supplied prepared start.store) (reach : Reach prepared start a)
    (uncompacted : Uncompacted a.world.log) : Stable prepared a := by
  have consistent : Consistent start.store := by
    obtain ⟨ops,same⟩ := start.reachable
    rw [same]
    exact replay_consistent ops
  induction reach with
  | refl =>
    refine ⟨by simp [RoundsKnown,Config.history],?_,?_,?_⟩
    · simp [initial,sentHistories]
    · simp [initial,sentHistories]
    · simp [initial,sentHistories]
  | @tail b c earlier step ih =>
    have grounded := Reach.grounded earlier
    obtain ⟨done,queue⟩ := reach_queue earlier
    exact step_stable step grounded queue (Reach.opened earlier) supplied
      ((Reach.writes earlier).trans (step.writes grounded)) consistent uncompacted (ih (uncompacted.earlier step.log))

/-- In every run that does not compact its history, the persisted history sent
    with a provider call is a prefix of that sent with the next one. -/
theorem sent_history_prefix (ops : List Op) (script : List Move) (prepared : PreparedRun)
    (supplied : Supplied prepared (replay ops : Tables Digest)) {result : Except Halt RunOutcome} {w : World Digest}
    (ran : runFrom (run prepared) (initial (replay ops) script) = (result,w)) (uncompacted : Uncompacted w.log) :
    (sentHistories w.log).IsChain (· <+: ·) := by
  obtain ⟨c,last,reach,ended,_⟩ :=
    @EngineSteps.run_reaches Digest _ _ _ _ prepared ⟨replay ops,script,ops,rfl⟩ result w ran
  rcases ended with rfl | ⟨outcome,rfl⟩
  · exact (reach_stable supplied reach uncompacted).chain
  · have stable := reach_stable supplied reach (uncompacted.earlier (List.prefix_append _ _))
    simpa [World.note,sentHistories_append,sentHistory] using stable.chain

end Runs

section Identity
local instance : MessageHash (List CanonicalMessage) := ⟨id⟩
-- The arguments are the only value that is measured.
local instance : SerdeText := ⟨fun _ => "null",fun _ => "",fun _ => ""⟩
local instance : Blobs := ⟨fun _ => .ok [],id⟩

def lookup : ToolCall := ⟨0,"lookup","call","read","null",.Null,none⟩
/-- The answer to the first call of the provider calls a tool; its result is
    committed, the provider is called again and ends the run. -/
def lookingUp : List Move :=
  [{},{ choice := .Anchor none },{},{},{},{ choice := .Cycle (.ok ⟨"call","","",none,[lookup],none,.ToolUse⟩) },
   {},{},{},{ actions := [.tool_result ⟨"lookup","found",false,none⟩], choice := .Command },{},{},ready,{},{},{}] ++ ending

theorem sent_history_prefix_lookup : let w := (runFrom (run turn) (initial (replay [.import_checkpoint "c" [greeting]]) lookingUp) :
      _ × World (List CanonicalMessage)).2
    (sentHistories w.log).map (·.length) = [1,3] ∧ (sentHistories w.log).IsChain (· <+: ·) := by
  refine ⟨by decide +kernel, sent_history_prefix [.import_checkpoint "c" [greeting]] lookingUp turn ?_ Prod.mk.eta.symm ?_⟩
  · refine ⟨⟨⟨2,"c",some 1,[greeting],["user"]⟩,?_,rfl,rfl⟩,?_,by simp [turn]⟩
    · decide +kernel
    · intro m member id start
      have base : baseHistory turn (replay [.import_checkpoint "c" [greeting]] : Tables (List CanonicalMessage)) =
        [greeting] := by decide +kernel
      rw [base,List.mem_singleton] at member
      subst member
      cases start
  · constructor
    · have all : ((runFrom (run turn) (initial (replay [.import_checkpoint "c" [greeting]]) lookingUp) :
        _ × World (List CanonicalMessage)).2.log).all (fun entry => !isReplacement entry) = true := by decide +kernel
      simpa using all
    · have none_ : accepted (runFrom (run turn) (initial (replay [.import_checkpoint "c" [greeting]]) lookingUp) :
        _ × World (List CanonicalMessage)).2.log = [] := by decide +kernel
      intro batch logged
      have member : batch ∈ accepted _ := List.mem_filterMap.mpr ⟨_,logged,rfl⟩
      rw [none_] at member
      cases member
end Identity

end MyCursor.PrefixStability

import MyCursor.PrefixStability

/-!
# The usage that estimates start from

`store/llm_calls.rs` and `provider/router.rs`: every provider call is recorded
with the number of its messages and the usage that the provider reported. A run
starts from the newest usage of the conversation and then keeps that of its own
calls, and estimates only the messages after those that were counted. The
number that is recorded includes a transient tail, and nothing compares the
messages, so the first estimates are right only where the newest call was made
without a tail and its messages are still the beginning of the history.
-/
namespace MyCursor.UsageAnchor
open Message Store StoreSteps Projection Compaction Run
open Engine RunSteps Delivery ToolRounds PrefixStability Text Hoare
set_option linter.unusedSectionVars false

/-- A row of `llm_calls` whose call has ended, with the request it was made with
    and the number of its messages that are persisted, if it was made for the
    conversation itself. -/
structure LlmCall where
  invocation : ModelInvocation
  anchored_messages : Option Nat
  usage : Option Usage

/-- `start_recorder` counts all messages of the request. -/
def LlmCall.message_count (call : LlmCall) : Nat := call.invocation.request.history.length
def LlmCall.context_input_tokens (call : LlmCall) : Option Nat := call.usage.bind (·.context_input_tokens)
def LlmCall.persisted (call : LlmCall) : Option (List ProjectedMessage) :=
  call.anchored_messages.map (call.invocation.request.history.take ·)

/-- The newest call of the conversation that reported its context. -/
def newestCall (calls : List LlmCall) (conversation_id : ConversationId) : Option LlmCall :=
  calls.reverse.find? fun call => call.invocation.conversation_id = conversation_id && call.context_input_tokens.isSome
/-- `latest_context_usage` on the rows in the order in which they were created. -/
def latestContextUsage (calls : List LlmCall) (conversation_id : ConversationId) : Option ContextUsageAnchor :=
  (newestCall calls conversation_id).bind fun call =>
    call.context_input_tokens.map fun context_input_tokens => ⟨context_input_tokens,call.message_count⟩

/-- The call that is being made and those that have ended. -/
structure Recorder where
  current : Option (ModelInvocation × Option Nat) := none
  calls : List LlmCall := []
def record (recorder : Recorder) : Entry → Recorder
  | .Called invocation anchored_messages => { recorder with current := some (invocation,anchored_messages) }
  | .Cycled result =>
    { recorder with
      calls := recorder.calls ++ recorder.current.toList.map fun call => ⟨call.1,call.2,cycleUsage result⟩ }
  | _ => recorder
def recordedCalls (log : List Entry) : List LlmCall := (log.foldl record {}).calls

theorem record_grows (recorder : Recorder) (log : List Entry) : recorder.calls <+: (log.foldl record recorder).calls := by
  induction log generalizing recorder with
  | nil => exact List.prefix_rfl
  | cons entry rest ih =>
    refine List.IsPrefix.trans ?_ (ih (record recorder entry))
    cases entry with
    | Cycled result => exact List.prefix_append _ _
    | _ => exact List.prefix_rfl
theorem recordedCalls_mono {log later : List Entry} (grows : log <+: later) : recordedCalls log ⊆ recordedCalls later := by
  obtain ⟨more,rfl⟩ := grows
  rw [recordedCalls,recordedCalls,List.foldl_append]
  exact (record_grows _ more).subset

theorem Reported.recorded {invocation : ModelInvocation} {anchored_messages : Nat} {result : CycleEnd} {log : List Entry}
    (reported : Reported invocation anchored_messages result log) :
    ⟨invocation,some anchored_messages,cycleUsage result⟩ ∈ recordedCalls log := by
  obtain ⟨before,middle,rfl,others⟩ := reported
  have current : ∀ recorder : Recorder, (middle.foldl record recorder).current = recorder.current := by
    induction middle with
    | nil => exact fun _ => rfl
    | cons entry rest ih =>
      intro recorder
      rw [List.foldl_cons,ih fun one member => others one (List.mem_cons_of_mem _ member)]
      cases entry with
      | Called => exact absurd (others _ List.mem_cons_self) (by simp [isCall])
      | _ => rfl
  rw [recordedCalls,List.append_assoc,List.foldl_append,List.cons_append,List.foldl_cons,List.foldl_append]
  simp [record,current]

/-- The provider reported the tokens of the anchor for a call whose persisted
    messages are the first messages of the history. -/
def Valid [Blobs] (calls : List LlmCall) (history : List ProjectedMessage) (anchor : ContextUsageAnchor) : Prop :=
  ∃ call ∈ calls, call.context_input_tokens = some anchor.context_input_tokens ∧
    call.persisted = some ((history.take anchor.message_count).map hydrated)

/-- The newest call was made without a transient tail, and its messages are the
    beginning of the history. -/
def Current [Blobs] (calls : List LlmCall) (conversation_id : ConversationId) (base : List CanonicalMessage) : Prop :=
  ∀ call, newestCall calls conversation_id = some call → call.anchored_messages = some call.message_count ∧
    ∃ projected, project_messages base = .ok projected ∧ call.invocation.request.history <+: projected.map hydrated

section Runs
variable {Digest : Type} [DecidableEq Digest] [MessageHash Digest] [SerdeText] [Blobs] {prepared : PreparedRun}
variable {a b : Config Digest} {start : Start Digest}

/-- The messages that the anchor counts are the beginning of the history, and
    nothing that came later is grouped with them. -/
def Counted (calls : List LlmCall) (a : Config Digest) (anchor : ContextUsageAnchor) : Prop :=
  ∃ call ∈ calls ++ recordedCalls a.world.log, call.context_input_tokens = some anchor.context_input_tokens ∧
    ∃ persisted, call.persisted = some persisted ∧ persisted.length = anchor.message_count ∧
      ∃ loaded later projected, Sent a (projected.map hydrated) loaded later projected ∧ persisted <+: projected.map hydrated

structure Anchors (prepared : PreparedRun) (calls : List LlmCall) (a : Config Digest) : Prop where
  stored : RoundsKnown prepared a
  unread : a.control.checkpoint = none → a.control.read = none ∧ a.world.context_usage_anchor = none
  counted : a.control.flags.stale = false → ∀ anchor, a.world.context_usage_anchor = some anchor → Counted calls a anchor
  valid : ∀ before history anchor after, a.world.log = before ++ .Estimated history (some anchor) :: after →
    anchor.message_count ≤ history.length → Valid (calls ++ recordedCalls before) history anchor

theorem act_anchor (r : RunId) (w : World Digest) (action : Action) : (act r w action).context_usage_anchor = w.context_usage_anchor := by
  cases action with
  | submit_messages event_id messages should_break =>
    simp only [act]
    split_ifs
    · unfold submit_messages
      dsimp only
      split <;> rfl
    · rfl
  | tool_result result =>
    simp only [act,tool_result]
    split_ifs <;> rfl
  | cancel =>
    simp only [act]
    split_ifs <;> rfl
  | transaction op =>
    simp only [act]
    split_ifs <;> rfl
  | _ => rfl

variable {calls : List LlmCall} {anchor : ContextUsageAnchor}

theorem Counted.valid (counted : Counted calls a anchor)
    {history : List ProjectedMessage} (projects : project_messages a.history = .ok history) :
    Valid (calls ++ recordedCalls a.world.log) history anchor := by
  obtain ⟨call,member,tokens,persisted,isPersisted,count,loaded,later,projected,sent,starts⟩ := counted
  refine ⟨call,member,tokens,?_⟩
  rw [sent.history,project_append sent.isProjected sent.apart] at projects
  cases rest : project_messages later with
  | error error => simp [rest,Except.map] at projects
  | ok added =>
    simp only [rest,Except.map,Except.ok.injEq] at projects
    have within : persisted.length ≤ projected.length := by simpa using starts.length_le
    rw [isPersisted,← projects,← count,List.take_append_of_le_length within,List.map_take,← List.prefix_iff_eq_take.mp starts]

/-- The anchor stays; or the run starts with that of the newest call, reads the
    usage of its last call or drops the anchor. -/
inductive AnchorStep (prepared : PreparedRun) (a b : Config Digest) : Prop
  | same (anchor : b.world.context_usage_anchor = a.world.context_usage_anchor)
      (stale : b.control.flags.stale = false → a.control.flags.stale = false)
  | started (anchor : Option ContextUsageAnchor) (isAnchor : b.world.context_usage_anchor = anchor)
      (log : .Anchored anchor ∈ b.world.log) (closed : b.control.round = none)
      (base : b.history = load_checkpoint_messages b.world.store prepared.base_checkpoint_id)
      (reached : b.control.checkpoint ≠ none)
  | used (call : LlmCall) (projected : List ProjectedMessage) (member : call ∈ recordedCalls b.world.log)
      (anchor : ∀ anchor, b.world.context_usage_anchor = some anchor → a.world.context_usage_anchor = some anchor ∨
        (call.context_input_tokens = some anchor.context_input_tokens ∧ anchor.message_count = projected.length))
      (persisted : call.persisted = some (projected.map hydrated)) (projects : project_messages a.history = .ok projected)
      (history : b.history = a.history) (closed : b.control.round = none)
      (stale : b.control.flags.stale = a.control.flags.stale) (isRead : a.control.read ≠ none)
  | dropped (anchor : b.world.context_usage_anchor = none)

theorem step_anchor (step : Step prepared a b) (grounded : Grounded prepared a) : AnchorStep prepared a b := by
  cases step with
  | @act c w action => exact .same (act_anchor prepared.run_id w action) id
  | @anchored c w anchor first closed fresh =>
    exact .started anchor rfl (by simp [World.note]) closed (by simp only [Config.history,first]) (by simp [first])
  | @usage c w messages history invocation result usage closed loaded projected sent ended used =>
    refine .used ⟨invocation,some history.length,cycleUsage result⟩ history (Reported.recorded ended) ?_ ?_
      (grounded.read messages loaded ▸ projected) rfl closed rfl (by simp [loaded])
    · intro anchor isAnchor
      simp only [update_context_usage_anchor] at isAnchor
      split at isAnchor
      · next tokens isTokens =>
        simp only [Option.some.injEq] at isAnchor
        subst isAnchor
        exact .inr ⟨by simp [LlmCall.context_input_tokens,used,isTokens],rfl⟩
      · exact .inl isAnchor
    · simp only [LlmCall.persisted,Option.map_some,Option.some.injEq,sent,withTail]
      split_ifs <;>
      · rw [← @List.length_map _ _ history hydrated,user_terminated_take]
  | compacted => exact .dropped rfl
  | replace => exact .same rfl (by simp)
  | _ => exact .same rfl id

theorem step_estimate (step : Step prepared a b) (grounded : Grounded prepared a) {before after : List Entry}
    {history : List ProjectedMessage} (split : b.world.log = before ++ .Estimated history (some anchor) :: after) :
    (∃ earlier, a.world.log = before ++ .Estimated history (some anchor) :: earlier) ∨
      (a.world.log = before ∧ a.world.context_usage_anchor = some anchor ∧ a.control.flags.stale = false ∧
        project_messages a.history = .ok history) := by
  have other : ∀ {log : List Entry} {entry : Entry}, log ++ [entry] = before ++ .Estimated history (some anchor) :: after →
      (∀ projected one, entry ≠ .Estimated projected one) →
      ∃ earlier, log = before ++ .Estimated history (some anchor) :: earlier := by
    intro log entry grown different
    rcases split_snoc grown with ⟨_,_,same⟩ | ⟨earlier,_,shorter⟩
    · exact absurd same (different _ _)
    · exact ⟨earlier,shorter⟩
  cases step with
  | @act c w action =>
    rcases (act_acted prepared.run_id w action).log with same | ⟨entry,same,⟨result,rfl⟩ | ⟨batch,rfl⟩⟩
    · exact .inl ⟨after,same ▸ split⟩
    · exact .inl (other (same ▸ split) (by simp))
    · exact .inl (other (same ▸ split) (by simp))
  | internal | phase | receive | drain | load | usage | compacted | close_round => exact .inl ⟨after,split⟩
  | @plain c w entry plain =>
    refine .inl (other split ?_)
    rintro projected one rfl
    exact plain
  | @estimate c w messages projected loaded isProjected fresh =>
    rcases split_snoc split with ⟨_,same,isEntry⟩ | ⟨earlier,_,shorter⟩
    · simp only [Entry.Estimated.injEq] at isEntry
      exact .inr ⟨same,isEntry.2,fresh,isEntry.1 ▸ grounded.read messages loaded ▸ isProjected⟩
    · exact .inl ⟨earlier,shorter⟩
  | _ => exact .inl (other split (by simp))

theorem Counted.step (counted : Counted calls a anchor)
    (stored : RoundsKnown prepared a) (history : HistoryStep prepared a b) (grows : a.world.log <+: b.world.log)
    (fresh : b.control.flags.stale = false) (reached : a.control.checkpoint ≠ none) : Counted calls b anchor := by
  obtain ⟨call,member,tokens,persisted,isPersisted,count,loaded,later,projected,sent,starts⟩ := counted
  obtain ⟨later,sent⟩ := sent.step stored history (fun isStale => by rw [fresh] at isStale; cases isStale) reached
  refine ⟨call,?_,tokens,persisted,isPersisted,count,loaded,later,projected,sent,starts⟩
  exact (List.append_subset.mpr ⟨List.subset_append_left _ _,
    List.Subset.trans (recordedCalls_mono grows) (List.subset_append_right _ _)⟩) member

theorem Current.counted {base : List CanonicalMessage}
    (current : Current calls prepared.conversation_id base) (history : b.history = base) (closed : b.control.round = none)
    (isAnchor : latestContextUsage calls prepared.conversation_id = some anchor) : Counted calls b anchor := by
  obtain ⟨call,newest,isAnchor⟩ := Option.bind_eq_some_iff.mp isAnchor
  obtain ⟨tokens,isTokens,rfl⟩ := Option.map_eq_some_iff.mp isAnchor
  obtain ⟨untailed,projected,projects,starts⟩ := current call newest
  have member : call ∈ calls := List.mem_reverse.mp (List.mem_of_find?_eq_some newest)
  refine ⟨call,List.mem_append_left _ member,isTokens,call.invocation.request.history,?_,rfl,base,[],projected,?_,starts⟩
  · simp [LlmCall.persisted,untailed,LlmCall.message_count]
  · exact ⟨by rw [history,List.append_nil],projects,rfl,by simp,by simp [closed]⟩

theorem step_anchors {done : List MessageBatch} (step : Step prepared a b)
    (grounded : Grounded prepared a) (queue : Queue a done) (opened : a.control.round.isSome → a.control.checkpoint.isSome)
    (supplied : Supplied prepared start.store) (writes : Writes start.store b.world.store) (consistent : Consistent start.store)
    (spoken : ∀ batch, Entry.Accepted batch ∈ a.world.log → ∀ m ∈ batch.messages, Spoken m)
    (reads : ∀ anchor, .Anchored anchor ∈ b.world.log → anchor = latestContextUsage calls prepared.conversation_id)
    (current : Current calls prepared.conversation_id (baseHistory prepared start.store))
    (anchors : Anchors prepared calls a) : Anchors prepared calls b := by
  have history := step_history step grounded queue opened supplied.spoken spoken
  have stored := anchors.stored.step history (step_keepsCalls step grounded) (supplied.fresh_later writes consistent)
  have changes := step_anchor step grounded
  have unread := step_unread step fun none_ => (anchors.unread none_).1
  refine ⟨stored,?_,?_,?_⟩
  · intro none_
    obtain ⟨before,isUnread⟩ := unread none_
    refine ⟨isUnread,?_⟩
    cases changes with
    | same anchor => exact anchor.trans (anchors.unread before).2
    | started _ _ _ _ _ reached => exact absurd none_ reached
    | used call projected member anchor persisted projects sameHistory closed stale isRead =>
      exact absurd (anchors.unread before).1 isRead
    | dropped anchor => exact anchor
  · intro fresh anchor isAnchor
    have kept : a.control.flags.stale = false → a.world.context_usage_anchor = some anchor → Counted calls b anchor := by
      intro fresh' isAnchor'
      refine (anchors.counted fresh' anchor isAnchor').step anchors.stored history step.log fresh fun none_ => ?_
      rw [(anchors.unread none_).2] at isAnchor'
      cases isAnchor'
    cases changes with
    | same anchor' stale => exact kept (stale fresh) (anchor' ▸ isAnchor)
    | started started isStarted log closed base _ =>
      rw [isStarted] at isAnchor
      refine current.counted ?_ closed ((reads started log).symm.trans isAnchor)
      rw [base]
      exact supplied.base_stable writes consistent
    | used call projected member anchor' persisted projects sameHistory closed stale _ =>
      rcases anchor' anchor isAnchor with old | ⟨tokens,count⟩
      · exact kept (stale ▸ fresh) old
      · refine ⟨call,List.mem_append_right _ member,tokens,_,persisted,by simp [count],a.history,[],projected,?_,
          List.prefix_rfl⟩
        exact ⟨by rw [sameHistory,List.append_nil],projects,rfl,by simp,by simp [closed]⟩
    | dropped none_ =>
      rw [none_] at isAnchor
      cases isAnchor
  · intro before projected anchor after split within
    rcases step_estimate step grounded split with ⟨earlier,shorter⟩ | ⟨rfl,isAnchor,fresh,projects⟩
    · exact anchors.valid before projected anchor earlier shorter within
    · exact (anchors.counted fresh anchor isAnchor).valid projects

theorem reach_anchors (supplied : Supplied prepared start.store) (reach : Reach prepared start a)
    (spoken : ∀ batch, Entry.Accepted batch ∈ a.world.log → ∀ m ∈ batch.messages, Spoken m)
    (reads : ∀ anchor, .Anchored anchor ∈ a.world.log → anchor = latestContextUsage calls prepared.conversation_id)
    (current : Current calls prepared.conversation_id (baseHistory prepared start.store)) : Anchors prepared calls a := by
  have consistent : Consistent start.store := by
    obtain ⟨ops,same⟩ := start.reachable
    rw [same]
    exact replay_consistent ops
  induction reach with
  | refl => exact ⟨by simp [RoundsKnown,Config.history],fun _ => ⟨rfl,rfl⟩,by simp [initial],by simp [initial]⟩
  | @tail b c earlier step ih =>
    have grounded := Reach.grounded earlier
    have spoken := fun batch member => spoken batch (step.log.subset member)
    obtain ⟨done,queue⟩ := reach_queue earlier
    exact step_anchors step grounded queue (Reach.opened earlier) supplied
      ((Reach.writes earlier).trans (step.writes grounded)) consistent spoken reads current
      (ih spoken fun anchor member => reads anchor (step.log.subset member))

/-- Where the newest call of the conversation was made without a tail and its
    messages are still the beginning of the base, every estimate that starts
    from an anchor starts from what the provider counted for the first messages
    of the history. -/
theorem anchored_estimates_valid (ops : List Op) (script : List Move) (prepared : PreparedRun) (calls : List LlmCall)
    (supplied : Supplied prepared (replay ops : Tables Digest)) {result : Except Halt RunOutcome} {w : World Digest}
    (ran : runFrom (run prepared) (initial (replay ops) script) = (result,w))
    (spoken : ∀ batch, Entry.Accepted batch ∈ w.log → ∀ m ∈ batch.messages, Spoken m)
    (reads : ∀ anchor, .Anchored anchor ∈ w.log → anchor = latestContextUsage calls prepared.conversation_id)
    (current : Current calls prepared.conversation_id (baseHistory prepared (replay ops : Tables Digest)))
    (before after : List Entry) (history : List ProjectedMessage) (anchor : ContextUsageAnchor)
    (split : w.log = before ++ .Estimated history (some anchor) :: after) (within : anchor.message_count ≤ history.length) :
    Valid (calls ++ recordedCalls before) history anchor ∧
      estimated_tokens prepared.prompt history (some anchor) = saturating_add anchor.context_input_tokens
        (estimate_projected_messages_tokens (history.drop anchor.message_count)) := by
  refine ⟨?_,by simp [estimated_tokens,Option.filter,within]⟩
  obtain ⟨c,last,reach,ended,_⟩ :=
    @EngineSteps.run_reaches Digest _ _ _ _ prepared ⟨replay ops,script,ops,rfl⟩ result w ran
  rcases ended with rfl | ⟨outcome,rfl⟩
  · exact (reach_anchors supplied reach spoken reads current).valid before history anchor after split within
  · have anchors := reach_anchors supplied reach (fun batch member => spoken batch (List.mem_append_left _ member))
      (fun anchor member => reads anchor (List.mem_append_left _ member)) current
    rcases split_snoc split with ⟨_,_,same⟩ | ⟨earlier,_,shorter⟩
    · cases same
    · exact anchors.valid before history anchor earlier shorter within

end Runs

section Identity
local instance : MessageHash (List CanonicalMessage) := ⟨id⟩
-- Neither tools, tool calls nor images occur in the runs below, so nothing of these is used.
local instance : SerdeText := ⟨fun _ => "",fun _ => "",fun _ => ""⟩
local instance : Blobs := ⟨fun _ => .ok [],id⟩

def reported : Usage := ⟨some 100,some 100,some 5,some 105,none,none,none⟩
def answeredAndCounted (text : String) : Move := { choice := .Cycle (.ok ⟨"call",text,"",none,[],some reported,.Stop⟩) }
def storedOp : Entry → Option Op
  | .Stored op _ => some op
  | _ => none
def startAnchor : Entry → Option (Option ContextUsageAnchor)
  | .Anchored anchor => some anchor
  | _ => none
def estimate : Entry → Option (List ProjectedMessage × Option ContextUsageAnchor)
  | .Estimated history anchor => some (history,anchor)
  | _ => none

def first (prepared : PreparedRun) (base : List CanonicalMessage) : World (List CanonicalMessage) :=
  (runFrom (run prepared) (initial (replay [.import_checkpoint "c" base])
    [{},{ choice := .Anchor none },{},{},{},answeredAndCounted "more",{},{},{},{},ready,{},{},{}])).2
def firstCalls (prepared : PreparedRun) (base : List CanonicalMessage) : List LlmCall := recordedCalls (first prepared base).log
def firstOps (prepared : PreparedRun) (base : List CanonicalMessage) : List Op :=
  .import_checkpoint "c" base :: (first prepared base).log.filterMap storedOp
def again : PreparedRun :=
  { turn with run_id := "again", base_checkpoint_id := 3, initial_messages := [text "more" .User .User "go on"] }
/-- The next run of the conversation, up to its call of the provider. -/
def secondScript (prepared : PreparedRun) (base : List CanonicalMessage) : List Move :=
  [{},{ choice := .Anchor (latestContextUsage (firstCalls prepared base) "c") },{},{},ready,{},{},{},{}]
def second (prepared : PreparedRun) (base : List CanonicalMessage) : Except Halt RunOutcome × World (List CanonicalMessage) :=
  runFrom (run again) (initial (replay (firstOps prepared base)) (secondScript prepared base))
def resumed : PreparedRun := { turn with action := .Resume none }
def reply : CanonicalMessage := assistantMessage { turn with run_id := "earlier" } 0 ⟨"call","hello","",none,[],none,.Stop⟩

theorem second_estimate (prepared : PreparedRun) (base : List CanonicalMessage) (count : Nat) (anchor : ContextUsageAnchor)
    (isEstimate : (((second prepared base).2.log[4]?).bind estimate).map (fun one => (one.1.length,one.2)) = some (count,some anchor)) :
    ∃ history after, (second prepared base).2.log =
      (second prepared base).2.log.take 4 ++ .Estimated history (some anchor) :: after ∧ history.length = count := by
  obtain ⟨⟨history,one⟩,isOne,same⟩ := Option.map_eq_some_iff.mp isEstimate
  obtain ⟨rfl,rfl⟩ := Prod.mk.inj same
  obtain ⟨entry,isEntry,isOne⟩ := Option.bind_eq_some_iff.mp isOne
  obtain ⟨inside,isEntry⟩ := List.getElem?_eq_some_iff.mp isEntry
  have split := (List.take_append_drop 4 (second prepared base).2.log).symm
  rw [List.drop_eq_getElem_cons inside,isEntry] at split
  cases entry with
  | Estimated projected used =>
    obtain ⟨rfl,rfl⟩ := Prod.mk.inj (Option.some.inj isOne)
    exact ⟨projected,_,split,rfl⟩
  | _ => cases isOne

/-- The recorded number counts the instruction to go on, so the answer of the
    first run is neither counted nor estimated. -/
theorem tail_counted_as_persisted :
    ∃ before history anchor after, (second resumed [greeting,reply]).2.log = before ++ .Estimated history (some anchor) :: after ∧
      anchor.message_count ≤ history.length ∧
      ¬ Valid (firstCalls resumed [greeting,reply] ++ recordedCalls before) history anchor := by
  obtain ⟨history,after,split,count⟩ := second_estimate resumed [greeting,reply] 4 ⟨100,3⟩
    (by decide +kernel)
  refine ⟨_,history,⟨100,3⟩,after,split,by simp [count],?_⟩
  rintro ⟨call,member,_,persisted⟩
  have lengths : (firstCalls resumed [greeting,reply] ++ recordedCalls ((second resumed [greeting,reply]).2.log.take 4)).map
      (fun call => call.persisted.map (·.length)) = [some 2] := by
    decide +kernel
  have isLength : call.persisted.map (·.length) ∈ [some 2] := lengths ▸ List.mem_map_of_mem member
  rw [persisted] at isLength
  simp [count] at isLength

theorem supplied_again : Supplied again (replay (firstOps turn [greeting]) : Tables (List CanonicalMessage)) := by
  refine ⟨?_,?_,?_⟩
  · unfold Belongs
    decide +kernel
  · have none_ : (baseHistory again (replay (firstOps turn [greeting]) : Tables (List CanonicalMessage))).map roundStart =
        [none,none] := by
      decide +kernel
    intro m member id start
    have : roundStart m ∈ [none,none] := none_ ▸ List.mem_map_of_mem member
    simp [start] at this
  · intro m member
    rw [List.mem_singleton.mp member]
    exact ⟨_,rfl⟩

theorem current_again : Current (firstCalls turn [greeting]) again.conversation_id
    (baseHistory again (replay (firstOps turn [greeting]) : Tables (List CanonicalMessage))) := by
  intro call isNewest
  have newest : (newestCall (firstCalls turn [greeting]) again.conversation_id).map (fun call =>
      (call.anchored_messages,call.invocation.request.history)) = some (some 1,[⟨"user",.User,.Parts [.Text "hello"]⟩]) := by
    decide +kernel
  have projects : (project_messages (baseHistory again (replay (firstOps turn [greeting]) :
      Tables (List CanonicalMessage)))).toOption.map (·.map hydrated) =
        some [⟨"user",.User,.Parts [.Text "hello"]⟩,⟨"run:assistant:0",.Assistant,.Assistant "more" "" none []⟩] := by
    decide +kernel
  rw [isNewest,Option.map_some,Option.some.injEq,Prod.mk.injEq] at newest
  refine ⟨by simp [LlmCall.message_count,newest],?_⟩
  obtain ⟨projected,isProjected,same⟩ := Option.map_eq_some_iff.mp projects
  refine ⟨projected,?_,?_⟩
  · cases done : project_messages (baseHistory again (replay (firstOps turn [greeting]) : Tables (List CanonicalMessage))) with
    | ok value =>
      rw [done] at isProjected
      exact congrArg _ (Option.some.inj isProjected)
    | error error =>
      rw [done] at isProjected
      cases isProjected
  · rw [same,newest.2]
    exact ⟨_,rfl⟩

theorem anchored_estimates_valid_again :
    ∃ before history after, (second turn [greeting]).2.log = before ++ .Estimated history (some ⟨100,1⟩) :: after ∧
      Valid (firstCalls turn [greeting] ++ recordedCalls before) history ⟨100,1⟩ := by
  obtain ⟨history,after,split,count⟩ := second_estimate turn [greeting] 3 ⟨100,1⟩
    (by decide +kernel)
  refine ⟨_,history,after,split,?_⟩
  have isAccepted : accepted (second turn [greeting]).2.log = [] := by decide +kernel
  have isAnchored : (second turn [greeting]).2.log.filterMap startAnchor =
      [latestContextUsage (firstCalls turn [greeting]) again.conversation_id] := by
    decide +kernel
  have valid := anchored_estimates_valid (firstOps turn [greeting]) (secondScript turn [greeting]) again
    (firstCalls turn [greeting]) supplied_again (w := (second turn [greeting]).2) Prod.mk.eta.symm ?_ ?_ current_again
    _ after history ⟨100,1⟩ split (by simp [count])
  · exact valid.1
  · intro batch logged
    have member : batch ∈ accepted _ := List.mem_filterMap.mpr ⟨_,logged,rfl⟩
    rw [isAccepted] at member
    cases member
  · intro anchor logged
    have member : anchor ∈ (second turn [greeting]).2.log.filterMap startAnchor := List.mem_filterMap.mpr ⟨_,logged,rfl⟩
    rw [isAnchored] at member
    exact List.mem_singleton.mp member

end Identity

end MyCursor.UsageAnchor

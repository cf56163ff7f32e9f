import MyCursor.Engine
import MyCursor.StoreSteps

/-!
# The steps of a run

What a run does to the shared world, with the control state of the engine
made explicit: the checkpoint it has reached, the batches it holds and the
tool round it is in. The engine is shown to take only these steps; the
properties of whole runs are proved step by step.
-/
namespace MyCursor.RunSteps
open Message Store StoreSteps Projection Compaction Run
open Engine
set_option linter.unusedSectionVars false

variable {Digest : Type} [DecidableEq Digest] [MessageHash Digest]

theorem split_snoc {α : Type} {l before after : List α} {x y : α} (split : l ++ [x] = before ++ y :: after) :
    (after = [] ∧ l = before ∧ x = y) ∨ ∃ earlier, after = earlier ++ [x] ∧ l = before ++ y :: earlier := by
  rcases List.eq_nil_or_concat after with rfl | ⟨earlier,last,rfl⟩
  · obtain ⟨rfl,same⟩ := List.append_inj' split rfl
    exact .inl ⟨rfl,rfl,by simpa using same⟩
  · rw [List.concat_eq_append,← List.cons_append,← List.append_assoc] at split
    obtain ⟨rfl,same⟩ := List.append_inj' split rfl
    refine .inr ⟨earlier,?_,rfl⟩
    rw [List.concat_eq_append,same]

/-! ## Transactions of others -/

variable {expected parent base : Nat} {additions : List CanonicalMessage} {assistant : ToolRoundAssistant} {calls : List ToolCall}
variable {created_at_ms : Option Nat}

variable {c : ConversationId} {round_id : ToolRoundId} {op : Op} {reply : Reply}

structure Untouched (s after : Tables Digest) (r : RunId) : Prop where
  head : ∀ run, s.runs r = some run → ∃ run', after.runs r = some run' ∧ run'.head_checkpoint_id = run.head_checkpoint_id
  rounds : ∀ id round, s.tool_rounds id = some round → round.run_id = r → after.tool_rounds id = some round

variable {s after : Tables Digest} {r : RunId}

theorem Untouched.of_same (runs : after.runs r = s.runs r) (rounds : after.tool_rounds = s.tool_rounds) : Untouched s after r :=
  ⟨fun run found => ⟨run,by rw [runs,found],rfl⟩,fun id round found _ => by rw [rounds,found]⟩
theorem Untouched.trans {a b c : Tables Digest} (first : Untouched a b r) (second : Untouched b c r) : Untouched a c r := by
  refine ⟨?_,fun id round found own => second.rounds id round (first.rounds id round found own) own⟩
  intro run found
  obtain ⟨middle,found',same⟩ := first.head run found
  obtain ⟨last,found'',same'⟩ := second.head middle found'
  exact ⟨last,found'',same'.trans same⟩

theorem ensure_conversation_runs {id : Nat}
    (ensured : ensure_conversation_tx s c = .ok (id,after)) : after.runs = s.runs ∧ after.tool_rounds = s.tool_rounds := by
  unfold ensure_conversation_tx at ensured
  dsimp only at ensured
  split at ensured
  · simp only [Except.ok.injEq,Prod.mk.injEq] at ensured
    rw [← ensured.2]
    exact ⟨rfl,rfl⟩
  · obtain ⟨⟨root,middle⟩,inserted,done⟩ := bind_ok.mp ensured
    obtain ⟨_,_,rfl,rfl⟩ := insertCheckpointRow_ok inserted
    simp only [Except.ok.injEq,Prod.mk.injEq] at done
    rw [← done.2]
    exact ⟨rfl,rfl⟩

theorem Untouched.run (r' : RunId) {change : RunRow → RunRow}
    (keeps : ∀ run, (change run).head_checkpoint_id = run.head_checkpoint_id) : Untouched s (updateRun s r' change) r := by
  refine ⟨?_,fun _ _ found _ => found⟩
  intro run found
  by_cases same : r = r'
  · subst same
    exact ⟨change run,updateRun_self found change,keeps run⟩
  · exact ⟨run,by rw [updateRun_of_ne same,found],rfl⟩

theorem Appended.runs {id : Nat} (appended : Appended s c r expected parent additions id after) :
    after.tool_rounds = s.tool_rounds ∧ (∀ r', r' ≠ r → after.runs r' = s.runs r') ∧
      ∀ run, s.runs r = some run → ∃ run', after.runs r = some run' ∧ run'.head_checkpoint_id = id := by
  obtain ⟨middle,conversation,inserted,_,rfl⟩ := appended.written
  refine ⟨inserted.tool_rounds,?_,?_⟩
  · intro r' other
    rw [updateRun_of_ne other]
    exact congrFun inserted.runs r'
  · intro run found
    have found' : (setConversation middle c { conversation with current_checkpoint_id := some id }).runs r = some run :=
      (congrFun inserted.runs r).trans found
    exact ⟨_,updateRun_self found' _,rfl⟩

variable {r' : RunId}

theorem Appended.untouched {id : Nat} (appended : Appended s c r' expected parent additions id after) (other : r ≠ r') :
    Untouched s after r := by
  obtain ⟨rounds,runs,_⟩ := Appended.runs appended
  exact .of_same (runs r other) rounds

theorem claim_run_runs {prepared : RunClaim} {claimed : ClaimedRun} (done : claim_run s prepared = .ok (claimed,after)) :
    claimed.head_checkpoint_id = prepared.base_checkpoint_id ∧
      (∃ run, after.runs prepared.run_id = some run ∧ run.head_checkpoint_id = prepared.base_checkpoint_id) ∧
      ∀ r, r ≠ prepared.run_id → Untouched s after r := by
  obtain ⟨⟨current,middle⟩,ensured,rest⟩ := bind_ok.mp done
  obtain ⟨runs,rounds⟩ := ensure_conversation_runs ensured
  dsimp only at rest
  split_ifs at rest
  simp only [Except.ok.injEq,Prod.mk.injEq] at rest
  obtain ⟨rfl,rfl⟩ := rest
  refine ⟨rfl,⟨_,Function.update_self _ _ _,rfl⟩,?_⟩
  intro r other
  refine (Untouched.of_same (by rw [runs]) rounds).trans ?_
  have cancelled : ∀ replaced, Untouched middle (cancelReplaced middle prepared.run_id replaced) r := by
    intro replaced
    cases replaced with
    | none => exact .of_same rfl rfl
    | some replaced =>
      simp only [cancelReplaced]
      split_ifs
      · exact .of_same rfl rfl
      · refine .run _ fun run => ?_
        unfold cancelRunning
        split_ifs <;> rfl
  refine (cancelled _).trans (.of_same ?_ rfl)
  exact Function.update_of_ne other _ _

theorem begin_provider_call_untouched {index : Int} (done : begin_provider_call s r' = .ok (index,after)) : Untouched s after r := by
  unfold begin_provider_call at done
  split at done
  · cases done
  · split_ifs at done
    simp only [Except.ok.injEq,Prod.mk.injEq] at done
    rw [← done.2]
    exact .run r' fun _ => rfl

theorem finish_run_untouched (r : RunId) {status : RunStatus} {usage : Option Usage}
    {failure : Option (String × String)} {released : Bool} (done : finish_run s r' status usage failure = .ok (released,after)) :
    Untouched s after r ∧ after.tool_rounds = s.tool_rounds := by
  unfold finish_run at done
  cases found : s.runs r' with
  | none => simp [found] at done
  | some run =>
    simp only [found] at done
    -- Whatever is released afterwards, the run row changes by `ended` only.
    obtain ⟨ended,untouched,rounds,released⟩ : ∃ ended : Tables Digest, Untouched s ended r ∧ ended.tool_rounds = s.tool_rounds ∧
        (after = ended ∨ ∃ row, after = setConversation ended run.conversation_id row) := by
      by_cases running : run.status = .Running
      · simp only [running,if_true] at done
        split_ifs at done
        refine ⟨updateRun s r' fun run => { run with
          status := status, turn_usage := usage, failure_category := failure.map (·.1), failure_summary := failure.map (·.2) },
          .run r' fun _ => rfl,rfl,?_⟩
        split at done
        · split_ifs at done
          · exact .inr ⟨_,(Prod.mk.inj (Except.ok.inj done)).2.symm⟩
          · exact .inl (Prod.mk.inj (Except.ok.inj done)).2.symm
        · exact .inl (Prod.mk.inj (Except.ok.inj done)).2.symm
      · simp only [running,if_false] at done
        refine ⟨s,.of_same rfl rfl,rfl,?_⟩
        split at done
        · split_ifs at done
          · exact .inr ⟨_,(Prod.mk.inj (Except.ok.inj done)).2.symm⟩
          · exact .inl (Prod.mk.inj (Except.ok.inj done)).2.symm
        · exact .inl (Prod.mk.inj (Except.ok.inj done)).2.symm
    rcases released with rfl | ⟨row,rfl⟩
    · exact ⟨untouched,rounds⟩
    · exact ⟨untouched.trans (.of_same rfl rfl),rounds⟩

theorem create_tool_round_untouched
    (done : create_tool_round s round_id r' base assistant calls created_at_ms = .ok ((),after)) : Untouched s after r := by
  obtain ⟨_,_,unused,_,rfl⟩ := create_tool_round_ok done
  refine ⟨fun run found => ⟨run,found,rfl⟩,?_⟩
  intro id round found _
  have other : id ≠ round_id := by
    rintro rfl
    rw [unused] at found
    cases found
  exact (Function.update_of_ne other _ _).trans found

theorem transact_foreign (consistent : Consistent s)
    (foreign : engineOf op ≠ some r) (done : transact s op = .ok (reply,after)) : Untouched s after r := by
  have wf := consistent.wellFormed
  cases op with
  | ensure_conversation c =>
    obtain ⟨id,done,_⟩ := replyWith_ok done
    obtain ⟨runs,rounds⟩ := ensure_conversation_runs done
    exact .of_same (by rw [runs]) rounds
  | import_checkpoint c messages =>
    obtain ⟨id,done,_⟩ := replyWith_ok done
    obtain ⟨_,middle,ensured,_,⟨_,rfl⟩ | ⟨_,_,_,inserted⟩⟩ := import_checkpoint_ok wf done
    · obtain ⟨runs,rounds⟩ := ensure_conversation_runs ensured
      exact .of_same (by rw [runs]) rounds
    · obtain ⟨runs,rounds⟩ := ensure_conversation_runs ensured
      exact .of_same (by rw [inserted.runs,runs]) (by rw [inserted.tool_rounds,rounds])
  | claim_run prepared =>
    obtain ⟨claimed,done,_⟩ := replyWith_ok done
    exact (claim_run_runs done).2.2 r fun same => foreign (by rw [same]; rfl)
  | append_checkpoint c r' expected additions =>
    obtain ⟨id,done,_⟩ := replyWith_ok done
    rcases append_checkpoint_ok wf done with ⟨_,_,rfl⟩ | appended
    · exact .of_same rfl rfl
    · exact Appended.untouched appended fun same => foreign (by rw [same]; rfl)
  | append_message_once c r' expected m =>
    rw [transact] at done
    obtain ⟨⟨id,inserted⟩,done,_⟩ := replyWith_ok done
    rcases append_message_once_ok wf done with ⟨_,_,_,rfl⟩ | ⟨_,_,appended⟩
    · exact .of_same rfl rfl
    · exact Appended.untouched appended fun same => foreign (by rw [same]; rfl)
  | replace_checkpoint c r' expected messages =>
    obtain ⟨id,done,_⟩ := replyWith_ok done
    obtain ⟨_,_,appended⟩ := replace_checkpoint_ok wf done
    exact Appended.untouched appended fun same => foreign (by rw [same]; rfl)
  | create_tool_round round_id r' base assistant calls created_at_ms =>
    rw [transact] at done
    obtain ⟨_,done,_⟩ := replyWith_ok done
    exact create_tool_round_untouched done
  | commit_tool_result c r' round_id result =>
    obtain ⟨commit,done,_⟩ := replyWith_ok done
    obtain ⟨round,_,_,middle,committed⟩ := commit_tool_result_ok wf done
    have different : r ≠ r' := fun same => foreign (by rw [same]; rfl)
    rw [committed.after_eq]
    refine (Appended.untouched committed.appended different).trans ⟨fun run found => ⟨run,found,rfl⟩,?_⟩
    intro id round' found own
    have other : id ≠ round_id := by
      rintro rfl
      rw [(Appended.runs committed.appended).1,committed.isRound,Option.some.injEq] at found
      exact different (own.symm.trans (found ▸ committed.owner))
    exact (Function.update_of_ne other _ _).trans found
  | begin_provider_call r' =>
    obtain ⟨index,done,_⟩ := replyWith_ok done
    exact begin_provider_call_untouched done
  | finish_run r' status usage failure =>
    obtain ⟨released,done,_⟩ := replyWith_ok done
    exact (finish_run_untouched _ done).1

/-- A tool round whose results are being committed: the calls that have a
    committed result, those whose commit has been announced, and whether the
    client was told to execute the calls. -/
structure OpenRound where
  id : ToolRoundId
  calls : List ToolCall
  done : List String
  told : Option (List String)
  executed : Bool

/-- Whether the queue was empty after the run had closed it, whether the
    history was replaced and this is not announced yet, and whether it was
    replaced and the usage anchor is still the old one. -/
structure Flags where
  drained : Bool := false
  rewritten : Bool := false
  stale : Bool := false

/-- The checkpoint that the run has reached, what it last loaded there, the
    batches it has taken but not answered, the messages of the first of them
    that it has appended, and its open tool round. -/
structure Control where
  checkpoint : Option Nat := none
  read : Option (List CanonicalMessage) := none
  held : List MessageBatch := []
  applied : List CanonicalMessage := []
  round : Option OpenRound := none
  flags : Flags := {}

def Control.goTo (c : Control) (checkpoint : Nat) : Control := { c with checkpoint := some checkpoint, read := none }

structure Config (Digest : Type) where
  control : Control
  world : World Digest

def Config.history (a : Config Digest) : List CanonicalMessage :=
  match a.control.checkpoint with
  | none => []
  | some checkpoint => load_checkpoint_messages a.world.store checkpoint

def batchesOf : RunCommand → List MessageBatch
  | .InsertMessages batch | .BreakMessages batch => [batch]
  | .ToolResult _ | .Cancel => []

def Plain : Entry → Prop
  | .Emitted (.MessagesCommitted _) | .Emitted (.Ended _) | .Emitted (.ExecuteToolRound _ _) => False
  | .Emitted _ | .Called _ none | .Cycled _ => True
  | _ => False
def PlainCause : CommitCause → Prop
  | .InitialMessages | .FinalTurn | .Compaction _ | .RuntimeEvent _ => True
  | .ToolRoundStarted _ | .ToolResult _ _ => False
def isCompaction : CommitCause → Bool
  | .Compaction _ => true
  | _ => false
def OwnRound (run_id : RunId) (id : ToolRoundId) : Prop :=
  id = s!"{run_id}:round:resume" ∨ ∃ index : Int, id = s!"{run_id}:round:{index}"

/-- What `hydrate_tool_images` makes of a message when it succeeds. -/
def hydrated [Blobs] (message : ProjectedMessage) : ProjectedMessage :=
  match message.content with
  | .ToolResult result =>
    match result.image with
    | none => message
    | some image =>
      match Blobs.from_base64 image.blob_id with
      | .ok id => { message with content := providerParts result image (Blobs.content id) }
      | .error _ => message
  | _ => message

/-- A message of the batch was announced after the batch was accepted. -/
def Announced (batch : MessageBatch) (log : List Entry) : Prop :=
  ∃ before checkpoint event_id after,
    log = before ++ .Emitted (.MessagesCommitted ⟨checkpoint,0,.RuntimeEvent event_id,.BeforeContinue⟩) :: after ∧
    .Accepted batch ∈ before ∧ ∃ m ∈ batch.messages, m.runtime_event_id = some event_id

theorem Announced.mono {batch : MessageBatch} {log later : List Entry} (announced : Announced batch log)
    (grows : log <+: later) : Announced batch later := by
  obtain ⟨before,checkpoint,event_id,after,rfl,rest⟩ := announced
  obtain ⟨more,rfl⟩ := grows
  exact ⟨before,checkpoint,event_id,after ++ more,by simp,rest⟩

def isCall : Entry → Bool
  | .Called _ _ => true
  | _ => false
/-- The last call, for the conversation itself, has just ended with the result. -/
def Reported (invocation : ModelInvocation) (anchored_messages : Nat) (result : CycleEnd) (log : List Entry) : Prop :=
  ∃ before middle, log = before ++ .Called invocation (some anchored_messages) :: middle ++ [.Cycled result] ∧
    ∀ entry ∈ middle, isCall entry = false

def World.stored (w : World Digest) (op : Op) (reply : Reply) (store : Tables Digest) : World Digest :=
  { w with store := store, log := w.log ++ [.Stored op reply] }

/-- What a history is replaced with: a summary alone by a run that compacts the
    conversation, and else the request context that is retained of the history
    that was read, a summary and what the run started with. -/
inductive Replacement (prepared : PreparedRun) (read : Option (List CanonicalMessage)) : List CanonicalMessage → Prop where
  | summary (event_id summary : String) (compacts : prepared.action = .Compact) :
    Replacement prepared read [summaryMessage event_id summary]
  | compaction {loaded : List CanonicalMessage} (index : Int) (summary : String) (isRead : read = some loaded) :
    Replacement prepared read ((partition loaded (prepared.initial_messages.map (·.message_id))).2.toList ++
      [summaryMessage s!"summary:auto:{prepared.run_id}:{index}" summary] ++ prepared.initial_messages)

variable {messages : List CanonicalMessage}

variable {m : CanonicalMessage}

theorem retained_mem {ids : List String} (retained : m ∈ (partition messages ids).2.toList) : m ∈ messages := by
  simp only [partition,Option.mem_toList,Option.filter_eq_some_iff] at retained
  obtain ⟨index,_,found⟩ := Option.bind_eq_some_iff.mp retained.1
  exact List.mem_of_getElem? found
theorem Replacement.mem {prepared : PreparedRun} {read : Option (List CanonicalMessage)}
    (replacement : Replacement prepared read messages) (member : m ∈ messages) :
    (∃ parts, m.content = .Parts parts) ∨ m ∈ prepared.initial_messages ∨ ∃ loaded, read = some loaded ∧ m ∈ loaded := by
  cases replacement with
  | summary event_id summary compacts =>
    rw [List.mem_singleton.mp member]
    exact .inl ⟨_,rfl⟩
  | @compaction loaded index summary isRead =>
    simp only [List.mem_append,List.mem_singleton] at member
    rcases member with (retained | rfl) | own
    · exact .inr (.inr ⟨loaded,isRead,retained_mem retained⟩)
    · exact .inl ⟨_,rfl⟩
    · exact .inr (.inl own)

variable [Blobs] (prepared : PreparedRun)

inductive Step : Config Digest → Config Digest → Prop where
  /-- Another party acts. -/
  | act {c : Control} {w : World Digest} (action : Action) : Step ⟨c,w⟩ ⟨c,act prepared.run_id w action⟩
  | internal {c : Control} {w : World Digest} (script : List Move) (received : List (List Entry × Option RunCommand)) :
    Step ⟨c,w⟩ ⟨c,{ w with script := script, received := received }⟩
  | phase {c : Control} {w : World Digest} (phase : RunPhase) :
    Step ⟨c,w⟩ ⟨{ c with flags := { c.flags with drained := c.flags.drained && phase ≠ .Running } },{ w with phase := phase }⟩
  | receive {c : Control} {w : World Digest} {command : RunCommand} {rest : List RunCommand}
      (queued : w.commands = command :: rest) :
    Step ⟨c,w⟩ ⟨{ c with held := c.held ++ batchesOf command },{ w with commands := rest }⟩
  | drain {c : Control} {w : World Digest} (closed : w.phase ≠ .Running) (empty : w.commands = []) :
    Step ⟨c,w⟩ ⟨{ c with flags := { c.flags with drained := true } },w⟩
  | plain {c : Control} {w : World Digest} {entry : Entry} (plain : Plain entry) : Step ⟨c,w⟩ ⟨c,w.note entry⟩
  /-- A replaced history is announced as such, but in a run that compacts the
      conversation the batches in hand come first. -/
  | announce {c : Control} {w : World Digest} {state : MessagesCommitted} (closed : c.round = none)
      (reached : c.checkpoint = some state.checkpoint_id) (plain : PlainCause state.cause)
      (order : c.flags.rewritten = true → isCompaction state.cause = true ∨
        (prepared.action = .Compact ∧ ∃ event_id, state.cause = .RuntimeEvent event_id))
      (busy : ∀ event_id, state.cause = .RuntimeEvent event_id → c.applied ≠ []) :
    Step ⟨c,w⟩ ⟨{ c with flags := { c.flags with rewritten := c.flags.rewritten && !isCompaction state.cause } },
      w.note (.Emitted (.MessagesCommitted state))⟩
  | answer {c : Control} {w : World Digest} {batch : MessageBatch} {rest : List MessageBatch} {result : CommandResult}
      (first : c.held = batch :: rest) (whole : c.applied = batch.messages)
      (delivered : result = .Applied ∨ result = .Duplicate) (told : result = .Applied → Announced batch w.log) :
    Step ⟨c,w⟩ ⟨{ c with held := rest, applied := [] },w.note (.Answered batch.ticket result)⟩
  | load {c : Control} {w : World Digest} {checkpoint : Nat} (reached : c.checkpoint = some checkpoint) :
    Step ⟨c,w⟩ ⟨{ c with read := some (load_checkpoint_messages w.store checkpoint) },w⟩
  /-- The provider is called with what was loaded last. -/
  | call {c : Control} {w : World Digest} {messages : List CanonicalMessage} {history : List ProjectedMessage}
      {invocation : ModelInvocation} (closed : c.round = none) (loaded : c.read = some messages)
      (projected : project_messages messages = .ok history)
      (sent : invocation.request.history = withTail prepared (history.map hydrated)) :
    Step ⟨c,w⟩ ⟨c,w.note (.Called invocation (some history.length))⟩
  /-- The run starts with the newest usage of the conversation. -/
  | anchored {c : Control} {w : World Digest} (anchor : Option ContextUsageAnchor)
      (first : c.checkpoint = some prepared.base_checkpoint_id) (closed : c.round = none) (fresh : c.flags.stale = false) :
    Step ⟨c,w⟩ ⟨c,{ w with context_usage_anchor := anchor }.note (.Anchored anchor)⟩
  | estimate {c : Control} {w : World Digest} {messages : List CanonicalMessage} {history : List ProjectedMessage}
      (loaded : c.read = some messages) (projected : project_messages messages = .ok history)
      (fresh : c.flags.stale = false) :
    Step ⟨c,w⟩ ⟨c,w.note (.Estimated history w.context_usage_anchor)⟩
  /-- The provider reports the usage of the call that was made last. -/
  | usage {c : Control} {w : World Digest} {messages : List CanonicalMessage} {history : List ProjectedMessage}
      {invocation : ModelInvocation} {result : CycleEnd} {usage : Usage} (closed : c.round = none)
      (loaded : c.read = some messages) (projected : project_messages messages = .ok history)
      (sent : invocation.request.history = withTail prepared (history.map hydrated))
      (ended : Reported invocation history.length result w.log) (used : cycleUsage result = some usage) :
    Step ⟨c,w⟩ ⟨c,{ w with
      context_usage_anchor := update_context_usage_anchor w.context_usage_anchor usage history.length
      usage := accumulate_usage w.usage usage }⟩
  /-- After a compaction the anchor is gone. -/
  | compacted {c : Control} {w : World Digest} (usage : Option Usage) : Step ⟨c,w⟩ ⟨{ c with flags := { c.flags with stale := false } },
      { w with context_usage_anchor := none, usage := usage }⟩
  | provider_call {c : Control} {w : World Digest} {reply : Reply} {store : Tables Digest}
      (done : transact w.store (.begin_provider_call prepared.run_id) = .ok (reply,store)) :
    Step ⟨c,w⟩ ⟨c,World.stored w (.begin_provider_call prepared.run_id) reply store⟩
  | finish_run {c : Control} {w : World Digest} {status : RunStatus} {usage : Option Usage}
      {failure : Option (String × String)} {reply : Reply} {store : Tables Digest}
      (done : transact w.store (.finish_run prepared.run_id status usage failure) = .ok (reply,store)) :
    Step ⟨c,w⟩ ⟨c,World.stored w (.finish_run prepared.run_id status usage failure) reply store⟩
  | claim {c : Control} {w : World Digest} {claimed : ClaimedRun} {store : Tables Digest} (first : c.checkpoint = none)
      (closed : c.round = none)
      (done : transact w.store (.claim_run prepared.claim) = .ok (.Claimed claimed,store)) :
    Step ⟨c,w⟩ ⟨c.goTo claimed.head_checkpoint_id,World.stored w (.claim_run prepared.claim) (.Claimed claimed) store⟩
  | initial_message {c : Control} {w : World Digest} {checkpoint id : Nat} {m : CanonicalMessage} {inserted : Bool}
      {store : Tables Digest} (reached : c.checkpoint = some checkpoint) (closed : c.round = none)
      (settled : c.flags.rewritten = false) (member : m ∈ prepared.initial_messages)
      (done : transact w.store (.append_message_once prepared.conversation_id prepared.run_id checkpoint m) =
        .ok (.Appended id inserted,store)) :
    Step ⟨c,w⟩ ⟨c.goTo id,World.stored w (.append_message_once prepared.conversation_id prepared.run_id checkpoint m)
      (.Appended id inserted) store⟩
  /-- The next message of the first batch in hand is appended. -/
  | batch_message {c : Control} {w : World Digest} {checkpoint id : Nat} {batch : MessageBatch}
      {rest : List MessageBatch} {m : CanonicalMessage} {more : List CanonicalMessage} {inserted : Bool}
      {store : Tables Digest} (reached : c.checkpoint = some checkpoint) (closed : c.round = none)
      (settled : c.flags.rewritten = true → prepared.action = .Compact)
      (first : c.held = batch :: rest) (turn : batch.messages = c.applied ++ m :: more)
      (identified : m.runtime_event_id.isSome)
      (done : transact w.store (.append_message_once prepared.conversation_id prepared.run_id checkpoint m) =
        .ok (.Appended id inserted,store)) :
    Step ⟨c,w⟩ ⟨{ c.goTo id with applied := c.applied ++ [m] },
      World.stored w (.append_message_once prepared.conversation_id prepared.run_id checkpoint m)
        (.Appended id inserted) store⟩
  | assistant {c : Control} {w : World Digest} {checkpoint id : Nat} {index : Int} {cycle : ModelCycleResult}
      {store : Tables Digest} (reached : c.checkpoint = some checkpoint) (closed : c.round = none)
      (settled : c.flags.rewritten = false)
      (done : transact w.store (.append_checkpoint prepared.conversation_id prepared.run_id checkpoint
        [assistantMessage prepared index cycle]) = .ok (.Checkpoint id,store)) :
    Step ⟨c,w⟩ ⟨c.goTo id,World.stored w (.append_checkpoint prepared.conversation_id prepared.run_id checkpoint
      [assistantMessage prepared index cycle]) (.Checkpoint id) store⟩
  | replace {c : Control} {w : World Digest} {checkpoint id : Nat} {messages : List CanonicalMessage}
      {store : Tables Digest} (reached : c.checkpoint = some checkpoint) (closed : c.round = none)
      (between : c.applied = []) (settled : c.flags.rewritten = false)
      (replacement : Replacement prepared c.read messages)
      (done : transact w.store (.replace_checkpoint prepared.conversation_id prepared.run_id checkpoint messages) =
        .ok (.Checkpoint id,store)) :
    Step ⟨c,w⟩ ⟨{ c.goTo id with flags := { c.flags with rewritten := true, stale := true } },World.stored w
      (.replace_checkpoint prepared.conversation_id prepared.run_id checkpoint messages) (.Checkpoint id) store⟩
  | create_round {c : Control} {w : World Digest} {checkpoint : Nat} {id : ToolRoundId} {assistant : ToolRoundAssistant}
      {calls : List ToolCall} {created_at_ms : Option Nat} {reply : Reply} {store : Tables Digest}
      (reached : c.checkpoint = some checkpoint) (closed : c.round = none) (settled : c.flags.rewritten = false)
      (own : OwnRound prepared.run_id id)
      (done : transact w.store (.create_tool_round id prepared.run_id checkpoint assistant calls created_at_ms) = .ok (reply,store)) :
    Step ⟨c,w⟩ ⟨{ c with round := some ⟨id,calls,[],none,false⟩ },
      World.stored w (.create_tool_round id prepared.run_id checkpoint assistant calls created_at_ms) reply store⟩
  | announce_round {c : Control} {w : World Digest} {checkpoint : Nat} (round : OpenRound)
      (reached : c.checkpoint = some checkpoint) (opened : c.round = some round) (silent : round.told = none) :
    Step ⟨c,w⟩ ⟨{ c with round := some { round with told := some [] } },
      w.note (.Emitted (.MessagesCommitted ⟨checkpoint,0,.ToolRoundStarted round.id,.None⟩))⟩
  | execute_round {c : Control} {w : World Digest} (round : OpenRound) (opened : c.round = some round)
      (told : round.told = some []) (unexecuted : round.executed = false) :
    Step ⟨c,w⟩ ⟨{ c with round := some { round with executed := true } },
      w.note (.Emitted (.ExecuteToolRound round.id round.calls))⟩
  /-- Every commit so far has been announced. -/
  | commit_result {c : Control} {w : World Digest} (round : OpenRound) {result : ToolResult} {commit : ToolCommit}
      {store : Tables Digest} (opened : c.round = some round) (told : round.told = some round.done)
      (executed : round.executed = true)
      (done : transact w.store (.commit_tool_result prepared.conversation_id prepared.run_id round.id result) =
        .ok (.Committed commit,store)) :
    Step ⟨c,w⟩ ⟨{ c.goTo commit.checkpoint_id with round := some { round with done := round.done ++ [result.call_id] } },
      World.stored w (.commit_tool_result prepared.conversation_id prepared.run_id round.id result)
        (.Committed commit) store⟩
  /-- The client is waited for exactly when no call is left. -/
  | announce_result {c : Control} {w : World Digest} (round : OpenRound) {told : List String} {state : MessagesCommitted}
      {call_id : String} {interrupted : Bool} (opened : c.round = some round) (before : round.told = some told)
      (next : round.done = told ++ [call_id]) (reached : c.checkpoint = some state.checkpoint_id)
      (cause : state.cause = .ToolResult call_id interrupted)
      (barrier : state.barrier.is_required = true ↔ round.done.length = round.calls.length) :
    Step ⟨c,w⟩ ⟨{ c with round := some { round with told := some round.done } },
      w.note (.Emitted (.MessagesCommitted state))⟩
  | close_round {c : Control} {w : World Digest} (round : OpenRound) (opened : c.round = some round)
      (told : round.told = some round.done) (all : round.done.length = round.calls.length) :
    Step ⟨c,w⟩ ⟨{ c with round := none },w⟩

/-- A reachable store and what is to happen from there on. -/
structure Start (Digest : Type) [DecidableEq Digest] [MessageHash Digest] where
  store : Tables Digest
  script : List Move
  reachable : ∃ ops, store = replay ops

def Reach (start : Start Digest) (a : Config Digest) : Prop :=
  Relation.ReflTransGen (Step prepared) ⟨{},initial start.store start.script⟩ a

/-! ## What every step keeps -/

variable {result : ToolResult} {commit : ToolCommit} {inserted : Bool}

variable {checkpoint : Nat}

/-- The stored round is the run's own, and its completed calls are those that
    the engine has committed. -/
structure RoundOpen (s : Tables Digest) (run_id : RunId) (round : OpenRound) : Prop where
  row : ∃ row, s.tool_rounds round.id = some row ∧ row.run_id = run_id ∧ row.calls.map (·.call_id) = round.calls.map (·.call_id) ∧
    ∀ call ∈ row.calls, call.status = .Completed ↔ call.call_id ∈ round.done
  some_call : round.calls ≠ []
  distinct : (round.calls.map (·.call_id)).Nodup
  once : round.done.Nodup
  own : round.done ⊆ round.calls.map (·.call_id)

theorem RoundOpen.all_iff {run_id : RunId} {round : OpenRound} (opened : RoundOpen s run_id round) :
    round.done.length = round.calls.length ↔ round.calls.map (·.call_id) ⊆ round.done := by
  constructor
  · intro same
    have perm := (List.subperm_of_subset opened.once opened.own).perm_of_length_le (by simp [same])
    exact perm.symm.subset
  · intro all
    have upper := (List.subperm_of_subset opened.once opened.own).length_le
    have lower := (List.subperm_of_subset opened.distinct all).length_le
    simp only [List.length_map] at upper lower
    omega

theorem RoundOpen.created {run_id : RunId}
    (done : create_tool_round s round_id run_id base assistant calls created_at_ms = .ok ((),after)) :
    RoundOpen after run_id ⟨round_id,calls,[],none,false⟩ := by
  obtain ⟨some_call,_,_,distinct,rfl⟩ := create_tool_round_ok done
  refine ⟨⟨_,Function.update_self _ _ _,rfl,by simp [pendingCall],?_⟩,some_call,distinct,List.nodup_nil,by simp⟩
  intro call member
  obtain ⟨_,_,rfl⟩ := List.mem_map.mp member
  simp [pendingCall]

theorem setToolRound_self (s : Tables Digest) (id : ToolRoundId) (row : ToolRoundRow) :
    (setToolRound s id row).tool_rounds id = some row := Function.update_self _ _ _

theorem completeCall_id (seq : Nat) (result : ToolResult) (checkpoint : Nat) (call : ToolRoundCallRow) :
    (completeCall seq result checkpoint call).call_id = call.call_id := by
  unfold completeCall
  split_ifs <;> rfl
theorem completeCall_status (seq : Nat) (result : ToolResult) (checkpoint : Nat) (call : ToolRoundCallRow) :
    (completeCall seq result checkpoint call).status = .Completed ↔ call.status = .Completed ∨ call.call_id = result.call_id := by
  unfold completeCall
  split_ifs with matches_
  · simp [matches_.1]
  · cases status : call.status with
    | Completed => simp
    | Pending => simp_all

theorem Committed.opened {middle : Tables Digest} (round : OpenRound) {row : ToolRoundRow} {call : ToolRoundCallRow} {head : Nat}
    (committed : Committed s c r round.id result row call head commit middle after) (opened : RoundOpen s r round) :
    RoundOpen after r { round with done := round.done ++ [result.call_id] } ∧
      (commit.settled = true ↔ (round.done ++ [result.call_id]).length = round.calls.length) := by
  obtain ⟨row',found,owner,ids,completed⟩ := opened.row
  rw [committed.isRound,Option.some.injEq] at found
  subst found
  have isCall := List.mem_of_find?_eq_some committed.isCall
  have named : call.call_id = result.call_id := by simpa using List.find?_some committed.isCall
  have absent : result.call_id ∉ round.done := by
    intro present
    have := (completed call isCall).mpr (named ▸ present)
    rw [committed.callPending] at this
    cases this
  have member : result.call_id ∈ round.calls.map (·.call_id) := by
    rw [← ids,← named]
    exact List.mem_map_of_mem isCall
  have isAfter : after.tool_rounds round.id = some (completeRound row result commit.checkpoint_id) := by
    rw [committed.after_eq]
    exact setToolRound_self middle round.id _
  have after_opened : RoundOpen after r { round with done := round.done ++ [result.call_id] } := by
    refine ⟨⟨_,isAfter,owner,?_,?_⟩,opened.some_call,opened.distinct,?_,?_⟩
    · rw [← ids]
      simp [completeRound,completeCall_id]
    · intro call' later
      simp only [completeRound,List.mem_map] at later
      obtain ⟨old,oldMember,rfl⟩ := later
      rw [completeCall_status,completeCall_id,completed old oldMember]
      simp
    · rw [List.nodup_append]
      refine ⟨opened.once,by simp,?_⟩
      intro a aMember b bMember
      rw [List.mem_singleton] at bMember
      subst bMember
      rintro rfl
      exact absent aMember
    · intro id isDone
      rcases List.mem_append.mp isDone with old | new
      · exact opened.own old
      · rw [List.mem_singleton] at new
        exact new ▸ member
  refine ⟨after_opened,?_⟩
  rw [after_opened.all_iff]
  obtain ⟨row',found',_,ids',completed'⟩ := after_opened.row
  have same : row' = completeRound row result commit.checkpoint_id := Option.some.inj (found'.symm.trans isAfter)
  have flag : commit.settled = decide ((completeRound row result commit.checkpoint_id).status = .Settled) :=
    congrArg ToolCommit.settled committed.commit_eq
  have settled : commit.settled = true ↔ ∀ call ∈ row'.calls, call.status = .Completed := by
    rw [flag,decide_eq_true_eq,same]
    simp only [completeRound]
    split_ifs with none_pending
    · simp only [true_iff]
      intro call' later
      have := List.countP_eq_zero.mp none_pending call' later
      cases status : call'.status with
      | Completed => rfl
      | Pending => simp [isPending,status] at this
    · simp only [false_iff]
      intro all
      refine none_pending (List.countP_eq_zero.mpr ?_)
      intro call' later
      simp [isPending,all call' later]
  rw [settled]
  constructor
  · intro all id isId
    rw [← ids'] at isId
    obtain ⟨call',later,rfl⟩ := List.mem_map.mp isId
    exact (completed' call' later).mp (all call' later)
  · intro all call' later
    exact (completed' call' later).mpr (all (by rw [← ids']; exact List.mem_map_of_mem later))

/-- The store is a reachable one, the run's checkpoint is the head of its row,
    what was read is still what that checkpoint loads to, and an open round is
    the stored one. -/
structure Grounded (a : Config Digest) : Prop where
  reachable : ∃ ops, a.world.store = replay ops
  head : ∀ checkpoint, a.control.checkpoint = some checkpoint → Belongs a.world.store prepared.conversation_id checkpoint ∧
      ∃ run, a.world.store.runs prepared.run_id = some run ∧ run.head_checkpoint_id = checkpoint
  read : ∀ messages, a.control.read = some messages → messages = a.history
  round : ∀ round, a.control.round = some round → RoundOpen a.world.store prepared.run_id round

theorem step_of_ok (done : transact s op = .ok (reply,after)) : step s op = after := by
  simp only [step,done]
theorem replay_snoc (ops : List Op) (op : Op) : (replay (ops ++ [op]) : Tables Digest) = step (replay ops) op := by
  simp [replay]

variable {prepared} {a b : Config Digest}

theorem Grounded.consistent (grounded : Grounded prepared a) : Consistent a.world.store := by
  obtain ⟨ops,same⟩ := grounded.reachable
  rw [same]
  exact replay_consistent ops

theorem Grounded.step_reachable (grounded : Grounded prepared a) (op : Op) :
    ∃ ops, step a.world.store op = (replay ops : Tables Digest) := by
  obtain ⟨ops,same⟩ := grounded.reachable
  exact ⟨ops ++ [op],by rw [replay_snoc,same]⟩

variable {store : Tables Digest}

section
variable (grounded : Grounded prepared a)
include grounded

theorem Grounded.ok_reachable (done : transact a.world.store op = .ok (reply,store)) : ∃ ops, store = replay ops := by
  rw [← step_of_ok done]
  exact grounded.step_reachable op

theorem Grounded.load_stable (writes : Writes a.world.store after) (belongs : Belongs a.world.store prepared.conversation_id checkpoint) :
    load_checkpoint_messages after checkpoint = load_checkpoint_messages a.world.store checkpoint := by
  have wf := grounded.consistent.wellFormed
  obtain ⟨row,member,named,_⟩ := belongs
  exact wf.toForest.load_stable (Writes.extends_ writes wf) checkpoint ⟨row,member,named⟩
theorem Grounded.history_stable (writes : Writes a.world.store b.world.store)
    (same : b.control.checkpoint = a.control.checkpoint) : b.history = a.history := by
  unfold Config.history
  rw [same]
  cases reached : a.control.checkpoint with
  | none => rfl
  | some checkpoint => exact grounded.load_stable writes (grounded.head checkpoint reached).1

theorem Grounded.keep (writes : Writes a.world.store b.world.store)
    (reachable : ∃ ops, b.world.store = replay ops) (untouched : Untouched a.world.store b.world.store prepared.run_id)
    (checkpoint : b.control.checkpoint = a.control.checkpoint)
    (read : b.control.read = a.control.read ∨ b.control.read = none)
    (round : ∀ round, b.control.round = some round → ∃ told executed,
      a.control.round = some { round with told := told, executed := executed }) :
    Grounded prepared b := by
  have wf := grounded.consistent.wellFormed
  refine ⟨reachable,?_,?_,?_⟩
  · intro reached isReached
    obtain ⟨belongs,run,found,isHead⟩ := grounded.head reached (checkpoint ▸ isReached)
    obtain ⟨run',found',same⟩ := untouched.head run found
    exact ⟨(Writes.extends_ writes wf).belongs belongs,run',found',same.trans isHead⟩
  · intro messages isRead
    rw [grounded.history_stable writes checkpoint]
    rcases read with same | gone
    · exact grounded.read messages (same ▸ isRead)
    · rw [gone] at isRead
      cases isRead
  · intro opened isOpen
    obtain ⟨told,executed,earlier⟩ := round opened isOpen
    obtain ⟨⟨row,found,owner,facts⟩,some_call,distinct,once,own⟩ := grounded.round _ earlier
    exact ⟨⟨row,untouched.rounds _ row found owner,owner,facts⟩,some_call,distinct,once,own⟩

theorem Grounded.same_store (store : b.world.store = a.world.store)
    (checkpoint : b.control.checkpoint = a.control.checkpoint) (read : b.control.read = a.control.read)
    (round : ∀ round, b.control.round = some round → ∃ told executed,
      a.control.round = some { round with told := told, executed := executed }) :
    Grounded prepared b := by
  refine grounded.keep ?_ ?_ ?_ checkpoint (.inl read) round
  · rw [store]
    exact Relation.ReflTransGen.refl
  · rw [store]
    exact grounded.reachable
  · exact .of_same (by rw [store]) (by rw [store])

theorem Grounded.moved {id : Nat}
    (appended : Appended a.world.store prepared.conversation_id prepared.run_id expected parent additions id after)
    (reached : a.control.checkpoint.isSome) (store : b.world.store = after) (reachable : ∃ ops, after = replay ops)
    (checkpoint : b.control.checkpoint = some id) (read : b.control.read = none) (closed : b.control.round = none) :
    Grounded prepared b := by
  obtain ⟨current,isReached⟩ := Option.isSome_iff_exists.mp reached
  obtain ⟨_,run,found,_⟩ := grounded.head current isReached
  refine ⟨by rw [store]; exact reachable,?_,by simp [read],by simp [closed]⟩
  intro id' isId
  rw [checkpoint,Option.some.injEq] at isId
  subst isId
  rw [store]
  obtain ⟨_,_,heads⟩ := Appended.runs appended
  refine ⟨?_,heads run found⟩
  obtain ⟨middle,conversation,inserted,_,rfl⟩ := appended.written
  exact inserted.belongs

end

/-- What an action of another party can do: it queues a batch under the next
    ticket while the run is running, or no batch at all. -/
structure Acted (r : RunId) (w after : World Digest) : Prop where
  phase : after.phase = w.phase
  store : after.store = w.store ∨ ∃ op, engineOf op ≠ some r ∧ after.store = step w.store op
  batches : (∃ batch : MessageBatch, w.phase = .Running ∧ batch.ticket = w.tickets ∧ after.tickets = w.tickets + 1 ∧
      after.commands.flatMap batchesOf = w.commands.flatMap batchesOf ++ [batch] ∧
      after.log = w.log ++ [.Accepted batch]) ∨
    (after.tickets = w.tickets ∧ after.commands.flatMap batchesOf = w.commands.flatMap batchesOf ∧
      (after.log = w.log ∨ ∃ result, after.log = w.log ++ [.Refused result]))

variable {w : World Digest}

variable {after : World Digest}

theorem Acted.of_same (phase : after.phase = w.phase) (store : after.store = w.store) (tickets : after.tickets = w.tickets)
    (commands : after.commands.flatMap batchesOf = w.commands.flatMap batchesOf) (log : after.log = w.log) :
    Acted r w after :=
  ⟨phase,.inl store,.inr ⟨tickets,commands,.inl log⟩⟩

theorem submit_messages_acted (r : RunId) (w : World Digest) (event_id : String) (messages : List CanonicalMessage)
    (should_break : Bool) : Acted r w (submit_messages w event_id messages should_break) := by
  simp only [submit_messages]
  cases phase : w.phase with
  | Running =>
    refine ⟨rfl,.inl rfl,.inl ⟨⟨w.tickets,event_id,messages⟩,phase,rfl,rfl,?_,rfl⟩⟩
    cases should_break <;> simp [World.note,World.send,batchesOf]
  | Finalizing => exact ⟨rfl,.inl rfl,.inr ⟨rfl,rfl,.inr ⟨_,rfl⟩⟩⟩
  | Ended => exact ⟨rfl,.inl rfl,.inr ⟨rfl,rfl,.inr ⟨_,rfl⟩⟩⟩

theorem act_acted (r : RunId) (w : World Digest) (action : Action) : Acted r w (act r w action) := by
  have unchanged : Acted r w w := .of_same rfl rfl rfl rfl rfl
  cases action with
  | submit_messages event_id messages should_break =>
    simp only [act]
    split_ifs
    · exact submit_messages_acted r w event_id messages should_break
    · exact unchanged
  | tool_result result =>
    simp only [act,tool_result]
    split_ifs
    · exact .of_same rfl rfl rfl (by simp [World.send,batchesOf]) rfl
    · exact unchanged
    · exact unchanged
  | cancel =>
    simp only [act]
    split_ifs
    · exact .of_same rfl rfl rfl (by simp [cancel,World.send,batchesOf]) rfl
    · exact unchanged
  | cancelToken | dropSession | dropHandles => exact .of_same rfl rfl rfl rfl rfl
  | transaction op =>
    simp only [act]
    split_ifs with own
    · exact unchanged
    · exact ⟨rfl,.inr ⟨op,own,rfl⟩,.inr ⟨rfl,rfl,.inl rfl⟩⟩

theorem Acted.log (acted : Acted r w after) : after.log = w.log ∨ ∃ entry, after.log = w.log ++ [entry] ∧
      ((∃ result, entry = .Refused result) ∨ ∃ batch, entry = .Accepted batch) := by
  rcases acted.batches with ⟨batch,_,_,_,_,log⟩ | ⟨_,_,log | ⟨result,log⟩⟩
  · exact .inr ⟨_,log,.inr ⟨batch,rfl⟩⟩
  · exact .inl log
  · exact .inr ⟨_,log,.inl ⟨result,rfl⟩⟩
theorem Acted.filterMap {α : Type} (acted : Acted r w after) {f : Entry → Option α}
    (refused : ∀ result, f (.Refused result) = none) (accepted : ∀ batch, f (.Accepted batch) = none) :
    after.log.filterMap f = w.log.filterMap f := by
  rcases acted.log with same | ⟨entry,same,⟨result,rfl⟩ | ⟨batch,rfl⟩⟩
  · rw [same]
  · simp [same,refused]
  · simp [same,accepted]

theorem step_foreign (consistent : Consistent s) (foreign : engineOf op ≠ some r) : Untouched s (step s op) r := by
  unfold step
  cases done : transact s op with
  | error e => exact .of_same rfl rfl
  | ok result => exact transact_foreign consistent foreign done

theorem act_writes (same : w.store = s) (consistent : Consistent s) (r : RunId) (action : Action) : Writes s (act r w action).store := by
  rcases (act_acted r w action).store with same' | ⟨op,_,same'⟩
  · rw [same',same]
    exact Relation.ReflTransGen.refl
  · rw [same',same]
    exact step_writes consistent op

theorem transact_once (wf : WellFormed s) {id : Nat}
    (done : transact s (.append_message_once c r checkpoint m) = .ok (.Appended id inserted,store)) :
    (m ∈ load_checkpoint_messages s checkpoint ∧ id = checkpoint ∧ inserted = false ∧ store = s) ∨
      ((∀ stored ∈ load_checkpoint_messages s checkpoint, ¬ sameIdentity m stored) ∧ inserted = true ∧
        Appended s c r checkpoint checkpoint [m] id store) := by
  rw [transact] at done
  obtain ⟨⟨id',inserted'⟩,done,same⟩ := replyWith_ok done
  simp only [Reply.Appended.injEq] at same
  obtain ⟨rfl,rfl⟩ := same
  exact append_message_once_ok wf done

theorem Grounded.once (grounded : Grounded prepared a) {id : Nat} (reached : a.control.checkpoint = some checkpoint)
    (done : transact a.world.store (.append_message_once prepared.conversation_id prepared.run_id checkpoint m) =
      .ok (.Appended id inserted,store))
    (isStore : b.world.store = store) (isId : b.control.checkpoint = some id) (read : b.control.read = none)
    (closed : b.control.round = none) : Grounded prepared b := by
  have reachable := grounded.ok_reachable done
  rcases transact_once grounded.consistent.wellFormed done with ⟨_,rfl,_,rfl⟩ | ⟨_,_,appended⟩
  · refine grounded.keep ?_ (by rw [isStore]; exact reachable) ?_ (isId.trans reached.symm) (.inr read) (by simp [closed])
    · rw [isStore]
      exact Relation.ReflTransGen.refl
    · exact .of_same (by rw [isStore]) (by rw [isStore])
  · exact grounded.moved appended (by simp [reached]) isStore reachable isId read closed

theorem transact_append (wf : WellFormed s) {id : Nat}
    (done : transact s (.append_checkpoint c r checkpoint [m]) = .ok (.Checkpoint id,store)) :
    Appended s c r checkpoint checkpoint [m] id store := by
  obtain ⟨id',done,same⟩ := replyWith_ok done
  simp only [Reply.Checkpoint.injEq] at same
  subst same
  rcases append_checkpoint_ok wf done with ⟨empty,_⟩ | appended
  · cases empty
  · exact appended
theorem transact_replace (wf : WellFormed s) {id : Nat}
    (done : transact s (.replace_checkpoint c r checkpoint messages) = .ok (.Checkpoint id,store)) :
    ∃ root, rootCheckpoint s c = some root ∧ Appended s c r checkpoint root messages id store := by
  obtain ⟨id',done,same⟩ := replyWith_ok done
  simp only [Reply.Checkpoint.injEq] at same
  subst same
  exact replace_checkpoint_ok wf done
theorem transact_create (done : transact s (.create_tool_round round_id r base assistant calls created_at_ms) = .ok (reply,store)) :
    reply = .Created ∧ create_tool_round s round_id r base assistant calls created_at_ms = .ok ((),store) := by
  rw [transact] at done
  obtain ⟨_,done,same⟩ := replyWith_ok done
  exact ⟨same,done⟩
theorem transact_commit (wf : WellFormed s)
    (done : transact s (.commit_tool_result c r round_id result) = .ok (.Committed commit,store)) :
    ∃ row call head middle, Committed s c r round_id result row call head commit middle store := by
  obtain ⟨commit',done,same⟩ := replyWith_ok done
  simp only [Reply.Committed.injEq] at same
  subst same
  exact commit_tool_result_ok wf done

theorem Step.grounded (step : Step prepared a b) (grounded : Grounded prepared a) : Grounded prepared b := by
  have wf := grounded.consistent.wellFormed
  cases step with
  | @act c w action =>
    have writes : Writes w.store (Run.act prepared.run_id w action).store :=
      act_writes rfl grounded.consistent prepared.run_id action
    refine grounded.keep writes ?_ ?_ rfl (.inl rfl) fun round opened => ⟨round.told,round.executed,opened⟩
    · rcases (act_acted prepared.run_id w action).store with same | ⟨op,_,same⟩
      · exact same ▸ grounded.reachable
      · exact same ▸ grounded.step_reachable op
    · rcases (act_acted prepared.run_id w action).store with same | ⟨op,foreign,same⟩
      · exact .of_same (by rw [same]) (by rw [same])
      · exact same ▸ step_foreign grounded.consistent foreign
  | internal | phase | receive | drain | plain | announce | call | answer | anchored | estimate | usage | compacted =>
    exact grounded.same_store rfl rfl rfl fun round opened => ⟨round.told,round.executed,opened⟩
  | @load c w checkpoint reached =>
    refine ⟨grounded.reachable,grounded.head,?_,grounded.round⟩
    intro messages isRead
    simp only [Option.some.injEq] at isRead
    simp only [Config.history,reached]
    exact isRead.symm
  | provider_call done =>
    refine grounded.keep (transact_writes grounded.consistent done) (grounded.ok_reachable done) ?_ rfl (.inl rfl)
      fun round opened => ⟨round.told,round.executed,opened⟩
    obtain ⟨index,done,_⟩ := replyWith_ok done
    exact begin_provider_call_untouched done
  | finish_run done =>
    refine grounded.keep (transact_writes grounded.consistent done) (grounded.ok_reachable done) ?_ rfl (.inl rfl)
      fun round opened => ⟨round.told,round.executed,opened⟩
    obtain ⟨released,done,_⟩ := replyWith_ok done
    exact (finish_run_untouched _ done).1
  | @claim c w claimed store first closed done =>
    have reachable := grounded.ok_reachable done
    obtain ⟨value,done,same⟩ := replyWith_ok done
    simp only [Reply.Claimed.injEq] at same
    subst same
    obtain ⟨isBase,⟨run,found,isHead⟩,_⟩ := claim_run_runs done
    obtain ⟨current,middle,_,_,_,belongs,_,checkpoints,_⟩ := claim_run_ok wf done
    refine ⟨reachable,?_,by simp [Control.goTo],?_⟩
    · intro checkpoint isCheckpoint
      simp only [Control.goTo,Option.some.injEq] at isCheckpoint
      rw [← isCheckpoint,isBase]
      refine ⟨?_,run,found,isHead⟩
      simp only [World.stored,Belongs,checkpoints]
      exact belongs
    · simp [Control.goTo,closed]
  | @initial_message c w checkpoint id m inserted store reached closed settled member done =>
    exact grounded.once reached done rfl rfl rfl closed
  | @batch_message c w checkpoint id batch rest m more inserted store reached closed settled first turn identified done =>
    exact grounded.once reached done rfl rfl rfl closed
  | @assistant c w checkpoint id index cycle store reached closed settled done =>
    exact grounded.moved (transact_append wf done) (by simp [reached]) rfl (grounded.ok_reachable done) rfl rfl closed
  | @replace c w checkpoint id messages store reached closed between settled replacement done =>
    obtain ⟨_,_,appended⟩ := transact_replace wf done
    exact grounded.moved appended (by simp [reached]) rfl (grounded.ok_reachable done) rfl rfl closed
  | @create_round c w checkpoint id assistant calls created_at_ms reply store reached closed settled own done =>
    have created := (transact_create done).2
    have keep : Grounded prepared ⟨c,World.stored w (.create_tool_round id prepared.run_id checkpoint assistant calls
        created_at_ms) reply store⟩ := by
      exact grounded.keep (transact_writes grounded.consistent done) (grounded.ok_reachable done)
        (create_tool_round_untouched created) rfl (.inl rfl) (by simp [closed])
    refine ⟨keep.reachable,keep.head,keep.read,?_⟩
    intro round isRound
    simp only [Option.some.injEq] at isRound
    subst isRound
    exact RoundOpen.created created
  | @announce_round c w checkpoint round reached opened silent =>
    refine grounded.same_store rfl rfl rfl ?_
    intro round' isRound
    simp only [Option.some.injEq] at isRound
    subst isRound
    exact ⟨round.told,round.executed,opened⟩
  | @execute_round c w round opened told unexecuted =>
    refine grounded.same_store rfl rfl rfl ?_
    intro round' isRound
    simp only [Option.some.injEq] at isRound
    subst isRound
    exact ⟨round.told,round.executed,opened⟩
  | @commit_result c w round result commit store opened told executed done =>
    obtain ⟨row,call,head,middle,committed⟩ := transact_commit wf done
    have isOpen := (Committed.opened round committed (grounded.round round opened)).1
    refine ⟨grounded.ok_reachable done,?_,by simp [Control.goTo],?_⟩
    · intro checkpoint isCheckpoint
      simp only [Control.goTo,Option.some.injEq] at isCheckpoint
      subst isCheckpoint
      obtain ⟨_,_,heads⟩ := Appended.runs committed.appended
      obtain ⟨run,found,_⟩ := Option.map_eq_some_iff.mp committed.isHead
      simp only [World.stored,committed.after_eq]
      refine ⟨?_,heads run found⟩
      obtain ⟨_,_,inserted,_,rfl⟩ := committed.appended.written
      exact inserted.belongs
    · intro round' isRound
      simp only [Option.some.injEq] at isRound
      subst isRound
      exact isOpen
  | @announce_result c w round told state call_id interrupted opened before next reached cause barrier =>
    refine grounded.same_store rfl rfl rfl ?_
    intro round' isRound
    simp only [Option.some.injEq] at isRound
    subst isRound
    exact ⟨round.told,round.executed,opened⟩
  | close_round => exact grounded.same_store rfl rfl rfl (by simp)

variable {start : Start Digest}

theorem Reach.grounded (reach : Reach prepared start a) : Grounded prepared a := by
  induction reach with
  | refl => exact ⟨start.reachable,by simp,by simp,by simp⟩
  | tail _ step ih => exact step.grounded ih

theorem Reach.opened (reach : Reach prepared start a) : a.control.round.isSome → a.control.checkpoint.isSome := by
  induction reach with
  | refl => simp
  | tail _ step ih =>
    cases step with
    | create_round reached => exact fun _ => by simp [reached]
    | announce_round round reached => exact fun _ => by simp [reached]
    | execute_round round opened => exact fun _ => ih (by simp [opened])
    | announce_result round opened before next reached => exact fun _ => by simp [reached]
    | close_round => simp
    | claim | initial_message | batch_message | assistant | replace | commit_result => exact fun _ => rfl
    | _ => exact ih

/-! ## The history and the log -/

theorem Step.writes (step : Step prepared a b) (grounded : Grounded prepared a) : Writes a.world.store b.world.store := by
  cases step with
  | @act c w action => exact act_writes rfl grounded.consistent prepared.run_id action
  | internal | phase | receive | drain | plain | announce | answer | load | call | anchored | estimate | usage | compacted
  | announce_round | execute_round | announce_result | close_round => exact Relation.ReflTransGen.refl
  | provider_call done | finish_run done => exact transact_writes grounded.consistent done
  | claim _ _ done => exact transact_writes grounded.consistent done
  | initial_message _ _ _ _ done => exact transact_writes grounded.consistent done
  | batch_message _ _ _ _ _ _ done => exact transact_writes grounded.consistent done
  | assistant _ _ _ done => exact transact_writes grounded.consistent done
  | replace _ _ _ _ _ done => exact transact_writes grounded.consistent done
  | create_round _ _ _ _ done => exact transact_writes grounded.consistent done
  | commit_result _ _ _ _ done => exact transact_writes grounded.consistent done

theorem Reach.writes (reach : Reach prepared start a) : Writes start.store a.world.store := by
  induction reach with
  | refl => exact Relation.ReflTransGen.refl
  | tail earlier step ih => exact ih.trans (step.writes (Reach.grounded earlier))

theorem Step.log (step : Step prepared a b) : a.world.log <+: b.world.log := by
  cases step with
  | @act c w action =>
    rcases (act_acted prepared.run_id w action).log with same | ⟨entry,same,_⟩
    · exact same ▸ List.prefix_rfl
    · exact same ▸ List.prefix_append _ _
  | internal | phase | receive | drain | load | usage | compacted | close_round => exact List.prefix_rfl
  | _ => exact List.prefix_append _ _

theorem Reach.accepted (reach : Reach prepared start a) :
    ∀ batch ∈ a.control.held ++ a.world.commands.flatMap batchesOf, Entry.Accepted batch ∈ a.world.log := by
  induction reach with
  | refl => simp [initial]
  | tail _ step ih =>
    have grows := step.log
    cases step with
    | @act c w action =>
      rcases (act_acted prepared.run_id w action).batches with ⟨new,_,_,_,commands,log⟩ | ⟨_,commands,_⟩
      · intro batch member
        rw [commands,← List.append_assoc] at member
        rcases List.mem_append.mp member with old | isNew
        · exact grows.subset (ih batch old)
        · rw [List.mem_singleton.mp isNew,log]
          simp
      · intro batch member
        simp only [commands] at member
        exact grows.subset (ih batch member)
    | @receive c w command rest queued =>
      intro batch member
      exact ih batch (by simpa [queued] using member)
    | @answer c w answered rest result first =>
      intro batch member
      refine grows.subset (ih batch ?_)
      simp only [first,List.cons_append]
      exact List.mem_cons_of_mem _ member
    | _ => exact fun batch member => grows.subset (ih batch member)

section
variable (grounded : Grounded prepared a)
include grounded

theorem Grounded.once_history {id : Nat} (reached : a.control.checkpoint = some checkpoint)
    (done : transact a.world.store (.append_message_once prepared.conversation_id prepared.run_id checkpoint m) =
      .ok (.Appended id inserted,store)) (isStore : b.world.store = store) (isId : b.control.checkpoint = some id) :
    (m ∈ a.history ∧ b.history = a.history) ∨ ((∀ stored ∈ a.history, ¬ sameIdentity m stored) ∧ b.history = a.history ++ [m]) := by
  simp only [Config.history,reached,isId,isStore]
  rcases transact_once grounded.consistent.wellFormed done with ⟨member,rfl,_,rfl⟩ | ⟨new,_,appended⟩
  · exact .inl ⟨member,rfl⟩
  · exact .inr ⟨new,appended.loads⟩
theorem Grounded.append_history {id : Nat} (reached : a.control.checkpoint = some checkpoint)
    (done : transact a.world.store (.append_checkpoint prepared.conversation_id prepared.run_id checkpoint [m]) =
      .ok (.Checkpoint id,store))
    (isStore : b.world.store = store) (isId : b.control.checkpoint = some id) : b.history = a.history ++ [m] := by
  simp only [Config.history,reached,isId,isStore]
  exact (transact_append grounded.consistent.wellFormed done).loads
theorem Grounded.replace_history {id : Nat}
    (done : transact a.world.store (.replace_checkpoint prepared.conversation_id prepared.run_id checkpoint messages) =
      .ok (.Checkpoint id,store)) (isStore : b.world.store = store) (isId : b.control.checkpoint = some id) : b.history = messages := by
  have wf := grounded.consistent.wellFormed
  simp only [Config.history,isId,isStore]
  obtain ⟨root,isRoot,appended⟩ := transact_replace wf done
  rw [appended.loads,(wf.toForest.rootCheckpoint_loads isRoot).2,List.nil_append]
theorem Grounded.commit_history {row : ToolRoundRow} {call : ToolRoundCallRow} {head : Nat}
    {middle : Tables Digest} (reached : a.control.checkpoint = some checkpoint)
    (committed : Committed a.world.store prepared.conversation_id prepared.run_id round_id result row call head commit
      middle store) (isStore : b.world.store = store) (isId : b.control.checkpoint = some commit.checkpoint_id) :
    b.history = a.history ++ commitMessages round_id row call result := by
  obtain ⟨_,run,found,isHead⟩ := grounded.head checkpoint reached
  have same : head = checkpoint := by
    have := committed.isHead
    rw [found,Option.map_some,Option.some.injEq] at this
    rw [← this,isHead]
  simp only [Config.history,reached,isId,isStore]
  rw [committed.after_eq,← same,← committed.appended.loads]
  apply load_congr <;> rfl

end
theorem claim_history {claimed : ClaimedRun} (done : transact s (.claim_run prepared.claim) = .ok (.Claimed claimed,store))
    (isStore : b.world.store = store) (isId : b.control.checkpoint = some claimed.head_checkpoint_id) :
    b.history = load_checkpoint_messages store prepared.base_checkpoint_id := by
  obtain ⟨value,done,same⟩ := replyWith_ok done
  simp only [Reply.Claimed.injEq] at same
  subst same
  simp only [Config.history,isId,isStore]
  rw [(claim_run_runs done).1]
  rfl

end MyCursor.RunSteps

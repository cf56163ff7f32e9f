import MyCursor.StoreSteps

/-!
# Who may write to a conversation

A conversation has one active run. The transactions of any other run, because
it was replaced or has finished, leave the store as it was.
-/
namespace MyCursor.StoreOwnership
open Message Store StoreSteps
set_option linter.unusedSectionVars false

variable {Digest : Type} [DecidableEq Digest] [MessageHash Digest]

def IsActive (s : Tables Digest) (c : ConversationId) (r : RunId) : Prop :=
  ∃ conversation, s.conversations c = some conversation ∧ conversation.active_run_id = some r

/-- The transaction writes on behalf of a run that is not the active one.
    `create_tool_round` takes the conversation from the run. -/
def Inactive (s : Tables Digest) : Op → Prop
  | .append_checkpoint c r _ _ | .append_message_once c r _ _ | .replace_checkpoint c r _ _
  | .commit_tool_result c r _ _ => ¬ IsActive s c r
  | .create_tool_round _ r _ _ _ _ => ∀ c, ¬ IsActive s c r
  | .ensure_conversation _ | .import_checkpoint _ _ | .claim_run _ | .begin_provider_call _ | .finish_run _ _ _ _ => False

/-- There is nothing to append. -/
def NothingToAppend (s : Tables Digest) : Op → Prop
  | .append_checkpoint _ _ _ additions => additions = []
  | .append_message_once _ _ expected m => m ∈ load_checkpoint_messages s expected
  | _ => False

variable {s : Tables Digest} {r : RunId}

theorem isActive_of_appended {after : Tables Digest} {c : ConversationId} {expected parent id : Nat}
    {additions : List CanonicalMessage} (appended : Appended s c r expected parent additions id after) : IsActive s c r := by
  obtain ⟨conversation,found,_,active⟩ := appended.owner
  exact ⟨conversation,found,active⟩

theorem ownsHead_isActive {base : Nat} (owns : ownsHead s r base = true) : ∃ c, IsActive s c r := by
  unfold ownsHead at owns
  split at owns
  · cases owns
  · rename_i run _
    split at owns
    · cases owns
    · rename_i row found
      simp only [Bool.and_eq_true,decide_eq_true_eq] at owns
      exact ⟨run.conversation_id,row,found,owns.1.2⟩

/-- A transaction of a run that is not active succeeds only when there is
    nothing to append, and then it changes nothing. -/
theorem inactive_ok {after : Tables Digest} (wf : WellFormed s) {op : Op} {reply : Reply} (inactive : Inactive s op)
    (done : transact s op = .ok (reply,after)) : after = s ∧ NothingToAppend s op := by
  cases op with
  | ensure_conversation | import_checkpoint | claim_run | begin_provider_call | finish_run => exact inactive.elim
  | append_checkpoint c r expected additions =>
    obtain ⟨id,done,_⟩ := replyWith_ok done
    rcases append_checkpoint_ok wf done with ⟨empty,_,unchanged⟩ | appended
    · exact ⟨unchanged,empty⟩
    · exact absurd (isActive_of_appended appended) inactive
  | append_message_once c r expected m =>
    rw [transact] at done
    obtain ⟨⟨id,inserted⟩,done,_⟩ := replyWith_ok done
    rcases append_message_once_ok wf done with ⟨present,_,_,unchanged⟩ | ⟨_,_,appended⟩
    · exact ⟨unchanged,present⟩
    · exact absurd (isActive_of_appended appended) inactive
  | replace_checkpoint c r expected messages =>
    obtain ⟨id,done,_⟩ := replyWith_ok done
    obtain ⟨_,_,appended⟩ := replace_checkpoint_ok wf done
    exact absurd (isActive_of_appended appended) inactive
  | create_tool_round round_id r base assistant calls created_at_ms =>
    rw [transact] at done
    obtain ⟨_,done,_⟩ := replyWith_ok done
    obtain ⟨_,owns,_⟩ := create_tool_round_ok done
    obtain ⟨c,active⟩ := ownsHead_isActive owns
    exact absurd active (inactive c)
  | commit_tool_result c r round_id result =>
    obtain ⟨commit,done,_⟩ := replyWith_ok done
    obtain ⟨_,_,_,_,committed⟩ := commit_tool_result_ok wf done
    exact absurd (isActive_of_appended committed.appended) inactive

theorem step_of_inactive (wf : WellFormed s) {op : Op} (inactive : Inactive s op) : step s op = s := by
  unfold step
  cases done : transact s op with
  | error e => rfl
  | ok result => exact (inactive_ok wf inactive done).1

theorem step_finish_run (consistent : Consistent s) (inactive : ∀ c, ¬ IsActive s c r)
    (status : RunStatus) (usage : Option Usage) (failure : Option (String × String)) :
    step s (.finish_run r status usage failure) = s := by
  unfold step
  cases done : transact s (.finish_run r status usage failure) with
  | error e => rfl
  | ok result =>
    obtain ⟨released,done,_⟩ := replyWith_ok done
    rcases finish_run_ok consistent done with ⟨_,unchanged,_⟩ | ⟨_,_,run,found,running⟩
    · exact unchanged
    · exact absurd (consistent.owned.running r run found running) (inactive run.conversation_id)

/-- The properties of ownership in one store. -/
structure SingleOwner (s : Tables Digest) : Prop where
  /-- A conversation has at most one running run. -/
  unique : ∀ r r' run run', s.runs r = some run → s.runs r' = some run' → run.conversation_id = run'.conversation_id →
    run.status = .Running → run'.status = .Running → r = r'
  /-- A running run is the active one. -/
  running : ∀ r run, s.runs r = some run → run.status = .Running → IsActive s run.conversation_id r
  /-- The head of the active run is the current checkpoint. -/
  head : ∀ c conversation r, s.conversations c = some conversation → conversation.active_run_id = some r →
    ∃ run, s.runs r = some run ∧ run.conversation_id = c ∧ conversation.current_checkpoint_id = some run.head_checkpoint_id
  /-- Any other run writes nothing, and gets an error unless there was nothing to append. -/
  unchanged : ∀ op, Inactive s op → step s op = s
  refused : ∀ op, Inactive s op → ¬ NothingToAppend s op → ∃ e, transact s op = .error e
  /-- Finishing a run that is not active leaves every conversation alone. -/
  released : ∀ r status usage failure, (∀ c, ¬ IsActive s c r) →
    (step s (.finish_run r status usage failure)).conversations = s.conversations

theorem singleOwner_of_consistent (consistent : Consistent s) : SingleOwner s := by
  have owned := consistent.owned
  refine ⟨?_,owned.running,?_,?_,?_,?_⟩
  · intro r r' run run' found found' same running running'
    obtain ⟨conversation,present,active⟩ := owned.running r run found running
    obtain ⟨conversation',present',active'⟩ := owned.running r' run' found' running'
    rw [← same,present,Option.some.injEq] at present'
    subst present'
    exact Option.some.inj (active.symm.trans active')
  · intro c conversation r found active
    obtain ⟨run,runFound,owner,_,head⟩ := owned.active c conversation r found active
    exact ⟨run,runFound,owner,head⟩
  · intro op inactive
    exact step_of_inactive consistent.wellFormed inactive
  · intro op inactive something
    cases done : transact s op with
    | error e => exact ⟨e,rfl⟩
    | ok result => exact absurd (inactive_ok consistent.wellFormed inactive done).2 something
  · intro r status usage failure inactive
    rw [step_finish_run consistent inactive]

/-- After any interleaving of transactions each conversation has one owner. -/
theorem single_owner (ops : List Op) : SingleOwner (replay ops : Tables Digest) :=
  singleOwner_of_consistent (replay_consistent ops)

end MyCursor.StoreOwnership

import MyCursor.StoreHistory

/-!
# Appending a prepared input

Before a run starts, `match_checkpoint_prefix` follows the checkpoints that
already hold the first messages of its input; the run is claimed where that
stops and appends the rest one by one. This module says exactly when these
appends succeed.
-/
namespace MyCursor.StorePrepared
open Message Store StoreSteps StoreHistory
set_option linter.unusedSectionVars false

variable {Digest : Type} [DecidableEq Digest] [MessageHash Digest]

/-- The loop of `run_claimed` over the initial messages. -/
def appendInitialMessages (s : Tables Digest) (conversation_id : ConversationId) (run_id : RunId) (checkpoint : Nat) :
    List CanonicalMessage → Except Error (Nat × Tables Digest)
  | [] => .ok (checkpoint,s)
  | m :: rest => do
    let ((next,_),s) ← append_message_once s conversation_id run_id checkpoint m
    appendInitialMessages s conversation_id run_id next rest

/-- A run with the given input: its base is where the matching stops, and the
    messages after it are appended. -/
def startPrepared (s : Tables Digest) (prepared : RunClaim) (additions : List CanonicalMessage) : Except Error (Nat × Tables Digest) := do
  let (checkpoint,reused) := matchCheckpointPrefix s prepared.conversation_id prepared.base_checkpoint_id additions
  let (claimed,s) ← claim_run s { prepared with base_checkpoint_id := checkpoint }
  appendInitialMessages s prepared.conversation_id prepared.run_id claimed.head_checkpoint_id (additions.drop reused)

variable {s : Tables Digest} {c : ConversationId} {parent : Nat}

theorem childByDigest_some {id : Nat} {digest : Digest}
    (found : childByDigest s c parent digest = some id) : ∃ row ∈ s.checkpoints, row.checkpoint_id = id ∧
      row.conversation_id = c ∧ row.parent_checkpoint_id = some parent ∧ row.state_digest = digest := by
  simp only [childByDigest,Option.map_eq_some_iff] at found
  obtain ⟨row,found,rfl⟩ := found
  have holds := List.find?_some found
  simp only [decide_eq_true_eq] at holds
  exact ⟨row,List.mem_of_find?_eq_some found,rfl,holds⟩
theorem childByDigest_none {digest : Digest} : childByDigest s c parent digest = none ↔ ∀ row ∈ s.checkpoints, row.conversation_id = c →
      row.parent_checkpoint_id = some parent → row.state_digest ≠ digest := by
  simp [childByDigest]

theorem same_loads (wf : WellFormed s) {a b : CheckpointRow Digest} (aMember : a ∈ s.checkpoints)
    (bMember : b ∈ s.checkpoints) (owner : a.conversation_id = b.conversation_id)
    (loads : load_checkpoint_messages s a.checkpoint_id = load_checkpoint_messages s b.checkpoint_id) : a = b :=
  wf.distinct a aMember b bMember owner (by rw [wf.digests a aMember,wf.digests b bMember,loads])

theorem single_addition (forest : Forest s) {row : CheckpointRow Digest}
    (member : row ∈ s.checkpoints) (isParent : row.parent_checkpoint_id = some parent)
    {messages : List CanonicalMessage} {addition : CanonicalMessage} (base : load_checkpoint_messages s parent = messages)
    (loads : load_checkpoint_messages s row.checkpoint_id = messages ++ [addition]) : row.message_ids.length = 1 := by
  have whole := forest.load_eq member
  rw [loads,parentMessages,isParent] at whole
  simp only [base,List.append_cancel_left_eq] at whole
  rw [← forest.addedMessages_ids member,← whole]
  rfl
theorem parent_of_single (forest : Forest s) {row : CheckpointRow Digest}
    (member : row ∈ s.checkpoints) (single : row.message_ids.length = 1) {messages : List CanonicalMessage}
    {addition : CanonicalMessage} (loads : load_checkpoint_messages s row.checkpoint_id = messages ++ [addition]) :
    ∃ parent, row.parent_checkpoint_id = some parent ∧ load_checkpoint_messages s parent = messages := by
  cases isParent : row.parent_checkpoint_id with
  | none =>
    have := forest.roots row member isParent
    simp [this] at single
  | some parent =>
    have whole := forest.load_eq member
    have added : (addedMessages s row).length = 1 := by
      rw [← single,← forest.addedMessages_ids member,List.length_map]
    rw [loads,parentMessages,isParent] at whole
    exact ⟨parent,rfl,(List.append_inj_left' whole (by rw [added]; rfl)).symm⟩

/-- The result of matching: `reached` loads to the first `count` additions
    after `base`, every step to it adds one message, and no child goes on. -/
structure Matched (s : Tables Digest) (c : ConversationId) (base : List CanonicalMessage)
    (additions : List CanonicalMessage) (reached count : Nat) : Prop where
  within : count ≤ additions.length
  belongs : Belongs s c reached
  loads : load_checkpoint_messages s reached = base ++ additions.take count
  steps : ∀ j, 0 < j → j ≤ count → ∃ row ∈ s.checkpoints, row.conversation_id = c ∧ row.message_ids.length = 1 ∧
    load_checkpoint_messages s row.checkpoint_id = base ++ additions.take j
  maximal : ∀ row ∈ s.checkpoints, row.conversation_id = c → row.parent_checkpoint_id = some reached →
    count < additions.length → load_checkpoint_messages s row.checkpoint_id ≠ base ++ additions.take (count + 1)

theorem matchFrom_matched {s : Tables Digest} (wf : WellFormed s)
    (injective : Function.Injective (message_digest : List CanonicalMessage → Digest)) {c : ConversationId}
    (additions : List CanonicalMessage) : ∀ {checkpoint : Nat} {messages : List CanonicalMessage} {index : Nat},
      Belongs s c checkpoint → load_checkpoint_messages s checkpoint = messages →
      ∃ count, (matchFrom s c checkpoint messages index additions).2 = index + count ∧
        Matched s c messages additions (matchFrom s c checkpoint messages index additions).1 count := by
  induction additions with
  | nil =>
    intro checkpoint messages index belongs loads
    exact ⟨0,rfl,by simp,belongs,by simp [matchFrom,loads],by omega,by simp⟩
  | cons addition rest ih =>
    intro checkpoint messages index belongs loads
    cases found : childByDigest s c checkpoint (message_digest (messages ++ [addition])) with
    | none =>
      rw [show matchFrom s c checkpoint messages index (addition :: rest) = (checkpoint,index) by simp [matchFrom,found]]
      refine ⟨0,rfl,by simp,belongs,by simp [loads],by omega,?_⟩
      intro row member owner isParent _ same
      refine childByDigest_none.mp found row member owner isParent ?_
      rw [wf.digests row member,same]
      simp
    | some child =>
      obtain ⟨row,member,rfl,owner,isParent,digest⟩ := childByDigest_some found
      have childLoads := injective ((wf.digests row member).symm.trans digest)
      have first := single_addition wf.toForest member isParent loads childLoads
      obtain ⟨count,counted,matched⟩ := @ih row.checkpoint_id _ (index + 1) ⟨row,member,rfl,owner⟩ childLoads
      rw [show matchFrom s c checkpoint messages index (addition :: rest) =
        matchFrom s c row.checkpoint_id (messages ++ [addition]) (index + 1) rest by
          simp only [matchFrom,found,childLoads,if_true]]
      have shift : ∀ j, messages ++ (addition :: rest).take (j + 1) = messages ++ [addition] ++ rest.take j := by simp
      refine ⟨count + 1,by rw [counted]; omega,by simpa using matched.within,matched.belongs,?_,?_,?_⟩
      · rw [shift]; exact matched.loads
      · intro j positive within
        obtain ⟨j,rfl⟩ : ∃ i, j = i + 1 := ⟨j - 1,by omega⟩
        rw [shift]
        by_cases zero : j = 0
        · exact ⟨row,member,owner,first,by simp [zero,childLoads]⟩
        · exact matched.steps j (by omega) (by omega)
      · intro row' member' owner' isParent' within
        rw [shift]
        exact matched.maximal row' member' owner' isParent' (by simpa using within)

theorem matchCheckpointPrefix_matched (wf : WellFormed s)
    (injective : Function.Injective (message_digest : List CanonicalMessage → Digest)) {base : Nat}
    (additions : List CanonicalMessage) (belongs : Belongs s c base) :
    Matched s c (load_checkpoint_messages s base) additions (matchCheckpointPrefix s c base additions).1
      (matchCheckpointPrefix s c base additions).2 := by
  obtain ⟨count,counted,matched⟩ := @matchFrom_matched _ _ _ s wf injective c additions base _ 0 belongs rfl
  rw [matchCheckpointPrefix,counted,Nat.zero_add]
  exact matched

/-- Every checkpoint of the conversation that loads to the base and a
    non-empty prefix of the additions added exactly one message. -/
def SingleSteps (s : Tables Digest) (c : ConversationId) (base : List CanonicalMessage) (additions : List CanonicalMessage) : Prop :=
  ∀ row ∈ s.checkpoints, row.conversation_id = c → ∀ j, 0 < j → j ≤ additions.length →
    load_checkpoint_messages s row.checkpoint_id = base ++ additions.take j → row.message_ids.length = 1

variable {additions : List CanonicalMessage}

/-- The additions after the matched ones are then not yet anywhere in the
    conversation, and conversely. -/
theorem Matched.unknown_iff (wf : WellFormed s) {base : List CanonicalMessage}
    {reached count : Nat} (matched : Matched s c base additions reached count) :
    SingleSteps s c base additions ↔ ∀ j, count < j → j ≤ additions.length → ¬ Known s c (base ++ additions.take j) := by
  constructor
  · intro single j
    -- The least unmatched level that is known would be a child of the reached checkpoint.
    induction j with
    | zero => intro beyond; omega
    | succ j ih =>
      rintro beyond within ⟨row,member,owner,loads⟩
      have one := single row member owner (j + 1) (by omega) within loads
      have split : base ++ additions.take (j + 1) = base ++ additions.take j ++ [additions[j]] := by
        rw [List.take_succ_eq_append_getElem (by omega),List.append_assoc]
      obtain ⟨parent,isParent,parentLoads⟩ := parent_of_single wf.toForest member one (loads.trans split)
      obtain ⟨_,parentRow,parentMember,rfl,parentOwner⟩ := wf.parents row member parent isParent
      by_cases next : count = j
      · subst next
        obtain ⟨reachedRow,reachedMember,rfl,reachedOwner⟩ := matched.belongs
        have same := same_loads wf parentMember reachedMember (parentOwner.trans (owner.trans reachedOwner.symm))
          (parentLoads.trans matched.loads.symm)
        exact matched.maximal row member owner (same ▸ isParent) (by omega) loads
      · exact ih (by omega) (by omega) ⟨parentRow,parentMember,parentOwner.trans owner,parentLoads⟩
  · intro unknown row member owner j positive within loads
    have reached : j ≤ count := by
      by_contra beyond
      exact unknown j (by omega) within ⟨row,member,owner,loads⟩
    obtain ⟨row',member',owner',one,loads'⟩ := matched.steps j positive reached
    rw [same_loads wf member member' (owner.trans owner'.symm) (loads.trans loads'.symm)]
    exact one

variable {m : CanonicalMessage}

theorem load_stored (forest : Forest s) : ∀ {id : Nat}, Belongs s c id → ∀ m ∈ load_checkpoint_messages s id, ⟨c,m⟩ ∈ s.messages := by
  intro id
  induction id using Nat.strongRecOn with
  | ind id ih =>
    rintro ⟨row,member,rfl,rfl⟩ m loaded
    rw [forest.load_eq member,List.mem_append] at loaded
    rcases loaded with older | added
    · cases isParent : row.parent_checkpoint_id with
      | none => simp [parentMessages,isParent] at older
      | some parent =>
        obtain ⟨less,belongs⟩ := forest.parents row member parent isParent
        simp only [parentMessages,isParent] at older
        exact ih parent less belongs m older
    · simp only [addedMessages,List.mem_filterMap] at added
      obtain ⟨id,_,found⟩ := added
      exact ((message_iff forest.messages).mp found).1

def Owns (s : Tables Digest) (c : ConversationId) (r : RunId) (checkpoint : Nat) : Prop :=
  ∃ conversation, s.conversations c = some conversation ∧ conversation.current_checkpoint_id = some checkpoint ∧
    conversation.active_run_id = some r

variable {r : RunId}

theorem Owns.belongs (wf : WellFormed s) {checkpoint : Nat} (owns : Owns s c r checkpoint) : Belongs s c checkpoint :=
  wf.current_belongs (require_active_head_ok.mpr owns)

variable {after : Tables Digest} {expected : Nat}

theorem appended_owns {id : Nat} (appended : Appended s c r expected parent additions id after) : Owns after c r id := by
  obtain ⟨middle,conversation,_,found,rfl⟩ := appended.written
  obtain ⟨conversation',found',_,active⟩ := appended.owner
  rw [found,Option.some.injEq] at found'
  subst found'
  exact ⟨{ conversation with current_checkpoint_id := some id },by simp [updateRun,setConversation],rfl,active⟩

/-- The active run can append the messages exactly when they are storable and
    the result is new. -/
theorem append_checkpoint_tx_succeeds (wf : WellFormed s)
    (injective : Function.Injective (message_digest : List CanonicalMessage → Digest))
    (additions : List CanonicalMessage) (owns : Owns s c r expected) :
    (∃ id after, append_checkpoint_tx s c r expected additions = .ok (id,after)) ↔
      ¬ Known s c (load_checkpoint_messages s expected ++ additions) ∧ (additions.map (·.message_id)).Nodup ∧ Storable s c additions := by
  have inserts := insert_checkpoint_succeeds wf.messages c expected additions
    (message_digest (load_checkpoint_messages s expected ++ additions))
  rw [checkpointByDigest_unknown wf injective] at inserts
  rw [← inserts]
  constructor
  · rintro ⟨id,after,done⟩
    obtain ⟨_,_,rest⟩ := bind_ok.mp done
    split_ifs at rest
    obtain ⟨⟨checkpoint,middle⟩,insertion,_⟩ := bind_ok.mp rest
    exact ⟨checkpoint,middle,insertion⟩
  · rintro ⟨id,middle,insertion⟩
    have fresh := (checkpointByDigest_unknown wf injective).mpr (inserts.mp ⟨id,middle,insertion⟩).1
    have inserted := insert_checkpoint_ok wf (owns.belongs wf) insertion
    obtain ⟨conversation,found,current,active⟩ := owns
    obtain ⟨after,moved⟩ : ∃ after, moveHead middle "appending" c r expected id = .ok after := by
      simp only [moveHead,inserted.conversations,found,current,active,and_self,if_true]
      exact ⟨_,rfl⟩
    refine ⟨id,after,bind_ok.mpr ⟨(),require_active_head_ok.mpr ⟨conversation,found,current,active⟩,?_⟩⟩
    rw [if_neg (by simp [fresh])]
    exact bind_ok.mpr ⟨(id,middle),insertion,bind_ok.mpr ⟨after,moved,rfl⟩⟩

theorem append_message_once_of_absent (absent : ∀ stored ∈ load_checkpoint_messages s expected, ¬ sameIdentity m stored) :
    append_message_once s c r expected m = (append_checkpoint_tx s c r expected [m]).map fun (id,after) => ((id,true),after) := by
  have none : (load_checkpoint_messages s expected).find? (sameIdentity m) = none := List.find?_eq_none.mpr absent
  unfold append_message_once
  rw [none]
  simp only [append_checkpoint,List.isEmpty_cons,Bool.false_eq_true,if_false]
  cases append_checkpoint_tx s c r expected [m] <;> rfl

theorem append_message_once_succeeds (wf : WellFormed s)
    (injective : Function.Injective (message_digest : List CanonicalMessage → Digest)) (owns : Owns s c r expected)
    (newId : ∀ stored ∈ load_checkpoint_messages s expected, stored.message_id ≠ m.message_id) :
    (∃ id inserted after, append_message_once s c r expected m = .ok ((id,inserted),after)) ↔
      ¬ Known s c (load_checkpoint_messages s expected ++ [m]) ∧ Storable s c [m] := by
  have appends := append_checkpoint_tx_succeeds wf injective [m] owns
  constructor
  · rintro ⟨id,inserted,after,done⟩
    rcases append_message_once_ok wf done with ⟨present,_⟩ | ⟨absent,_,_⟩
    · exact absurd rfl (newId m present)
    · rw [append_message_once_of_absent absent] at done
      cases tx : append_checkpoint_tx s c r expected [m] with
      | error e => simp [tx,Except.map] at done
      | ok result =>
        obtain ⟨unknown,_,storable⟩ := appends.mp ⟨result.1,result.2,tx⟩
        exact ⟨unknown,storable⟩
  · rintro ⟨unknown,storable⟩
    have absent : ∀ stored ∈ load_checkpoint_messages s expected, ¬ sameIdentity m stored := by
      intro stored loaded same
      have row := load_stored wf.toForest (owns.belongs wf) stored loaded
      exact newId stored loaded (congrArg CanonicalMessage.message_id (storable.stored m (by simp) ⟨c,stored⟩ row rfl same))
    obtain ⟨id,after,tx⟩ := appends.mpr ⟨unknown,by simp,storable⟩
    exact ⟨id,true,after,by rw [append_message_once_of_absent absent,tx]; rfl⟩

/-- After an append the conversation knows one list more and stores the
    appended message. -/
theorem appended_known (wf : WellFormed s) {id : Nat} (appended : Appended s c r expected expected [m] id after)
    (messages : List CanonicalMessage) :
    Known after c messages ↔ Known s c messages ∨ messages = load_checkpoint_messages s expected ++ [m] := by
  have extends_ := Writes.extends_ appended.writes wf
  have loads := appended.loads
  obtain ⟨middle,conversation,inserted,_,rfl⟩ := appended.written
  constructor
  · rintro ⟨row,member,owner,rowLoads⟩
    have split : row ∈ middle.checkpoints := member
    rw [inserted.row,List.mem_append,List.mem_singleton] at split
    rcases split with old | rfl
    · rw [wf.toForest.load_stable extends_ _ ⟨row,old,rfl⟩] at rowLoads
      exact .inl ⟨row,old,owner,rowLoads⟩
    · exact .inr (rowLoads.symm.trans loads)
  · rintro (⟨row,member,owner,rowLoads⟩ | rfl)
    · refine ⟨row,extends_.checkpoints.subset member,owner,?_⟩
      rw [wf.toForest.load_stable extends_ _ ⟨row,member,rfl⟩]
      exact rowLoads
    · obtain ⟨row,member,rfl,owner⟩ := inserted.belongs
      exact ⟨row,member,owner,loads⟩

theorem appended_storable {id : Nat} (appended : Appended s c r expected parent [m] id after) {rest : List CanonicalMessage} :
    Storable s c [m] ∧ Storable after c rest ↔ Storable s c (m :: rest) := by
  obtain ⟨middle,conversation,inserted,_,rfl⟩ := appended.written
  have messages : ∀ row, row ∈ middle.messages ↔ row ∈ s.messages ∨ row = ⟨c,m⟩ := by simpa using inserted.messages
  constructor
  · rintro ⟨first,later⟩
    refine ⟨?_,?_⟩
    · intro m' member row stored
      rcases List.mem_cons.mp member with rfl | more
      · exact first.stored m' (by simp) row stored
      · exact later.stored m' more row ((messages row).mpr (.inl stored))
    · have withFirst : ∀ b ∈ rest, sameIdentity b m → m = b := fun b member =>
        later.stored b member ⟨c,m⟩ ((messages _).mpr (.inr rfl)) rfl
      intro a aMember b bMember same
      rcases List.mem_cons.mp aMember with rfl | aRest <;> rcases List.mem_cons.mp bMember with rfl | bRest
      · rfl
      · exact withFirst b bRest (sameIdentity_comm.mp same)
      · exact (withFirst a aRest same).symm
      · exact later.each a aRest b bRest same
  · intro all
    refine ⟨⟨?_,?_⟩,⟨?_,?_⟩⟩
    · intro m' member row stored
      exact all.stored m' (by simp [List.mem_singleton.mp member]) row stored
    · intro a aMember b bMember _
      rw [List.mem_singleton.mp aMember,List.mem_singleton.mp bMember]
    · intro m' member row stored owner same
      rcases (messages row).mp stored with old | rfl
      · exact all.stored m' (by simp [member]) row old owner same
      · exact (all.each m' (by simp [member]) m (by simp) same).symm
    · exact fun a aMember b bMember => all.each a (by simp [aMember]) b (by simp [bMember])

/-- Appending a list one by one succeeds exactly when it is storable and no
    prefix of the way is known already. -/
theorem appendInitialMessages_succeeds (injective : Function.Injective (message_digest : List CanonicalMessage → Digest))
    (additions : List CanonicalMessage) : ∀ {s : Tables Digest} {checkpoint : Nat}, Consistent s → Owns s c r checkpoint →
      (additions.map (·.message_id)).Nodup →
      (∀ m ∈ additions, ∀ stored ∈ load_checkpoint_messages s checkpoint, stored.message_id ≠ m.message_id) →
      ((∃ id after, appendInitialMessages s c r checkpoint additions = .ok (id,after) ∧
          load_checkpoint_messages after id = load_checkpoint_messages s checkpoint ++ additions) ↔
        Storable s c additions ∧ ∀ j, 0 < j → j ≤ additions.length →
          ¬ Known s c (load_checkpoint_messages s checkpoint ++ additions.take j)) := by
  induction additions with
  | nil =>
    intro s checkpoint _ _ _ _
    refine ⟨fun _ => ⟨⟨by simp,by simp⟩,fun j positive within => ?_⟩,fun _ => ⟨checkpoint,s,rfl,by simp⟩⟩
    simp only [List.length_nil] at within
    omega
  | cons m rest ih =>
    intro s checkpoint consistent owns distinct newIds
    have wf := consistent.wellFormed
    have newId := newIds m (by simp)
    obtain ⟨notIn,distinctRest⟩ := List.nodup_cons.mp distinct
    -- What one append does for the appends after it.
    have step : ∀ {id inserted after}, append_message_once s c r checkpoint m = .ok ((id,inserted),after) →
        Appended s c r checkpoint checkpoint [m] id after ∧
        ((∃ last final, appendInitialMessages after c r id rest = .ok (last,final) ∧
            load_checkpoint_messages final last = load_checkpoint_messages after id ++ rest) ↔
          Storable after c rest ∧ ∀ j, 0 < j → j ≤ rest.length → ¬ Known after c (load_checkpoint_messages after id ++ rest.take j)) := by
      intro id inserted after done
      rcases append_message_once_ok wf done with ⟨present,_⟩ | ⟨_,_,appended⟩
      · exact absurd rfl (newId m present)
      · refine ⟨appended,ih (appended.writes.consistent consistent) (appended_owns appended) distinctRest ?_⟩
        intro m' member stored loaded
        rw [appended.loads,List.mem_append,List.mem_singleton] at loaded
        rcases loaded with old | rfl
        · exact newIds m' (by simp [member]) stored old
        · intro same
          exact notIn (List.mem_map.mpr ⟨m',member,same.symm⟩)
    have unknown : ∀ {id after}, Appended s c r checkpoint checkpoint [m] id after →
        ((∀ j, 0 < j → j ≤ rest.length → ¬ Known after c (load_checkpoint_messages after id ++ rest.take j)) ↔
          ∀ j, 0 < j → j ≤ rest.length → ¬ Known s c (load_checkpoint_messages s checkpoint ++ (m :: rest).take (j + 1))) := by
      intro id after appended
      refine forall_congr' fun j => forall_congr' fun positive => forall_congr' fun within => not_congr ?_
      rw [appended_known wf appended,appended.loads]
      have longer : load_checkpoint_messages s checkpoint ++ [m] ++ rest.take j ≠ load_checkpoint_messages s checkpoint ++ [m] := by
        intro same
        have := congrArg List.length same
        simp only [List.length_append,List.length_take,List.length_cons,List.length_nil] at this
        omega
      rw [or_iff_left longer]
      simp only [List.take_succ_cons,List.append_assoc,List.singleton_append]
    constructor
    · rintro ⟨last,final,done,loads⟩
      obtain ⟨⟨⟨id,inserted⟩,after⟩,first,later⟩ := bind_ok.mp done
      obtain ⟨appended,restIff⟩ := step first
      have firstOk := (append_message_once_succeeds wf injective owns newId).mp ⟨id,inserted,after,first⟩
      rw [← List.singleton_append,← List.append_assoc,← appended.loads] at loads
      obtain ⟨storable,fresh⟩ := restIff.mp ⟨last,final,later,loads⟩
      refine ⟨(appended_storable appended).mp ⟨firstOk.2,storable⟩,?_⟩
      intro j positive within
      obtain ⟨j,rfl⟩ : ∃ i, j = i + 1 := ⟨j - 1,by omega⟩
      by_cases zero : j = 0
      · subst zero
        simpa using firstOk.1
      · exact (unknown appended).mp fresh j (by omega) (by simpa using within)
    · rintro ⟨storable,fresh⟩
      have single : Storable s c [m] := by
        refine ⟨fun m' member => storable.stored m' (by simp [List.mem_singleton.mp member]),?_⟩
        intro a aMember b bMember _
        rw [List.mem_singleton.mp aMember,List.mem_singleton.mp bMember]
      have firstFresh : ¬ Known s c (load_checkpoint_messages s checkpoint ++ [m]) := by
        simpa using fresh 1 (by omega) (by simp)
      obtain ⟨id,inserted,after,first⟩ := (append_message_once_succeeds wf injective owns newId).mpr ⟨firstFresh,single⟩
      obtain ⟨appended,restIff⟩ := step first
      obtain ⟨_,storableRest⟩ := (appended_storable appended).mpr storable
      obtain ⟨last,final,later,loads⟩ := restIff.mpr ⟨storableRest,(unknown appended).mpr fun j positive within =>
        fresh (j + 1) (by omega) (by simpa using within)⟩
      refine ⟨last,final,bind_ok.mpr ⟨((id,inserted),after),first,later⟩,?_⟩
      rw [loads,appended.loads,List.append_assoc,List.singleton_append]

/-- A new run can be claimed at any checkpoint of the conversation, and then
    owns it; checkpoints and messages stay as they were. -/
theorem claim_run_of_fresh (prepared : RunClaim) (consistent : Consistent s)
    (fresh : s.runs prepared.run_id = none) (belongs : Belongs s prepared.conversation_id prepared.base_checkpoint_id) :
    ∃ claimed after, claim_run s prepared = .ok (claimed,after) ∧ claimed.head_checkpoint_id = prepared.base_checkpoint_id ∧
      after.checkpoints = s.checkpoints ∧ after.messages = s.messages ∧ Consistent after ∧
      Owns after prepared.conversation_id prepared.run_id prepared.base_checkpoint_id := by
  have wf := consistent.wellFormed
  obtain ⟨row,member,named,owner⟩ := belongs
  have present := wf.known row member
  rw [owner,Option.isSome_iff_exists] at present
  obtain ⟨conversation,found⟩ := present
  obtain ⟨current,isCurrent,_⟩ := wf.current _ conversation found
  have notReplaced : conversation.active_run_id ≠ some prepared.run_id := by
    intro active
    obtain ⟨run,runFound,_⟩ := consistent.owned.active _ conversation _ found active
    simp [fresh] at runFound
  have known : (s.checkpoints.any fun row =>
      row.checkpoint_id = prepared.base_checkpoint_id ∧ row.conversation_id = prepared.conversation_id) = true :=
    List.any_eq_true.mpr ⟨row,member,by simp [named,owner]⟩
  have free := (cancelReplaced_runs (s := s) (r := prepared.run_id) prepared.run_id notReplaced).trans fresh
  obtain ⟨claimed,after,done,head⟩ : ∃ claimed after, claim_run s prepared = .ok (claimed,after) ∧
      claimed.head_checkpoint_id = prepared.base_checkpoint_id := by
    simp only [claim_run,ensure_conversation_tx,found,Option.getD_some,isCurrent,bind,Except.bind,Option.bind_some,
      known,Bool.not_true,Bool.false_eq_true,if_false,free,Option.isSome_none]
    exact ⟨_,_,rfl,rfl⟩
  obtain ⟨_,middle,ensured,writes,write,_,conversations,checkpoints,messages,_⟩ := claim_run_ok wf done
  obtain rfl : middle = s := by
    rcases (ensure_conversation_ok wf ensured).1 with same | ⟨_,missing⟩
    · exact same
    · simp [missing] at found
  refine ⟨claimed,after,done,head,checkpoints,messages,write.consistent consistent,?_⟩
  exact ⟨⟨some prepared.base_checkpoint_id,some prepared.run_id⟩,by simp [conversations],rfl,rfl⟩

theorem known_congr (checkpoints : after.checkpoints = s.checkpoints)
    (messages : after.messages = s.messages) (c : ConversationId) (ms : List CanonicalMessage) :
    Known after c ms ↔ Known s c ms := by
  simp only [Known,checkpoints,load_congr checkpoints messages]

theorem Matched.storable_drop (wf : WellFormed s) {base : List CanonicalMessage}
    {reached count : Nat} (matched : Matched s c base additions reached count) :
    Storable s c (additions.drop count) ↔ Storable s c additions := by
  have taken : ∀ m ∈ additions.take count, ⟨c,m⟩ ∈ s.messages := by
    intro m member
    exact load_stored wf.toForest matched.belongs m (by rw [matched.loads]; exact List.mem_append_right _ member)
  have halves : ∀ m, m ∈ additions ↔ m ∈ additions.take count ∨ m ∈ additions.drop count := by
    intro m
    rw [← List.mem_append,List.take_append_drop]
  have stored : ∀ a ∈ additions.take count, ∀ row ∈ s.messages, row.conversation_id = c → sameIdentity a row.message →
      row.message = a := by
    intro a member row stored owner same
    exact (congrArg MessageRow.message (wf.messages ⟨c,a⟩ (taken a member) row stored owner.symm same)).symm
  constructor
  · intro later
    refine ⟨?_,?_⟩
    · intro m member
      rcases (halves m).mp member with early | late
      · exact stored m early
      · exact later.stored m late
    · intro a aMember b bMember same
      rcases (halves a).mp aMember with aEarly | aLate
      · rcases (halves b).mp bMember with bEarly | bLate
        · exact (stored a aEarly ⟨c,b⟩ (taken b bEarly) rfl same).symm
        · exact later.stored b bLate ⟨c,a⟩ (taken a aEarly) rfl (sameIdentity_comm.mp same)
      · rcases (halves b).mp bMember with bEarly | bLate
        · exact (later.stored a aLate ⟨c,b⟩ (taken b bEarly) rfl same).symm
        · exact later.each a aLate b bLate same
  · intro all
    exact ⟨fun m member => all.stored m ((halves m).mpr (.inr member)),
      fun a aMember b bMember => all.each a ((halves a).mpr (.inr aMember)) b ((halves b).mpr (.inr bMember))⟩

theorem startPrepared_succeeds (consistent : Consistent s)
    (injective : Function.Injective (message_digest : List CanonicalMessage → Digest)) (prepared : RunClaim)
    (additions : List CanonicalMessage) (fresh : s.runs prepared.run_id = none)
    (belongs : Belongs s prepared.conversation_id prepared.base_checkpoint_id) (distinct : (additions.map (·.message_id)).Nodup)
    (newIds : ∀ m ∈ additions, ∀ stored ∈ load_checkpoint_messages s prepared.base_checkpoint_id,
      stored.message_id ≠ m.message_id) : (∃ id after, startPrepared s prepared additions = .ok (id,after) ∧
        load_checkpoint_messages after id = load_checkpoint_messages s prepared.base_checkpoint_id ++ additions) ↔
      Storable s prepared.conversation_id additions ∧ SingleSteps s prepared.conversation_id
        (load_checkpoint_messages s prepared.base_checkpoint_id) additions := by
  have wf := consistent.wellFormed
  have matched := matchCheckpointPrefix_matched wf injective additions belongs
  unfold startPrepared
  generalize matchCheckpointPrefix s prepared.conversation_id prepared.base_checkpoint_id additions = result at *
  obtain ⟨checkpoint,count⟩ := result
  obtain ⟨claimed,after,claim,head,checkpoints,messages,afterConsistent,owns⟩ :=
    claim_run_of_fresh { prepared with base_checkpoint_id := checkpoint } consistent fresh matched.belongs
  have loads : load_checkpoint_messages after checkpoint =
      load_checkpoint_messages s prepared.base_checkpoint_id ++ additions.take count :=
    (load_congr checkpoints messages checkpoint).trans matched.loads
  have newLater : ∀ m ∈ additions.drop count, ∀ stored ∈ load_checkpoint_messages after checkpoint,
      stored.message_id ≠ m.message_id := by
    intro m member stored loaded
    rw [loads,List.mem_append] at loaded
    rcases loaded with old | early
    · exact newIds m (List.mem_of_mem_drop member) stored old
    · rw [← List.take_append_drop count additions,List.map_append,List.nodup_append] at distinct
      exact distinct.2.2 _ (List.mem_map_of_mem early) _ (List.mem_map_of_mem member)
  have distinctLater : ((additions.drop count).map (·.message_id)).Nodup := by
    rw [List.map_drop]
    exact distinct.sublist (List.drop_sublist _ _)
  have appends := appendInitialMessages_succeeds injective (additions.drop count) afterConsistent owns distinctLater newLater
  have storable : Storable after prepared.conversation_id (additions.drop count) ↔
      Storable s prepared.conversation_id (additions.drop count) := by
    constructor
    · exact fun ⟨stored,each⟩ => ⟨messages ▸ stored,each⟩
    · exact fun ⟨stored,each⟩ => ⟨messages ▸ stored,each⟩
  have unknown : (∀ j, 0 < j → j ≤ (additions.drop count).length → ¬ Known after prepared.conversation_id
        (load_checkpoint_messages after checkpoint ++ (additions.drop count).take j)) ↔
      ∀ j, count < j → j ≤ additions.length → ¬ Known s prepared.conversation_id
        (load_checkpoint_messages s prepared.base_checkpoint_id ++ additions.take j) := by
    have joined : ∀ j, load_checkpoint_messages after checkpoint ++ (additions.drop count).take j =
        load_checkpoint_messages s prepared.base_checkpoint_id ++ additions.take (count + j) := by
      intro j
      rw [loads,List.append_assoc,← List.take_add]
    simp only [joined,known_congr checkpoints messages,List.length_drop]
    constructor
    · intro later j beyond within
      have := later (j - count) (by omega) (by omega)
      rwa [show count + (j - count) = j by omega] at this
    · intro later j positive within
      exact later (count + j) (by omega) (by have := matched.within; omega)
  rw [storable,unknown,matched.storable_drop wf,← matched.unknown_iff wf] at appends
  rw [← appends]
  refine exists_congr fun id => exists_congr fun final => ?_
  rw [loads,List.append_assoc,List.take_append_drop]
  simp only [claim,bind,Except.bind,head]

/-- A prepared input with new message ids can be appended exactly when no id
    or runtime event of it stands for another message, and every checkpoint
    that already holds a part of it was reached one message at a time. -/
theorem prepared_appends (injective : Function.Injective (message_digest : List CanonicalMessage → Digest))
    (ops : List Op) (prepared : RunClaim) (additions : List CanonicalMessage)
    (fresh : (replay ops : Tables Digest).runs prepared.run_id = none)
    (belongs : Belongs (replay ops : Tables Digest) prepared.conversation_id prepared.base_checkpoint_id)
    (distinct : (additions.map (·.message_id)).Nodup)
    (newIds : ∀ m ∈ additions, ∀ stored ∈ load_checkpoint_messages (replay ops : Tables Digest) prepared.base_checkpoint_id,
      stored.message_id ≠ m.message_id) :
    (∃ id after, startPrepared (replay ops : Tables Digest) prepared additions = .ok (id,after) ∧ load_checkpoint_messages after id =
          load_checkpoint_messages (replay ops : Tables Digest) prepared.base_checkpoint_id ++ additions) ↔
      Storable (replay ops : Tables Digest) prepared.conversation_id additions ∧
        SingleSteps (replay ops : Tables Digest) prepared.conversation_id
          (load_checkpoint_messages (replay ops : Tables Digest) prepared.base_checkpoint_id) additions :=
  startPrepared_succeeds (replay_consistent ops) injective prepared additions fresh belongs distinct newIds

section Identity
local instance : MessageHash (List CanonicalMessage) := ⟨id⟩

def firstMessage : CanonicalMessage := text "first" .User .User "one"
def secondMessage : CanonicalMessage := text "second" .User .User "two"
def newRun (base_checkpoint_id : Nat) : RunClaim :=
  { run_id := "run", cursor_request_id := none, conversation_id := "c", kind := .Root, base_checkpoint_id }

/-- After an import of two messages at once, the same two messages cannot be
    appended to the root again. -/
theorem prepared_after_import :
    matchCheckpointPrefix (replay [.import_checkpoint "c" [firstMessage,secondMessage]] : Tables (List CanonicalMessage))
        "c" 1 [firstMessage,secondMessage] = (1,0) ∧
      ∃ e, startPrepared (replay [.import_checkpoint "c" [firstMessage,secondMessage]] : Tables (List CanonicalMessage))
        (newRun 1) [firstMessage,secondMessage] = .error e ∧
        e = .Store "active append would reuse an existing checkpoint instead of creating a child" := by
  exact ⟨rfl,_,rfl,rfl⟩
def earlierRun : List Op :=
  [.ensure_conversation "c",.claim_run { newRun 1 with run_id := "earlier" },
   .append_message_once "c" "earlier" 1 firstMessage]

/-- A retry of an input that was appended one by one goes through. -/
theorem prepared_appends_retry : ∃ id after, startPrepared (replay earlierRun : Tables (List CanonicalMessage)) (newRun 1)
        [firstMessage,secondMessage] = .ok (id,after) ∧
      load_checkpoint_messages after id =
        load_checkpoint_messages (replay earlierRun : Tables (List CanonicalMessage)) 1 ++ [firstMessage,secondMessage] := by
  have messages : (replay earlierRun : Tables (List CanonicalMessage)).messages = [⟨"c",firstMessage⟩] := rfl
  have checkpoints : (replay earlierRun : Tables (List CanonicalMessage)).checkpoints =
      [⟨1,"c",none,[],[]⟩,⟨2,"c",some 1,[firstMessage],["first"]⟩] := rfl
  have root : load_checkpoint_messages (replay earlierRun : Tables (List CanonicalMessage)) 1 = [] := rfl
  have different : sameIdentity firstMessage secondMessage = false ∧ sameIdentity secondMessage firstMessage = false := by
    decide
  refine (prepared_appends (fun _ _ same => same) earlierRun (newRun 1) [firstMessage,secondMessage] rfl ?_ (by decide)
    ?_).mpr ⟨⟨?_,?_⟩,?_⟩
  · exact ⟨⟨1,"c",none,[],[]⟩,by simp [checkpoints],rfl,rfl⟩
  · intro m _ stored loaded
    simp [newRun,root] at loaded
  · rw [messages]
    simp [different]
  · simp [different]
  · intro row member owner j positive within loads
    rw [checkpoints] at member
    simp only [List.mem_cons,List.not_mem_nil,or_false] at member
    rcases member with rfl | rfl
    · simp only [newRun,root,List.nil_append] at loads
      have := congrArg List.length loads
      simp at this
      omega
    · rfl
end Identity

end MyCursor.StorePrepared

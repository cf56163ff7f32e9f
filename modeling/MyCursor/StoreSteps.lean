import MyCursor.Store
import Mathlib.Data.List.Nodup
import Mathlib.Logic.Relation
import Mathlib.Tactic.Common
import Mathlib.Order.Basic

/-!
# What a transaction writes

The invariant that the tables keep, and the few kinds of writes every
transaction is made of. Later modules prove their invariants write by write.
-/
namespace MyCursor.StoreSteps
open Message Store
set_option linter.unusedSectionVars false

variable {Digest : Type} [DecidableEq Digest] [MessageHash Digest]

theorem bind_ok {α β : Type} {x : Except Error α} {f : α → Except Error β} {b : β} :
    (x >>= f) = .ok b ↔ ∃ a, x = .ok a ∧ f a = .ok b := by
  cases x <;> simp [bind,Except.bind]

/-- The id is that of a checkpoint of the conversation. -/
def Belongs (s : Tables Digest) (c : ConversationId) (id : Nat) : Prop :=
  ∃ row ∈ s.checkpoints, row.checkpoint_id = id ∧ row.conversation_id = c
/-- In a conversation no two messages share an id or a runtime event. -/
def UniqueMessages (s : Tables Digest) : Prop :=
  ∀ a ∈ s.messages, ∀ b ∈ s.messages, a.conversation_id = b.conversation_id → sameIdentity a.message b.message → a = b

/-- The tables are a forest of checkpoints over stored messages: what loading
    a checkpoint relies on. -/
structure Forest (s : Tables Digest) : Prop where
  ids : ∀ i row, s.checkpoints[i]? = some row → row.checkpoint_id = i + 1
  parents : ∀ row ∈ s.checkpoints, ∀ p, row.parent_checkpoint_id = some p → p < row.checkpoint_id ∧ Belongs s row.conversation_id p
  roots : ∀ row ∈ s.checkpoints, row.parent_checkpoint_id = none → row.message_ids = []
  messages : UniqueMessages s
  resolved : ∀ row ∈ s.checkpoints, ∀ id ∈ row.message_ids, ∃ m, ⟨row.conversation_id,m⟩ ∈ s.messages ∧ m.message_id = id

/-- Moreover, every conversation has a current checkpoint and a root, and a
    checkpoint's digest is that of what it loads to, once per conversation. -/
structure WellFormed (s : Tables Digest) : Prop extends Forest s where
  known : ∀ row ∈ s.checkpoints, (s.conversations row.conversation_id).isSome
  current : ∀ c conversation, s.conversations c = some conversation → ∃ id, conversation.current_checkpoint_id = some id ∧ Belongs s c id
  rooted : ∀ c, (s.conversations c).isSome → ∃ row ∈ s.checkpoints, row.conversation_id = c ∧ row.parent_checkpoint_id = none
  digests : ∀ row ∈ s.checkpoints, row.state_digest = message_digest (load_checkpoint_messages s row.checkpoint_id)
  distinct : ∀ a ∈ s.checkpoints, ∀ b ∈ s.checkpoints, a.conversation_id = b.conversation_id → a.state_digest = b.state_digest → a = b

/-! ## Looking up messages and checkpoints -/

variable {s : Tables Digest} {c : ConversationId} {row : CheckpointRow Digest} {digest : Digest}

theorem sameIdentity_iff {a b : CanonicalMessage} : sameIdentity a b = true ↔
      b.message_id = a.message_id ∨ (a.runtime_event_id.isSome ∧ b.runtime_event_id = a.runtime_event_id) := by
  simp [sameIdentity]
theorem sameIdentity_comm {a b : CanonicalMessage} : sameIdentity a b = true ↔ sameIdentity b a = true := by
  rw [sameIdentity_iff,sameIdentity_iff]
  constructor
  · rintro (same | ⟨some,same⟩)
    · exact .inl same.symm
    · exact .inr ⟨same ▸ some,same.symm⟩
  · rintro (same | ⟨some,same⟩)
    · exact .inl same.symm
    · exact .inr ⟨same ▸ some,same.symm⟩

theorem message_iff (unique : UniqueMessages s) {id : String}
    {m : CanonicalMessage} : message s c id = some m ↔ ⟨c,m⟩ ∈ s.messages ∧ m.message_id = id := by
  simp only [message,Option.map_eq_some_iff]
  constructor
  · rintro ⟨row,found,rfl⟩
    have member := List.mem_of_find?_eq_some found
    have holds := List.find?_some found
    simp only [decide_eq_true_eq] at holds
    obtain ⟨rfl,named⟩ := holds
    exact ⟨member,named⟩
  · rintro ⟨member,named⟩
    cases found : s.messages.find? (fun row => row.conversation_id = c ∧ row.message.message_id = id) with
    | none =>
      have := List.find?_eq_none.mp found _ member
      simp [named] at this
    | some row =>
      have holds := List.find?_some found
      simp only [decide_eq_true_eq] at holds
      have same := unique _ (List.mem_of_find?_eq_some found) _ member holds.1
        (sameIdentity_iff.mpr (.inl (named.trans holds.2.symm)))
      exact ⟨row,rfl,by rw [same]⟩

theorem Forest.id_pos (forest : Forest s)
    (member : row ∈ s.checkpoints) : 0 < row.checkpoint_id ∧ row.checkpoint_id ≤ s.checkpoints.length := by
  obtain ⟨i,bound,rfl⟩ := List.getElem_of_mem member
  have := forest.ids i _ (List.getElem?_eq_getElem bound)
  omega
theorem Forest.same_row (forest : Forest s) {a b : CheckpointRow Digest}
    (aMember : a ∈ s.checkpoints) (bMember : b ∈ s.checkpoints) (same : a.checkpoint_id = b.checkpoint_id) : a = b := by
  obtain ⟨i,iBound,rfl⟩ := List.getElem_of_mem aMember
  obtain ⟨j,jBound,rfl⟩ := List.getElem_of_mem bMember
  have := forest.ids i _ (List.getElem?_eq_getElem iBound)
  have := forest.ids j _ (List.getElem?_eq_getElem jBound)
  have : i = j := by omega
  subst this
  rfl
theorem Forest.checkpointRow_of_mem (forest : Forest s)
    (member : row ∈ s.checkpoints) : checkpointRow s row.checkpoint_id = some row := by
  cases found : checkpointRow s row.checkpoint_id with
  | none =>
    have := List.find?_eq_none.mp found row member
    simp at this
  | some other =>
    have holds := List.find?_some found
    simp only [decide_eq_true_eq] at holds
    rw [forest.same_row (List.mem_of_find?_eq_some found) member holds]
theorem checkpointRow_mem {id : Nat} (found : checkpointRow s id = some row) : row ∈ s.checkpoints ∧ row.checkpoint_id = id :=
  ⟨List.mem_of_find?_eq_some found,by simpa using List.find?_some found⟩

theorem checkpointByDigest_some {id : Nat} (found : checkpointByDigest s c digest = some id) :
    ∃ row ∈ s.checkpoints, row.checkpoint_id = id ∧ row.conversation_id = c ∧ row.state_digest = digest := by
  simp only [checkpointByDigest,Option.map_eq_some_iff] at found
  obtain ⟨row,found,rfl⟩ := found
  have holds := List.find?_some found
  simp only [decide_eq_true_eq] at holds
  exact ⟨row,List.mem_of_find?_eq_some found,rfl,holds⟩
theorem checkpointByDigest_none :
    checkpointByDigest s c digest = none ↔ ∀ row ∈ s.checkpoints, row.conversation_id = c → row.state_digest ≠ digest := by
  simp [checkpointByDigest]

theorem Forest.loadLineage_eq (forest : Forest s) : ∀ id depth, id < depth → loadLineage s depth id = load_checkpoint_messages s id := by
  intro id
  induction id using Nat.strongRecOn with
  | ind id ih =>
    intro depth deep
    obtain ⟨depth,rfl⟩ : ∃ d, depth = d + 1 := ⟨depth - 1,by omega⟩
    simp only [load_checkpoint_messages,loadLineage]
    cases found : checkpointRow s id with
    | none => rfl
    | some row =>
      obtain ⟨member,rfl⟩ := checkpointRow_mem found
      cases parent : row.parent_checkpoint_id with
      | none => simp only [parent]
      | some p =>
        have older := (forest.parents row member p parent).1
        simp only [parent,ih p older depth (by omega),ih p older row.checkpoint_id older]

def parentMessages (s : Tables Digest) (row : CheckpointRow Digest) : List CanonicalMessage :=
  match row.parent_checkpoint_id with
  | none => []
  | some parent => load_checkpoint_messages s parent

theorem Forest.load_eq (forest : Forest s) (member : row ∈ s.checkpoints) :
    load_checkpoint_messages s row.checkpoint_id = parentMessages s row ++ addedMessages s row := by
  have found := forest.checkpointRow_of_mem member
  rw [load_checkpoint_messages]
  simp only [loadLineage,found,parentMessages]
  cases parent : row.parent_checkpoint_id with
  | none => rfl
  | some p => simp only [forest.loadLineage_eq p _ (forest.parents row member p parent).1]

theorem Forest.addedMessages_ids (forest : Forest s)
    (member : row ∈ s.checkpoints) : (addedMessages s row).map (·.message_id) = row.message_ids := by
  have resolved := forest.resolved row member
  simp only [addedMessages]
  revert resolved
  induction row.message_ids with
  | nil => intro _; rfl
  | cons id rest ih =>
    intro resolved
    obtain ⟨m,stored,named⟩ := resolved id (by simp)
    have found := (message_iff forest.messages).mpr ⟨stored,named⟩
    simp [found,named,ih fun id later => resolved id (List.mem_cons_of_mem _ later)]

theorem Forest.load_root (forest : Forest s) (member : row ∈ s.checkpoints) (root : row.parent_checkpoint_id = none) :
    load_checkpoint_messages s row.checkpoint_id = [] := by
  rw [forest.load_eq member]
  simp [parentMessages,root,addedMessages,forest.roots row member root]

/-- Rows are only added: every checkpoint row and every stored message stays. -/
structure Extends (s after : Tables Digest) : Prop where
  checkpoints : s.checkpoints <+: after.checkpoints
  messages : s.messages <+: after.messages

theorem Extends.refl (s : Tables Digest) : Extends s s := ⟨List.prefix_rfl,List.prefix_rfl⟩
theorem Extends.trans {a b c : Tables Digest} (first : Extends a b) (second : Extends b c) : Extends a c :=
  ⟨first.checkpoints.trans second.checkpoints,first.messages.trans second.messages⟩

theorem find?_of_longer {α : Type} {p : α → Bool} {l l' : List α} {a : α} (longer : l <+: l')
    (found : l.find? p = some a) : l'.find? p = some a := by
  obtain ⟨more,rfl⟩ := longer
  simp [List.find?_append,found]

variable {after : Tables Digest}

theorem Extends.message (extends_ : Extends s after) {id : String}
    {m : CanonicalMessage} (stored : Store.message s c id = some m) : Store.message after c id = some m := by
  simp only [Store.message,Option.map_eq_some_iff] at *
  obtain ⟨row,found,rfl⟩ := stored
  exact ⟨row,find?_of_longer extends_.messages found,rfl⟩
theorem Extends.belongs (extends_ : Extends s after) {id : Nat} (belongs : Belongs s c id) : Belongs after c id := by
  obtain ⟨row,member,facts⟩ := belongs
  exact ⟨row,extends_.checkpoints.subset member,facts⟩

theorem Forest.addedMessages_stable (forest : Forest s) (extends_ : Extends s after)
    (member : row ∈ s.checkpoints) : addedMessages after row = addedMessages s row := by
  have resolved := forest.resolved row member
  simp only [addedMessages]
  revert resolved
  induction row.message_ids with
  | nil => intro _; rfl
  | cons id rest ih =>
    intro resolved
    obtain ⟨m,stored,named⟩ := resolved id (by simp)
    have found := (message_iff forest.messages).mpr ⟨stored,named⟩
    have later := ih fun id more => resolved id (List.mem_cons_of_mem _ more)
    simp [found,extends_.message found,later]

theorem Forest.load_stable (forest : Forest s) (extends_ : Extends s after) : ∀ id, (∃ row ∈ s.checkpoints, row.checkpoint_id = id) →
      load_checkpoint_messages after id = load_checkpoint_messages s id := by
  -- The induction is on the depth of the query; a lineage stays inside the old rows.
  have stable : ∀ depth id, (∃ row ∈ s.checkpoints, row.checkpoint_id = id) → loadLineage after depth id = loadLineage s depth id := by
    intro depth
    induction depth with
    | zero => intro id _; rfl
    | succ depth ih =>
      rintro id ⟨row,member,rfl⟩
      have found := forest.checkpointRow_of_mem member
      have foundAfter : checkpointRow after row.checkpoint_id = some row := find?_of_longer extends_.checkpoints found
      simp only [loadLineage,found,foundAfter,forest.addedMessages_stable extends_ member]
      cases parent : row.parent_checkpoint_id with
      | none => rfl
      | some p =>
        obtain ⟨_,older,olderMember,named,_⟩ := forest.parents row member p parent
        simp only [ih p ⟨older,olderMember,named⟩]
  intro id existing
  exact stable _ _ existing

theorem put_message_ok {m : CanonicalMessage} (put : put_message_tx s c m = .ok after) : (after = s ∧ ⟨c,m⟩ ∈ s.messages) ∨
      (after = { s with messages := s.messages ++ [⟨c,m⟩] } ∧
        ∀ row ∈ s.messages, row.conversation_id = c → ¬ sameIdentity m row.message) := by
  unfold put_message_tx at put
  split at put
  · rename_i absent
    right
    refine ⟨by simpa using put.symm,?_⟩
    intro row member same identity
    have := List.find?_eq_none.mp absent row member
    simp [same,identity] at this
  · rename_i existing found
    have member := List.mem_of_find?_eq_some found
    have holds := List.find?_some found
    simp only [decide_eq_true_eq] at holds
    split_ifs at put with same
    left
    refine ⟨by simpa using put.symm,?_⟩
    rw [← holds.1,← same]
    exact member

theorem uniqueMessages_add (unique : UniqueMessages s) {m : CanonicalMessage}
    (fresh : ∀ row ∈ s.messages, row.conversation_id = c → ¬ sameIdentity m row.message) :
    UniqueMessages { s with messages := s.messages ++ [⟨c,m⟩] } := by
  intro a aMember b bMember same identity
  rcases List.mem_append.mp aMember with aOld | aNew <;> rcases List.mem_append.mp bMember with bOld | bNew
  · exact unique a aOld b bOld same identity
  · rw [List.mem_singleton] at bNew
    subst bNew
    exact absurd (sameIdentity_comm.mp identity) (fresh a aOld same)
  · rw [List.mem_singleton] at aNew
    subst aNew
    exact absurd identity (fresh b bOld same.symm)
  · rw [List.mem_singleton] at aNew bNew
    rw [aNew,bNew]

/-- Storing messages only adds rows, keeps identities unique, and every given
    message is then stored. -/
structure MessagesPut (s : Tables Digest) (c : ConversationId) (ms : List CanonicalMessage) (after : Tables Digest) : Prop where
  rows : ∃ fresh, after = { s with messages := s.messages ++ fresh }
  unique : UniqueMessages after
  stored : ∀ m ∈ ms, ⟨c,m⟩ ∈ after.messages
  only : ∀ row ∈ after.messages, row ∈ s.messages ∨ ∃ m ∈ ms, row = ⟨c,m⟩

theorem putMessages_ok {ms : List CanonicalMessage} :
    ∀ {s after : Tables Digest}, UniqueMessages s → putMessages s c ms = .ok after → MessagesPut s c ms after := by
  induction ms with
  | nil =>
    intro s after unique put
    simp only [putMessages,Except.ok.injEq] at put
    subst put
    exact ⟨⟨[],by simp⟩,unique,by simp,fun row member => .inl member⟩
  | cons m rest ih =>
    intro s after unique put
    obtain ⟨middle,first,later⟩ := bind_ok.mp put
    rcases put_message_ok first with ⟨rfl,present⟩ | ⟨rfl,fresh⟩
    · obtain ⟨⟨rows,rfl⟩,uniqueAfter,stored,only⟩ := ih unique later
      refine ⟨⟨rows,rfl⟩,uniqueAfter,?_,?_⟩
      · intro m' member
        rcases List.mem_cons.mp member with rfl | more
        · exact List.mem_append_left _ present
        · exact stored m' more
      · intro row member
        exact (only row member).imp_right fun ⟨m',more,same⟩ => ⟨m',List.mem_cons_of_mem _ more,same⟩
    · obtain ⟨⟨rows,rfl⟩,uniqueAfter,stored,only⟩ := ih (uniqueMessages_add unique fresh) later
      refine ⟨⟨⟨c,m⟩ :: rows,by simp⟩,uniqueAfter,?_,?_⟩
      · intro m' member
        rcases List.mem_cons.mp member with rfl | more
        · simp
        · exact stored m' more
      · intro row member
        rcases only row member with earlier | ⟨m',more,same⟩
        · rcases List.mem_append.mp earlier with old | new
          · exact .inl old
          · exact .inr ⟨m,by simp,List.mem_singleton.mp new⟩
        · exact .inr ⟨m',List.mem_cons_of_mem _ more,same⟩

theorem MessagesPut.extends_ {ms : List CanonicalMessage} (put : MessagesPut s c ms after) : Extends s after := by
  obtain ⟨fresh,rfl⟩ := put.rows
  exact ⟨List.prefix_rfl,List.prefix_append _ _⟩
theorem MessagesPut.forest {ms : List CanonicalMessage} (put : MessagesPut s c ms after) (forest : Forest s) : Forest after := by
  have unique := put.unique
  obtain ⟨fresh,rfl⟩ := put.rows
  refine ⟨forest.ids,forest.parents,forest.roots,unique,?_⟩
  intro row member id named
  obtain ⟨m,stored,facts⟩ := forest.resolved row member id named
  exact ⟨m,List.mem_append_left _ stored,facts⟩

/-! ## Adding a checkpoint row -/

variable {parent : Option Nat} {message_ids : List String}

theorem insertCheckpointRow_ok {id : Nat} (inserted : insertCheckpointRow s c parent digest message_ids = .ok (id,after)) :
    checkpointByDigest s c digest = none ∧ message_ids.Nodup ∧ id = s.checkpoints.length + 1 ∧
      after = { s with checkpoints := s.checkpoints ++ [⟨id,c,parent,digest,message_ids⟩] } := by
  unfold insertCheckpointRow at inserted
  split_ifs at inserted with taken distinct
  simp only [Except.ok.injEq,Prod.mk.injEq] at inserted
  obtain ⟨rfl,rfl⟩ := inserted
  exact ⟨by simpa using taken,distinct,rfl,rfl⟩

/-- The tables with one more checkpoint row, with the next row id. -/
def addRow (s : Tables Digest) (c : ConversationId) (parent : Option Nat) (digest : Digest) (message_ids : List String) : Tables Digest :=
  { s with checkpoints := s.checkpoints ++ [⟨s.checkpoints.length + 1,c,parent,digest,message_ids⟩] }

theorem addRow_extends (s : Tables Digest) (c : ConversationId) (parent : Option Nat) (digest : Digest)
    (message_ids : List String) : Extends s (addRow s c parent digest message_ids) :=
  ⟨List.prefix_append _ _,List.prefix_rfl⟩
theorem mem_addRow : row ∈ (addRow s c parent digest message_ids).checkpoints ↔
      row ∈ s.checkpoints ∨ row = ⟨s.checkpoints.length + 1,c,parent,digest,message_ids⟩ := by
  simp [addRow]

theorem Forest.with_row (forest : Forest s) (parentBelongs : ∀ p, parent = some p → Belongs s c p)
    (root : parent = none → message_ids = []) (stored : ∀ id ∈ message_ids, ∃ m, ⟨c,m⟩ ∈ s.messages ∧ m.message_id = id) :
    Forest (addRow s c parent digest message_ids) := by
  have extends_ := addRow_extends s c parent digest message_ids
  refine ⟨?_,?_,?_,forest.messages,?_⟩
  · intro i row at_i
    simp only [addRow,List.getElem?_append] at at_i
    split_ifs at at_i with old
    · exact forest.ids i row at_i
    · have last : i - s.checkpoints.length = 0 := by
        by_contra beyond
        rw [List.getElem?_eq_none (by simpa using Nat.one_le_iff_ne_zero.mpr beyond)] at at_i
        exact absurd at_i (by simp)
      rw [last] at at_i
      simp only [List.getElem?_cons_zero,Option.some.injEq] at at_i
      subst at_i
      simp only
      omega
  · intro row member p isParent
    rcases mem_addRow.mp member with old | rfl
    · obtain ⟨older,belongs⟩ := forest.parents row old p isParent
      exact ⟨older,extends_.belongs belongs⟩
    · have belongs := parentBelongs p isParent
      obtain ⟨parentRow,parentMember,named,_⟩ := belongs
      have bound := (forest.id_pos parentMember).2
      refine ⟨?_,extends_.belongs (parentBelongs p isParent)⟩
      simp only
      omega
  · intro row member isRoot
    rcases mem_addRow.mp member with old | rfl
    · exact forest.roots row old isRoot
    · exact root isRoot
  · intro row member id named
    rcases mem_addRow.mp member with old | rfl
    · exact forest.resolved row old id named
    · exact stored id named

variable {additions : List CanonicalMessage}

theorem Forest.load_new (forest : Forest s) {parent : Nat} (digest : Digest)
    (parentBelongs : Belongs s c parent) (stored : ∀ m ∈ additions, ⟨c,m⟩ ∈ s.messages) :
    load_checkpoint_messages (addRow s c (some parent) digest (additions.map (·.message_id))) (s.checkpoints.length + 1) =
      load_checkpoint_messages s parent ++ additions := by
  have grown : Forest (addRow s c (some parent) digest (additions.map (·.message_id))) := by
    refine forest.with_row ?_ (by simp) ?_
    · rintro p ⟨⟩
      exact parentBelongs
    · intro id named
      obtain ⟨m,member,rfl⟩ := List.mem_map.mp named
      exact ⟨m,stored m member,rfl⟩
  have loaded := grown.load_eq (mem_addRow.mpr (.inr rfl))
  have old : load_checkpoint_messages (addRow s c (some parent) digest (additions.map (·.message_id))) parent =
      load_checkpoint_messages s parent := by
    obtain ⟨row,member,named,_⟩ := parentBelongs
    exact forest.load_stable (addRow_extends ..) parent ⟨row,member,named⟩
  simp only [parentMessages,old] at loaded
  rw [loaded]
  congr 1
  simp only [addedMessages,List.filterMap_map]
  have found : ∀ m ∈ additions, (Store.message (addRow s c (some parent) digest
      (additions.map (·.message_id))) c ∘ (·.message_id)) m = some m := by
    intro m member
    exact (message_iff grown.messages).mpr ⟨stored m member,rfl⟩
  rw [List.filterMap_congr found]
  simp

def setHeadCheckpoint (checkpoint : Nat) (run : RunRow) : RunRow := { run with head_checkpoint_id := checkpoint }

inductive Write (s : Tables Digest) : Tables Digest → Prop where
  /-- A new conversation with its root checkpoint. -/
  | root {c : ConversationId} (missing : s.conversations c = none) :
    Write s (setConversation (addRow s c none (message_digest []) []) c ⟨some (s.checkpoints.length + 1),none⟩)
  /-- A new child of a checkpoint. -/
  | checkpoint {c : ConversationId} {parent : Nat} {additions : List CanonicalMessage} {middle : Tables Digest}
      (belongs : Belongs s c parent) (put : putMessages s c additions = .ok middle)
      (fresh : checkpointByDigest s c (message_digest (load_checkpoint_messages s parent ++ additions)) = none)
      (distinct : (additions.map (·.message_id)).Nodup) :
    Write s (addRow middle c (some parent) (message_digest (load_checkpoint_messages s parent ++ additions))
      (additions.map (·.message_id)))
  /-- The head of a conversation moves together with that of its active run. -/
  | head {c : ConversationId} {r : RunId} {conversation : ConversationRow} {checkpoint : Nat}
      (found : s.conversations c = some conversation) (active : conversation.active_run_id = some r)
      (belongs : Belongs s c checkpoint) :
    Write s (updateRun (setConversation s c { conversation with current_checkpoint_id := some checkpoint }) r
      (setHeadCheckpoint checkpoint))
  /-- A new run takes over its conversation. -/
  | claim {c : ConversationId} {r : RunId} {conversation : ConversationRow} {run : RunRow}
      (found : s.conversations c = some conversation) (fresh : s.runs r = none) (owner : run.conversation_id = c)
      (running : run.status = .Running) (belongs : Belongs s c run.head_checkpoint_id) :
    Write s (setConversation
      { cancelReplaced s r conversation.active_run_id with
        runs := Function.update (cancelReplaced s r conversation.active_run_id).runs r (some run) }
      c ⟨some run.head_checkpoint_id,some r⟩)
  /-- A change of a run that leaves its ownership alone. -/
  | run {r : RunId} {change : RunRow → RunRow}
      (keeps : ∀ run, (change run).conversation_id = run.conversation_id ∧ (change run).status = run.status ∧
        (change run).head_checkpoint_id = run.head_checkpoint_id) :
    Write s (updateRun s r change)
  /-- The active run ends and releases its conversation. -/
  | finish {r : RunId} {run : RunRow} {conversation : ConversationRow} {change : RunRow → RunRow}
      (found : s.runs r = some run) (owned : s.conversations run.conversation_id = some conversation)
      (active : conversation.active_run_id = some r)
      (ended : ∀ run, (change run).status ≠ .Running ∧ (change run).conversation_id = run.conversation_id) :
    Write s (setConversation (updateRun s r change) run.conversation_id { conversation with active_run_id := none })
  /-- A change of tool rounds only. -/
  | rounds (tool_rounds : ToolRoundId → Option ToolRoundRow) : Write s { s with tool_rounds := tool_rounds }

def Writes : Tables Digest → Tables Digest → Prop := Relation.ReflTransGen Write

theorem load_congr (checkpoints : after.checkpoints = s.checkpoints) (messages : after.messages = s.messages) (id : Nat) :
    load_checkpoint_messages after id = load_checkpoint_messages s id := by
  have same : ∀ depth id, loadLineage after depth id = loadLineage s depth id := by
    intro depth
    induction depth with
    | zero => intro id; rfl
    | succ depth ih =>
      intro id
      have message : Store.message after = Store.message s := by
        funext c id
        simp only [Store.message,messages]
      simp only [loadLineage,checkpointRow,addedMessages,checkpoints,message,ih]
  exact same _ _

/-- A write that leaves checkpoints and messages alone only has to keep the
    current checkpoints. -/
theorem WellFormed.of_rows (wf : WellFormed s) (checkpoints : after.checkpoints = s.checkpoints) (messages : after.messages = s.messages)
    (known : ∀ c, (after.conversations c).isSome ↔ (s.conversations c).isSome)
    (current : ∀ c conversation, after.conversations c = some conversation →
      ∃ id, conversation.current_checkpoint_id = some id ∧ Belongs s c id) : WellFormed after := by
  have belongs : ∀ c id, Belongs after c id ↔ Belongs s c id := by simp [Belongs,checkpoints]
  refine { ids := ?_, parents := ?_, roots := ?_, messages := ?_, resolved := ?_, known := ?_, current := ?_,
           rooted := ?_, digests := ?_, distinct := ?_ }
  · rw [checkpoints]; exact wf.ids
  · simp only [checkpoints,belongs]; exact wf.parents
  · rw [checkpoints]; exact wf.roots
  · simp only [UniqueMessages,messages]; exact wf.messages
  · rw [checkpoints,messages]; exact wf.resolved
  · rw [checkpoints]
    intro row member
    exact (known _).mpr (wf.known row member)
  · simp only [belongs]; exact current
  · rw [checkpoints]
    intro c some
    exact wf.rooted c ((known c).mp some)
  · rw [checkpoints]
    intro row member
    rw [load_congr checkpoints messages]
    exact wf.digests row member
  · rw [checkpoints]; exact wf.distinct

theorem setConversation_isSome (row : ConversationRow) (present : (s.conversations c).isSome) (c' : ConversationId) :
    ((setConversation s c row).conversations c').isSome ↔ (s.conversations c').isSome := by
  by_cases same : c' = c
  · subst same
    simp [setConversation,present]
  · simp [setConversation,same]

/-- Setting the row of a known conversation keeps the invariant when its new
    current checkpoint belongs to it. -/
theorem WellFormed.of_conversation (wf : WellFormed s)
    {conversation : ConversationRow} (row : ConversationRow) {id : Nat} (found : s.conversations c = some conversation)
    (checkpoints : after.checkpoints = s.checkpoints) (messages : after.messages = s.messages)
    (conversations : after.conversations = Function.update s.conversations c (some row))
    (current : row.current_checkpoint_id = some id) (belongs : Belongs s c id) : WellFormed after := by
  refine wf.of_rows checkpoints messages ?_ ?_
  · intro c'
    rw [conversations]
    exact setConversation_isSome row (by simp [found]) c'
  · intro c' conversation' present
    rw [conversations] at present
    by_cases same : c' = c
    · subst same
      simp only [Function.update_self,Option.some.injEq] at present
      exact ⟨id,present ▸ current,belongs⟩
    · rw [Function.update_of_ne same] at present
      exact wf.current c' conversation' present

theorem cancelReplaced_rows (s : Tables Digest) (r : RunId) (replaced : Option RunId) :
    (cancelReplaced s r replaced).checkpoints = s.checkpoints ∧ (cancelReplaced s r replaced).messages = s.messages ∧
      (cancelReplaced s r replaced).conversations = s.conversations ∧
      (cancelReplaced s r replaced).tool_rounds = s.tool_rounds := by
  cases replaced with
  | none => simp [cancelReplaced]
  | some run => by_cases same : run = r <;> simp [cancelReplaced,same,updateRun]

theorem WellFormed.with_row {middle : Tables Digest} (wf : WellFormed s) (forest : Forest after)
    (checkpoints : middle.checkpoints = s.checkpoints)
    (rows : after.checkpoints = (addRow middle c parent digest message_ids).checkpoints)
    (extends_ : Extends s after) (known : ∀ c', (after.conversations c').isSome ↔ (s.conversations c').isSome ∨ c' = c)
    (current : ∀ c' conversation, after.conversations c' = some conversation →
      ∃ id, conversation.current_checkpoint_id = some id ∧ Belongs after c' id)
    (rooted : ∃ row ∈ after.checkpoints, row.conversation_id = c ∧ row.parent_checkpoint_id = none)
    (loads : digest = message_digest (load_checkpoint_messages after (s.checkpoints.length + 1)))
    (fresh : checkpointByDigest s c digest = none) : WellFormed after := by
  have mem : ∀ row, row ∈ after.checkpoints ↔ row ∈ s.checkpoints ∨ row = ⟨s.checkpoints.length + 1,c,parent,digest,message_ids⟩ := by
    intro row
    rw [rows,mem_addRow,checkpoints]
  refine { toForest := forest, known := ?_, current := current, rooted := ?_, digests := ?_, distinct := ?_ }
  · intro row member
    rcases (mem row).mp member with old | rfl
    · exact (known _).mpr (.inl (wf.known row old))
    · exact (known _).mpr (.inr rfl)
  · intro c' present
    rcases (known c').mp present with old | rfl
    · obtain ⟨row,member,facts⟩ := wf.rooted c' old
      exact ⟨row,extends_.checkpoints.subset member,facts⟩
    · exact rooted
  · intro row member
    rcases (mem row).mp member with old | rfl
    · rw [wf.toForest.load_stable extends_ _ ⟨row,old,rfl⟩]
      exact wf.digests row old
    · exact loads
  · intro a aMember b bMember same digests
    rcases (mem a).mp aMember with aOld | rfl <;> rcases (mem b).mp bMember with bOld | rfl
    · exact wf.distinct a aOld b bOld same digests
    · exact absurd digests (checkpointByDigest_none.mp fresh a aOld same)
    · exact absurd digests.symm (checkpointByDigest_none.mp fresh b bOld same.symm)
    · rfl

theorem Write.extends_ (wf : WellFormed s) (write : Write s after) : Extends s after := by
  cases write with
  | root missing => exact ⟨List.prefix_append _ _,List.prefix_rfl⟩
  | checkpoint belongs put fresh distinct =>
    exact (putMessages_ok wf.messages put).extends_.trans (addRow_extends ..)
  | head => exact ⟨List.prefix_rfl,List.prefix_rfl⟩
  | @claim c r conversation run found fresh owner running belongs =>
    obtain ⟨checkpoints,messages,_,_⟩ := cancelReplaced_rows s r conversation.active_run_id
    exact ⟨by simp [setConversation,checkpoints],by simp [setConversation,messages]⟩
  | run => exact ⟨List.prefix_rfl,List.prefix_rfl⟩
  | finish => exact ⟨List.prefix_rfl,List.prefix_rfl⟩
  | rounds => exact ⟨List.prefix_rfl,List.prefix_rfl⟩

theorem Write.wellFormed (wf : WellFormed s) (write : Write s after) : WellFormed after := by
  have extends_ := write.extends_ wf
  cases write with
  | @root c missing =>
    have unknown : ∀ row ∈ s.checkpoints, row.conversation_id ≠ c := by
      rintro row member rfl
      have := wf.known row member
      simp [missing] at this
    have forest : Forest (addRow s c none (message_digest []) []) := wf.toForest.with_row (by simp) (by simp) (by simp)
    have grown : Forest (setConversation (addRow s c none (message_digest []) []) c
        ⟨some (s.checkpoints.length + 1),none⟩) :=
      ⟨forest.ids,forest.parents,forest.roots,forest.messages,forest.resolved⟩
    have newRow : (⟨s.checkpoints.length + 1,c,none,message_digest [],[]⟩ : CheckpointRow Digest) ∈
        (addRow s c none (message_digest []) []).checkpoints := mem_addRow.mpr (.inr rfl)
    refine wf.with_row grown rfl rfl extends_ ?_ ?_ ⟨_,newRow,rfl,rfl⟩ ?_ ?_
    · intro c'
      by_cases same : c' = c <;> simp [setConversation,addRow,same]
    · intro c' conversation found
      by_cases same : c' = c
      · subst same
        simp only [setConversation,Function.update_self,Option.some.injEq] at found
        subst found
        exact ⟨_,rfl,_,newRow,rfl,rfl⟩
      · simp only [setConversation,Function.update_of_ne same] at found
        obtain ⟨id,current,belongs⟩ := wf.current c' conversation found
        exact ⟨id,current,extends_.belongs belongs⟩
    · rw [grown.load_root newRow rfl]
    · exact checkpointByDigest_none.mpr fun row member same => absurd same (unknown row member)
  | @checkpoint c parent additions middle belongs put fresh distinct =>
    have putRows := putMessages_ok wf.messages put
    have forest := putRows.forest wf.toForest
    have middleBelongs := putRows.extends_.belongs belongs
    have stored := putRows.stored
    have old : load_checkpoint_messages middle parent = load_checkpoint_messages s parent := by
      obtain ⟨row,member,named,_⟩ := belongs
      exact wf.toForest.load_stable putRows.extends_ parent ⟨row,member,named⟩
    have loaded := forest.load_new (message_digest (load_checkpoint_messages s parent ++ additions))
      middleBelongs stored
    obtain ⟨rows,rfl⟩ := putRows.rows
    have grown : Forest (addRow { s with messages := s.messages ++ rows } c (some parent)
        (message_digest (load_checkpoint_messages s parent ++ additions)) (additions.map (·.message_id))) := by
      refine forest.with_row ?_ (by simp) ?_
      · rintro p ⟨⟩
        exact middleBelongs
      · intro id named
        obtain ⟨m,member,rfl⟩ := List.mem_map.mp named
        exact ⟨m,stored m member,rfl⟩
    obtain ⟨parentRow,parentMember,_,parentOwner⟩ := belongs
    have owned := wf.known parentRow parentMember
    rw [parentOwner] at owned
    obtain ⟨rootRow,rootMember,rootFacts⟩ := wf.rooted c owned
    refine wf.with_row grown rfl rfl extends_ ?_ ?_ ⟨rootRow,extends_.checkpoints.subset rootMember,rootFacts⟩ ?_ fresh
    · intro c'
      constructor
      · exact .inl
      · rintro (present | rfl)
        · exact present
        · exact owned
    · intro c' conversation found
      obtain ⟨id,current,belongs⟩ := wf.current c' conversation found
      exact ⟨id,current,extends_.belongs belongs⟩
    · rw [loaded,old]
  | head found active belongs => exact wf.of_conversation _ found rfl rfl rfl rfl belongs
  | @claim c r conversation run found fresh owner running belongs =>
    obtain ⟨checkpoints,messages,conversations,_⟩ := cancelReplaced_rows s r conversation.active_run_id
    refine wf.of_conversation ⟨some run.head_checkpoint_id,some r⟩ found checkpoints messages ?_ rfl belongs
    simp [setConversation,conversations]
  | run keeps => exact wf.of_rows rfl rfl (fun _ => Iff.rfl) wf.current
  | @finish r run conversation change found owned active ended =>
    obtain ⟨id,current,belongs⟩ := wf.current _ conversation owned
    exact wf.of_conversation _ owned rfl rfl rfl current belongs
  | rounds => exact wf.of_rows rfl rfl (fun _ => Iff.rfl) wf.current

theorem Writes.wellFormed (writes : Writes s after) (wf : WellFormed s) : WellFormed after := by
  induction writes with
  | refl => exact wf
  | tail _ write ih => exact write.wellFormed ih
theorem Writes.extends_ (writes : Writes s after) (wf : WellFormed s) : Extends s after := by
  induction writes with
  | refl => exact Extends.refl s
  | tail earlier write ih => exact ih.trans (write.extends_ (Writes.wellFormed earlier wf))

theorem wellFormed_empty : WellFormed (Tables.empty : Tables Digest) := by
  refine { ids := ?_, parents := ?_, roots := ?_, messages := ?_, resolved := ?_, known := ?_, current := ?_,
           rooted := ?_, digests := ?_, distinct := ?_ } <;> simp [Tables.empty,UniqueMessages]

variable {r : RunId}

/-- The active run of a conversation is running, in that conversation, and at
    its head; and a running run is the active one of its conversation. -/
structure Owned (s : Tables Digest) : Prop where
  active : ∀ c conversation r, s.conversations c = some conversation → conversation.active_run_id = some r →
    ∃ run, s.runs r = some run ∧ run.conversation_id = c ∧ run.status = .Running ∧
      conversation.current_checkpoint_id = some run.head_checkpoint_id
  running : ∀ r run, s.runs r = some run → run.status = .Running →
    ∃ conversation, s.conversations run.conversation_id = some conversation ∧ conversation.active_run_id = some r

theorem owned_empty : Owned (Tables.empty : Tables Digest) := ⟨by simp [Tables.empty],by simp [Tables.empty]⟩

theorem updateRun_of_ne {r' : RunId} (other : r' ≠ r) (change : RunRow → RunRow) : (updateRun s r change).runs r' = s.runs r' := by
  simp [updateRun,other]
theorem updateRun_self {run : RunRow} (found : s.runs r = some run)
    (change : RunRow → RunRow) : (updateRun s r change).runs r = some (change run) := by
  simp [updateRun,found]

theorem Owned.of_same (owned : Owned s) (conversations : after.conversations = s.conversations)
    (runs : after.runs = s.runs) : Owned after := by
  refine ⟨?_,?_⟩
  · rw [conversations,runs]; exact owned.active
  · rw [conversations,runs]; exact owned.running

theorem Owned.root {s after : Tables Digest} (owned : Owned s) {c : ConversationId} {id : Option Nat} (missing : s.conversations c = none)
    (conversations : after.conversations = Function.update s.conversations c (some ⟨id,none⟩))
    (runs : after.runs = s.runs) : Owned after := by
  refine ⟨?_,?_⟩
  · intro c' conversation r found active
    rw [conversations] at found
    by_cases same : c' = c
    · subst same
      simp only [Function.update_self,Option.some.injEq] at found
      subst found
      simp at active
    · rw [Function.update_of_ne same] at found
      rw [runs]
      exact owned.active c' conversation r found active
  · intro r run found running
    rw [runs] at found
    obtain ⟨conversation,present,active⟩ := owned.running r run found running
    have other : run.conversation_id ≠ c := by
      rintro rfl
      simp [missing] at present
    rw [conversations,Function.update_of_ne other]
    exact ⟨conversation,present,active⟩

theorem Owned.head (owned : Owned s) {conversation : ConversationRow} (checkpoint : Nat) (found : s.conversations c = some conversation)
    (active : conversation.active_run_id = some r) :
    Owned (updateRun (setConversation s c { conversation with current_checkpoint_id := some checkpoint }) r
      (setHeadCheckpoint checkpoint)) := by
  obtain ⟨run,runFound,runOwner,runRunning,_⟩ := owned.active c conversation r found active
  refine ⟨?_,?_⟩
  · intro c' conversation' r' found' active'
    simp only [updateRun,setConversation] at found'
    by_cases same : c' = c
    · subst same
      simp only [Function.update_self,Option.some.injEq] at found'
      subst found'
      obtain rfl : r = r' := by simpa [active] using active'
      refine ⟨_,updateRun_self runFound _,runOwner,runRunning,rfl⟩
    · rw [Function.update_of_ne same] at found'
      obtain ⟨run',found'',owner',facts⟩ := owned.active c' conversation' r' found' active'
      have other : r' ≠ r := by
        rintro rfl
        rw [runFound,Option.some.injEq] at found''
        subst found''
        exact same (owner'.symm.trans runOwner)
      exact ⟨run',(updateRun_of_ne other _).trans found'',owner',facts⟩
  · intro r' run' found' running'
    by_cases same : r' = r
    · subst same
      rw [updateRun_self (s := setConversation s c _) runFound,Option.some.injEq] at found'
      subst found'
      simp [setHeadCheckpoint,updateRun,setConversation,runOwner,active]
    · rw [updateRun_of_ne same] at found'
      obtain ⟨conversation',present,active'⟩ := owned.running r' run' found' running'
      simp only [updateRun,setConversation]
      by_cases sameConversation : run'.conversation_id = c
      · rw [sameConversation,found,Option.some.injEq] at present
        subst present
        exact absurd (Option.some.inj (active'.symm.trans active)) same
      · rw [Function.update_of_ne sameConversation]
        exact ⟨conversation',present,active'⟩

theorem cancelReplaced_runs {replaced : Option RunId} (r' : RunId)
    (other : replaced ≠ some r') : (cancelReplaced s r replaced).runs r' = s.runs r' := by
  cases replaced with
  | none => rfl
  | some run =>
    have : r' ≠ run := by rintro rfl; exact other rfl
    by_cases same : run = r <;> simp [cancelReplaced,same,updateRun_of_ne this]
theorem cancelReplaced_self {r' : RunId} (other : r' ≠ r) {run : RunRow}
    (found : s.runs r' = some run) : (cancelReplaced s r (some r')).runs r' = some (cancelRunning run) := by
  simp [cancelReplaced,other,updateRun,found]

theorem Owned.claim {s after : Tables Digest} (owned : Owned s) {c : ConversationId} {r : RunId}
    {conversation : ConversationRow} {run : RunRow} (found : s.conversations c = some conversation)
    (fresh : s.runs r = none) (owner : run.conversation_id = c) (running : run.status = .Running)
    (conversations : after.conversations = Function.update s.conversations c (some ⟨some run.head_checkpoint_id,some r⟩))
    (runs : after.runs = Function.update (cancelReplaced s r conversation.active_run_id).runs r (some run)) :
    Owned after := by
  have otherRuns : ∀ r', r' ≠ r → conversation.active_run_id ≠ some r' → after.runs r' = s.runs r' := by
    intro r' notNew notReplaced
    rw [runs,Function.update_of_ne notNew]
    exact cancelReplaced_runs r' notReplaced
  refine ⟨?_,?_⟩
  · intro c' conversation' r' found' active'
    rw [conversations] at found'
    by_cases same : c' = c
    · subst same
      simp only [Function.update_self,Option.some.injEq] at found'
      subst found'
      obtain rfl : r = r' := by simpa using active'
      exact ⟨run,by simp [runs],owner,running,rfl⟩
    · rw [Function.update_of_ne same] at found'
      obtain ⟨run',runFound,owner',facts⟩ := owned.active c' conversation' r' found' active'
      have notNew : r' ≠ r := by
        rintro rfl
        simp [fresh] at runFound
      have notReplaced : conversation.active_run_id ≠ some r' := by
        intro replaced
        obtain ⟨run'',found'',owner'',_⟩ := owned.active c conversation r' found replaced
        rw [runFound,Option.some.injEq] at found''
        subst found''
        exact same (owner'.symm.trans owner'')
      exact ⟨run',(otherRuns r' notNew notReplaced).trans runFound,owner',facts⟩
  · intro r' run' found' running'
    by_cases isNew : r' = r
    · subst isNew
      rw [runs,Function.update_self,Option.some.injEq] at found'
      subst found'
      exact ⟨_,by rw [conversations,owner,Function.update_self],rfl⟩
    · by_cases isReplaced : conversation.active_run_id = some r'
      · -- The replaced run was running, so it is now cancelled.
        obtain ⟨old,oldFound,_,oldRunning,_⟩ := owned.active c conversation r' found isReplaced
        rw [runs,Function.update_of_ne isNew,isReplaced,cancelReplaced_self isNew oldFound,Option.some.injEq] at found'
        subst found'
        simp [cancelRunning,oldRunning] at running'
      · rw [otherRuns r' isNew isReplaced] at found'
        obtain ⟨conversation',present,active'⟩ := owned.running r' run' found' running'
        have elsewhere : run'.conversation_id ≠ c := by
          intro same
          rw [same,found,Option.some.injEq] at present
          subst present
          exact isReplaced active'
        rw [conversations,Function.update_of_ne elsewhere]
        exact ⟨conversation',present,active'⟩

theorem Owned.run (owned : Owned s) {change : RunRow → RunRow}
    (keeps : ∀ run, (change run).conversation_id = run.conversation_id ∧ (change run).status = run.status ∧
      (change run).head_checkpoint_id = run.head_checkpoint_id) : Owned (updateRun s r change) := by
  refine ⟨?_,?_⟩
  · intro c conversation r' found active
    obtain ⟨run,runFound,owner,running,head⟩ := owned.active c conversation r' found active
    by_cases same : r' = r
    · subst same
      obtain ⟨sameOwner,sameStatus,sameHead⟩ := keeps run
      exact ⟨change run,updateRun_self runFound _,sameOwner.trans owner,sameStatus.trans running,by rw [head,sameHead]⟩
    · exact ⟨run,(updateRun_of_ne same _).trans runFound,owner,running,head⟩
  · intro r' run' found running
    by_cases same : r' = r
    · subst same
      simp only [updateRun,Function.update_self,Option.map_eq_some_iff] at found
      obtain ⟨run,runFound,rfl⟩ := found
      obtain ⟨sameOwner,sameStatus,_⟩ := keeps run
      rw [sameOwner]
      exact owned.running r' run runFound (sameStatus.symm.trans running)
    · rw [updateRun_of_ne same] at found
      exact owned.running r' run' found running

theorem Owned.finish {s : Tables Digest} (owned : Owned s) {r : RunId} {run : RunRow} {conversation : ConversationRow}
    {change : RunRow → RunRow} (found : s.runs r = some run)
    (present : s.conversations run.conversation_id = some conversation) (active : conversation.active_run_id = some r)
    (ended : ∀ run, (change run).status ≠ .Running ∧ (change run).conversation_id = run.conversation_id) :
    Owned (setConversation (updateRun s r change) run.conversation_id { conversation with active_run_id := none }) := by
  refine ⟨?_,?_⟩
  · intro c conversation' r' found' active'
    simp only [setConversation,updateRun] at found'
    by_cases same : c = run.conversation_id
    · subst same
      simp only [Function.update_self,Option.some.injEq] at found'
      subst found'
      simp at active'
    · rw [Function.update_of_ne same] at found'
      obtain ⟨run',runFound,owner,facts⟩ := owned.active c conversation' r' found' active'
      have other : r' ≠ r := by
        rintro rfl
        rw [found,Option.some.injEq] at runFound
        subst runFound
        exact same owner.symm
      exact ⟨run',(updateRun_of_ne other _).trans runFound,owner,facts⟩
  · intro r' run' found' running'
    have other : r' ≠ r := by
      rintro rfl
      rw [setConversation,updateRun_self found,Option.some.injEq] at found'
      subst found'
      exact (ended run).1 running'
    rw [setConversation,updateRun_of_ne other] at found'
    obtain ⟨conversation',present',active'⟩ := owned.running r' run' found' running'
    have elsewhere : run'.conversation_id ≠ run.conversation_id := by
      intro same
      rw [same,present,Option.some.injEq] at present'
      subst present'
      exact other (Option.some.inj (active'.symm.trans active))
    simp only [setConversation,updateRun]
    rw [Function.update_of_ne elsewhere]
    exact ⟨conversation',present',active'⟩

theorem Write.owned (wf : WellFormed s) (owned : Owned s) (write : Write s after) : Owned after := by
  cases write with
  | root missing => exact owned.root missing rfl rfl
  | checkpoint belongs put fresh distinct =>
    obtain ⟨rows,rfl⟩ := (putMessages_ok wf.messages put).rows
    exact owned.of_same rfl rfl
  | head found active belongs => exact owned.head _ found active
  | @claim c r conversation run found fresh owner running belongs =>
    obtain ⟨_,_,conversations,_⟩ := cancelReplaced_rows s r conversation.active_run_id
    exact owned.claim found fresh owner running (by simp only [setConversation,conversations]) rfl
  | run keeps => exact owned.run keeps
  | finish found present active ended => exact owned.finish found present active ended
  | rounds => exact owned.of_same rfl rfl

structure Consistent (s : Tables Digest) : Prop where
  wellFormed : WellFormed s
  owned : Owned s

theorem Write.consistent (consistent : Consistent s) (write : Write s after) : Consistent after :=
  ⟨write.wellFormed consistent.wellFormed,write.owned consistent.wellFormed consistent.owned⟩
theorem Writes.consistent (writes : Writes s after) (consistent : Consistent s) : Consistent after := by
  induction writes with
  | refl => exact consistent
  | tail _ write ih => exact write.consistent ih

/-! ## The transactions as writes -/

theorem consistent_empty : Consistent (Tables.empty : Tables Digest) := ⟨wellFormed_empty,owned_empty⟩

theorem Writes.single {s after : Tables Digest} (write : Write s after) : Writes s after := Relation.ReflTransGen.single write
theorem Writes.tail {s middle after : Tables Digest} (writes : Writes s middle) (write : Write middle after) :
    Writes s after := Relation.ReflTransGen.tail writes write

theorem ensure_conversation_ok (wf : WellFormed s) {id : Nat} (ensured : ensure_conversation_tx s c = .ok (id,after)) :
    (after = s ∨ Write s after ∧ s.conversations c = none) ∧
      ∃ conversation, after.conversations c = some conversation ∧ conversation.current_checkpoint_id = some id := by
  unfold ensure_conversation_tx at ensured
  cases found : s.conversations c with
  | some conversation =>
    obtain ⟨current,isCurrent,_⟩ := wf.current c conversation found
    simp only [found,Option.getD_some,isCurrent,Except.ok.injEq,Prod.mk.injEq] at ensured
    obtain ⟨rfl,rfl⟩ := ensured
    exact ⟨.inl rfl,conversation,found,isCurrent⟩
  | none =>
    simp only [found,Option.getD_none] at ensured
    obtain ⟨⟨root,middle⟩,inserted,done⟩ := bind_ok.mp ensured
    obtain ⟨_,_,rfl,rfl⟩ := insertCheckpointRow_ok inserted
    simp only [Except.ok.injEq,Prod.mk.injEq] at done
    obtain ⟨rfl,rfl⟩ := done
    exact ⟨.inr ⟨.root found,rfl⟩,⟨some (s.checkpoints.length + 1),none⟩,by simp [setConversation],rfl⟩

/-- What the insertion of a child of `parent` does. -/
structure Inserted (s : Tables Digest) (c : ConversationId) (parent : Nat) (additions : List CanonicalMessage)
    (id : Nat) (after : Tables Digest) : Prop where
  write : Write s after
  loads : load_checkpoint_messages after id = load_checkpoint_messages s parent ++ additions
  belongs : Belongs after c id
  row : after.checkpoints = s.checkpoints ++ [⟨id,c,some parent,
    message_digest (load_checkpoint_messages s parent ++ additions),additions.map (·.message_id)⟩]
  distinct : (additions.map (·.message_id)).Nodup
  messages : ∀ row, row ∈ after.messages ↔ row ∈ s.messages ∨ ∃ m ∈ additions, row = ⟨c,m⟩
  conversations : after.conversations = s.conversations
  runs : after.runs = s.runs
  tool_rounds : after.tool_rounds = s.tool_rounds

theorem insert_checkpoint_ok (wf : WellFormed s) {parent id : Nat} (belongs : Belongs s c parent)
    (inserted : insert_checkpoint_tx s c parent additions
      (message_digest (load_checkpoint_messages s parent ++ additions)) = .ok (id,after)) :
    Inserted s c parent additions id after := by
  obtain ⟨middle,put,row⟩ := bind_ok.mp inserted
  obtain ⟨fresh,distinct,rfl,rfl⟩ := insertCheckpointRow_ok row
  have putRows := putMessages_ok wf.messages put
  have old : load_checkpoint_messages middle parent = load_checkpoint_messages s parent := by
    obtain ⟨row,member,named,_⟩ := belongs
    exact wf.toForest.load_stable putRows.extends_ parent ⟨row,member,named⟩
  have loads := (putRows.forest wf.toForest).load_new
    (message_digest (load_checkpoint_messages s parent ++ additions))
    (putRows.extends_.belongs belongs) putRows.stored
  rw [old] at loads
  have messages : ∀ row, row ∈ middle.messages ↔ row ∈ s.messages ∨ ∃ m ∈ additions, row = ⟨c,m⟩ := by
    intro row
    refine ⟨putRows.only row,?_⟩
    rintro (old | ⟨m,member,rfl⟩)
    · exact putRows.extends_.messages.subset old
    · exact putRows.stored m member
  obtain ⟨rows,rfl⟩ := putRows.rows
  exact { write := .checkpoint belongs put fresh distinct, loads := loads,
          belongs := ⟨_,mem_addRow.mpr (.inr rfl),rfl,rfl⟩, row := rfl, distinct := distinct, messages := messages,
          conversations := rfl, runs := rfl, tool_rounds := rfl }

variable {expected : Nat}

theorem require_active_head_ok : require_active_head_tx s c r expected = .ok () ↔ ∃ conversation, s.conversations c = some conversation ∧
      conversation.current_checkpoint_id = some expected ∧ conversation.active_run_id = some r := by
  unfold require_active_head_tx
  cases s.conversations c with
  | none => simp
  | some conversation => simp only [Option.some.injEq,exists_eq_left']; split_ifs with owns <;> simp [owns]

/-- What moving the head of a run to a new child of `parent` does. -/
structure Appended (s : Tables Digest) (c : ConversationId) (r : RunId) (expected parent : Nat)
    (additions : List CanonicalMessage) (id : Nat) (after : Tables Digest) : Prop where
  owner : ∃ conversation, s.conversations c = some conversation ∧
    conversation.current_checkpoint_id = some expected ∧ conversation.active_run_id = some r
  written : ∃ middle conversation, Inserted s c parent additions id middle ∧ s.conversations c = some conversation ∧
    after = updateRun (setConversation middle c { conversation with current_checkpoint_id := some id }) r
      (setHeadCheckpoint id)

theorem Appended.writes {parent id : Nat} (appended : Appended s c r expected parent additions id after) : Writes s after := by
  obtain ⟨middle,conversation,inserted,found,rfl⟩ := appended.written
  obtain ⟨conversation',found',_,active⟩ := appended.owner
  rw [found,Option.some.injEq] at found'
  subst found'
  exact (Writes.single inserted.write).tail (.head (by rw [inserted.conversations,found]) active inserted.belongs)
theorem Appended.loads {parent id : Nat} (appended : Appended s c r expected parent additions id after) :
    load_checkpoint_messages after id = load_checkpoint_messages s parent ++ additions := by
  obtain ⟨middle,conversation,inserted,_,rfl⟩ := appended.written
  rw [← inserted.loads]
  apply load_congr <;> rfl

theorem insert_and_move_ok (wf : WellFormed s) {parent id : Nat} (doing : String) (belongs : Belongs s c parent)
    (owner : require_active_head_tx s c r expected = .ok ())
    (isDigest : digest = message_digest (load_checkpoint_messages s parent ++ additions)) (done : (do
      let (checkpoint,s) ← insert_checkpoint_tx s c parent additions digest
      let s ← moveHead s doing c r expected checkpoint
      .ok (checkpoint,s)) = .ok (id,after)) : Appended s c r expected parent additions id after := by
  obtain ⟨⟨checkpoint,middle⟩,insertion,moving⟩ := bind_ok.mp done
  obtain ⟨moved,move,finish⟩ := bind_ok.mp moving
  simp only [Except.ok.injEq,Prod.mk.injEq] at finish
  obtain ⟨rfl,rfl⟩ := finish
  subst isDigest
  have inserted := insert_checkpoint_ok wf belongs insertion
  obtain ⟨conversation,found,current,active⟩ := require_active_head_ok.mp owner
  refine ⟨⟨conversation,found,current,active⟩,middle,conversation,inserted,found,?_⟩
  simp only [moveHead,inserted.conversations,found,current,active,and_self,if_true,Except.ok.injEq] at move
  rw [active]
  exact move.symm

theorem WellFormed.current_belongs (wf : WellFormed s)
    (owner : require_active_head_tx s c r expected = .ok ()) : Belongs s c expected := by
  obtain ⟨conversation,found,current,_⟩ := require_active_head_ok.mp owner
  obtain ⟨id,isCurrent,belongs⟩ := wf.current c conversation found
  rw [current,Option.some.injEq] at isCurrent
  exact isCurrent ▸ belongs

theorem append_checkpoint_tx_ok (wf : WellFormed s) {id : Nat} (done : append_checkpoint_tx s c r expected additions = .ok (id,after)) :
    Appended s c r expected expected additions id after := by
  obtain ⟨_,owner,rest⟩ := bind_ok.mp done
  split_ifs at rest
  exact insert_and_move_ok wf "appending" (wf.current_belongs owner) owner rfl rest

theorem append_checkpoint_ok (wf : WellFormed s) {id : Nat} (done : append_checkpoint s c r expected additions = .ok (id,after)) :
    (additions = [] ∧ id = expected ∧ after = s) ∨ Appended s c r expected expected additions id after := by
  unfold append_checkpoint at done
  split_ifs at done with empty
  · simp only [Except.ok.injEq,Prod.mk.injEq] at done
    exact .inl ⟨List.isEmpty_iff.mp empty,done.1.symm,done.2.symm⟩
  · exact .inr (append_checkpoint_tx_ok wf done)

theorem append_message_once_ok (wf : WellFormed s) {id : Nat} {m : CanonicalMessage} {inserted : Bool}
    (done : append_message_once s c r expected m = .ok ((id,inserted),after)) :
    (m ∈ load_checkpoint_messages s expected ∧ id = expected ∧ inserted = false ∧ after = s) ∨
      ((∀ stored ∈ load_checkpoint_messages s expected, ¬ sameIdentity m stored) ∧ inserted = true ∧
        Appended s c r expected expected [m] id after) := by
  unfold append_message_once at done
  split at done
  · rename_i existing found
    split_ifs at done with same
    simp only [Except.ok.injEq,Prod.mk.injEq] at done
    obtain ⟨⟨rfl,rfl⟩,rfl⟩ := done
    exact .inl ⟨same ▸ List.mem_of_find?_eq_some found,rfl,rfl,rfl⟩
  · rename_i absent
    obtain ⟨⟨checkpoint,middle⟩,append,finish⟩ := bind_ok.mp done
    simp only [Except.ok.injEq,Prod.mk.injEq] at finish
    obtain ⟨⟨rfl,rfl⟩,rfl⟩ := finish
    refine .inr ⟨fun stored member => List.find?_eq_none.mp absent stored member,rfl,?_⟩
    rcases append_checkpoint_ok wf append with ⟨empty,_⟩ | appended
    · simp at empty
    · exact appended

theorem rootCheckpoint_some {root : Nat} (found : rootCheckpoint s c = some root) :
    ∃ row ∈ s.checkpoints, row.checkpoint_id = root ∧ row.conversation_id = c ∧ row.parent_checkpoint_id = none := by
  simp only [rootCheckpoint,Option.map_eq_some_iff] at found
  obtain ⟨row,found,rfl⟩ := found
  have holds := List.find?_some found
  simp only [decide_eq_true_eq] at holds
  exact ⟨row,List.mem_of_find?_eq_some found,rfl,holds⟩
theorem Forest.rootCheckpoint_loads (forest : Forest s) {root : Nat}
    (found : rootCheckpoint s c = some root) : Belongs s c root ∧ load_checkpoint_messages s root = [] := by
  obtain ⟨row,member,rfl,owner,isRoot⟩ := rootCheckpoint_some found
  exact ⟨⟨row,member,rfl,owner⟩,forest.load_root member isRoot⟩

theorem replace_checkpoint_ok (wf : WellFormed s) {id : Nat} {messages : List CanonicalMessage}
    (done : replace_checkpoint s c r expected messages = .ok (id,after)) :
    ∃ root, rootCheckpoint s c = some root ∧ Appended s c r expected root messages id after := by
  obtain ⟨_,owner,rest⟩ := bind_ok.mp done
  cases found : rootCheckpoint s c with
  | none => simp [found] at rest
  | some root =>
    obtain ⟨belongs,empty⟩ := wf.toForest.rootCheckpoint_loads found
    refine ⟨root,rfl,insert_and_move_ok wf "replacing" belongs owner (by rw [empty,List.nil_append]) ?_⟩
    simpa only [found] using rest

theorem WellFormed.root_found (wf : WellFormed s) (present : (s.conversations c).isSome) : ∃ root, rootCheckpoint s c = some root := by
  obtain ⟨row,member,owner,isRoot⟩ := wf.rooted c present
  cases found : rootCheckpoint s c with
  | some root => exact ⟨root,rfl⟩
  | none =>
    simp only [rootCheckpoint,Option.map_eq_none_iff] at found
    have := List.find?_eq_none.mp found row member
    simp [owner,isRoot] at this

/-- An import writes nothing beyond the root when the digest is known, and
    otherwise inserts a child of the current checkpoint or of the root. -/
theorem import_checkpoint_ok (wf : WellFormed s)
    {messages : List CanonicalMessage} {id : Nat} (done : import_checkpoint s c messages = .ok (id,after)) :
    ∃ current middle, ensure_conversation_tx s c = .ok (current,middle) ∧ Writes s middle ∧
      ((checkpointByDigest middle c (message_digest messages) = some id ∧ after = middle) ∨
        ∃ parent additions, load_checkpoint_messages middle parent ++ additions = messages ∧
          Inserted middle c parent additions id after) := by
  obtain ⟨⟨current,middle⟩,ensured,rest⟩ := bind_ok.mp done
  obtain ⟨written,conversation,found,isCurrent⟩ := ensure_conversation_ok wf ensured
  have writes : Writes s middle := by
    rcases written with rfl | ⟨write,_⟩
    · exact Relation.ReflTransGen.refl
    · exact Writes.single write
  have middleWf := writes.wellFormed wf
  refine ⟨current,middle,ensured,writes,?_⟩
  cases known : checkpointByDigest middle c (message_digest messages) with
  | some existing =>
    simp only [known,Except.ok.injEq,Prod.mk.injEq] at rest
    exact .inl ⟨by rw [rest.1],rest.2.symm⟩
  | none =>
    right
    simp only [known] at rest
    split_ifs at rest with starts
    · obtain ⟨id',isCurrent',belongs⟩ := middleWf.current c conversation found
      rw [isCurrent,Option.some.injEq] at isCurrent'
      subst isCurrent'
      have whole := List.prefix_iff_eq_append.mp starts
      exact ⟨current,_,whole,insert_checkpoint_ok middleWf belongs (by rw [whole]; exact rest)⟩
    · obtain ⟨root,isRoot⟩ := middleWf.root_found (c := c) (by simp [found])
      obtain ⟨belongs,empty⟩ := middleWf.toForest.rootCheckpoint_loads isRoot
      simp only [isRoot] at rest
      refine ⟨root,messages,by rw [empty,List.nil_append],insert_checkpoint_ok middleWf belongs ?_⟩
      rw [empty,List.nil_append]
      exact rest

theorem claim_run_ok (wf : WellFormed s) {prepared : RunClaim} {claimed : ClaimedRun}
    (done : claim_run s prepared = .ok (claimed,after)) :
    ∃ current middle, ensure_conversation_tx s prepared.conversation_id = .ok (current,middle) ∧ Writes s middle ∧
      Write middle after ∧ Belongs middle prepared.conversation_id prepared.base_checkpoint_id ∧
      after.conversations = Function.update middle.conversations prepared.conversation_id
        (some ⟨some prepared.base_checkpoint_id,some prepared.run_id⟩) ∧
      after.checkpoints = middle.checkpoints ∧ after.messages = middle.messages ∧
      after.tool_rounds = middle.tool_rounds := by
  obtain ⟨⟨current,middle⟩,ensured,rest⟩ := bind_ok.mp done
  obtain ⟨written,conversation,found,isCurrent⟩ := ensure_conversation_ok wf ensured
  have writes : Writes s middle := by
    rcases written with rfl | ⟨write,_⟩
    · exact Relation.ReflTransGen.refl
    · exact Writes.single write
  simp only [found,Option.bind_some] at rest
  split_ifs at rest with foreign taken
  simp only [Except.ok.injEq,Prod.mk.injEq] at rest
  obtain ⟨_,rfl⟩ := rest
  have belongs : Belongs middle prepared.conversation_id prepared.base_checkpoint_id := by
    simpa [Belongs] using foreign
  obtain ⟨checkpoints,messages,conversations,rounds⟩ := cancelReplaced_rows middle prepared.run_id conversation.active_run_id
  have fresh : middle.runs prepared.run_id = none := by
    by_cases replaced : conversation.active_run_id = some prepared.run_id
    · simpa [replaced,cancelReplaced] using taken
    · rw [cancelReplaced_runs _ replaced] at taken
      simpa using taken
  refine ⟨current,middle,ensured,writes,.claim found fresh rfl rfl belongs,belongs,?_,checkpoints,messages,rounds⟩
  simp only [setConversation,conversations]

theorem begin_provider_call_ok {index : Int} (done : begin_provider_call s r = .ok (index,after)) : Write s after := by
  unfold begin_provider_call at done
  split at done
  · cases done
  · split_ifs at done
    simp only [Except.ok.injEq,Prod.mk.injEq] at done
    obtain ⟨_,rfl⟩ := done
    exact .run fun _ => ⟨rfl,rfl,rfl⟩

theorem finish_run_ok (consistent : Consistent s) {status : RunStatus}
    {usage : Option Usage} {failure : Option (String × String)} {released : Bool}
    (done : finish_run s r status usage failure = .ok (released,after)) :
    (released = false ∧ after = s ∧ ∃ run, s.runs r = some run ∧ run.status ≠ .Running) ∨
      (released = true ∧ Write s after ∧ ∃ run, s.runs r = some run ∧ run.status = .Running) := by
  unfold finish_run at done
  cases found : s.runs r with
  | none => simp [found] at done
  | some run =>
    simp only [found] at done
    by_cases running : run.status = .Running
    · obtain ⟨conversation,present,active⟩ := consistent.owned.running r run found running
      simp only [running,if_true] at done
      split_ifs at done with unfinished
      simp only [updateRun,present,active,if_true,Except.ok.injEq,Prod.mk.injEq] at done
      obtain ⟨rfl,rfl⟩ := done
      exact .inr ⟨rfl,.finish found present active fun _ => ⟨unfinished,rfl⟩,run,rfl,running⟩
    · simp only [running,if_false] at done
      left
      cases present : s.conversations run.conversation_id with
      | none =>
        simp only [present,Except.ok.injEq,Prod.mk.injEq] at done
        exact ⟨done.1.symm,done.2.symm,run,rfl,running⟩
      | some conversation =>
        have notActive : conversation.active_run_id ≠ some r := by
          intro active
          obtain ⟨run',found',_,running',_⟩ := consistent.owned.active _ _ r present active
          rw [found,Option.some.injEq] at found'
          exact running (found' ▸ running')
        simp only [present,notActive,if_false,Except.ok.injEq,Prod.mk.injEq] at done
        exact ⟨done.1.symm,done.2.symm,run,rfl,running⟩

theorem create_tool_round_ok {round_id : ToolRoundId} {base : Nat}
    {assistant : ToolRoundAssistant} {calls : List ToolCall} {created_at_ms : Option Nat}
    (done : create_tool_round s round_id r base assistant calls created_at_ms = .ok ((),after)) :
    calls ≠ [] ∧ ownsHead s r base = true ∧ s.tool_rounds round_id = none ∧ (calls.map (·.call_id)).Nodup ∧
      after = setToolRound s round_id {
        run_id := r, base_checkpoint_id := base, assistant, status := .Pending, version := 0, next_completion_seq := 0,
        created_at_ms, calls := calls.map pendingCall } := by
  unfold create_tool_round at done
  split_ifs at done with empty foreign late taken indices ids
  simp only [Except.ok.injEq,Prod.mk.injEq] at done
  exact ⟨by simpa using empty,by simpa using foreign,by simpa using taken,by simpa using ids,done.2.symm⟩

/-- What a commit of a result does: the two messages are appended and the
    pending call is completed. -/
structure Committed (s : Tables Digest) (c : ConversationId) (r : RunId) (round_id : ToolRoundId) (result : ToolResult)
    (round : ToolRoundRow) (call : ToolRoundCallRow) (head : Nat) (commit : ToolCommit) (middle after : Tables Digest) :
    Prop where
  isRound : s.tool_rounds round_id = some round
  owner : round.run_id = r
  pending : round.status = .Pending
  isCall : round.calls.find? (·.call_id = result.call_id) = some call
  callPending : call.status = .Pending
  isHead : (s.runs r).map (·.head_checkpoint_id) = some head
  appended : Appended s c r head head (commitMessages round_id round call result) commit.checkpoint_id middle
  after_eq : after = setToolRound middle round_id (completeRound round result commit.checkpoint_id)
  commit_eq : commit = ⟨commit.checkpoint_id,round.version + 1,round.next_completion_seq,
    (completeRound round result commit.checkpoint_id).status = .Settled⟩

theorem commit_tool_result_ok (wf : WellFormed s) {round_id : ToolRoundId} {result : ToolResult} {commit : ToolCommit}
    (done : commit_tool_result s c r round_id result = .ok (commit,after)) :
    ∃ round call head middle, Committed s c r round_id result round call head commit middle after := by
  unfold commit_tool_result at done
  cases isRound : s.tool_rounds round_id with
  | none => simp [isRound] at done
  | some round =>
    simp only [isRound] at done
    split_ifs at done with foreign settled
    cases isCall : round.calls.find? (·.call_id = result.call_id) with
    | none => simp [isCall] at done
    | some call =>
      simp only [isCall] at done
      split_ifs at done with completed
      cases isRun : s.runs r with
      | none => simp [isRun] at done
      | some run =>
        simp only [isRun] at done
        obtain ⟨⟨checkpoint,middle⟩,append,finish⟩ := bind_ok.mp done
        simp only [Except.ok.injEq,Prod.mk.injEq] at finish
        obtain ⟨rfl,rfl⟩ := finish
        exact ⟨round,call,run.head_checkpoint_id,middle,isRound,not_not.mp foreign,not_not.mp settled,isCall,
          not_not.mp completed,by rw [isRun]; rfl,append_checkpoint_tx_ok wf append,rfl,rfl⟩

theorem Committed.writes {middle : Tables Digest} {round_id : ToolRoundId}
    {result : ToolResult} {round : ToolRoundRow} {call : ToolRoundCallRow} {head : Nat} {commit : ToolCommit}
    (committed : Committed s c r round_id result round call head commit middle after) : Writes s after := by
  rw [committed.after_eq]
  exact committed.appended.writes.tail (.rounds _)

theorem replyWith_ok {α : Type} {reply : α → Reply} {result : Except Error (α × Tables Digest)} {answer : Reply}
    (done : replyWith reply result = .ok (answer,after)) :
    ∃ value, result = .ok (value,after) ∧ answer = reply value := by
  cases result with
  | error e => simp [replyWith,Except.map] at done
  | ok pair =>
    simp only [replyWith,Except.map,Except.ok.injEq,Prod.mk.injEq] at done
    exact ⟨pair.1,by rw [← done.2],done.1.symm⟩

theorem transact_writes (consistent : Consistent s) {op : Op} {reply : Reply}
    (done : transact s op = .ok (reply,after)) : Writes s after := by
  have wf := consistent.wellFormed
  cases op with
  | ensure_conversation c =>
    obtain ⟨id,done,_⟩ := replyWith_ok done
    rcases (ensure_conversation_ok wf done).1 with rfl | ⟨write,_⟩
    · exact Relation.ReflTransGen.refl
    · exact Writes.single write
  | import_checkpoint c messages =>
    obtain ⟨id,done,_⟩ := replyWith_ok done
    obtain ⟨_,middle,_,writes,⟨_,rfl⟩ | ⟨_,_,_,inserted⟩⟩ := import_checkpoint_ok wf done
    · exact writes
    · exact writes.tail inserted.write
  | claim_run prepared =>
    obtain ⟨claimed,done,_⟩ := replyWith_ok done
    obtain ⟨_,middle,_,writes,write,_⟩ := claim_run_ok wf done
    exact writes.tail write
  | append_checkpoint c r expected additions =>
    obtain ⟨id,done,_⟩ := replyWith_ok done
    rcases append_checkpoint_ok wf done with ⟨_,_,rfl⟩ | appended
    · exact Relation.ReflTransGen.refl
    · exact appended.writes
  | append_message_once c r expected m =>
    rw [transact] at done
    obtain ⟨⟨id,inserted⟩,done,_⟩ := replyWith_ok done
    rcases append_message_once_ok wf done with ⟨_,_,_,rfl⟩ | ⟨_,_,appended⟩
    · exact Relation.ReflTransGen.refl
    · exact appended.writes
  | replace_checkpoint c r expected messages =>
    obtain ⟨id,done,_⟩ := replyWith_ok done
    obtain ⟨_,_,appended⟩ := replace_checkpoint_ok wf done
    exact appended.writes
  | create_tool_round round_id r base assistant calls created_at_ms =>
    rw [transact] at done
    obtain ⟨_,done,_⟩ := replyWith_ok done
    obtain ⟨_,_,_,_,rfl⟩ := create_tool_round_ok done
    exact Writes.single (.rounds _)
  | commit_tool_result c r round_id result =>
    obtain ⟨commit,done,_⟩ := replyWith_ok done
    obtain ⟨_,_,_,_,committed⟩ := commit_tool_result_ok wf done
    exact committed.writes
  | begin_provider_call r =>
    obtain ⟨index,done,_⟩ := replyWith_ok done
    exact Writes.single (begin_provider_call_ok done)
  | finish_run r status usage failure =>
    obtain ⟨released,done,_⟩ := replyWith_ok done
    rcases finish_run_ok consistent done with ⟨_,rfl,_⟩ | ⟨_,write,_⟩
    · exact Relation.ReflTransGen.refl
    · exact Writes.single write

theorem step_writes (consistent : Consistent s) (op : Op) : Writes s (step s op) := by
  unfold step
  cases done : transact s op with
  | error e => exact Relation.ReflTransGen.refl
  | ok result => exact transact_writes consistent done

theorem foldl_step_writes (consistent : Consistent s) (ops : List Op) : Writes s (ops.foldl step s) := by
  induction ops generalizing s with
  | nil => exact Relation.ReflTransGen.refl
  | cons op rest ih =>
    have first := step_writes consistent op
    exact Relation.ReflTransGen.trans first (ih (first.consistent consistent))

theorem replay_consistent (ops : List Op) : Consistent (replay ops : Tables Digest) :=
  Writes.consistent (foldl_step_writes consistent_empty ops) consistent_empty

end MyCursor.StoreSteps

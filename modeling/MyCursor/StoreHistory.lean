import MyCursor.StoreSteps

/-!
# The checkpoints as a log

What a checkpoint loads to never changes, its digest is that of what it loads
to, and an import gives back the messages it was given. An import fails only
when its messages cannot be stored under their ids.
-/
namespace MyCursor.StoreHistory
open Message Store StoreSteps
set_option linter.unusedSectionVars false

variable {Digest : Type} [DecidableEq Digest] [MessageHash Digest]

/-! ## Messages that can be stored -/

/-- No message has the id or the runtime event of a different one, neither in
    the conversation nor in the list. -/
structure Storable (s : Tables Digest) (c : ConversationId) (ms : List CanonicalMessage) : Prop where
  stored : ∀ m ∈ ms, ∀ row ∈ s.messages, row.conversation_id = c → sameIdentity m row.message → row.message = m
  each : ∀ a ∈ ms, ∀ b ∈ ms, sameIdentity a b → a = b

variable {s : Tables Digest} {c : ConversationId}

theorem put_message_of_storable {m : CanonicalMessage}
    (stored : ∀ row ∈ s.messages, row.conversation_id = c → sameIdentity m row.message → row.message = m) :
    ∃ after, put_message_tx s c m = .ok after := by
  unfold put_message_tx
  split
  · exact ⟨_,rfl⟩
  · rename_i existing found
    have holds := List.find?_some found
    simp only [decide_eq_true_eq] at holds
    have same := stored existing (List.mem_of_find?_eq_some found) holds.1 holds.2
    exact ⟨s,by rw [if_pos same]⟩

theorem putMessages_of_storable {ms : List CanonicalMessage} :
    ∀ {s : Tables Digest}, Storable s c ms → ∃ after, putMessages s c ms = .ok after := by
  induction ms with
  | nil => exact fun _ => ⟨_,rfl⟩
  | cons m rest ih =>
    intro s storable
    obtain ⟨middle,first⟩ := put_message_of_storable (storable.stored m (by simp))
    have later : Storable middle c rest := by
      refine ⟨?_,fun a aMember b bMember => storable.each a (by simp [aMember]) b (by simp [bMember])⟩
      intro m' member row stored owner same
      rcases put_message_ok first with ⟨rfl,_⟩ | ⟨rfl,_⟩
      · exact storable.stored m' (by simp [member]) row stored owner same
      · rcases List.mem_append.mp stored with old | new
        · exact storable.stored m' (by simp [member]) row old owner same
        · obtain rfl := List.mem_singleton.mp new
          exact (storable.each m' (by simp [member]) m (by simp) same).symm
    obtain ⟨after,done⟩ := ih later
    exact ⟨after,bind_ok.mpr ⟨middle,first,done⟩⟩

theorem putMessages_succeeds (unique : UniqueMessages s)
    {ms : List CanonicalMessage} : (∃ after, putMessages s c ms = .ok after) ↔ Storable s c ms := by
  refine ⟨?_,putMessages_of_storable⟩
  rintro ⟨after,done⟩
  have put := putMessages_ok unique done
  have inAfter : ∀ a ∈ ms, ∀ row ∈ after.messages, row.conversation_id = c → sameIdentity a row.message → row.message = a := by
    intro a member row stored owner same
    have := put.unique ⟨c,a⟩ (put.stored a member) row stored owner.symm same
    exact (congrArg MessageRow.message this).symm
  refine ⟨?_,?_⟩
  · intro m member row stored
    exact inAfter m member row (put.extends_.messages.subset stored)
  · intro a aMember b bMember same
    exact (inAfter a aMember ⟨c,b⟩ (put.stored b bMember) rfl same).symm

theorem insertCheckpointRow_of_fresh {parent : Option Nat} {digest : Digest}
    {message_ids : List String} (fresh : checkpointByDigest s c digest = none) (distinct : message_ids.Nodup) :
    insertCheckpointRow s c parent digest message_ids = .ok (s.checkpoints.length + 1,addRow s c parent digest message_ids) := by
  simp [insertCheckpointRow,fresh,distinct,addRow]

/-- A child is inserted exactly when its digest is new, its messages have
    distinct ids, and they can be stored. -/
theorem insert_checkpoint_succeeds (unique : UniqueMessages s) (c : ConversationId) (parent : Nat)
    (additions : List CanonicalMessage) (digest : Digest) :
    (∃ id after, insert_checkpoint_tx s c parent additions digest = .ok (id,after)) ↔
      checkpointByDigest s c digest = none ∧ (additions.map (·.message_id)).Nodup ∧ Storable s c additions := by
  constructor
  · rintro ⟨id,after,done⟩
    obtain ⟨middle,put,row⟩ := bind_ok.mp done
    obtain ⟨fresh,distinct,_⟩ := insertCheckpointRow_ok row
    refine ⟨?_,distinct,(putMessages_succeeds unique).mp ⟨middle,put⟩⟩
    obtain ⟨rows,rfl⟩ := (putMessages_ok unique put).rows
    exact fresh
  · rintro ⟨fresh,distinct,storable⟩
    obtain ⟨middle,put⟩ := putMessages_of_storable storable
    have sameRows : checkpointByDigest middle c digest = none := by
      obtain ⟨rows,rfl⟩ := (putMessages_ok unique put).rows
      exact fresh
    exact ⟨_,_,bind_ok.mpr ⟨middle,put,insertCheckpointRow_of_fresh sameRows distinct⟩⟩

/-- What the current checkpoint of the conversation loads to; nothing for a
    new conversation, whose current checkpoint will be its root. -/
def currentMessages (s : Tables Digest) (c : ConversationId) : List CanonicalMessage :=
  match (s.conversations c).bind (·.current_checkpoint_id) with
  | some current => load_checkpoint_messages s current
  | none => []
/-- The messages that an import stores in a new checkpoint: those after the
    current ones, or all of them when the current ones are not their prefix. -/
def importAdditions (s : Tables Digest) (c : ConversationId) (messages : List CanonicalMessage) : List CanonicalMessage :=
  if currentMessages s c <+: messages then messages.drop (currentMessages s c).length else messages

def Known (s : Tables Digest) (c : ConversationId) (messages : List CanonicalMessage) : Prop :=
  ∃ row ∈ s.checkpoints, row.conversation_id = c ∧ load_checkpoint_messages s row.checkpoint_id = messages

variable {messages : List CanonicalMessage}

theorem checkpointByDigest_known (wf : WellFormed s) (injective : Function.Injective (message_digest : List CanonicalMessage → Digest))
    {id : Nat} (found : checkpointByDigest s c (message_digest messages) = some id) :
    Belongs s c id ∧ load_checkpoint_messages s id = messages := by
  obtain ⟨row,member,rfl,owner,same⟩ := checkpointByDigest_some found
  exact ⟨⟨row,member,rfl,owner⟩,injective ((wf.digests row member).symm.trans same)⟩

theorem checkpointByDigest_unknown (wf : WellFormed s) (injective : Function.Injective (message_digest : List CanonicalMessage → Digest)) :
    checkpointByDigest s c (message_digest messages) = none ↔ ¬ Known s c messages := by
  rw [checkpointByDigest_none]
  constructor
  · rintro fresh ⟨row,member,owner,loads⟩
    exact fresh row member owner (by rw [wf.digests row member,loads])
  · intro unknown row member owner same
    exact unknown ⟨row,member,owner,injective ((wf.digests row member).symm.trans same)⟩

theorem import_loads {after : Tables Digest} (wf : WellFormed s)
    (injective : Function.Injective (message_digest : List CanonicalMessage → Digest))
    {id : Nat} (done : import_checkpoint s c messages = .ok (id,after)) :
    load_checkpoint_messages after id = messages := by
  obtain ⟨current,middle,_,writes,⟨found,rfl⟩ | ⟨parent,additions,whole,inserted⟩⟩ := import_checkpoint_ok wf done
  · exact (checkpointByDigest_known (writes.wellFormed wf) injective found).2
  · rw [inserted.loads,whole]

/-- The root is created without fail, and changes neither what is known nor
    what the conversation currently loads to. -/
theorem ensure_conversation_succeeds (wf : WellFormed s) (c : ConversationId) :
    ∃ current middle, ensure_conversation_tx s c = .ok (current,middle) ∧ middle.messages = s.messages ∧
      load_checkpoint_messages middle current = currentMessages s c ∧
      ∀ messages, Known middle c messages ↔ Known s c messages ∨ (s.conversations c = none ∧ messages = []) := by
  unfold ensure_conversation_tx currentMessages
  cases found : s.conversations c with
  | some conversation =>
    obtain ⟨current,isCurrent,_⟩ := wf.current c conversation found
    exact ⟨current,s,by simp [isCurrent],rfl,by simp [isCurrent],by simp⟩
  | none =>
    have unknown : ∀ row ∈ s.checkpoints, row.conversation_id ≠ c := by
      rintro row member rfl
      have := wf.known row member
      simp [found] at this
    have fresh : checkpointByDigest s c (message_digest []) = none :=
      checkpointByDigest_none.mpr fun row member same => absurd same (unknown row member)
    have root := (Write.root found).wellFormed wf
    have newRow : (⟨s.checkpoints.length + 1,c,none,message_digest [],[]⟩ : CheckpointRow Digest) ∈
        (addRow s c none (message_digest []) []).checkpoints := mem_addRow.mpr (.inr rfl)
    have empty := root.toForest.load_root newRow rfl
    refine ⟨s.checkpoints.length + 1,setConversation (addRow s c none (message_digest []) []) c
      ⟨some (s.checkpoints.length + 1),none⟩,?_,rfl,empty,?_⟩
    · simp [insertCheckpointRow_of_fresh fresh,bind,Except.bind]
    intro messages
    constructor
    · rintro ⟨row,member,owner,loads⟩
      rcases mem_addRow.mp member with old | rfl
      · exact absurd owner (unknown row old)
      · exact .inr ⟨rfl,loads.symm.trans empty⟩
    · rintro (⟨row,member,owner,_⟩ | ⟨_,rfl⟩)
      · exact absurd owner (unknown row member)
      · exact ⟨_,newRow,rfl,empty⟩

theorem import_succeeds (wf : WellFormed s) (injective : Function.Injective (message_digest : List CanonicalMessage → Digest)) :
    (∃ id after, import_checkpoint s c messages = .ok (id,after)) ↔
      Known s c messages ∨ (((importAdditions s c messages).map (·.message_id)).Nodup ∧ Storable s c (importAdditions s c messages)) := by
  obtain ⟨current,middle,ensured,sameMessages,loads,known⟩ := ensure_conversation_succeeds wf c
  obtain ⟨written,conversation,found,isCurrent⟩ := ensure_conversation_ok wf ensured
  have middleWf : WellFormed middle := by
    rcases written with rfl | ⟨write,_⟩
    · exact wf
    · exact write.wellFormed wf
  obtain ⟨root,isRoot⟩ := middleWf.root_found (c := c) (by simp [found])
  -- Both branches of the import insert the additions below some checkpoint.
  have unfolded : import_checkpoint s c messages = match checkpointByDigest middle c (message_digest messages) with
      | some existing => .ok (existing,middle)
      | none => insert_checkpoint_tx middle c (if currentMessages s c <+: messages then current else root)
          (importAdditions s c messages) (message_digest messages) := by
    simp only [import_checkpoint,ensured,bind,Except.bind,loads,isRoot,importAdditions]
    cases checkpointByDigest middle c (message_digest messages) <;> split_ifs <;> rfl
  have storable : Storable middle c (importAdditions s c messages) ↔ Storable s c (importAdditions s c messages) := by
    constructor
    · exact fun ⟨stored,each⟩ => ⟨sameMessages ▸ stored,each⟩
    · exact fun ⟨stored,each⟩ => ⟨sameMessages ▸ stored,each⟩
  rw [unfolded]
  cases existing : checkpointByDigest middle c (message_digest messages) with
  | some id =>
    obtain ⟨⟨row,member,rfl,owner⟩,same⟩ := checkpointByDigest_known middleWf injective existing
    refine ⟨fun _ => ?_,fun _ => ⟨_,_,rfl⟩⟩
    rcases (known messages).mp ⟨row,member,owner,same⟩ with old | ⟨missing,rfl⟩
    · exact .inl old
    · right
      simp only [importAdditions,currentMessages,missing]
      exact ⟨by simp,⟨by simp,by simp⟩⟩
  | none =>
    have unknown := (checkpointByDigest_unknown middleWf injective).mp existing
    rw [insert_checkpoint_succeeds middleWf.messages,storable]
    constructor
    · exact fun ⟨_,distinct,stored⟩ => .inr ⟨distinct,stored⟩
    · rintro (old | ⟨distinct,stored⟩)
      · exact absurd ((known messages).mpr (.inl old)) unknown
      · exact ⟨existing,distinct,stored⟩

section Reading
/-- serde_json on a message: the payload that `put_message_tx` stores, and
    what `load_checkpoint_messages_tx` reads of it. -/
class MessageText where
  to_string : CanonicalMessage → String
  from_str : String → Except Error CanonicalMessage
variable [MessageText]

/-- serde_json reads the message back from the text it wrote. The tables keep
    the message in place of its text, which is the same for such messages. -/
def ReadBack (m : CanonicalMessage) : Prop := MessageText.from_str (MessageText.to_string m) = .ok m

/-- `load_checkpoint_messages` with the texts of the messages read. -/
def read_checkpoint_messages (s : Tables Digest) (id : Nat) : Except Error (List CanonicalMessage) :=
  (load_checkpoint_messages s id).mapM fun m => MessageText.from_str (MessageText.to_string m)

theorem mapM_read {ms : List CanonicalMessage} (reads : ∀ m ∈ ms, ReadBack m) :
    ms.mapM (fun m => MessageText.from_str (MessageText.to_string m)) = Except.ok ms := by
  induction ms with
  | nil => rfl
  | cons m rest ih =>
    have first : MessageText.from_str (MessageText.to_string m) = .ok m := reads m (by simp)
    simp [first,ih fun m member => reads m (by simp [member]),bind,Except.bind,pure,Except.pure]

theorem loadLineage_stored : ∀ {depth id : Nat} {m : CanonicalMessage}, m ∈ loadLineage s depth id → ∃ row ∈ s.messages, row.message = m
  | 0, _, _, member => by simp [loadLineage] at member
  | depth + 1, id, m, member => by
    unfold loadLineage at member
    cases found : checkpointRow s id with
    | none => simp [found] at member
    | some row =>
      simp only [found,List.mem_append] at member
      rcases member with older | added
      · cases isParent : row.parent_checkpoint_id with
        | none => simp [isParent] at older
        | some parent => exact loadLineage_stored (by simpa [isParent] using older)
      · obtain ⟨id,-,found⟩ := List.mem_filterMap.mp added
        obtain ⟨stored,isStored,rfl⟩ := Option.map_eq_some_iff.mp found
        exact ⟨stored,List.mem_of_find?_eq_some isStored,rfl⟩

theorem read_eq (reads : ∀ row ∈ s.messages, ReadBack row.message) (id : Nat) :
    read_checkpoint_messages s id = .ok (load_checkpoint_messages s id) := by
  refine mapM_read fun m member => ?_
  obtain ⟨row,stored,rfl⟩ := loadLineage_stored member
  exact reads row stored

/-- The checkpoints of a store as an immutable log. -/
structure Log (s : Tables Digest) : Prop where
  /-- A checkpoint adds its own messages to what its parent loads to. -/
  parent : ∀ row ∈ s.checkpoints,
    read_checkpoint_messages s row.checkpoint_id = .ok (parentMessages s row ++ addedMessages s row) ∧
      (∀ parent, row.parent_checkpoint_id = some parent → read_checkpoint_messages s parent = .ok (parentMessages s row)) ∧
      (addedMessages s row).map (·.message_id) = row.message_ids
  /-- Later transactions keep every row and what it loads to. -/
  immutable : ∀ later : List Op, (∀ row ∈ (later.foldl step s).messages, ReadBack row.message) →
    ∀ row ∈ s.checkpoints, row ∈ (later.foldl step s).checkpoints ∧
      read_checkpoint_messages (later.foldl step s) row.checkpoint_id = read_checkpoint_messages s row.checkpoint_id
  digest : ∀ row ∈ s.checkpoints, ∀ messages, read_checkpoint_messages s row.checkpoint_id = .ok messages →
    row.state_digest = message_digest messages
  /-- An import loads to what was imported. -/
  imported : ∀ c messages id after, (∀ m ∈ messages, ReadBack m) → import_checkpoint s c messages = .ok (id,after) →
    read_checkpoint_messages after id = .ok messages
  importable : ∀ c messages, (∃ id after, import_checkpoint s c messages = .ok (id,after)) ↔
    (∃ row ∈ s.checkpoints, row.conversation_id = c ∧ read_checkpoint_messages s row.checkpoint_id = .ok messages) ∨
      (((importAdditions s c messages).map (·.message_id)).Nodup ∧ Storable s c (importAdditions s c messages))

theorem checkpoint_log (injective : Function.Injective (message_digest : List CanonicalMessage → Digest))
    (ops : List Op) (reads : ∀ row ∈ (replay ops : Tables Digest).messages, ReadBack row.message) :
    Log (replay ops : Tables Digest) := by
  have consistent : Consistent (replay ops : Tables Digest) := replay_consistent ops
  have wf := consistent.wellFormed
  refine ⟨?_,?_,?_,?_,?_⟩
  · intro row member
    refine ⟨(read_eq reads _).trans (congrArg _ (wf.toForest.load_eq member)),fun parent isParent => ?_,
      wf.toForest.addedMessages_ids member⟩
    rw [read_eq reads,parentMessages,isParent]
  · intro later laterReads row member
    have extends_ := Writes.extends_ (foldl_step_writes consistent later) wf
    refine ⟨extends_.checkpoints.subset member,?_⟩
    rw [read_eq laterReads,read_eq reads,wf.toForest.load_stable extends_ _ ⟨row,member,rfl⟩]
  · intro row member messages read
    rw [read_eq reads] at read
    exact Except.ok.inj read ▸ wf.digests row member
  · intro c messages id after messagesRead done
    have loads := import_loads wf injective done
    exact (mapM_read (loads ▸ messagesRead)).trans (congrArg _ loads)
  · intro c messages
    simp only [read_eq reads,Except.ok.injEq]
    exact import_succeeds wf injective
end Reading

section Identity
local instance : MessageHash (List CanonicalMessage) := ⟨id⟩
local instance : MessageText where
  to_string m := if m = text "m" .User .User "hello" then
    "\x7b\"message_id\":\"m\",\"role\":\"user\",\"origin\":\"user\",\"content\":\x7b\"kind\":\"parts\",\"parts\":[\x7b\"type\":\"text\",\"text\":\"hello\"\x7d]\x7d\x7d" else ""
  from_str payload := if payload.isEmpty then .error (.Json "EOF while parsing a value at line 1 column 0")
    else .ok (text "m" .User .User "hello")

theorem checkpoint_log_identity : Function.Injective (message_digest : List CanonicalMessage → List CanonicalMessage) ∧
      Log (replay [.import_checkpoint "c" [text "m" .User .User "hello"]] : Tables (List CanonicalMessage)) := by
  refine ⟨fun _ _ same => same,checkpoint_log (fun _ _ same => same) _ fun row member => ?_⟩
  obtain rfl : row = ⟨"c",text "m" .User .User "hello"⟩ := List.mem_singleton.mp member
  simp [ReadBack,MessageText.to_string,MessageText.from_str]

/-- A message that occurs twice among the additions has no checkpoint. -/
theorem import_repeated_message : ∃ e, import_checkpoint (replay [] : Tables (List CanonicalMessage)) "c"
      [text "m" .User .User "hello",text "m" .User .User "hello"] = .error e := by
  exact ⟨_,rfl⟩
end Identity

/-- An import that is repeated finds the checkpoint of the first one and changes
    nothing, whatever transactions came between. -/
theorem import_inert (ops later : List Op) {id : Nat} {after : Tables Digest}
    (imported : import_checkpoint (replay ops) c messages = .ok (id,after)) :
    import_checkpoint (later.foldl step after) c messages = .ok (id,later.foldl step after) := by
  have before : Consistent (replay ops : Tables Digest) := replay_consistent ops
  have isStep : step (replay ops) (.import_checkpoint c messages) = after := by simp [step,transact,replyWith,Except.map,imported]
  have consistent : Consistent after := isStep ▸ (step_writes before _).consistent before
  obtain ⟨row,isRow,isId,owner,isDigest⟩ : ∃ row ∈ after.checkpoints,
      row.checkpoint_id = id ∧ row.conversation_id = c ∧ row.state_digest = message_digest messages := by
    obtain ⟨current,middle,-,-,⟨found,rfl⟩ | ⟨parent,additions,whole,inserted⟩⟩ := import_checkpoint_ok before.wellFormed imported
    · exact checkpointByDigest_some found
    · exact ⟨_,inserted.row ▸ List.mem_append_right _ (List.mem_singleton_self _),rfl,rfl,congrArg message_digest whole⟩
  have writes := foldl_step_writes consistent later
  have wf := writes.wellFormed consistent.wellFormed
  have kept := (writes.extends_ consistent.wellFormed).checkpoints.subset isRow
  obtain ⟨conversation,isConversation⟩ := Option.isSome_iff_exists.mp (owner ▸ wf.known row kept)
  obtain ⟨current,isCurrent,-⟩ := wf.current c conversation isConversation
  have found : checkpointByDigest (later.foldl step after) c (message_digest messages) = some id := by
    cases found : checkpointByDigest (later.foldl step after) c (message_digest messages) with
    | none => exact absurd isDigest (checkpointByDigest_none.mp found row kept owner)
    | some other =>
      obtain ⟨same,isSame,rfl,itsOwner,itsDigest⟩ := checkpointByDigest_some found
      rw [wf.distinct same isSame row kept (itsOwner.trans owner.symm) (itsDigest.trans isDigest.symm),isId]
  simp [import_checkpoint,ensure_conversation_tx,isConversation,isCurrent,found,bind,Except.bind]

section Identity
local instance : MessageHash (List CanonicalMessage) := ⟨id⟩
theorem import_inert_after_other : ∃ after : Tables (List CanonicalMessage), after.checkpoints.length = 3 ∧
    import_checkpoint after "c" [text "m" .User .User "hello"] = .ok (2,after) :=
  ⟨_,rfl,import_inert [] [.import_checkpoint "c" [text "n" .User .User "bye"]] rfl⟩
end Identity

end MyCursor.StoreHistory

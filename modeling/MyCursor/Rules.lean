import MyCursor.Error
import MyCursor.Text
import Mathlib.Data.List.AList
import Mathlib.Data.List.Sort

/-!
# The local rules

`cursor/services/knowledge/store.rs`: a rule is a file with its text, everything else
stands in `meta.json` with the journal of the changes that upstream has not seen.
Errors of the file system are left out.
-/
namespace MyCursor.Rules
open Text
set_option linter.unusedSectionVars false

abbrev Table (σ : Type) : Type := AList fun _ : String => σ

theorem lookup_insert {σ : Type} (table : Table σ) (key other : String) (value : σ) :
    (table.insert key value).lookup other = if other = key then some value else table.lookup other := by
  split_ifs with same
  · rw [same,AList.lookup_insert]
  · rw [AList.lookup_insert_ne same]
theorem lookup_erase {σ : Type} (table : Table σ) (key other : String) :
    (table.erase key).lookup other = if other = key then none else table.lookup other := by
  split_ifs with same
  · rw [same,AList.lookup_erase]
  · rw [AList.lookup_erase_ne same]

structure RuleRecord where
  id : String
  knowledge : String
  title : String
  created_at : String
  is_generated : Bool
  git_origin : String
deriving DecidableEq

inductive JournalOp where
  | Add
  | Update
  | Remove
deriving DecidableEq

structure JournalEntry where
  op : JournalOp
  id : String
deriving DecidableEq

structure RuleMeta where
  title : String
  created_at : String
  is_generated : Bool
  git_origin : String
deriving DecidableEq

def LOCAL_ID_PREFIX : String := "local-"
def isLocal (id : String) : Bool := starts_with id LOCAL_ID_PREFIX

/-- The time at which the file of a rule was changed, a time in milliseconds, and a
    text as it is shown for debugging. -/
class RuleFiles where
  file_modified_at : String → String
  timestamp : String → Int
  debug : String → String

/-- The texts of the files, and `meta.json`. -/
structure RuleStore where
  files : Table String := ∅
  rules : Table RuleMeta := ∅
  journal : List JournalEntry := []
deriving DecidableEq

section Store
variable [RuleFiles]

def validId (id : String) : Bool :=
  id ≠ "" && id.utf8ByteSize ≤ 128 && id.toList.all fun c => is_ascii_alphanumeric c || c = '-' || c = '_'
def validate_id (id : String) : Except Error Unit :=
  if validId id then .ok () else .error (.Protocol ("invalid rule id: " ++ RuleFiles.debug id))

def assemble (id knowledge : String) (found : Option RuleMeta) : RuleRecord :=
  match found with
  | some found => ⟨id,knowledge,found.title,found.created_at,found.is_generated,found.git_origin⟩
  | none => ⟨id,knowledge,id,RuleFiles.file_modified_at id,false,""⟩
def rule_meta (record : RuleRecord) : RuleMeta :=
  ⟨record.title,record.created_at,record.is_generated,record.git_origin⟩

def RuleStore.record (store : RuleStore) (id : String) : Option RuleRecord :=
  (store.files.lookup id).map fun knowledge => assemble id knowledge (store.rules.lookup id)
def RuleStore.list (store : RuleStore) : List RuleRecord :=
  ((store.files.keys.filter validId).filterMap store.record).insertionSort fun left right =>
    RuleFiles.timestamp right.created_at < RuleFiles.timestamp left.created_at ∨
      (RuleFiles.timestamp right.created_at = RuleFiles.timestamp left.created_at ∧ left.id ≤ right.id)
def RuleStore.get (store : RuleStore) (id : String) : Except Error (Option RuleRecord) :=
  (validate_id id).map fun _ => store.record id
def RuleStore.write (store : RuleStore) (record : RuleRecord) : RuleStore :=
  { store with
    files := store.files.insert record.id record.knowledge
    rules := store.rules.insert record.id (rule_meta record) }
def RuleStore.upsert (store : RuleStore) (record : RuleRecord) : Except Error RuleStore :=
  (validate_id record.id).map fun _ => store.write record
def RuleStore.drop (store : RuleStore) (id : String) : RuleStore :=
  { store with files := store.files.erase id, rules := store.rules.erase id }
def RuleStore.remove (store : RuleStore) (id : String) : Except Error RuleStore :=
  (validate_id id).map fun _ => store.drop id

def RuleStore.move (store : RuleStore) (old_id new_id knowledge : String) : RuleStore :=
  { files := (store.files.erase old_id).insert new_id knowledge
    rules := match store.rules.lookup old_id with
      | some rule => (store.rules.erase old_id).insert new_id rule
      | none => store.rules
    journal := store.journal.map fun entry => if entry.id = old_id then { entry with id := new_id } else entry }
def RuleStore.promote (store : RuleStore) (old_id new_id : String) : Except Error RuleStore := do
  validate_id old_id
  validate_id new_id
  match store.files.lookup old_id with
  | some knowledge => .ok (store.move old_id new_id knowledge)
  | none => .error (.Io "No such file or directory (os error 2)")

def writeFiles (files : Table String) : List RuleRecord → Table String × Except Error Unit
  | [] => (files,.ok ())
  | record :: rest =>
    match validate_id record.id with
    | .error e => (files,.error e)
    | .ok _ => writeFiles (files.insert record.id record.knowledge) rest
def RuleStore.replace_all (store : RuleStore) (records : List RuleRecord) : RuleStore × Except Error Unit :=
  match writeFiles store.files records with
  | (files,.error e) => ({ store with files },.error e)
  | (files,.ok _) =>
    let rules : Table RuleMeta := records.foldl (fun rules record => rules.insert record.id (rule_meta record)) ∅
    ({ store with
      files := (files.keys.filter fun id => (rules.lookup id).isNone).foldl (fun files id => files.erase id) files
      rules },.ok ())

def journal_contains (journal : List JournalEntry) (id : String) (op : JournalOp) : Bool :=
  journal.any fun entry => entry.id = id && entry.op = op
def RuleStore.journal_front (store : RuleStore) : Option JournalEntry := store.journal.head?
def RuleStore.pop_journal (store : RuleStore) : RuleStore := { store with journal := store.journal.tail }
def RuleStore.push (store : RuleStore) (op : JournalOp) (id : String) : RuleStore :=
  { store with journal := store.journal ++ [⟨op,id⟩] }
def RuleStore.record_add (store : RuleStore) (id : String) : RuleStore := store.push .Add id
/-- An addition that is still to be replayed reads the latest text. -/
def RuleStore.record_update (store : RuleStore) (id : String) : RuleStore :=
  if journal_contains store.journal id .Add then store
  else
    let op := if isLocal id then JournalOp.Add else .Update
    if journal_contains store.journal id op then store else store.push op id
def RuleStore.record_remove (store : RuleStore) (id : String) : RuleStore :=
  let never_synced := journal_contains store.journal id .Add
  let store := { store with journal := store.journal.filter (·.id ≠ id) }
  if !never_synced && !isLocal id then store.push .Remove id else store

/-! ## What is found under an id -/

section
variable (store : RuleStore)
include store

@[simp] theorem record_pop (id : String) : store.pop_journal.record id = store.record id := rfl
@[simp] theorem record_push (op : JournalOp) (other id : String) : (store.push op other).record id = store.record id := rfl
theorem record_update_record (other id : String) : (store.record_update other).record id = store.record id := by
  unfold RuleStore.record_update
  dsimp only
  split_ifs
  · rfl
  · rfl
  · rfl
  · rfl
theorem record_remove_record (other id : String) : (store.record_remove other).record id = store.record id := by
  unfold RuleStore.record_remove
  dsimp only
  split_ifs
  · rfl
  · rfl

theorem record_write (record : RuleRecord) (id : String) :
    (store.write record).record id = if id = record.id then some record else store.record id := by
  unfold RuleStore.record RuleStore.write
  rw [lookup_insert,lookup_insert]
  split_ifs with same
  · rw [same]
    rfl
  · rfl
theorem record_drop (other id : String) : (store.drop other).record id = if id = other then none else store.record id := by
  unfold RuleStore.record RuleStore.drop
  rw [lookup_erase,lookup_erase]
  split_ifs
  · rfl
  · rfl
theorem record_move {old_id new_id : String} (different : new_id ≠ old_id) (knowledge id : String) :
    ((store.move old_id new_id knowledge).record new_id).isSome = true ∧ (store.move old_id new_id knowledge).record old_id = none ∧
      (id ≠ old_id → id ≠ new_id → (store.move old_id new_id knowledge).record id = store.record id) := by
  unfold RuleStore.record RuleStore.move
  refine ⟨?_,?_,fun notOld notNew => ?_⟩
  · simp
  · simp [Ne.symm different]
  · have sameRules : AList.lookup id (match store.rules.lookup old_id with
        | some rule => (store.rules.erase old_id).insert new_id rule
        | none => store.rules) = store.rules.lookup id := by
      cases store.rules.lookup old_id with
      | none => rfl
      | some rule => simp [notOld,notNew]
    simp [notOld,notNew,sameRules]

end

theorem erased {σ : Type} {ids : List String} {table : Table σ} {id : String}
    (left : ((ids.foldl (fun table id => table.erase id) table).lookup id).isSome = true) :
    (table.lookup id).isSome = true ∧ id ∉ ids := by
  induction ids generalizing table with
  | nil => exact ⟨left,List.not_mem_nil⟩
  | cons first rest ih =>
    obtain ⟨found,others⟩ := ih left
    rw [lookup_erase] at found
    split_ifs at found with same
    · cases found
    · exact ⟨found,fun member => (List.mem_cons.mp member).elim same others⟩
theorem inserted {records : List RuleRecord} {rules : Table RuleMeta} {id : String}
    (found : ((records.foldl (fun rules record => rules.insert record.id (rule_meta record)) rules).lookup id).isSome = true) :
    (rules.lookup id).isSome = true ∨ id ∈ records.map (·.id) := by
  induction records generalizing rules with
  | nil => exact .inl found
  | cons record rest ih =>
    rcases ih found with here | later
    · rw [lookup_insert] at here
      split_ifs at here with same
      · exact .inr (same ▸ List.mem_cons_self)
      · exact .inl here
    · exact .inr (List.mem_cons_of_mem _ later)
theorem record_replace_all {store after : RuleStore} {records : List RuleRecord}
    (replaced : store.replace_all records = (after,.ok ())) {id : String} (left : (after.record id).isSome = true) :
    id ∈ records.map (·.id) := by
  unfold RuleStore.replace_all at replaced
  rcases written : writeFiles store.files records with ⟨files,e | done⟩
  · rw [written] at replaced
    cases replaced
  · rw [written] at replaced
    obtain rfl := (Prod.mk.inj replaced).1
    rw [RuleStore.record,Option.isSome_map] at left
    obtain ⟨found,kept⟩ := erased left
    have ruled : ((records.foldl (fun rules record => rules.insert record.id (rule_meta record))
        (∅ : Table RuleMeta)).lookup id).isSome = true := by
      by_contra missing
      refine kept (List.mem_filter.mpr ⟨AList.mem_keys.mp (AList.lookup_isSome.mp found),?_⟩)
      rw [Option.isNone_iff_eq_none]
      simpa using missing
    rcases inserted ruled with none | member
    · cases none
    · exact member
theorem replace_all_journal (store : RuleStore) (records : List RuleRecord) : (store.replace_all records).1.journal = store.journal := by
  unfold RuleStore.replace_all
  rcases writeFiles store.files records with ⟨files,e | done⟩
  · rfl
  · rfl
theorem replace_all_ok (store : RuleStore) {records : List RuleRecord} (valid : ∀ record ∈ records, validId record.id = true) :
    (store.replace_all records).2 = .ok () := by
  have written : ∀ files, (writeFiles files records).2 = .ok () := by
    induction records with
    | nil => exact fun _ => rfl
    | cons record rest ih =>
      intro files
      rw [writeFiles,validate_id,if_pos (valid record List.mem_cons_self)]
      exact ih (fun other member => valid other (List.mem_cons_of_mem _ member)) _
  have done := written store.files
  unfold RuleStore.replace_all
  rcases isWritten : writeFiles store.files records with ⟨files,e | ok⟩
  · rw [isWritten] at done
    cases done
  · rfl

def pending (journal : List JournalEntry) (id : String) : Option JournalOp := (journal.find? (·.id = id)).map (·.op)

theorem pending_cons (entry : JournalEntry) (rest : List JournalEntry) (id : String) :
    pending (entry :: rest) id = if entry.id = id then some entry.op else pending rest id := by
  unfold pending
  by_cases same : entry.id = id
  · simp [same]
  · simp [same]
theorem pending_none {journal : List JournalEntry} {id : String} : pending journal id = none ↔ id ∉ journal.map (·.id) := by
  unfold pending
  rw [Option.map_eq_none_iff,List.find?_eq_none,List.mem_map]
  constructor
  · rintro missing ⟨entry,member,same⟩
    exact missing entry member (by simpa using same)
  · intro missing entry member same
    exact missing ⟨entry,member,by simpa using same⟩
theorem pending_append (journal more : List JournalEntry) (id : String) :
    pending (journal ++ more) id = (pending journal id).or (pending more id) := by
  induction journal with
  | nil => simp [pending]
  | cons entry rest ih =>
    rw [List.cons_append,pending_cons,pending_cons,ih]
    split_ifs
    · rfl
    · rfl
theorem pending_filter (journal : List JournalEntry) (other id : String) :
    pending (journal.filter (·.id ≠ other)) id = if id = other then none else pending journal id := by
  induction journal with
  | nil => simp [pending]
  | cons entry rest ih =>
    by_cases own : entry.id = other
    · have gone : (entry :: rest).filter (·.id ≠ other) = rest.filter (·.id ≠ other) := by simp [own]
      rw [gone,ih,pending_cons,own]
      split_ifs with same back
      · rfl
      · exact absurd back.symm same
      · rfl
    · have kept : (entry :: rest).filter (·.id ≠ other) = entry :: rest.filter (·.id ≠ other) := by simp [own]
      rw [kept,pending_cons,pending_cons,ih]
      split_ifs with here same
      · exact absurd (here.trans same) own
      · rfl
      · rfl
      · rfl
theorem contains_iff {journal : List JournalEntry} (once : (journal.map (·.id)).Nodup) (id : String) (op : JournalOp) :
    journal_contains journal id op = true ↔ pending journal id = some op := by
  induction journal with
  | nil => simp [journal_contains,pending]
  | cons entry rest ih =>
    rw [List.map_cons,List.nodup_cons] at once
    have later := ih once.2
    rw [journal_contains] at later ⊢
    rw [List.any_cons,pending_cons]
    by_cases same : entry.id = id
    · have none : rest.any (fun entry => entry.id = id && entry.op = op) = false := by
        refine List.any_eq_false.mpr fun other member both => once.1 ?_
        rw [Bool.and_eq_true,decide_eq_true_eq] at both
        rw [same,← both.1]
        exact List.mem_map_of_mem member
      rw [none]
      simp [same]
    · simpa [same] using later

end Store

end MyCursor.Rules

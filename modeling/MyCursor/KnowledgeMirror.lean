import Mathlib.Data.List.TakeWhile
import MyCursor.Knowledge

/-!
# The mirror of the upstream rules

A list that upstream answers overwrites the local rules, unless it was asked for one git
origin only. What was listed has no git origin, and what was not listed is deleted. An
invalid id ends the overwriting after the files before it were written.
-/
namespace MyCursor.KnowledgeMirror
open Rules Knowledge
set_option linter.unusedSectionVars false

section Writing
variable {σ : Type} {f : RuleRecord → σ} {records : List RuleRecord} {table : Table σ} {id : String}

def insertAll (f : RuleRecord → σ) (records : List RuleRecord) (table : Table σ) : Table σ :=
  records.foldl (fun table record => table.insert record.id (f record)) table

theorem insertAll_other (absent : id ∉ records.map (·.id)) : (insertAll f records table).lookup id = table.lookup id := by
  induction records generalizing table with
  | nil => rfl
  | cons record rest ih =>
    rw [List.map_cons,List.mem_cons,not_or] at absent
    refine (ih absent.2).trans ?_
    rw [lookup_insert,if_neg absent.1]
theorem insertAll_mem (distinct : (records.map (·.id)).Nodup) {record : RuleRecord} (member : record ∈ records) :
    (insertAll f records table).lookup record.id = some (f record) := by
  induction records generalizing table with
  | nil => cases member
  | cons first rest ih =>
    rw [List.map_cons,List.nodup_cons] at distinct
    rcases List.mem_cons.mp member with rfl | later
    · refine (insertAll_other distinct.1).trans ?_
      rw [lookup_insert,if_pos rfl]
    · exact ih distinct.2 later

theorem erased_lookup {ids : List String} {table : Table σ} {id : String} :
    (ids.foldl (fun table id => table.erase id) table).lookup id = if id ∈ ids then none else table.lookup id := by
  induction ids generalizing table with
  | nil => simp
  | cons first rest ih =>
    rw [List.foldl_cons,ih,lookup_erase]
    by_cases here : id = first
    · simp [here]
    · simp [here]

end Writing

section Mirror
variable [RuleFiles] {records : List RuleRecord} {store : RuleStore} {id : String}

theorem writeFiles_eq (files : Table String) : writeFiles files records =
    (insertAll (·.knowledge) (records.takeWhile fun record => validId record.id) files,
      (writeFiles files records).2) := by
  induction records generalizing files with
  | nil => rfl
  | cons record rest ih =>
    rw [writeFiles,validate_id]
    by_cases valid : validId record.id = true
    · rw [if_pos valid,List.takeWhile_cons_of_pos (p := fun record : RuleRecord => validId record.id) valid]
      exact ih _
    · rw [if_neg valid,List.takeWhile_cons_of_neg (p := fun record : RuleRecord => validId record.id) valid]
      rfl
theorem writeFiles_ok (files : Table String) : (writeFiles files records).2 = .ok () ↔ ∀ record ∈ records, validId record.id = true := by
  induction records generalizing files with
  | nil => simp [writeFiles]
  | cons record rest ih =>
    rw [writeFiles,validate_id,List.forall_mem_cons]
    by_cases valid : validId record.id = true
    · rw [if_pos valid]
      simpa [valid] using ih _
    · rw [if_neg valid]
      simp [valid]

theorem replaced_ok (store : RuleStore) (valid : ∀ record ∈ records, validId record.id = true) (distinct : (records.map (·.id)).Nodup) :
    ∃ after, store.replace_all records = (after,.ok ()) ∧ (∀ record ∈ records, after.record record.id = some record) ∧
      (∀ id, id ∉ records.map (·.id) → after.record id = none) := by
  have written : writeFiles store.files records = (insertAll (·.knowledge) records store.files,.ok ()) := by
    rw [writeFiles_eq,(writeFiles_ok _).mpr valid,List.takeWhile_eq_self_iff.mpr valid]
  refine ⟨_,by rw [RuleStore.replace_all,written],fun record member => ?_,fun id absent => ?_⟩
  · have ruled : (insertAll rule_meta records ∅).lookup record.id = some (rule_meta record) := insertAll_mem distinct member
    have filed : (insertAll (·.knowledge) records store.files).lookup record.id = some record.knowledge := insertAll_mem distinct member
    rw [RuleStore.record]
    dsimp only
    rw [erased_lookup]
    change ((if record.id ∈ List.filter (fun id => ((insertAll rule_meta records ∅).lookup id).isNone)
      (insertAll (·.knowledge) records store.files).keys then none else _) : Option String).map
        (fun knowledge => assemble record.id knowledge ((insertAll rule_meta records ∅).lookup record.id)) = _
    rw [if_neg (by simp [ruled]),filed,ruled]
    rfl
  · by_contra left
    exact absent (record_replace_all (by rw [RuleStore.replace_all,written]) (Option.isSome_iff_ne_none.mpr left))
theorem replaced_error (store : RuleStore) (invalid : ¬ ∀ record ∈ records, validId record.id = true) : ∃ e, store.replace_all records =
      ({ store with files := insertAll (·.knowledge) (records.takeWhile fun record => validId record.id) store.files },.error e) := by
  cases result : (writeFiles store.files records).2 with
  | ok _ => exact absurd ((writeFiles_ok _).mp result) invalid
  | error e =>
    refine ⟨e,?_⟩
    rw [RuleStore.replace_all,writeFiles_eq,result]

/-- The rules that an offline list can show. -/
def InMirror (store : RuleStore) (id : String) : Prop := validId id = true ∧ (store.record id).isSome = true
theorem list_mem {record : RuleRecord} : record ∈ store.list ↔ validId record.id = true ∧ store.record record.id = some record := by
  have isId : ∀ {id : String} {found : RuleRecord}, store.record id = some found → found.id = id := by
    intro id found isRecord
    obtain ⟨knowledge,_,rfl⟩ := Option.map_eq_some_iff.mp isRecord
    unfold assemble
    split
    · rfl
    · rfl
  rw [RuleStore.list,(List.perm_insertionSort _ _).mem_iff,List.mem_filterMap]
  constructor
  · rintro ⟨id,member,isRecord⟩
    obtain rfl := isId isRecord
    exact ⟨(List.mem_filter.mp member).2,isRecord⟩
  · rintro ⟨valid,isRecord⟩
    refine ⟨record.id,List.mem_filter.mpr ⟨?_,valid⟩,isRecord⟩
    have filed : (store.files.lookup record.id).isSome = true := by
      have isSome := congrArg Option.isSome isRecord
      rwa [RuleStore.record,Option.isSome_map] at isSome
    exact AList.mem_keys.mp (AList.lookup_isSome.mp filed)

def recordOf (id : String) (rule : Rule) : RuleRecord :=
  ⟨id,rule.knowledge,rule.title,rule.created_at,rule.is_generated,rule.git_origin⟩
/-- What upstream still has and was mirrored is mirrored as upstream has it. -/
def Keeps (upstream : Table Rule) (before after : RuleStore) : Prop :=
  ∀ id rule, upstream.lookup id = some rule → InMirror before id → recordOf id rule ∈ after.list
/-- The same rules, metadata and journal. -/
structure SameRules (before after : RuleStore) : Prop where
  files : ∀ id, after.files.lookup id = before.files.lookup id
  rules : ∀ id, after.rules.lookup id = before.rules.lookup id
  journal : after.journal = before.journal

/-- The rules of the asked git origin, as many as were asked for. -/
def limited (limit : Option Int) (ids : List String) : List String :=
  match limit with
  | some limit => if 0 ≤ limit then ids.take limit.toNat else ids
  | none => ids
def Lists (upstream : Table Rule) (message : KnowledgeBaseListRequest) (shown : List String) : Prop :=
  ∃ order : List String, order.Perm upstream.keys ∧ shown = limited message.limit (order.filter fun id =>
    (upstream.lookup id).any fun rule => message.git_origin.getD "" = "" || rule.git_origin = message.git_origin.getD "")

/-- When what was answered can be mirrored as it should. -/
def Mirrorable (store : RuleStore) (upstream : Table Rule) (message : KnowledgeBaseListRequest) (shown : List String) : Prop :=
  if message.git_origin.getD "" ≠ "" then
    ∀ id rule, upstream.lookup id = some rule → InMirror store id → store.record id = some (recordOf id rule)
  else if ∀ id ∈ shown, validId id = true then
    ∀ id rule, upstream.lookup id = some rule → InMirror store id → id ∈ shown ∧ rule.git_origin = ""
  else ∀ id ∈ shown.takeWhile validId, ∀ rule, upstream.lookup id = some rule → store.files.lookup id = some rule.knowledge
/-- What a list request should leave: the rules as upstream has them, or all as before. -/
def Mirrors (upstream : Table Rule) (before after : RuleStore) (result : Except Error KnowledgeBaseListResponse) : Prop :=
  match result with
  | .ok _ => Keeps upstream before after
  | .error _ => SameRules before after

section Claims
variable {s s' : Session} {message : KnowledgeBaseListRequest} {call : Call} {rest : List Call} {upstream : Table Rule}
variable {shown : List String}

theorem lists_facts (lists : Lists upstream message shown) : shown.Nodup ∧ ∀ id ∈ shown, ∃ rule, upstream.lookup id = some rule := by
  obtain ⟨order,perm,rfl⟩ := lists
  have sub : (limited message.limit (order.filter fun id => (upstream.lookup id).any fun rule =>
      message.git_origin.getD "" = "" || rule.git_origin = message.git_origin.getD "")).Sublist order := by
    have part : ∀ ids : List String, (limited message.limit ids).Sublist ids := by
      intro ids
      unfold limited
      split
      · split_ifs
        · exact List.take_sublist _ _
        · exact List.Sublist.refl _
      · exact List.Sublist.refl _
    exact (part _).trans List.filter_sublist
  refine ⟨(perm.nodup_iff.mpr upstream.nodupKeys).sublist sub,fun id member => ?_⟩
  exact Option.isSome_iff_exists.mp (AList.lookup_isSome.mpr (AList.mem_keys.mpr (perm.mem_iff.mp (sub.subset member))))

def mirrored (upstream : Table Rule) (shown : List String) : List RuleRecord :=
  (shown.filterMap (itemOf upstream)).map fun item => ⟨item.id,item.knowledge,item.title,item.created_at,item.is_generated,""⟩
theorem mirrored_eq (upstream : Table Rule) (shown : List String) :
    mirrored upstream shown = shown.filterMap fun id => (upstream.lookup id).map fun rule => { recordOf id rule with git_origin := "" } := by
  rw [mirrored,List.map_filterMap]
  congr 1
  funext id
  simp [itemOf,recordOf,Function.comp_def]
theorem mirrored_ids (known : ∀ id ∈ shown, ∃ rule, upstream.lookup id = some rule) : (mirrored upstream shown).map (·.id) = shown := by
  induction shown with
  | nil => rfl
  | cons id rest ih =>
    obtain ⟨rule,isRule⟩ := known id List.mem_cons_self
    have later := ih fun id member => known id (List.mem_cons_of_mem _ member)
    simp only [mirrored,List.filterMap_cons,itemOf,isRule,Option.map_some,List.map_cons]
    exact congrArg (id :: ·) later
theorem mirrored_mem {record : RuleRecord} : record ∈ mirrored upstream shown ↔
      ∃ id ∈ shown, ∃ rule, upstream.lookup id = some rule ∧ record = { recordOf id rule with git_origin := "" } := by
  rw [mirrored_eq,List.mem_filterMap]
  constructor
  · rintro ⟨id,member,isRecord⟩
    obtain ⟨rule,isRule,rfl⟩ := Option.map_eq_some_iff.mp isRecord
    exact ⟨id,member,rule,isRule,rfl⟩
  · rintro ⟨id,member,rule,isRule,rfl⟩
    exact ⟨id,member,by rw [isRule]; rfl⟩

theorem mirror_exact (store : RuleStore) (lists : Lists upstream message shown) (unfiltered : message.git_origin.getD "" = "")
    (reply : KnowledgeBaseListResponse) :
    Mirrors upstream store (mirror store (shown.filterMap (itemOf upstream))).1
        ((mirror store (shown.filterMap (itemOf upstream))).2.map fun _ => reply) ↔ Mirrorable store upstream message shown := by
  obtain ⟨distinct,known⟩ := lists_facts lists
  have isMirror : mirror store (shown.filterMap (itemOf upstream)) = store.replace_all (mirrored upstream shown) := rfl
  have ids := mirrored_ids known
  have allValid : (∀ id ∈ (mirrored upstream shown).map (·.id), validId id = true) ↔
    ∀ record ∈ mirrored upstream shown, validId record.id = true := List.forall_mem_map
  rw [ids] at allValid
  rw [isMirror,Mirrorable,if_neg (by simpa using unfiltered)]
  split_ifs with valid
  · obtain ⟨after,replaced,listed,unlisted⟩ := replaced_ok store (allValid.mp valid) (ids.symm ▸ distinct)
    rw [replaced]
    simp only [Except.map,Mirrors,Keeps]
    refine forall₄_congr fun id rule isRule inMirror => ?_
    rw [list_mem]
    constructor
    · rintro ⟨_,kept⟩
      have member : id ∈ shown := by
        by_contra absent
        rw [ids] at unlisted
        have gone := unlisted id absent
        change after.record id = _ at kept
        rw [gone] at kept
        cases kept
      refine ⟨member,?_⟩
      have written := listed _ (mirrored_mem.mpr ⟨id,member,rule,isRule,rfl⟩)
      change after.record id = _ at kept written
      rw [written] at kept
      exact (congrArg RuleRecord.git_origin (Option.some.inj kept)).symm
    · rintro ⟨member,plain⟩
      refine ⟨inMirror.1,?_⟩
      have written := listed _ (mirrored_mem.mpr ⟨id,member,rule,isRule,rfl⟩)
      change after.record id = _ at written ⊢
      rw [written,recordOf,plain]
  · obtain ⟨e,replaced⟩ := replaced_error store (mt allValid.mpr valid)
    rw [replaced]
    simp only [Except.map,Mirrors]
    have sub := List.takeWhile_sublist (fun record : RuleRecord => validId record.id) (l := mirrored upstream shown)
    have before : ((mirrored upstream shown).takeWhile fun record => validId record.id).map (·.id) = shown.takeWhile validId := by
      conv_rhs => rw [← ids]
      exact (List.takeWhile_map (p := validId) (f := fun record : RuleRecord => record.id)).symm
    have distinctBefore : (((mirrored upstream shown).takeWhile fun record => validId record.id).map (·.id)).Nodup :=
      (ids.symm ▸ distinct : ((mirrored upstream shown).map (·.id)).Nodup).sublist (sub.map _)
    constructor
    · intro same id member rule isRule
      rw [← before] at member
      obtain ⟨record,isBefore,rfl⟩ := List.mem_map.mp member
      obtain ⟨other,_,found,isFound,rfl⟩ := mirrored_mem.mp (sub.subset isBefore)
      change upstream.lookup other = some rule at isRule
      obtain rfl := Option.some.inj (isFound.symm.trans isRule)
      rw [← same.files]
      exact insertAll_mem distinctBefore isBefore
    · intro same
      refine ⟨fun id => ?_,fun _ => rfl,rfl⟩
      by_cases member : id ∈ ((mirrored upstream shown).takeWhile fun record => validId record.id).map (·.id)
      · have isBefore := member
        rw [before] at isBefore
        obtain ⟨record,isRecord,rfl⟩ := List.mem_map.mp member
        obtain ⟨other,_,found,isFound,rfl⟩ := mirrored_mem.mp (sub.subset isRecord)
        rw [same _ isBefore found isFound]
        exact insertAll_mem distinctBefore isRecord
      · exact insertAll_other member

end Claims

end Mirror

section Example
local instance exampleFiles : RuleFiles where
  file_modified_at _ := "1970-01-01T00:00:00.000Z"
  timestamp _ := 0
  debug text := "\"" ++ text ++ "\""

def listing (id : String) (shown : List String) : Call := ⟨true,id,"2026-01-02T00:00:00.000Z",shown⟩
def emptyWorld : World := ⟨{},∅,⟨∅,∅,[]⟩⟩
/-- Two rules are added while upstream is reached, the first with a git origin. -/
def additions : List Turn :=
  [⟨.Add ⟨"Use tabs.","Tabs","git@host:a"⟩ "2026-01-01T00:00:00.000Z" "1",[listing "7" []]⟩,
    ⟨.Add ⟨"Answer briefly.","Style",""⟩ "2026-01-01T00:00:00.000Z" "2",[listing "8" []]⟩]
def added : World := additions.foldl step emptyWorld
def asked (limit : Option Int) : KnowledgeBaseListRequest := ⟨limit,none⟩
def listedBy (shown : List String) (limit : Option Int) : Session × Except Error KnowledgeBaseListResponse :=
  list ⟨added.store,added.upstream,[listing "" shown],[]⟩ (asked limit)

def refused : Table Rule :=
  (AList.insert "7" (⟨"Use tabs.","Tabs","",false,""⟩ : Rule) ∅).insert "a b" ⟨"Other.","Other","",false,""⟩

end Example

end MyCursor.KnowledgeMirror

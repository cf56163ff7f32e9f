import MyCursor.Knowledge

/-!
# Offline changes reach upstream

While a change waits in the journal the local rules are ahead of upstream by exactly
that change, rule by rule. When the journal is empty, upstream has what the client
was told.
-/
namespace MyCursor.KnowledgeSync
open Rules Knowledge Transitions
set_option linter.unusedSectionVars false

def told (record : RuleRecord) : Said := ⟨record.knowledge,record.title,record.git_origin⟩

/-- What is here, upstream and told of a rule agrees but for the change that waits. -/
def Coherent (op : Option JournalOp) (id : String) (record : Option RuleRecord) (rule : Option Rule) (said : Option Said) : Prop :=
  match op with
  | none => said = rule.map Rule.said ∧ (record.isSome = true → said.isSome = true)
  | some .Add => isLocal id = true ∧ rule = none ∧ ∃ here, record = some here ∧ said = some (told here)
  | some .Update => isLocal id = false ∧ ∃ here there, record = some here ∧ rule = some there ∧
      said = some ⟨here.knowledge,here.title,there.git_origin⟩
  | some .Remove => isLocal id = false ∧ record = none ∧ said = none

section Proofs
variable [RuleFiles] {store : RuleStore} {upstream : Table Rule} {ledger before : Ledger} {s s' : Session}

structure Tracks (store : RuleStore) (upstream : Table Rule) (ledger : Ledger) : Prop where
  once : (store.journal.map (·.id)).Nodup
  coherent : ∀ id, Coherent (pending store.journal id) id (store.record id) (upstream.lookup id) (ledger.rules.lookup id)
  valid : ∀ id, (upstream.lookup id).isSome = true → validId id = true ∧ isLocal id = false
  given : ∀ id, (upstream.lookup id).isSome = true ∨ (ledger.rules.lookup id).isSome = true → id ∈ ledger.given
  replaced : ∀ id new_id, ledger.replaced.lookup id = some new_id →
    isLocal id = true ∧ id ∈ ledger.given ∧ pending store.journal id = none

section
variable (tracks : Tracks store upstream ledger)
include tracks

theorem Tracks.at {op : Option JournalOp} {id : String} (waits : pending store.journal id = op) :
    Coherent op id (store.record id) (upstream.lookup id) (ledger.rules.lookup id) := waits ▸ tracks.coherent id

theorem Tracks.recorded {id : String} (here : (store.record id).isSome = true) : (ledger.rules.lookup id).isSome = true := by
  have coherent := tracks.coherent id
  cases waits : pending store.journal id with
  | none =>
    rw [waits] at coherent
    exact coherent.2 here
  | some op =>
    rw [waits] at coherent
    cases op with
    | Add =>
      obtain ⟨_,_,record,_,isSaid⟩ := coherent
      rw [isSaid]
      rfl
    | Update =>
      obtain ⟨_,record,rule,_,_,isSaid⟩ := coherent
      rw [isSaid]
      rfl
    | Remove =>
      rw [coherent.2.1] at here
      cases here
theorem Tracks.unknown {id : String} (fresh : id ∉ ledger.given) :
    store.record id = none ∧ upstream.lookup id = none ∧ ledger.rules.lookup id = none := by
  have notUpstream : upstream.lookup id = none := by
    by_contra there
    exact fresh (tracks.given id (.inl (Option.isSome_iff_ne_none.mpr there)))
  have notTold : ledger.rules.lookup id = none := by
    by_contra said
    exact fresh (tracks.given id (.inr (Option.isSome_iff_ne_none.mpr said)))
  refine ⟨?_,notUpstream,notTold⟩
  by_contra here
  have said := tracks.recorded (Option.isSome_iff_ne_none.mpr here)
  rw [notTold] at said
  cases said
theorem Tracks.unwaited {id : String} (fresh : id ∉ ledger.given)
    (notRemoved : pending store.journal id ≠ some .Remove) : pending store.journal id = none := by
  obtain ⟨notHere,_,_⟩ := tracks.unknown fresh
  cases waits : pending store.journal id with
  | none => rfl
  | some op =>
    have coherent := tracks.at waits
    cases op with
    | Add =>
      obtain ⟨_,_,record,isRecord,_⟩ := coherent
      rw [notHere] at isRecord
      cases isRecord
    | Update =>
      obtain ⟨_,record,rule,isRecord,_⟩ := coherent
      rw [notHere] at isRecord
      cases isRecord
    | Remove => exact absurd waits notRemoved

end

variable {new_id : String}

theorem Tracks.retired (tracks : Tracks store upstream ledger) {id : String} (replaced : ledger.replaced.lookup id = some new_id) :
    store.record id = none ∧ upstream.lookup id = none ∧ ledger.rules.lookup id = none := by
  obtain ⟨isLocal,_,waits⟩ := tracks.replaced id new_id replaced
  have notUpstream : upstream.lookup id = none := by
    by_contra there
    have other := (tracks.valid id (Option.isSome_iff_ne_none.mpr there)).2
    rw [isLocal] at other
    cases other
  obtain ⟨same,recorded⟩ := tracks.at waits
  rw [notUpstream] at same
  refine ⟨?_,notUpstream,same⟩
  by_contra here
  have said := recorded (Option.isSome_iff_ne_none.mpr here)
  rw [same] at said
  cases said
theorem Tracks.named (tracks : Tracks store upstream ledger) {id : String}
    (known : (upstream.lookup id).isSome = true ∨ (store.record id).isSome = true) : ledger.named id = id := by
  unfold Ledger.named
  cases replaced : ledger.replaced.lookup id with
  | none => rfl
  | some new_id =>
    obtain ⟨notHere,notUpstream,_⟩ := tracks.retired replaced
    rcases known with there | here
    · rw [notUpstream] at there
      cases there
    · rw [notHere] at here
      cases here

theorem Tracks.change {store' : RuleStore} {upstream' : Table Rule} {ledger' : Ledger} (tracks : Tracks store upstream ledger)
    (key : String) (once : (store'.journal.map (·.id)).Nodup)
    (others : ∀ id, id ≠ key → pending store'.journal id = pending store.journal id ∧ store'.record id = store.record id ∧
      upstream'.lookup id = upstream.lookup id ∧ ledger'.rules.lookup id = ledger.rules.lookup id)
    (coherent : Coherent (pending store'.journal key) key (store'.record key) (upstream'.lookup key) (ledger'.rules.lookup key))
    (valid : (upstream'.lookup key).isSome = true → validId key = true ∧ isLocal key = false)
    (more : ∀ id ∈ ledger.given, id ∈ ledger'.given)
    (given : (upstream'.lookup key).isSome = true ∨ (ledger'.rules.lookup key).isSome = true → key ∈ ledger'.given)
    (same : ledger'.replaced = ledger.replaced)
    (retired : ∀ new_id, ledger.replaced.lookup key = some new_id → pending store'.journal key = none) :
    Tracks store' upstream' ledger' := by
  refine ⟨once,fun id => ?_,fun id => ?_,fun id => ?_,fun id new_id => ?_⟩
  · by_cases own : id = key
    · exact own ▸ coherent
    · obtain ⟨samePending,sameRecord,sameRule,sameSaid⟩ := others id own
      rw [samePending,sameRecord,sameRule,sameSaid]
      exact tracks.coherent id
  · by_cases own : id = key
    · exact own ▸ valid
    · rw [(others id own).2.2.1]
      exact tracks.valid id
  · by_cases own : id = key
    · exact own ▸ given
    · rw [(others id own).2.2.1,(others id own).2.2.2]
      exact fun known => more id (tracks.given id known)
  · rw [same]
    intro replaced
    obtain ⟨isLocal,isGiven,waits⟩ := tracks.replaced id new_id replaced
    refine ⟨isLocal,more id isGiven,?_⟩
    by_cases own : id = key
    · exact own ▸ retired new_id (own ▸ replaced)
    · rw [(others id own).1]
      exact waits

variable {op : JournalOp}

variable {rest : List JournalEntry} {record : RuleRecord} {rule : Rule}

variable {entry : JournalEntry}

theorem tail_pending (once : ((entry :: rest).map (·.id)).Nodup) (id : String) :
    pending rest id = if id = entry.id then none else pending (entry :: rest) id := by
  rw [List.map_cons,List.nodup_cons] at once
  rw [pending_cons]
  split_ifs with own same
  · exact pending_none.mpr (own ▸ once.1)
  · exact absurd same.symm own
  · rfl

theorem move_journal {id : String} (once : (store.journal.map (·.id)).Nodup)
    (front : store.journal = ⟨op,id⟩ :: rest) (new_id knowledge : String) :
    (store.move id new_id knowledge).pop_journal.journal = rest := by
  have others : ∀ entry ∈ rest, (if entry.id = id then { entry with id := new_id } else entry) = entry := by
    intro entry member
    rw [front,List.map_cons,List.nodup_cons] at once
    exact if_neg fun same => once.1 (List.mem_map.mpr ⟨entry,member,same⟩)
  simp only [RuleStore.pop_journal,RuleStore.move,front,List.map_cons,List.tail_cons]
  exact (List.map_congr_left others).trans (List.map_id rest)

theorem Tracks.replayAdd {id : String} (rule : Rule) (knowledge : String)
    (tracks : Tracks store upstream ledger) (front : store.journal = ⟨.Add,id⟩ :: rest) (isRecord : store.record id = some record)
    (isRule : rule.said = told record) (valid : validId new_id = true) (notLocal : isLocal new_id = false)
    (fresh : new_id ∉ ledger.given) (notRemoved : pending store.journal new_id ≠ some .Remove) :
    Tracks (store.move id new_id knowledge).pop_journal (upstream.insert new_id rule) (ledger.apply (.Replaced id new_id)) := by
  have once := tracks.once
  rw [front] at once
  have waits : pending store.journal id = some .Add := by rw [front,pending_cons,if_pos rfl]
  obtain ⟨ownLocal,notUpstream,here,isHere,isSaid⟩ := tracks.at waits
  obtain rfl := Option.some.inj (isHere.symm.trans isRecord)
  have different : new_id ≠ id := fun same => by
    rw [same,ownLocal] at notLocal
    cases notLocal
  have idle := tracks.unwaited fresh notRemoved
  have journal := move_journal tracks.once front new_id knowledge
  have waiting : ∀ other, pending rest other = if other = id then none else pending store.journal other := by
    intro other
    rw [front]
    exact tail_pending once other
  have moved := record_move store different knowledge
  have rules : (ledger.apply (.Replaced id new_id)).rules = (ledger.rules.erase id).insert new_id (told here) := by
    simp only [Ledger.apply,isSaid]
  refine ⟨?_,fun other => ?_,fun other => ?_,fun other => ?_,fun other replacement => ?_⟩
  · rw [journal]
    exact (List.nodup_cons.mp once).2
  · rw [journal,waiting,record_pop,lookup_insert,rules,lookup_insert,lookup_erase]
    by_cases old : other = id
    · subst old
      rw [if_pos rfl,if_neg (Ne.symm different),if_neg (Ne.symm different),if_pos rfl,(moved other).2.1,notUpstream]
      exact ⟨rfl,fun none => nomatch none⟩
    · by_cases new : other = new_id
      · subst new
        rw [if_neg old,if_pos rfl,if_pos rfl,idle,isRule.symm]
        exact ⟨rfl,fun _ => rfl⟩
      · rw [if_neg old,if_neg new,if_neg new,if_neg old,(moved other).2.2 old new]
        exact tracks.coherent other
  · rw [lookup_insert]
    split_ifs with new
    · exact fun _ => new ▸ ⟨valid,notLocal⟩
    · exact tracks.valid other
  · rw [lookup_insert,rules,lookup_insert,lookup_erase]
    split_ifs with new old
    · exact fun _ => new ▸ List.mem_cons_self
    · rw [old,notUpstream]
      rintro (none | none) <;> cases none
    · exact fun known => List.mem_cons_of_mem _ (tracks.given other known)
  · rw [journal,waiting]
    simp only [Ledger.apply,lookup_insert]
    split_ifs with old
    · refine fun _ => ⟨old ▸ ownLocal,List.mem_cons_of_mem _ (tracks.given other (.inr ?_)),rfl⟩
      rw [old,isSaid]
      rfl
    · intro replaced
      obtain ⟨isLocal,isGiven,waits⟩ := tracks.replaced other replacement replaced
      exact ⟨isLocal,List.mem_cons_of_mem _ isGiven,waits⟩

theorem Tracks.popped {id : String} {upstream' : Table Rule}
    (tracks : Tracks store upstream ledger) (front : store.journal = ⟨op,id⟩ :: rest)
    (others : ∀ other, other ≠ id → upstream'.lookup other = upstream.lookup other)
    (coherent : Coherent none id (store.record id) (upstream'.lookup id) (ledger.rules.lookup id))
    (known : (upstream'.lookup id).isSome = true → (upstream.lookup id).isSome = true) :
    Tracks store.pop_journal upstream' ledger := by
  have once := tracks.once
  rw [front] at once
  have journal : store.pop_journal.journal = rest := by rw [RuleStore.pop_journal,front,List.tail_cons]
  have waiting : ∀ other, pending store.pop_journal.journal other = if other = id then none else pending store.journal other := by
    intro other
    rw [journal,front]
    exact tail_pending once other
  refine tracks.change id ?_ (fun other different => ?_) ?_ (fun there => tracks.valid id (known there)) (fun _ member => member)
    (fun either => tracks.given id (either.imp_left known)) rfl fun _ _ => ?_
  · rw [journal]
    exact (List.nodup_cons.mp once).2
  · exact ⟨by rw [waiting,if_neg different],rfl,others other different,rfl⟩
  · rw [waiting,if_pos rfl,record_pop]
    exact coherent
  · rw [waiting,if_pos rfl]

theorem Tracks.replayUpdate {id : String}
    (tracks : Tracks store upstream ledger) (front : store.journal = ⟨.Update,id⟩ :: rest) (isRecord : store.record id = some record)
    (isRule : upstream.lookup id = some rule) :
    Tracks store.pop_journal (upstream.insert id { rule with knowledge := record.knowledge, title := record.title }) ledger := by
  have waits : pending store.journal id = some .Update := by rw [front,pending_cons,if_pos rfl]
  obtain ⟨notLocal,here,there,isHere,isThere,isSaid⟩ := tracks.at waits
  obtain rfl := Option.some.inj (isHere.symm.trans isRecord)
  obtain rfl := Option.some.inj (isThere.symm.trans isRule)
  refine tracks.popped front (fun other different => ?_) ?_ fun _ => ?_
  · rw [lookup_insert,if_neg different]
  · rw [lookup_insert,if_pos rfl,isSaid]
    exact ⟨rfl,fun _ => rfl⟩
  · rw [isRule]
    rfl
theorem Tracks.replayRemove {id : String} (tracks : Tracks store upstream ledger)
    (front : store.journal = ⟨.Remove,id⟩ :: rest) : Tracks store.pop_journal (upstream.erase id) ledger := by
  have waits : pending store.journal id = some .Remove := by rw [front,pending_cons,if_pos rfl]
  obtain ⟨notLocal,notHere,notSaid⟩ := tracks.at waits
  refine tracks.popped front (fun other different => ?_) ?_ fun there => ?_
  · rw [lookup_erase,if_neg different]
  · rw [lookup_erase,if_pos rfl,notHere,notSaid]
    exact ⟨rfl,fun none => nomatch none⟩
  · rw [lookup_erase,if_pos rfl] at there
    cases there

/-- What holds while a request is handled: no id that upstream may give is in use,
    and the local ids are those from before. -/
structure Running (before : Ledger) (s : Session) : Prop where
  tracks : Tracks s.store s.upstream (s.ledger before)
  fresh : ∀ call ∈ s.calls, validId call.id = true ∧ isLocal call.id = false ∧ call.id ∉ (s.ledger before).given ∧
    pending s.store.journal call.id ≠ some .Remove
  apart : (s.calls.map (·.id)).Nodup
  locals : ∀ id ∈ (s.ledger before).given, isLocal id = true → id ∈ before.given

theorem ledger_replaced (before : Ledger) (s : Session) (store : RuleStore) (upstream : Table Rule) (id new_id : String) :
    Session.ledger { s with store, upstream, replaced := s.replaced ++ [(id,new_id)] } before =
      (s.ledger before).apply (.Replaced id new_id) := by
  simp [Session.ledger]

structure Called (before : Ledger) (s after : Session) : Prop where
  running : Running before after
  store : after.store = s.store
  upstream : after.upstream = s.upstream
  ledger : after.ledger before = s.ledger before

theorem meet_cases {α : Type} {answer : Session → Call → Session × Option α} {reply : Option α} (running : Running before s)
    (isMet : s.meet answer = (s',reply)) : (reply = none ∧ Called before s s') ∨
      ∃ after, Called before s after ∧ ∃ call ∈ s.calls, (∀ later ∈ after.calls, later.id ≠ call.id) ∧ answer after call = (s',reply) := by
  rcases isNext : s.next with ⟨after,call⟩
  obtain ⟨rfl,isCall⟩ := Prod.mk.inj isNext
  have called : Called before s { s with calls := s.calls.tail } :=
    ⟨⟨running.tracks,fun call member => running.fresh call (List.mem_of_mem_tail member),
      running.apart.sublist ((List.tail_sublist _).map _),running.locals⟩,rfl,rfl,rfl⟩
  rw [Session.meet,isNext] at isMet
  cases call with
  | none =>
    obtain ⟨rfl,rfl⟩ := Prod.mk.inj isMet
    exact .inl ⟨rfl,called⟩
  | some call =>
    obtain ⟨isFirst,_⟩ := Option.filter_eq_some_iff.mp isCall
    obtain ⟨rest,isCalls⟩ := List.head?_eq_some_iff.mp isFirst
    have apart := running.apart
    rw [isCalls] at apart
    refine .inr ⟨_,called,call,by rw [isCalls]; exact List.mem_cons_self,fun later member same => ?_,isMet⟩
    rw [show ({ s with calls := s.calls.tail } : Session).calls = s.calls.tail from rfl,isCalls] at member
    exact (List.nodup_cons.mp apart).1 (List.mem_map.mpr ⟨later,member,same⟩)

theorem Running.become {store : RuleStore} {upstream : Table Rule} (running : Running before s)
    (tracks : Tracks store upstream (s.ledger before))
    (removals : ∀ call ∈ s.calls, pending store.journal call.id = some .Remove → pending s.store.journal call.id = some .Remove) :
    Running before { s with store, upstream } :=
  ⟨tracks,fun call member => by
    obtain ⟨valid,notLocal,notGiven,notRemoved⟩ := running.fresh call member
    exact ⟨valid,notLocal,notGiven,fun waits => notRemoved (removals call member waits)⟩,running.apart,running.locals⟩

theorem get_ok {id : String} {found : Option RuleRecord} (isFound : store.get id = .ok found) :
    validId id = true ∧ store.record id = found := by
  unfold RuleStore.get validate_id at isFound
  split_ifs at isFound with valid
  · exact ⟨valid,Except.ok.inj isFound⟩
  · cases isFound

theorem tail_removals (once : ((entry :: rest).map (·.id)).Nodup) {id : String}
    (waits : pending rest id = some .Remove) : pending (entry :: rest) id = some .Remove := by
  rw [tail_pending once] at waits
  split_ifs at waits
  exact waits

section
variable (running : Running before s)
include running

theorem replay_add_running {id : String} (front : s.store.journal = ⟨.Add,id⟩ :: rest) :
    Running before (replay_add s id).1 ∧ ((replay_add s id).2 = .ok true → (replay_add s id).1.store.journal = rest) := by
  have waits : pending s.store.journal id = some .Add := by rw [front,pending_cons,if_pos rfl]
  obtain ⟨_,_,record,isRecord,_⟩ := running.tracks.at waits
  unfold replay_add
  cases isFound : s.store.get id with
  | error e => exact ⟨running,fun done => nomatch done⟩
  | ok found =>
    obtain ⟨ownValid,same⟩ := get_ok isFound
    obtain rfl := isRecord.symm.trans same
    dsimp only
    rcases isSent : s.sendAdd ⟨record.knowledge,record.title,record.git_origin⟩ with ⟨after,reply⟩
    rcases meet_cases running isSent with ⟨rfl,called⟩ | ⟨met,called,call,member,apart,isAnswer⟩
    · exact ⟨called.running,fun done => nomatch done⟩
    · obtain ⟨rfl,rfl⟩ := Prod.mk.inj isAnswer
      obtain ⟨valid,notLocal,fresh,notRemoved⟩ := running.fresh call member
      have filled : call.id ≠ "" := fun empty => by
        rw [empty] at valid
        cases valid
      obtain ⟨knowledge,isFile,isAssembled⟩ := Option.map_eq_some_iff.mp isRecord
      have promotes : met.store.promote id call.id = .ok (met.store.move id call.id knowledge) := by
        simp [RuleStore.promote,validate_id,ownValid,valid,called.store,isFile,bind,Except.bind]
      simp only [Bool.not_true,Bool.false_or,decide_eq_true_eq,if_neg filled,promotes]
      have front' : met.store.journal = ⟨.Add,id⟩ :: rest := by rw [called.store,front]
      have tracks := called.running.tracks
      rw [called.ledger] at tracks
      have moved := tracks.replayAdd ⟨record.knowledge,record.title,call.created_at,false,record.git_origin⟩ knowledge front'
        (by rw [called.store]; exact isRecord) rfl valid notLocal fresh (by rw [called.store]; exact notRemoved)
      have journal := move_journal tracks.once front' call.id knowledge
      refine ⟨⟨?_,fun later isLater => ?_,called.running.apart,fun other isGiven isLocal => ?_⟩,fun _ => journal⟩
      · rw [ledger_replaced,called.ledger]
        exact moved
      · obtain ⟨laterValid,laterOther,laterFresh,laterWaits⟩ := called.running.fresh later isLater
        rw [ledger_replaced,called.ledger]
        rw [called.ledger] at laterFresh
        refine ⟨laterValid,laterOther,fun isGiven => ?_,fun removed => laterWaits ?_⟩
        · exact (List.mem_cons.mp isGiven).elim (apart later isLater) laterFresh
        · rw [front']
          refine tail_removals (front' ▸ tracks.once) ?_
          rw [← journal]
          exact removed
      · rw [ledger_replaced,called.ledger] at isGiven
        rcases List.mem_cons.mp isGiven with rfl | earlier
        · rw [notLocal] at isLocal
          cases isLocal
        · exact running.locals other earlier isLocal
theorem Running.pop {upstream : Table Rule}
    (front : s.store.journal = entry :: rest) (tracks : Tracks s.store.pop_journal upstream (s.ledger before)) :
    Running before ({ s with upstream } : Session).pop ∧ ({ s with upstream } : Session).pop.store.journal = rest := by
  have journal : s.store.pop_journal.journal = rest := by rw [RuleStore.pop_journal,front,List.tail_cons]
  refine ⟨running.become tracks fun call _ removed => ?_,journal⟩
  rw [journal] at removed
  rw [front]
  exact tail_removals (front ▸ running.tracks.once) removed
theorem replay_update_running {id : String} (front : s.store.journal = ⟨.Update,id⟩ :: rest) :
    Running before (replay_update s id).1 ∧ ((replay_update s id).2 = .ok true → (replay_update s id).1.store.journal = rest) := by
  have waits : pending s.store.journal id = some .Update := by rw [front,pending_cons,if_pos rfl]
  obtain ⟨_,record,rule,isRecord,isRule,_⟩ := running.tracks.at waits
  unfold replay_update
  cases isFound : s.store.get id with
  | error e => exact ⟨running,fun done => nomatch done⟩
  | ok found =>
    obtain ⟨_,same⟩ := get_ok isFound
    obtain rfl := isRecord.symm.trans same
    dsimp only
    rcases isSent : s.sendUpdate ⟨id,record.knowledge,record.title⟩ with ⟨after,reply⟩
    rcases meet_cases running isSent with ⟨rfl,called⟩ | ⟨met,called,call,_,_,isAnswer⟩
    · exact ⟨called.running,fun done => nomatch done⟩
    · have isRule' : met.upstream.lookup id = some rule := by rw [called.upstream,isRule]
      have front' : met.store.journal = ⟨.Update,id⟩ :: rest := by rw [called.store,front]
      simp only [isRule'] at isAnswer
      obtain ⟨rfl,rfl⟩ := Prod.mk.inj isAnswer
      have popped := called.running.pop front' (called.running.tracks.replayUpdate front' (by rw [called.store]; exact isRecord) isRule')
      exact ⟨popped.1,fun _ => popped.2⟩
theorem replay_remove_running {id : String} (front : s.store.journal = ⟨.Remove,id⟩ :: rest) :
    Running before (replay_remove s id).1 ∧ ((replay_remove s id).2 = .ok true → (replay_remove s id).1.store.journal = rest) := by
  unfold replay_remove
  rcases isSent : s.sendRemove id with ⟨after,reply⟩
  rcases meet_cases running isSent with ⟨rfl,called⟩ | ⟨met,called,call,_,_,isAnswer⟩
  · exact ⟨called.running,fun done => nomatch done⟩
  · have front' : met.store.journal = ⟨.Remove,id⟩ :: rest := by rw [called.store,front]
    cases isRule : met.upstream.lookup id with
    | none =>
      simp only [isRule] at isAnswer
      obtain ⟨rfl,rfl⟩ := Prod.mk.inj isAnswer
      exact ⟨called.running,fun done => nomatch done⟩
    | some rule =>
      simp only [isRule] at isAnswer
      obtain ⟨rfl,rfl⟩ := Prod.mk.inj isAnswer
      have popped := called.running.pop front' (called.running.tracks.replayRemove front')
      exact ⟨popped.1,fun _ => popped.2⟩

theorem replayLoop_running {fuel : Nat} : Running before (replayLoop fuel s).1 ∧
      (s.store.journal.length ≤ fuel → (replayLoop fuel s).2 = .ok true → (replayLoop fuel s).1.store.journal = []) := by
  induction fuel generalizing s with
  | zero => exact ⟨running,fun short _ => List.eq_nil_of_length_eq_zero (Nat.le_zero.mp short)⟩
  | succ fuel ih =>
    rw [replayLoop]
    cases isJournal : s.store.journal with
    | nil =>
      have front : s.store.journal_front = none := by rw [RuleStore.journal_front,isJournal,List.head?_nil]
      rw [front]
      exact ⟨running,fun _ _ => isJournal⟩
    | cons entry rest =>
      obtain ⟨op,id⟩ := entry
      have front : s.store.journal_front = some ⟨op,id⟩ := by rw [RuleStore.journal_front,isJournal,List.head?_cons]
      have replayed : Running before (replay_entry s ⟨op,id⟩).1 ∧
          ((replay_entry s ⟨op,id⟩).2 = .ok true → (replay_entry s ⟨op,id⟩).1.store.journal = rest) := by
        cases op with
        | Add => exact replay_add_running running isJournal
        | Update => exact replay_update_running running isJournal
        | Remove => exact replay_remove_running running isJournal
      rw [front]
      dsimp only
      rcases isReplayed : replay_entry s ⟨op,id⟩ with ⟨after,e | _ | _⟩
      · rw [isReplayed] at replayed
        exact ⟨replayed.1,fun _ done => nomatch done⟩
      · rw [isReplayed] at replayed
        exact ⟨replayed.1,fun _ done => nomatch done⟩
      · rw [isReplayed] at replayed
        obtain ⟨goes,ends⟩ := ih replayed.1
        refine ⟨goes,fun short => ends ?_⟩
        rw [replayed.2 rfl]
        simpa using short
theorem replay_running : Running before (replay s).1 ∧ ((replay s).2 = .ok true → (replay s).1.store.journal = []) :=
  have both := replayLoop_running running
  ⟨both.1,both.2 le_rfl⟩

end

/-! ## Changes that are acknowledged -/

variable {journal : List JournalEntry} {knowledge title : String}

theorem push_pending {key : String} (waits : pending journal key = none) (op : JournalOp) (id : String) :
    pending (journal ++ [⟨op,key⟩]) id = if id = key then some op else pending journal id := by
  rw [pending_append,pending_cons]
  by_cases own : id = key
  · rw [own,waits,if_pos rfl,if_pos rfl,Option.none_or]
  · rw [if_neg (Ne.symm own),if_neg own]
    exact Option.or_none
theorem push_once {key : String} (once : (journal.map (·.id)).Nodup)
    (waits : pending journal key = none) (op : JournalOp) : ((journal ++ [(⟨op,key⟩ : JournalEntry)]).map (·.id)).Nodup := by
  rw [List.map_append,List.nodup_append]
  refine ⟨once,List.nodup_singleton _,fun id member other isOther same => ?_⟩
  obtain rfl := List.mem_singleton.mp isOther
  exact pending_none.mp waits (same ▸ member)

theorem Tracks.addUpstream {said : Said} (tracks : Tracks store upstream ledger)
    (isRule : rule.said = said) (isRecord : record.id = new_id) (valid : validId new_id = true) (notLocal : isLocal new_id = false)
    (fresh : new_id ∉ ledger.given) (notRemoved : pending store.journal new_id ≠ some .Remove) :
    Tracks (store.write record) (upstream.insert new_id rule) (ledger.apply (.Added new_id said)) := by
  have waits := tracks.unwaited fresh notRemoved
  refine tracks.change new_id tracks.once (fun id different => ⟨rfl,?_,?_,?_⟩) ?_ (fun _ => ⟨valid,notLocal⟩)
    (fun _ member => List.mem_cons_of_mem _ member) (fun _ => List.mem_cons_self) rfl fun _ _ => waits
  · rw [record_write,isRecord,if_neg different]
  · rw [lookup_insert,if_neg different]
  · rw [Ledger.apply,lookup_insert,if_neg different]
  · rw [show (store.write record).journal = store.journal from rfl,waits,lookup_insert,if_pos rfl,Ledger.apply,lookup_insert,
      if_pos rfl,← isRule]
    exact ⟨rfl,fun _ => rfl⟩
theorem Tracks.addLocal {id : String} (tracks : Tracks store upstream ledger) (isRecord : record.id = id)
    (ownLocal : isLocal id = true) (fresh : id ∉ ledger.given) :
    Tracks ((store.write record).record_add id) upstream (ledger.apply (.Added id (told record))) := by
  obtain ⟨_,notUpstream,_⟩ := tracks.unknown fresh
  have waits : pending store.journal id = none := tracks.unwaited fresh fun removed => by
    have notLocal := (tracks.at removed).1
    rw [ownLocal] at notLocal
    cases notLocal
  have journal : ((store.write record).record_add id).journal = store.journal ++ [⟨.Add,id⟩] := rfl
  refine tracks.change id ?_ (fun other different => ⟨?_,?_,rfl,?_⟩) ?_ (tracks.valid id)
    (fun _ member => List.mem_cons_of_mem _ member) (fun _ => List.mem_cons_self) rfl fun new_id replaced => ?_
  · exact push_once tracks.once waits .Add
  · rw [journal,push_pending waits,if_neg different]
  · rw [RuleStore.record_add,record_push,record_write,isRecord,if_neg different]
  · rw [Ledger.apply,lookup_insert,if_neg different]
  · rw [journal,push_pending waits,if_pos rfl,RuleStore.record_add,record_push,record_write,isRecord,if_pos rfl,Ledger.apply,
      lookup_insert,if_pos rfl]
    exact ⟨ownLocal,notUpstream,record,rfl,rfl⟩
  · exact absurd (tracks.replaced id new_id replaced).2.1 fresh

theorem apply_updated {id : String} {said : Said} (named : ledger.named id = id)
    (isSaid : ledger.rules.lookup id = some said) : ledger.apply (.Updated id knowledge title) =
      { ledger with rules := ledger.rules.insert id { said with knowledge, title } } := by
  unfold Ledger.apply
  dsimp only
  rw [named,isSaid]

theorem Tracks.updateUpstream {id : String} (tracks : Tracks store upstream ledger)
    (empty : store.journal = []) (isRule : upstream.lookup id = some rule) (isRecord : record.id = id) :
    Tracks (store.write record) (upstream.insert id { rule with knowledge, title }) (ledger.apply (.Updated id knowledge title)) := by
  have waits : pending store.journal id = none := by
    rw [empty]
    rfl
  have known : (upstream.lookup id).isSome = true := by
    rw [isRule]
    rfl
  have isSaid := (tracks.at waits).1
  rw [isRule,Option.map_some] at isSaid
  rw [apply_updated (tracks.named (.inl known)) isSaid]
  refine tracks.change id tracks.once (fun other different => ⟨rfl,?_,?_,?_⟩) ?_ (fun _ => tracks.valid id known)
    (fun _ member => member) (fun _ => tracks.given id (.inl known)) rfl fun _ _ => waits
  · rw [record_write,isRecord,if_neg different]
  · rw [lookup_insert,if_neg different]
  · rw [lookup_insert,if_neg different]
  · rw [show (store.write record).journal = store.journal from rfl,waits,lookup_insert,if_pos rfl,lookup_insert,if_pos rfl]
    exact ⟨rfl,fun _ => rfl⟩
theorem Tracks.updateLocal {id : String} (tracks : Tracks store upstream ledger)
    (isRecord : store.record id = some record) (ownId : record.id = id) :
    Tracks ((store.write { record with knowledge, title }).record_update id) upstream (ledger.apply (.Updated id knowledge title)) := by
  have here : (store.record id).isSome = true := by
    rw [isRecord]
    rfl
  obtain ⟨said,isSaid⟩ := Option.isSome_iff_exists.mp (tracks.recorded here)
  rw [apply_updated (tracks.named (.inr here)) isSaid]
  have given : id ∈ ledger.given := tracks.given id (.inr (by rw [isSaid]; rfl))
  have contains := contains_iff tracks.once id
  have records : ∀ other, ((store.write { record with knowledge, title }).record_update id).record other =
      if other = id then some { record with knowledge, title } else store.record other := by
    intro other
    rw [record_update_record,record_write,ownId]
  cases waits : pending store.journal id with
  | none =>
    obtain ⟨sameSaid,_⟩ := tracks.at waits
    rw [isSaid] at sameSaid
    obtain ⟨rule,isRule,rfl⟩ := Option.map_eq_some_iff.mp sameSaid.symm
    have notLocal : isLocal id = false := (tracks.valid id (by rw [isRule]; rfl)).2
    have journal : ((store.write { record with knowledge, title }).record_update id).journal = store.journal ++ [⟨.Update,id⟩] := by
      have noAdd : journal_contains store.journal id .Add = false := by
        rw [← Bool.not_eq_true,contains,waits]
        nofun
      have noUpdate : journal_contains store.journal id .Update = false := by
        rw [← Bool.not_eq_true,contains,waits]
        nofun
      simp [RuleStore.record_update,RuleStore.write,RuleStore.push,noAdd,noUpdate,notLocal]
    refine tracks.change id ?_ (fun other different => ⟨?_,?_,rfl,?_⟩) ?_ (tracks.valid id) (fun _ member => member) (fun _ => given) rfl
      fun new_id replaced => ?_
    · rw [journal]
      exact push_once tracks.once waits .Update
    · rw [journal,push_pending waits,if_neg different]
    · rw [records,if_neg different]
    · rw [lookup_insert,if_neg different]
    · rw [journal,push_pending waits,if_pos rfl,records,if_pos rfl,lookup_insert,if_pos rfl]
      exact ⟨notLocal,_,rule,rfl,isRule,rfl⟩
    · rw [(tracks.retired replaced).1] at isRecord
      cases isRecord
  | some op =>
    have coherent := tracks.at waits
    have journal : ((store.write { record with knowledge, title }).record_update id).journal = store.journal := by
      cases op with
      | Add => simp [RuleStore.record_update,RuleStore.write,(contains .Add).mpr waits]
      | Update =>
        have noAdd : journal_contains store.journal id .Add = false := by
          rw [← Bool.not_eq_true,contains,waits]
          nofun
        simp [RuleStore.record_update,RuleStore.write,noAdd,coherent.1,(contains .Update).mpr waits]
      | Remove =>
        rw [coherent.2.1] at isRecord
        cases isRecord
    refine tracks.change id ?_ (fun other different => ⟨?_,?_,rfl,?_⟩) ?_ (tracks.valid id) (fun _ member => member) (fun _ => given) rfl
      fun new_id replaced => ?_
    · rw [journal]
      exact tracks.once
    · rw [journal]
    · rw [records,if_neg different]
    · rw [lookup_insert,if_neg different]
    · rw [journal,waits,records,if_pos rfl,lookup_insert,if_pos rfl]
      cases op with
      | Add =>
        obtain ⟨ownLocal,notUpstream,here,isHere,isTold⟩ := coherent
        obtain rfl := Option.some.inj (isHere.symm.trans isRecord)
        obtain rfl := Option.some.inj (isSaid.symm.trans isTold)
        exact ⟨ownLocal,notUpstream,_,rfl,rfl⟩
      | Update =>
        obtain ⟨notLocal,here,there,isHere,isThere,isTold⟩ := coherent
        obtain rfl := Option.some.inj (isSaid.symm.trans isTold)
        exact ⟨notLocal,_,there,rfl,isThere,rfl⟩
      | Remove =>
        rw [coherent.2.1] at isRecord
        cases isRecord
    · rw [(tracks.retired replaced).1] at isRecord
      cases isRecord

theorem Tracks.removeUpstream {id : String} (tracks : Tracks store upstream ledger) (empty : store.journal = [])
    (isRule : upstream.lookup id = some rule) : Tracks (store.drop id) (upstream.erase id) (ledger.apply (.Removed id)) := by
  have known : (upstream.lookup id).isSome = true := by
    rw [isRule]
    rfl
  have waits : pending store.journal id = none := by
    rw [empty]
    rfl
  have named := tracks.named (.inl known)
  refine tracks.change id tracks.once (fun other different => ⟨rfl,?_,?_,?_⟩) ?_ (fun there => ?_) (fun _ member => member)
    (fun _ => tracks.given id (.inl known)) rfl fun _ _ => waits
  · rw [record_drop,if_neg different]
  · rw [lookup_erase,if_neg different]
  · rw [Ledger.apply,named,lookup_erase,if_neg different]
  · rw [show (store.drop id).journal = store.journal from rfl,waits,record_drop,if_pos rfl,lookup_erase,if_pos rfl,Ledger.apply,named,
      lookup_erase,if_pos rfl]
    exact ⟨rfl,fun none => nomatch none⟩
  · rw [lookup_erase,if_pos rfl] at there
    cases there

theorem removed_pending (store : RuleStore) (key : String) : ∃ pushed : Bool,
    (pushed = true ↔ journal_contains store.journal key .Add = false ∧ isLocal key = false) ∧
    ((store.journal.map (·.id)).Nodup → ((store.record_remove key).journal.map (·.id)).Nodup) ∧
    ∀ id, pending (store.record_remove key).journal id =
      if id = key then (if pushed then some .Remove else none) else pending store.journal id := by
  have left := pending_filter store.journal key
  have gone : pending (store.journal.filter (·.id ≠ key)) key = none := by rw [left,if_pos rfl]
  have once : (store.journal.map (·.id)).Nodup → ((store.journal.filter (·.id ≠ key)).map (·.id)).Nodup :=
    fun once => once.sublist (List.filter_sublist.map _)
  by_cases pushes : journal_contains store.journal key .Add = false ∧ isLocal key = false
  · have journal : (store.record_remove key).journal = store.journal.filter (·.id ≠ key) ++ [⟨.Remove,key⟩] := by
      simp [RuleStore.record_remove,pushes.1,pushes.2,RuleStore.push]
    refine ⟨true,⟨fun _ => pushes,fun _ => rfl⟩,fun apart => ?_,fun id => ?_⟩
    · rw [journal]
      exact push_once (once apart) gone .Remove
    · rw [journal,push_pending gone,left]
      by_cases own : id = key
      · simp [own]
      · simp [own]
  · have journal : (store.record_remove key).journal = store.journal.filter (·.id ≠ key) := by
      have stays : (!journal_contains store.journal key .Add && !isLocal key) = false := by
        rw [← Bool.not_eq_true]
        simpa using pushes
      simp [RuleStore.record_remove,stays]
    refine ⟨false,⟨fun pushed => (nomatch pushed),fun both => absurd both pushes⟩,fun apart => ?_,fun id => ?_⟩
    · rw [journal]
      exact once apart
    · rw [journal,left]
      by_cases own : id = key
      · simp [own]
      · simp [own]

/-- The removal finds the rule, unless the rule still is and its local id was replaced. -/
theorem Tracks.removeLocal {id : String} (tracks : Tracks store upstream ledger)
    (current : ∀ new_id, ledger.replaced.lookup id = some new_id → ledger.rules.lookup new_id = none) :
    Tracks ((store.drop id).record_remove id) upstream (ledger.apply (.Removed id)) := by
  obtain ⟨pushed,whether,once,waiting⟩ := removed_pending (store.drop id) id
  have contains := contains_iff tracks.once id .Add
  have notSaid : (ledger.apply (.Removed id)).rules.lookup id = none ∧
      ∀ other, other ≠ id → (ledger.apply (.Removed id)).rules.lookup other = ledger.rules.lookup other := by
    unfold Ledger.apply
    dsimp only
    cases replaced : ledger.replaced.lookup id with
    | none =>
      have named : ledger.named id = id := by rw [Ledger.named,replaced,Option.getD_none]
      rw [named]
      exact ⟨AList.lookup_erase _ _,fun other different => AList.lookup_erase_ne different⟩
    | some new_id =>
      have named : ledger.named id = new_id := by rw [Ledger.named,replaced,Option.getD_some]
      have same : ∀ other, (ledger.rules.erase new_id).lookup other = ledger.rules.lookup other := by
        intro other
        rw [lookup_erase]
        split_ifs with own
        · rw [own,current new_id replaced]
        · rfl
      rw [named]
      exact ⟨(same id).trans (tracks.retired replaced).2.2,fun other _ => same other⟩
  refine tracks.change id (once tracks.once) (fun other different => ⟨?_,?_,rfl,notSaid.2 other different⟩) ?_ (tracks.valid id)
    (fun _ member => member) (fun known => ?_) rfl fun new_id replaced => ?_
  · rw [waiting,if_neg different]
    rfl
  · rw [record_remove_record,record_drop,if_neg different]
  · rw [waiting,if_pos rfl,record_remove_record,record_drop,if_pos rfl,notSaid.1]
    cases pushed with
    | true => exact ⟨(whether.mp rfl).2,rfl,rfl⟩
    | false =>
      have notUpstream : upstream.lookup id = none := by
        by_contra there
        have known := Option.isSome_iff_ne_none.mpr there
        refine Bool.false_ne_true (whether.mpr ⟨?_,(tracks.valid id known).2⟩)
        refine Bool.not_eq_true _ ▸ fun added => there ?_
        exact (tracks.at (contains.mp added)).2.1
      rw [notUpstream]
      exact ⟨rfl,fun none => nomatch none⟩
  · rcases known with there | said
    · exact tracks.given id (.inl there)
    · rw [notSaid.1] at said
      cases said
  · have ownLocal := (tracks.replaced id new_id replaced).1
    rw [waiting,if_pos rfl]
    cases pushed with
    | true =>
      rw [(whether.mp rfl).2] at ownLocal
      cases ownLocal
    | false => rfl

theorem Tracks.mirror {store' : RuleStore} (tracks : Tracks store upstream ledger) (empty : store.journal = [])
    (same : store'.journal = store.journal) (shown : ∀ id, (store'.record id).isSome = true → (upstream.lookup id).isSome = true) :
    Tracks store' upstream ledger := by
  refine ⟨same ▸ tracks.once,fun id => ?_,tracks.valid,tracks.given,?_⟩
  · have waits : pending store.journal id = none := by
      rw [empty]
      rfl
    obtain ⟨isSaid,_⟩ := tracks.at waits
    rw [same,waits]
    refine ⟨isSaid,fun here => ?_⟩
    rw [isSaid,Option.isSome_map]
    exact shown id here
  · rw [same]
    exact tracks.replaced

theorem forwarded_cases {α : Type} {send : Session → Session × Option α} {result : Except Error (Option α)}
    (isForwarded : forwarded send s = (s',result)) :
    (∃ e, result = .error e ∧ (replay s).1 = s') ∨ (result = .ok none ∧ replay s = (s',.ok false)) ∨
      ∃ middle reply, result = .ok reply ∧ replay s = (middle,.ok true) ∧ send middle = (s',reply) := by
  unfold forwarded at isForwarded
  rcases isReplay : replay s with ⟨middle,e | _ | _⟩
  · rw [isReplay] at isForwarded
    obtain ⟨rfl,rfl⟩ := Prod.mk.inj isForwarded
    exact .inl ⟨e,rfl,rfl⟩
  · rw [isReplay] at isForwarded
    obtain ⟨rfl,rfl⟩ := Prod.mk.inj isForwarded
    exact .inr (.inl ⟨rfl,rfl⟩)
  · rw [isReplay] at isForwarded
    obtain ⟨rfl,rfl⟩ := Prod.mk.inj isForwarded
    exact .inr (.inr ⟨middle,_,rfl,rfl,rfl⟩)

/-- What holds after a request with the change that it acknowledged. -/
def Keeps (before : Ledger) (handled : Session × Option Change) : Prop :=
  Tracks handled.1.store handled.1.upstream (handled.2.toList.foldl Ledger.apply (handled.1.ledger before))

section
variable (running : Running before s)
include running

theorem Running.keeps : Keeps before (s,none) := running.tracks
theorem unanswered {α : Type} {send : Session → Session × Option α}
    (silent : ∀ middle after, Running before middle → send middle = (after,none) → Called before middle after)
    (isForwarded : forwarded send s = (s',.ok none)) : Called before (replay s).1 s' := by
  have replayed := (replay_running running).1
  rcases forwarded_cases isForwarded with ⟨e,failed,_⟩ | ⟨_,isReplay⟩ | ⟨middle,reply,answered,isReplay,isSent⟩
  · cases failed
  · rw [isReplay] at replayed ⊢
    exact ⟨replayed,rfl,rfl,rfl⟩
  · obtain rfl := Except.ok.inj answered
    rw [isReplay] at replayed ⊢
    exact silent middle s' replayed isSent
theorem failed {α : Type} {send : Session → Session × Option α} {e : Error}
    (isForwarded : forwarded send s = (s',.error e)) : Running before s' := by
  have replayed := (replay_running running).1
  rcases forwarded_cases isForwarded with ⟨_,_,rfl⟩ | ⟨other,_⟩ | ⟨_,_,other,_,_⟩
  · exact replayed
  · cases other
  · cases other
theorem answered {α : Type} {send : Session → Session × Option α} {reply : α} (isForwarded : forwarded send s = (s',.ok (some reply))) :
    ∃ middle, Running before middle ∧ middle.store.journal = [] ∧ send middle = (s',some reply) := by
  have replayed := replay_running running
  rcases forwarded_cases isForwarded with ⟨e,failed,_⟩ | ⟨other,_⟩ | ⟨middle,found,isReply,isReplay,isSent⟩
  · cases failed
  · cases other
  · obtain rfl := Except.ok.inj isReply
    rw [isReplay] at replayed
    exact ⟨middle,replayed.1,replayed.2 rfl,isSent⟩

end

theorem sendAdd_none {message : KnowledgeBaseAddRequest} (middle after : Session) (running : Running before middle)
    (isSent : middle.sendAdd message = (after,none)) : Called before middle after := by
  rcases meet_cases running isSent with ⟨_,called⟩ | ⟨met,_,call,_,_,isAnswer⟩
  · exact called
  · cases isAnswer
theorem sendUpdate_none {message : KnowledgeBaseUpdateRequest} (middle after : Session) (running : Running before middle)
    (isSent : middle.sendUpdate message = (after,none)) : Called before middle after := by
  rcases meet_cases running isSent with ⟨_,called⟩ | ⟨met,called,call,_,_,isAnswer⟩
  · exact called
  · cases isRule : met.upstream.lookup message.id with
    | none =>
      simp only [isRule] at isAnswer
      obtain ⟨rfl,_⟩ := Prod.mk.inj isAnswer
      exact called
    | some rule =>
      simp only [isRule] at isAnswer
      cases isAnswer
theorem sendRemove_none {id : String} (middle after : Session) (running : Running before middle)
    (isSent : middle.sendRemove id = (after,none)) : Called before middle after := by
  rcases meet_cases running isSent with ⟨_,called⟩ | ⟨met,called,call,_,_,isAnswer⟩
  · exact called
  · cases isRule : met.upstream.lookup id with
    | none =>
      simp only [isRule] at isAnswer
      obtain ⟨rfl,_⟩ := Prod.mk.inj isAnswer
      exact called
    | some rule =>
      simp only [isRule] at isAnswer
      cases isAnswer

theorem local_id (uuid : String) : isLocal (LOCAL_ID_PREFIX ++ uuid) = true := by
  unfold isLocal Text.starts_with
  rw [String.toList_append]
  exact decide_eq_true (List.prefix_append _ _)

section
variable (running : Running before s)
include running

theorem add_keeps {message : KnowledgeBaseAddRequest} {now uuid : String}
    (fresh : LOCAL_ID_PREFIX ++ uuid ∉ before.given) : Keeps before (handle s (.Add message now uuid)) := by
  unfold handle add
  dsimp only
  rcases isForwarded : forwarded (·.sendAdd message) s with ⟨after,e | _ | reply⟩
  · exact (failed running isForwarded).keeps
  · have left := (unanswered running sendAdd_none isForwarded).running
    dsimp only
    unfold addLocal RuleStore.upsert validate_id
    dsimp only
    split_ifs
    · exact left.tracks.addLocal rfl (local_id uuid) fun given => fresh (left.locals _ given (local_id uuid))
    · exact left.keeps
  · obtain ⟨middle,replayed,_,isSent⟩ := answered running isForwarded
    rcases meet_cases replayed isSent with ⟨none,_⟩ | ⟨met,called,call,member,_,isAnswer⟩
    · cases none
    · obtain ⟨rfl,isReply⟩ := Prod.mk.inj isAnswer
      obtain rfl := Option.some.inj isReply
      obtain ⟨valid,notLocal,notGiven,notRemoved⟩ := replayed.fresh call member
      have filled : call.id ≠ "" := fun empty => by
        rw [empty] at valid
        cases valid
      have tracks := called.running.tracks
      rw [← called.ledger] at notGiven
      rw [← called.store] at notRemoved
      simp only [addUpstream,filled,ne_eq,not_false_eq_true,decide_true,Bool.and_self,if_true,RuleStore.upsert,validate_id,valid,Except.map]
      exact tracks.addUpstream rfl rfl valid notLocal notGiven notRemoved

theorem list_keeps {message : KnowledgeBaseListRequest} : Keeps before (handle s (.List message)) := by
  unfold handle list
  dsimp only
  rcases isForwarded : forwarded (·.sendList) s with ⟨after,e | _ | reply⟩
  · exact (failed running isForwarded).keeps
  · refine (unanswered running (fun middle after running isSent => ?_) isForwarded).running.keeps
    rcases meet_cases running isSent with ⟨_,called⟩ | ⟨met,_,call,_,_,isAnswer⟩
    · exact called
    · cases isAnswer
  · obtain ⟨middle,replayed,empty,isSent⟩ := answered running isForwarded
    rcases meet_cases replayed isSent with ⟨none,_⟩ | ⟨met,called,call,_,_,isAnswer⟩
    · cases none
    · obtain ⟨rfl,isReply⟩ := Prod.mk.inj isAnswer
      obtain rfl := Option.some.inj isReply
      have tracks := called.running.tracks
      rw [← called.store] at empty
      have listed : ∀ item ∈ call.shown.filterMap (itemOf met.upstream), (met.upstream.lookup item.id).isSome = true := by
        intro item member
        obtain ⟨id,_,isItem⟩ := List.mem_filterMap.mp member
        obtain ⟨rule,isRule,rfl⟩ := Option.map_eq_some_iff.mp isItem
        rw [isRule]
        rfl
      unfold listUpstream
      dsimp only
      split_ifs
      · rcases isMirror : mirror met.store (call.shown.filterMap (itemOf met.upstream)) with ⟨store,result⟩
        unfold mirror at isMirror
        have journal := replace_all_journal met.store ((call.shown.filterMap (itemOf met.upstream)).map fun item =>
          (⟨item.id,item.knowledge,item.title,item.created_at,item.is_generated,""⟩ : RuleRecord))
        have ok := @replace_all_ok _ met.store ((call.shown.filterMap (itemOf met.upstream)).map fun item =>
          (⟨item.id,item.knowledge,item.title,item.created_at,item.is_generated,""⟩ : RuleRecord)) fun record member => by
            obtain ⟨item,isItem,rfl⟩ := List.mem_map.mp member
            exact (tracks.valid item.id (listed item isItem)).1
        rw [isMirror] at journal ok
        obtain rfl : result = .ok () := ok
        refine tracks.mirror empty journal fun id here => ?_
        obtain ⟨record,isRecord,rfl⟩ := List.mem_map.mp (record_replace_all isMirror here)
        obtain ⟨item,isItem,rfl⟩ := List.mem_map.mp isRecord
        exact listed item isItem
      · exact called.running.keeps

theorem update_keeps {message : KnowledgeBaseUpdateRequest} {now : String} : Keeps before (handle s (.Update message now)) := by
  unfold handle update
  dsimp only
  rcases isForwarded : forwarded (·.sendUpdate message) s with ⟨after,e | _ | reply⟩
  · exact (failed running isForwarded).keeps
  · have left := (unanswered running sendUpdate_none isForwarded).running
    dsimp only
    unfold updateLocal
    cases isFound : after.store.get message.id with
    | error e => exact left.keeps
    | ok found =>
      obtain ⟨valid,isRecord⟩ := get_ok isFound
      cases found with
      | none => exact left.keeps
      | some record =>
        obtain ⟨knowledge,_,isAssembled⟩ := Option.map_eq_some_iff.mp isRecord
        have ownId : record.id = message.id := by
          rw [← isAssembled]
          cases after.store.rules.lookup message.id <;> rfl
        have upserts : after.store.upsert { record with knowledge := message.knowledge, title := message.title } =
            .ok (after.store.write { record with knowledge := message.knowledge, title := message.title }) := by
          rw [RuleStore.upsert,validate_id,if_pos (ownId ▸ valid)]
          rfl
        simp only [upserts]
        exact left.tracks.updateLocal isRecord ownId
  · obtain ⟨middle,replayed,empty,isSent⟩ := answered running isForwarded
    rcases meet_cases replayed isSent with ⟨none,_⟩ | ⟨met,called,call,_,_,isAnswer⟩
    · cases none
    · cases isRule : met.upstream.lookup message.id with
      | none =>
        simp only [isRule] at isAnswer
        cases isAnswer
      | some rule =>
        simp only [isRule] at isAnswer
        obtain ⟨rfl,isReply⟩ := Prod.mk.inj isAnswer
        obtain rfl := Option.some.inj isReply
        have tracks := called.running.tracks
        rw [← called.store] at empty
        have valid := (tracks.valid message.id (by rw [isRule]; rfl)).1
        simp only [updateUpstream,RuleStore.get,RuleStore.upsert,validate_id,valid,if_true,Except.map]
        exact tracks.updateUpstream empty isRule rfl

theorem remove_keeps {id : String} (current : ∀ new_id, ((replay s).1.ledger before).replaced.lookup id = some new_id →
      ((replay s).1.ledger before).rules.lookup new_id = none) : Keeps before (handle s (.Remove id)) := by
  unfold handle remove
  dsimp only
  rcases isForwarded : forwarded (·.sendRemove id) s with ⟨after,e | _ | reply⟩
  · exact (failed running isForwarded).keeps
  · have called := unanswered running sendRemove_none isForwarded
    rw [← called.ledger] at current
    simp only [removeLocal,RuleStore.remove,validate_id]
    split_ifs
    · exact called.running.tracks.removeLocal current
    · exact called.running.keeps
  · obtain ⟨middle,replayed,empty,isSent⟩ := answered running isForwarded
    rcases meet_cases replayed isSent with ⟨none,_⟩ | ⟨met,called,call,_,_,isAnswer⟩
    · cases none
    · cases isRule : met.upstream.lookup id with
      | none =>
        simp only [isRule] at isAnswer
        cases isAnswer
      | some rule =>
        simp only [isRule] at isAnswer
        obtain ⟨rfl,isReply⟩ := Prod.mk.inj isAnswer
        obtain rfl := Option.some.inj isReply
        have tracks := called.running.tracks
        rw [← called.store] at empty
        have valid := (tracks.valid id (by rw [isRule]; rfl)).1
        simp only [removeUpstream,RuleStore.remove,validate_id,valid,if_true,Except.map]
        exact tracks.removeUpstream empty isRule

end

/-- The journal is empty and the local rules are those of upstream, whose ids are
    valid and not local ones. Nothing else was told. -/
structure Synchronised (w : World) : Prop where
  journal : w.store.journal = []
  same : ∀ id, (w.store.record id).map (fun record => (record.knowledge,record.title)) =
    (w.upstream.lookup id).map fun rule => (rule.knowledge,rule.title)
  valid : ∀ id, (w.upstream.lookup id).isSome = true → validId id = true ∧ isLocal id = false
  told : ∀ id, w.ledger.rules.lookup id = (w.upstream.lookup id).map Rule.said
  unreplaced : w.ledger.replaced = ∅
  given : ∀ id, (w.upstream.lookup id).isSome = true → id ∈ w.ledger.given

/-- What upstream and the source of the local ids promise: new rules get new ids. -/
structure Fresh (w : World) (turn : Turn) : Prop where
  calls : ∀ call ∈ turn.calls, validId call.id = true ∧ isLocal call.id = false ∧ call.id ∉ w.ledger.given
  apart : (turn.calls.map (·.id)).Nodup
  uuid : ∀ message now uuid, turn.request = .Add message now uuid → LOCAL_ID_PREFIX ++ uuid ∉ w.ledger.given
/-- No id is given whose removal waits in the journal, and a rule that still is, is not
    removed by a local id that was replaced. -/
structure Current (w : World) (turn : Turn) : Prop where
  unclaimed : ∀ call ∈ turn.calls, ⟨.Remove,call.id⟩ ∉ w.store.journal
  named : ∀ id new_id, turn.request = .Remove id → (w.replayed turn).ledger.replaced.lookup id = some new_id →
    (w.replayed turn).ledger.rules.lookup new_id = none
def Allowed (w : World) (turn : Turn) : Prop := Fresh w turn ∧ Current w turn

theorem Synchronised.tracks {w : World} (synchronised : Synchronised w) : Tracks w.store w.upstream w.ledger := by
  refine ⟨?_,fun id => ?_,synchronised.valid,fun id known => ?_,fun id new_id replaced => ?_⟩
  · rw [synchronised.journal]
    exact List.nodup_nil
  · rw [synchronised.journal]
    refine ⟨synchronised.told id,fun here => ?_⟩
    have same := congrArg Option.isSome (synchronised.same id)
    rw [Option.isSome_map,Option.isSome_map,here] at same
    rw [synchronised.told,Option.isSome_map]
    exact same.symm
  · refine synchronised.given id (known.elim (fun there => there) fun said => ?_)
    rwa [synchronised.told,Option.isSome_map] at said
  · rw [synchronised.unreplaced] at replaced
    cases replaced

theorem pending_mem {id : String} (waits : pending journal id = some op) : ⟨op,id⟩ ∈ journal := by
  obtain ⟨entry,isEntry,rfl⟩ := Option.map_eq_some_iff.mp waits
  have same : entry.id = id := by simpa using List.find?_some isEntry
  rw [← same]
  exact List.mem_of_find?_eq_some isEntry

theorem step_tracks {w : World} {turn : Turn} (tracks : Tracks w.store w.upstream w.ledger) (allowed : Allowed w turn) :
    Tracks (step w turn).store (step w turn).upstream (step w turn).ledger := by
  obtain ⟨fresh,current⟩ := allowed
  have running : Running w.ledger (w.begin turn) :=
    ⟨tracks,fun call member => ⟨(fresh.calls call member).1,(fresh.calls call member).2.1,(fresh.calls call member).2.2,
      fun waits => current.unclaimed call member (pending_mem waits)⟩,fresh.apart,fun _ given _ => given⟩
  have keeps : Keeps w.ledger (handle (w.begin turn) turn.request) := by
    cases isRequest : turn.request with
    | Add message now uuid => exact add_keeps running (fresh.uuid message now uuid isRequest)
    | List message => exact list_keeps running
    | Update message now => exact update_keeps running
    | Remove id => exact remove_keeps running fun new_id => current.named id new_id isRequest
  exact keeps

/-- Where no rule is removed by a local id that was replaced, upstream has what the
    client was told whenever the journal is empty. -/
theorem changes_reach_upstream {w : World} {turns : List Turn} (synchronised : Synchronised w) (allowed : Meets step Allowed w turns)
    (empty : (after step w turns).store.journal = []) (id : String) :
    ((after step w turns).upstream.lookup id).map Rule.said = (after step w turns).ledger.rules.lookup id := by
  have tracks := allowed.invariant (P := fun w : World => Tracks w.store w.upstream w.ledger) synchronised.tracks
    fun _ _ tracks allowed => step_tracks tracks allowed
  have coherent := tracks.coherent id
  rw [empty] at coherent
  exact coherent.1.symm

end Proofs

section Example
local instance exampleFiles : RuleFiles where
  file_modified_at _ := "1970-01-01T00:00:00.000Z"
  timestamp _ := 0
  debug text := "\"" ++ text ++ "\""

def nothing : World := ⟨{},∅,⟨∅,∅,[]⟩⟩
def call (id : String) (shown : List String) : Call := ⟨true,id,"2026-01-02T00:00:00.000Z",shown⟩
def addOffline : Turn := ⟨.Add ⟨"Answer briefly.","Style",""⟩ "2026-01-01T00:00:00.000Z" "1",[]⟩
def listOnline : Turn := ⟨.List ⟨none,none⟩,[call "7" [],call "8" ["7"]]⟩
def removeLocalId : Turn := ⟨.Remove "local-1",[call "9" []]⟩
def removeNewId : Turn := ⟨.Remove "7",[call "9" []]⟩

theorem nothing_synchronised : Synchronised nothing :=
  ⟨rfl,fun _ => rfl,nofun,fun _ => rfl,rfl,nofun⟩
theorem addOffline_allowed : Allowed nothing addOffline :=
  ⟨⟨nofun,List.nodup_nil,fun _ _ _ _ => List.not_mem_nil⟩,⟨nofun,nofun⟩⟩
theorem listOnline_allowed : Allowed (step nothing addOffline) listOnline :=
  ⟨⟨by decide +kernel,by decide +kernel,nofun⟩,⟨by decide +kernel,nofun⟩⟩
theorem remove_fresh (id : String) : Fresh (step (step nothing addOffline) listOnline) ⟨.Remove id,[call "9" []]⟩ := by
  have calls : ∀ met ∈ [call "9" []], validId met.id = true ∧ isLocal met.id = false ∧
      met.id ∉ (step (step nothing addOffline) listOnline).ledger.given := by
    decide +kernel
  exact ⟨calls,List.nodup_singleton _,nofun⟩

/-- The removal is acknowledged, nothing waits, and the rule is still upstream. -/
theorem removal_lost : Synchronised nothing ∧ Meets step Fresh nothing [addOffline,listOnline,removeLocalId] ∧
      (after step nothing [addOffline,listOnline,removeLocalId]).store.journal = [] ∧
      (handle ((after step nothing [addOffline,listOnline]).begin removeLocalId) removeLocalId.request).2 = some (.Removed "local-1") ∧
      ¬ ∀ id, ((after step nothing [addOffline,listOnline,removeLocalId]).upstream.lookup id).map Rule.said =
        (after step nothing [addOffline,listOnline,removeLocalId]).ledger.rules.lookup id := by
  refine ⟨nothing_synchronised,⟨addOffline_allowed.1,listOnline_allowed.1,remove_fresh "local-1",trivial⟩,by decide +kernel,
    by decide +kernel,fun same => ?_⟩
  have there : ((after step nothing [addOffline,listOnline,removeLocalId]).upstream.lookup "7").map Rule.said =
      some ⟨"Answer briefly.","Style",""⟩ := by
    decide +kernel
  have removed : (after step nothing [addOffline,listOnline,removeLocalId]).ledger.rules.lookup "7" = none := by decide +kernel
  rw [same "7",removed] at there
  cases there

theorem changes_reach_upstream_removed : ((after step nothing [addOffline,listOnline,removeNewId]).upstream.lookup "7").map Rule.said =
      (after step nothing [addOffline,listOnline,removeNewId]).ledger.rules.lookup "7" := by
  have current : Current (step (step nothing addOffline) listOnline) removeNewId := by
    refine ⟨by decide +kernel,fun id new_id isRequest replaced => ?_⟩
    obtain rfl := Request.Remove.inj isRequest
    have unreplaced : ((step (step nothing addOffline) listOnline).replayed removeNewId).ledger.replaced.lookup "7" = none := by
      decide +kernel
    rw [unreplaced] at replaced
    cases replaced
  have allowed : Meets step Allowed nothing [addOffline,listOnline,removeNewId] :=
    ⟨addOffline_allowed,listOnline_allowed,⟨remove_fresh "7",current⟩,trivial⟩
  exact changes_reach_upstream nothing_synchronised allowed (by decide +kernel) "7"

end Example

end MyCursor.KnowledgeSync

import MyCursor.CheckpointRoundTrip
import MyCursor.Engine
import MyCursor.ProjectedRounds

/-!
# The archive of a compaction

`cursor/checkpoint/roots.rs` and `compacted` of `cursor/checkpoint/summary.rs`: a
checkpoint lists the roots of its messages, and a compaction archives the roots
of the base. The roots that were published since the base are in the frontier
only. What an archive lists is compared with the checkpoint that was published
last, over all the jobs of a run.
-/
namespace MyCursor.SummaryArchive
open Message Projection ProjectedRounds CheckpointCodec Fallible

abbrev BlobId := List UInt8

def from_bytes (bytes : List UInt8) : Except Error BlobId :=
  if bytes.length = 32 then .ok bytes else .error (.Protocol s!"BlobID must be 32 bytes, got {bytes.length}")

structure RootFrontier where
  ids : List BlobId
  generated : List (List UInt8)
  base_count : Nat

/-- `root_prompt_messages_json` is that of the base. -/
structure CheckpointBuilder where
  model : String
  instructions : String
  root_prompt_messages_json : List (List UInt8)
  roots : Option RootFrontier

def ensure_roots (builder : CheckpointBuilder) : Except Error RootFrontier :=
  match builder.roots with
  | some roots => .ok roots
  | none => do
    let ids ← builder.root_prompt_messages_json.mapM from_bytes
    .ok ⟨ids,[],ids.length⟩

def unchanged (wire_messages : List (List UInt8)) : Nat → List (List UInt8) → Except Error Unit
  | _, [] => .ok ()
  | index, expected :: rest =>
    if wire_messages[index]? = some expected then unchanged wire_messages (index + 1) rest
    else .error (.Protocol s!"Cursor stable root changed at index {index}")

section Archive
variable [Serde]

def changed_system_root (roots : RootFrontier) (messages : List (List UInt8)) : Option (List UInt8) :=
  match roots.ids.head?, messages.head? with
  | some current, some message => if current = Serde.digest message then none else some message
  | _, _ => none

def withSystemRoot (roots : RootFrontier) (messages : List (List UInt8)) : List BlobId :=
  match changed_system_root roots messages with
  | some message => roots.ids.set 0 (Serde.digest message)
  | none => roots.ids

def project_roots (builder : CheckpointBuilder) (messages : List CanonicalMessage) : Except Error RootFrontier := do
  let wire_messages ← stable_messages builder.instructions messages builder.model
  let roots ← ensure_roots builder
  let ids := withSystemRoot roots wire_messages
  if wire_messages.length < ids.length then
    .error (.Protocol s!"Cursor stable history shrank from {ids.length} to {wire_messages.length} roots")
  else do
    unchanged wire_messages roots.base_count roots.generated
    let new := wire_messages.drop ids.length
    .ok { roots with ids := ids ++ new.map Serde.digest, generated := roots.generated ++ new }

def replacedId (previous_system : Option BlobId) (index : Nat) (message : List UInt8) : BlobId :=
  match previous_system with
  | some id => if index = 0 ∧ id = Serde.digest message then id else Serde.digest message
  | none => Serde.digest message
theorem replacedId_eq (previous_system : Option BlobId) (index : Nat) (message : List UInt8) :
    replacedId previous_system index message = Serde.digest message := by
  cases previous_system with
  | none => rfl
  | some id =>
    rw [replacedId]
    split_ifs with same
    · exact same.2
    · rfl

def replace_roots (builder : CheckpointBuilder) (messages : List CanonicalMessage) : Except Error RootFrontier := do
  let wire_messages ← stable_messages builder.instructions messages builder.model
  let roots ← ensure_roots builder
  let ids := wire_messages.mapIdx (replacedId roots.ids.head?)
  .ok ⟨ids,[],ids.length⟩

structure ConversationSummaryArchive where
  summarized_messages : List BlobId
  summary : String
  window_tail : Nat
  summary_message : BlobId

/-- The roots and the archive of `CheckpointBuilder::compacted`. -/
def compacted (builder : CheckpointBuilder) (messages : List CanonicalMessage) (summary : String) :
    Except Error (ConversationSummaryArchive × CheckpointBuilder) := do
  let summarized ← (builder.root_prompt_messages_json.drop 1).mapM from_bytes
  let roots ← replace_roots builder messages
  match roots.ids.getLast?.filter fun _ => 2 ≤ roots.ids.length with
  | some summary_message =>
    .ok (⟨summarized,summary,0,summary_message⟩,{ builder with root_prompt_messages_json := roots.ids, roots := some roots })
  | none => .error (.Protocol "compaction produced no summary root")

/-- What the worker is given. A compaction comes with the messages before and
    after the summary: an automatic one retains the context of the latest request
    and goes on with the initial messages of the run, one that the user asked for
    goes on with the messages that were inserted meanwhile. Only the latter is published,
    at the end of its run. -/
inductive Job where
  | Publish (messages : List CanonicalMessage)
  | Compaction (compacting : Bool) (retained_request_context : Option CanonicalMessage) (event_id summary : String)
      (following : List CanonicalMessage)

/-- The worker with the roots of the last published checkpoint, and the messages that were
    published since its base was set. -/
structure Worker where
  builder : CheckpointBuilder
  published : List BlobId
  sent : Option (List CanonicalMessage)
/-- The base of a run is the checkpoint that was published before it. -/
def Worker.start (model instructions : String) (base : List (List UInt8)) : Worker :=
  ⟨⟨model,instructions,base,none⟩,base,none⟩

/-- A compaction with the worker that it met and the roots that it left. -/
structure Record where
  before : Worker
  retained_request_context : Option CanonicalMessage
  event_id : String
  summary : String
  following : List CanonicalMessage
  archive : ConversationSummaryArchive
  root_ids : List BlobId

def replacement (retained_request_context : Option CanonicalMessage) (event_id summary : String)
    (following : List CanonicalMessage) : List CanonicalMessage :=
  retained_request_context.toList ++ Engine.summaryMessage event_id summary :: following

def step (worker : Worker) : Job → Except Error (Worker × List Record)
  | .Publish messages => do
    let roots ← project_roots worker.builder messages
    .ok (⟨{ worker.builder with roots := some roots },roots.ids,some messages⟩,[])
  | .Compaction compacting context event_id summary following => do
    let (archive,builder) ← compacted worker.builder (replacement context event_id summary following) summary
    .ok (⟨builder,if compacting then builder.root_prompt_messages_json else worker.published,none⟩,
      [⟨worker,context,event_id,summary,following,archive,builder.root_prompt_messages_json⟩])

/-- The jobs of a run, up to a failure, which ends the run. -/
def runJobs : Worker → List Job → Except Error (Worker × List Record)
  | worker, [] => .ok (worker,[])
  | worker, job :: jobs => do
    let (worker,records) ← step worker job
    let (worker,more) ← runJobs worker jobs
    .ok (worker,records ++ more)

/-- The encoded messages; none where they have no encoding. -/
def wires (builder : CheckpointBuilder) (messages : List CanonicalMessage) : List (List UInt8) :=
  (stable_messages builder.instructions messages builder.model).toOption.getD []
def Worker.wires (worker : Worker) : List (List UInt8) := worker.sent.elim [] (SummaryArchive.wires worker.builder)
/-- The roots of the last published checkpoint that need not be in the base: those of the
    messages that were published since the base was set, or all where none were. -/
def Worker.newer (worker : Worker) : List BlobId :=
  match worker.sent with
  | some _ => (worker.wires.drop (max 1 worker.builder.root_prompt_messages_json.length)).map Serde.digest
  | none => worker.published.drop 1
def summaryWire (r : Record) : Except Error (List UInt8) :=
  wireBytes r.before.builder.model (project_message (Engine.summaryMessage r.event_id r.summary))

/-- The archive lists the roots that were published and are gone, and names that of
    the summary. The root at the head is that of the system. -/
structure Record.Right (r : Record) : Prop where
  complete : ∀ id ∈ r.before.published.drop 1, id ∉ r.root_ids → id ∈ r.archive.summarized_messages
  summary_root : ∃ own, summaryWire r = .ok own ∧ r.archive.summary_message = Serde.digest own

/-- What was published last is in the replacement, or is a root of the base; and nothing
    comes after the summary, or else what ends as the summary does. -/
structure Record.Kept (r : Record) : Prop where
  roots : ∀ id ∈ r.before.newer, id ∈ r.before.builder.root_prompt_messages_json.drop 1 ∨ ∃ other ∈ wires r.before.builder
    (replacement r.retained_request_context r.event_id r.summary r.following), Serde.digest other = id
  last : ∀ own, summaryWire r = .ok own → ∀ wire, (wires { r.before.builder with instructions := "" } r.following).getLast? = some wire →
    Serde.digest wire = Serde.digest own

variable {builder : CheckpointBuilder} {roots : RootFrontier}

variable {messages : List CanonicalMessage} {summary : String}

omit [Serde] in
theorem mapM_from_bytes {given : List (List UInt8)} : ∀ {ids : List BlobId}, given.mapM from_bytes = .ok ids → ids = given := by
  induction given with
  | nil => exact fun same => (Except.ok.inj same).symm
  | cons bytes rest ih =>
    intro ids same
    rw [List.mapM_cons] at same
    obtain ⟨id,isId,same⟩ := bind_ok.mp same
    obtain ⟨others,isRest,same⟩ := bind_ok.mp same
    rw [from_bytes] at isId
    split_ifs at isId with long
    rw [← Except.ok.inj same,ih isRest,Except.ok.inj isId]

omit [Serde] in
theorem unchanged_ok {messages generated : List (List UInt8)} : ∀ {index : Nat}, unchanged messages index generated = .ok () →
    generated <+: messages.drop index := by
  induction generated with
  | nil => exact fun _ => List.nil_prefix
  | cons expected rest ih =>
    intro index same
    rw [unchanged] at same
    split_ifs at same with found
    obtain ⟨inside,isExpected⟩ := List.getElem?_eq_some_iff.mp found
    rw [List.drop_eq_getElem_cons inside,isExpected]
    exact (List.prefix_cons_inj expected).mpr (ih same)

theorem replace_roots_ok (replaced : replace_roots builder messages = .ok roots) : ∃ wire_messages before,
      stable_messages builder.instructions messages builder.model = .ok wire_messages ∧ ensure_roots builder = .ok before ∧
      roots = ⟨wire_messages.map Serde.digest,[],wire_messages.length⟩ := by
  obtain ⟨wire_messages,isWire,replaced⟩ := bind_ok.mp replaced
  obtain ⟨before,isBefore,replaced⟩ := bind_ok.mp replaced
  have ids : wire_messages.mapIdx (replacedId before.ids.head?) = wire_messages.map Serde.digest := by
    refine List.ext_getElem (by simp) fun index _ _ => ?_
    rw [List.getElem_mapIdx,List.getElem_map,replacedId_eq]
  refine ⟨wire_messages,before,isWire,isBefore,?_⟩
  rw [← Except.ok.inj replaced,ids,List.length_map]

theorem compacted_ok {after : CheckpointBuilder}
    {archive : ConversationSummaryArchive} (done : compacted builder messages summary = .ok (archive,after)) :
    ∃ wire_messages before last, stable_messages builder.instructions messages builder.model = .ok wire_messages ∧
      ensure_roots builder = .ok before ∧ wire_messages.getLast? = some last ∧
      archive = ⟨builder.root_prompt_messages_json.drop 1,summary,0,Serde.digest last⟩ ∧
      after = { builder with
        root_prompt_messages_json := wire_messages.map Serde.digest
        roots := some ⟨wire_messages.map Serde.digest,[],wire_messages.length⟩ } := by
  obtain ⟨summarized,isSummarized,done⟩ := bind_ok.mp done
  obtain ⟨roots,isRoots,done⟩ := bind_ok.mp done
  obtain ⟨wire_messages,before,isWire,isBefore,rfl⟩ := replace_roots_ok isRoots
  obtain rfl := mapM_from_bytes isSummarized
  split at done
  · rename_i summary_message filtered
    obtain ⟨isLast,-⟩ := Option.filter_eq_some_iff.mp filtered
    rw [List.getLast?_map] at isLast
    obtain ⟨last,found,rfl⟩ := Option.map_eq_some_iff.mp isLast
    obtain ⟨rfl,rfl⟩ := Prod.ext_iff.mp (Except.ok.inj done)
    exact ⟨wire_messages,before,last,isWire,isBefore,found,rfl,rfl⟩
  · cases done

/-- The frontier goes on from the base with the messages that were published. -/
structure Tracks (worker : Worker) (roots : RootFrontier) : Prop where
  count : roots.base_count = worker.builder.root_prompt_messages_json.length
  published : worker.sent.isSome = true → worker.published = roots.ids
  generated : roots.generated = worker.wires.drop roots.base_count
  length : roots.ids.length = roots.base_count + roots.generated.length
  beyond : roots.ids.drop 1 = (worker.builder.root_prompt_messages_json ++ roots.generated.map Serde.digest).drop 1
def Worker.Valid (worker : Worker) : Prop := ∀ roots, ensure_roots worker.builder = .ok roots → Tracks worker roots

theorem start_valid (model instructions : String) (base : List (List UInt8)) : (Worker.start model instructions base).Valid := by
  intro roots same
  obtain ⟨ids,isIds,isRoots⟩ := bind_ok.mp same
  obtain rfl := Except.ok.inj isRoots
  have isBase : ids = base := mapM_from_bytes isIds
  subst isBase
  exact ⟨rfl,fun sent => absurd sent Bool.false_ne_true,(List.drop_nil).symm,rfl,by simp [Worker.start]⟩

theorem withSystemRoot_length (roots : RootFrontier) (messages : List (List UInt8)) :
    (withSystemRoot roots messages).length = roots.ids.length := by
  rw [withSystemRoot]
  split
  · exact List.length_set
  · rfl
theorem withSystemRoot_beyond (roots : RootFrontier) (messages : List (List UInt8)) :
    (withSystemRoot roots messages).drop 1 = roots.ids.drop 1 := by
  rw [withSystemRoot]
  split
  · exact List.drop_set_of_lt (by omega)
  · rfl

variable {worker : Worker}

theorem publish_valid (valid : worker.Valid) (projected : project_roots worker.builder messages = .ok roots) :
    Worker.Valid ⟨{ worker.builder with roots := some roots },roots.ids,some messages⟩ := by
  obtain ⟨wire_messages,isWire,projected⟩ := bind_ok.mp projected
  obtain ⟨before,isBefore,projected⟩ := bind_ok.mp projected
  have tracks := valid before isBefore
  have length := (withSystemRoot_length before wire_messages).trans tracks.length
  have beyond := (withSystemRoot_beyond before wire_messages).trans tracks.beyond
  simp only at projected
  split_ifs at projected with shrank
  obtain ⟨⟨⟩,same,projected⟩ := bind_ok.mp projected
  have isSent (frontier : Option RootFrontier) (ids : List BlobId) :
      Worker.wires ⟨{ worker.builder with roots := frontier },ids,some messages⟩ = wire_messages := by
    rw [Worker.wires,Option.elim_some,wires,isWire]
    rfl
  obtain ⟨rest,isRest⟩ := unchanged_ok same
  have isNew : rest = wire_messages.drop (withSystemRoot before wire_messages).length := by
    rw [length,← List.drop_drop,← isRest,List.drop_left]
  rw [← isNew] at projected
  obtain rfl := Except.ok.inj projected
  intro roots isRoots
  obtain rfl := Except.ok.inj isRoots
  refine ⟨tracks.count,fun _ => rfl,?_,?_,?_⟩
  · rw [isSent,isRest]
  · rw [List.length_append,List.length_map,List.length_append,length,Nat.add_assoc]
  · have whole : (worker.builder.root_prompt_messages_json ++ before.generated.map Serde.digest).length =
        (withSystemRoot before wire_messages).length := by
      rw [List.length_append,List.length_map,length,tracks.count]
    rw [List.map_append,← List.append_assoc,List.drop_append,List.drop_append,beyond,whole]

theorem compaction_valid {archive : ConversationSummaryArchive} {after : CheckpointBuilder}
    (done : compacted worker.builder messages summary = .ok (archive,after)) (published : List BlobId) :
    Worker.Valid ⟨after,published,none⟩ := by
  obtain ⟨wire_messages,before,last,-,-,-,-,rfl⟩ := compacted_ok done
  intro roots isRoots
  obtain rfl := Except.ok.inj isRoots
  exact ⟨by simp,fun sent => absurd sent Bool.false_ne_true,(List.drop_nil).symm,by simp,by simp⟩

theorem replacement_wires {context : Option CanonicalMessage} {event_id : String}
    {following : List CanonicalMessage} {wire_messages : List (List UInt8)}
    (encoded : stable_messages builder.instructions (replacement context event_id summary following) builder.model = .ok wire_messages) :
    ∃ front own rest, wire_messages = front ++ own :: rest ∧
      wireBytes builder.model (project_message (Engine.summaryMessage event_id summary)) = .ok own ∧
      stable_messages "" following builder.model = .ok rest := by
  obtain ⟨projected,isProjected,encoded⟩ := bind_ok.mp encoded
  obtain ⟨valid,rfl⟩ := (project_parts _ _).mp isProjected
  have plain : roundStart (Engine.summaryMessage event_id summary) = none := rfl
  have apart : ∀ m, (Engine.summaryMessage event_id summary :: following).head? = some m → ¬ Continues context.toList m := by
    rintro m isHead (⟨id,starts,-⟩ | ⟨result,content,-⟩)
    · obtain rfl := Option.some.inj isHead
      cases plain.symm.trans starts
    · obtain rfl := Option.some.inj isHead
      cases content
  have isParts : parts (replacement context event_id summary following) =
      parts context.toList ++ .Message (Engine.summaryMessage event_id summary) :: parts following := by
    rw [replacement,parts_append apart,parts_message plain]
  rw [isParts] at valid encoded
  have projects : project_messages following = .ok ((parts following).flatMap Part.projected) :=
    (project_parts _ _).mpr ⟨fun part isIn => valid part (List.mem_append_right _ (List.mem_cons_of_mem _ isIn)),rfl⟩
  rw [List.flatMap_append,List.flatMap_cons,← List.append_assoc,List.mapM_append] at encoded
  obtain ⟨front,-,encoded⟩ := bind_ok.mp encoded
  obtain ⟨back,isBack,same⟩ := bind_ok.mp encoded
  rw [Part.projected,List.singleton_append,List.mapM_cons] at isBack
  obtain ⟨own,isOwn,isBack⟩ := bind_ok.mp isBack
  obtain ⟨rest,isRest,isBack⟩ := bind_ok.mp isBack
  obtain rfl := Except.ok.inj isBack
  refine ⟨front,own,rest,(Except.ok.inj same).symm,isOwn,?_⟩
  rw [stable_messages,projects]
  exact isRest

omit [Serde] in
theorem getLast_of_parts {front rest : List (List UInt8)} {own last : List UInt8} (isLast : (front ++ own :: rest).getLast? = some last) :
    rest = [] ∧ last = own ∨ rest.getLast? = some last := by
  rw [List.getLast?_append_cons] at isLast
  cases rest with
  | nil => exact .inl ⟨rfl,(Option.some.inj isLast).symm⟩
  | cons first rest => exact .inr isLast

/-- The roots that were published besides that of the system are of the base or newer. -/
theorem Tracks.newer (tracks : Tracks worker roots) (Held : BlobId → Prop) :
    (∀ id ∈ worker.published.drop 1, id ∈ worker.builder.root_prompt_messages_json.drop 1 ∨ Held id) ↔
      ∀ id ∈ worker.newer, id ∈ worker.builder.root_prompt_messages_json.drop 1 ∨ Held id := by
  rw [Worker.newer]
  cases isSent : worker.sent with
  | none => exact Iff.rfl
  | some messages =>
    have both : roots.base_count + (1 - worker.builder.root_prompt_messages_json.length) =
        max 1 worker.builder.root_prompt_messages_json.length := by
      rw [tracks.count]
      omega
    have beyond : worker.published.drop 1 = worker.builder.root_prompt_messages_json.drop 1 ++
        (worker.wires.drop (max 1 worker.builder.root_prompt_messages_json.length)).map Serde.digest := by
      rw [tracks.published (by rw [isSent]; rfl),tracks.beyond,List.drop_append,tracks.generated,← List.map_drop,List.drop_drop,both]
    rw [beyond,List.forall_mem_append]
    exact and_iff_right fun id inBase => .inl inBase

theorem compaction_right {after : Worker} {compacting : Bool} {context : Option CanonicalMessage} {event_id : String}
    {following : List CanonicalMessage} {records : List Record} (valid : worker.Valid)
    (stepped : step worker (.Compaction compacting context event_id summary following) = .ok (after,records)) :
    after.Valid ∧ ∀ r ∈ records, r.Right ↔ r.Kept := by
  rw [step] at stepped
  obtain ⟨⟨archive,builder⟩,done,same⟩ := bind_ok.mp stepped
  obtain ⟨rfl,rfl⟩ := Prod.ext_iff.mp (Except.ok.inj same)
  refine ⟨compaction_valid done _,fun r isIn => ?_⟩
  obtain rfl := List.mem_singleton.mp isIn
  obtain ⟨wire_messages,roots,last,encoded,isRoots,isLast,rfl,rfl⟩ := compacted_ok done
  obtain ⟨front,own,rest,isWire,isOwn,isRest⟩ := replacement_wires encoded
  have new : wires worker.builder (replacement context event_id summary following) = wire_messages := by
    rw [wires,encoded]
    rfl
  have listed := (valid roots isRoots).newer fun id => ∃ other ∈ wires worker.builder
    (replacement context event_id summary following), Serde.digest other = id
  have after : wires { worker.builder with instructions := "" } following = rest := by
    rw [wires,isRest]
    rfl
  rw [isWire] at isLast
  constructor
  · intro right
    refine ⟨listed.mp fun id isIn => ?_,fun own' isOwn' wire isWire' => ?_⟩
    · rw [new]
      by_cases kept : id ∈ wire_messages.map Serde.digest
      · exact .inr (List.mem_map.mp kept)
      · exact .inl (right.complete id isIn kept)
    · obtain rfl := Except.ok.inj (isOwn.symm.trans isOwn')
      rw [after] at isWire'
      obtain ⟨own',isOwn',named⟩ := right.summary_root
      obtain rfl := Except.ok.inj (isOwn.symm.trans isOwn')
      rcases getLast_of_parts isLast with ⟨empty,-⟩ | isLast
      · rw [empty] at isWire'
        cases isWire'
      · obtain rfl := Option.some.inj (isLast.symm.trans isWire')
        exact named
  · intro kept
    refine ⟨fun id isIn gone => (listed.mpr kept.roots id isIn).resolve_right fun held => gone ?_,own,isOwn,?_⟩
    · rw [new] at held
      exact List.mem_map.mpr held
    · rcases getLast_of_parts isLast with ⟨-,rfl⟩ | isLast
      · rfl
      · exact kept.last own isOwn last (after ▸ isLast)

theorem step_right {after : Worker} {job : Job} {records : List Record} (valid : worker.Valid)
    (stepped : step worker job = .ok (after,records)) : after.Valid ∧ ∀ r ∈ records, r.Right ↔ r.Kept := by
  cases job with
  | Publish messages =>
    rw [step] at stepped
    obtain ⟨roots,projected,same⟩ := bind_ok.mp stepped
    obtain ⟨rfl,rfl⟩ := Prod.ext_iff.mp (Except.ok.inj same)
    exact ⟨publish_valid valid projected,fun r isIn => absurd isIn List.not_mem_nil⟩
  | Compaction compacting context event_id summary following => exact compaction_right valid stepped

theorem run_right {jobs : List Job} : ∀ {worker after : Worker} {records : List Record}, worker.Valid →
    runJobs worker jobs = .ok (after,records) → ∀ r ∈ records, r.Right ↔ r.Kept := by
  induction jobs with
  | nil =>
    intro worker after records _ ran
    rw [runJobs] at ran
    obtain ⟨rfl,rfl⟩ := Prod.ext_iff.mp (Except.ok.inj ran)
    exact fun r isIn => absurd isIn List.not_mem_nil
  | cons job jobs ih =>
    intro worker after records valid ran
    rw [runJobs] at ran
    obtain ⟨⟨between,first⟩,stepped,ran⟩ := bind_ok.mp ran
    obtain ⟨⟨last,more⟩,isMore,same⟩ := bind_ok.mp ran
    obtain ⟨rfl,rfl⟩ := Prod.ext_iff.mp (Except.ok.inj same)
    obtain ⟨validAfter,right⟩ := step_right valid stepped
    exact List.forall_mem_append.mpr ⟨right,ih validAfter isMore⟩

/-- Over all jobs of a run, an archive lists what is gone and names the summary exactly
    where what was published last is kept or in the base and the summary is the last message. -/
theorem archives_right_iff {model instructions : String} {base : List (List UInt8)} {jobs : List Job} {after : Worker}
    {records : List Record} (ran : runJobs (.start model instructions base) jobs = .ok (after,records)) :
    ∀ r ∈ records, r.Right ↔ r.Kept :=
  run_right (start_valid model instructions base) ran

end Archive

section Tests
/-- The texts of values, and their first 32 bytes for what SHA-256 makes of them. -/
@[reducible] def shortened : Serde :=
  { CheckpointRoundTrip.printing with digest := fun bytes => (bytes ++ List.replicate 32 0).take 32 }
attribute [local instance] shortened

/-- The base of a conversation with one message, which is then compacted by the user. -/
def asked : Except Error (Worker × List Record) :=
  runJobs (.start "m" "Help." [List.replicate 32 1,List.replicate 32 2]) [.Compaction true none "summary:run" "done" []]
/-- A tool round is published and an automatic compaction follows, with the message
    that began the run. -/
def rounds : Except Error (Worker × List Record) :=
  runJobs (.start "m" "Help." []) [.Publish (CheckpointRoundTrip.asked ++ CheckpointRoundTrip.reading.drop 1),
    .Compaction false none "summary:auto:run:1" "done" CheckpointRoundTrip.asked]

theorem asked_right : ∃ after record, asked = .ok (after,[record]) ∧ record.Right := by
  have evaluated : asked.toOption.any (fun ran => ran.2.length = 1 ∧
      ∀ r ∈ ran.2, (∀ id ∈ r.before.newer, id ∈ r.before.builder.root_prompt_messages_json.drop 1) ∧
        r.following.isEmpty = true) = true := by decide +kernel
  cases isRun : asked with
  | error e => rw [isRun] at evaluated; cases evaluated
  | ok ran =>
    rw [isRun] at evaluated
    obtain ⟨long,alone⟩ := of_decide_eq_true evaluated
    obtain ⟨record,one⟩ := List.length_eq_one_iff.mp long
    have isIn : record ∈ ran.2 := one ▸ List.mem_singleton_self record
    obtain ⟨inBase,last⟩ := alone record isIn
    refine ⟨ran.1,record,one ▸ rfl,(archives_right_iff isRun record isIn).mpr ⟨?_,?_⟩⟩
    · exact fun id isIn => .inl (inBase id isIn)
    · rw [List.isEmpty_iff.mp last]
      intro own isOwn wire isLast
      cases isLast

theorem rounds_incomplete : ¬ ∀ after records, rounds = .ok (after,records) → ∀ r ∈ records, r.Right := by
  intro all
  have evaluated : rounds.toOption.any (fun ran => ran.2.any fun r =>
      ¬ ∀ id ∈ r.before.published.drop 1, id ∉ r.root_ids → id ∈ r.archive.summarized_messages) = true := by decide +kernel
  cases isRun : rounds with
  | error e => rw [isRun] at evaluated; cases evaluated
  | ok ran =>
    rw [isRun] at evaluated
    obtain ⟨r,isIn,incomplete⟩ := List.any_eq_true.mp evaluated
    exact absurd (all ran.1 ran.2 isRun r isIn).complete (of_decide_eq_true incomplete)

end Tests

end MyCursor.SummaryArchive

import Mathlib.Data.List.Find
import MyCursor.Delivery
import MyCursor.Prepare

/-!
# The input of a run and automatic compaction

`auto_compact` in `run/engine.rs` replaces the history by the latest request
context, a summary and the messages that the run was started with. These are not
all messages of its input where `prepare` found some of them stored already: what
it drained is summarized like everything else.
-/
namespace MyCursor.CompactedInput
open Message Store StoreSteps Compaction Run Engine RunSteps
open Delivery Prepare Text Hoare
open CheckpointCodec (Serde)
open Registry (CompiledMessages)
set_option linter.unusedSectionVars false

theorem latestRequestContext_snoc (front : List CanonicalMessage) (m : CanonicalMessage) :
    latestRequestContext (front ++ [m]) = if isRequestContext m then some front.length else latestRequestContext front := by
  have last : (front ++ [m])[front.length]? = some m := by simp
  have earlier : ∀ index ∈ (List.range front.length).reverse,
      ((front ++ [m])[index]?).any (fun one => starts_with one.message_id "request-context:") =
        (front[index]?).any (fun one => starts_with one.message_id "request-context:") := by
    intro index member
    have bound : index < front.length := by simpa using member
    rw [List.getElem?_append_left bound]
  simp only [latestRequestContext,List.length_append,List.length_singleton,List.range_succ,List.reverse_append,
    List.reverse_singleton,List.singleton_append,List.find?_cons,last,Option.any_some]
  unfold isRequestContext
  cases starts_with m.message_id "request-context:" with
  | true => rfl
  | false =>
    simp only [Bool.false_eq_true,if_false]
    exact List.find?_congr earlier
theorem latestRequestContext_lt {messages : List CanonicalMessage} {index : Nat}
    (latest : latestRequestContext messages = some index) : index < messages.length := by
  have member := List.mem_of_find?_eq_some latest
  simpa using member

/-- Whether a message is none of those that the run started with. -/
def keeps (ids : List String) (m : CanonicalMessage) : Bool := !ids.contains m.message_id

theorem filter_zipIdx (front : List CanonicalMessage) (ids : List String) (latest : Option Nat)
    (later : ∀ index, latest = some index → front.length ≤ index) :
    ((front.zipIdx.filter fun (m,index) => decide (some index ≠ latest) && keeps ids m).map (·.1)) = front.filter (keeps ids) := by
  have same : (front.zipIdx.filter fun (m,index) => decide (some index ≠ latest) && keeps ids m) =
      front.zipIdx.filter fun one => keeps ids one.1 := by
    refine List.filter_congr fun one member => ?_
    have bound := List.snd_lt_of_mem_zipIdx member
    have different : some one.2 ≠ latest := by
      intro equal
      have := later one.2 equal.symm
      omega
    simp [different]
  rw [same]
  have projected : (front.zipIdx.filter fun one => keeps ids one.1).map (·.1) = (front.zipIdx.map (·.1)).filter (keeps ids) := by
    rw [List.filter_map]
    rfl
  rw [projected]
  exact congrArg _ (List.zipIdx_map_fst 0 front)

theorem partition_snoc (front : List CanonicalMessage) (m : CanonicalMessage) (ids : List String) : partition (front ++ [m]) ids =
      if isRequestContext m then (front.filter (keeps ids),(some m).filter (keeps ids))
      else ((partition front ids).1 ++ [m].filter (keeps ids),(partition front ids).2) := by
  simp only [partition,latestRequestContext_snoc]
  by_cases context : isRequestContext m
  · rw [if_pos context,if_pos context,List.zipIdx_append,List.filter_append,List.map_append]
    have first := filter_zipIdx front ids (some front.length) (by simp)
    simp only [keeps] at first
    rw [first]
    have retained : ((some front.length).bind fun index => (front ++ [m])[index]?) = some m := by simp
    rw [retained]
    simp only [List.zipIdx_cons,List.zipIdx_nil,Nat.zero_add,List.filter_cons,List.filter_nil]
    simp only [ne_eq,not_true_eq_false,decide_false,Bool.false_and,Bool.false_eq_true,if_false,List.map_nil,List.append_nil]
    rfl
  · rw [if_neg context,if_neg context,List.zipIdx_append,List.filter_append,List.map_append]
    have different : ¬ some front.length = latestRequestContext front := by
      intro equal
      have := latestRequestContext_lt equal.symm
      omega
    have retained : (latestRequestContext front).bind (fun index => (front ++ [m])[index]?) =
        (latestRequestContext front).bind fun index => front[index]? := by
      cases latest : latestRequestContext front with
      | none => rfl
      | some index => simp [List.getElem?_append_left (latestRequestContext_lt latest)]
    rw [retained]
    simp [different,keeps,List.filter_cons]
    split_ifs <;> rfl

theorem partition_perm (messages : List CanonicalMessage) (ids : List String) :
    ((partition messages ids).1 ++ (partition messages ids).2.toList).Perm (messages.filter (keeps ids)) := by
  induction messages using List.reverseRecOn with
  | nil => exact .refl _
  | append_singleton front m ih =>
    rw [partition_snoc,List.filter_append]
    by_cases context : isRequestContext m
    · rw [if_pos context]
      refine (List.Perm.of_eq ?_)
      cases kept : keeps ids m <;> simp [kept,Option.filter]
    · rw [if_neg context]
      calc (partition front ids).1 ++ [m].filter (keeps ids) ++ (partition front ids).2.toList
          _ = (partition front ids).1 ++ ([m].filter (keeps ids) ++ (partition front ids).2.toList) := List.append_assoc ..
          _ |>.Perm ((partition front ids).1 ++ ((partition front ids).2.toList ++ [m].filter (keeps ids))) :=
            List.perm_append_comm.append_left _
          _ = (partition front ids).1 ++ (partition front ids).2.toList ++ [m].filter (keeps ids) :=
            (List.append_assoc ..).symm
          _ |>.Perm (front.filter (keeps ids) ++ [m].filter (keeps ids)) := ih.append_right _
theorem partition_retained (messages : List CanonicalMessage) (ids : List String) :
    (partition messages ids).2 = (messages.reverse.find? isRequestContext).filter (keeps ids) := by
  induction messages using List.reverseRecOn with
  | nil => rfl
  | append_singleton front m ih =>
    rw [partition_snoc,List.reverse_append,List.reverse_singleton,List.singleton_append,List.find?_cons]
    by_cases context : isRequestContext m
    · rw [if_pos context,context]
    · rw [if_neg context,Bool.eq_false_of_not_eq_true context]
      exact ih

section Runs
variable {Digest : Type} [DecidableEq Digest] [MessageHash Digest] [SerdeText] [Blobs] [Serde] {prepared : PreparedRun}
variable {a b : Config Digest} {start : Start Digest}

/-- The history of a checkpoint was replaced by messages, which another one holds. -/
structure Replaces (prepared : PreparedRun) (s : Tables Digest) (checkpoint : Nat) (messages : List CanonicalMessage)
    (id : Nat) : Prop where
  old : Belongs s prepared.conversation_id checkpoint
  new : Belongs s prepared.conversation_id id
  loads : load_checkpoint_messages s id = messages
  distinct : (messages.map (·.message_id)).Nodup
  replacement : Replacement prepared (some (load_checkpoint_messages s checkpoint)) messages

def replacing (prepared : PreparedRun) (checkpoint : Nat) (messages : List CanonicalMessage) (id : Nat) : Entry :=
  .Stored (.replace_checkpoint prepared.conversation_id prepared.run_id checkpoint messages) (.Checkpoint id)

variable {checkpoint : Nat}

theorem Replaces.later {id : Nat} {messages : List CanonicalMessage}
    (replaces : Replaces prepared a.world.store checkpoint messages id) (grounded : Grounded prepared a)
    (writes : Writes a.world.store b.world.store) : Replaces prepared b.world.store checkpoint messages id := by
  have extends_ := Writes.extends_ writes grounded.consistent.wellFormed
  refine ⟨extends_.belongs replaces.old,extends_.belongs replaces.new,?_,replaces.distinct,?_⟩
  · rw [grounded.load_stable writes replaces.new,replaces.loads]
  · rw [grounded.load_stable writes replaces.old]
    exact replaces.replacement

theorem step_replaces (step : Step prepared a b) (grounded : Grounded prepared a)
    (known : ∀ checkpoint messages id, replacing prepared checkpoint messages id ∈ a.world.log →
      Replaces prepared a.world.store checkpoint messages id) (checkpoint : Nat) (messages : List CanonicalMessage) (id : Nat)
    (member : replacing prepared checkpoint messages id ∈ b.world.log) :
    Replaces prepared b.world.store checkpoint messages id := by
  have writes := step.writes grounded
  have after := step.grounded grounded
  have old : replacing prepared checkpoint messages id ∈ a.world.log → Replaces prepared b.world.store checkpoint messages id :=
    fun earlier => (known checkpoint messages id earlier).later grounded writes
  have other : ∀ {log : List Entry} {entry : Entry}, replacing prepared checkpoint messages id ∈ log ++ [entry] →
      entry ≠ replacing prepared checkpoint messages id → replacing prepared checkpoint messages id ∈ log := by
    intro log entry inside different
    rcases List.mem_append.mp inside with earlier | new
    · exact earlier
    · exact absurd (List.mem_singleton.mp new).symm different
  cases step with
  | @act c w action =>
    rcases (act_acted prepared.run_id w action).log with same | ⟨entry,same,⟨result,rfl⟩ | ⟨batch,rfl⟩⟩
    · exact old (same ▸ member)
    · exact old (other (same ▸ member) (by simp [replacing]))
    · exact old (other (same ▸ member) (by simp [replacing]))
  | internal | phase | receive | drain | load | usage | compacted | close_round => exact old member
  | @plain c w entry plain =>
    refine old (other member ?_)
    rintro rfl
    exact plain
  | @replace c w reached id' messages' store isReached closed between settled replacement done =>
    rcases List.mem_append.mp member with earlier | new
    · exact old earlier
    · obtain ⟨sameOp,sameReply⟩ := Entry.Stored.inj (List.mem_singleton.mp new)
      obtain ⟨_,_,rfl,rfl⟩ := Op.replace_checkpoint.inj sameOp
      obtain rfl := Reply.Checkpoint.inj sameReply
      obtain ⟨root,isRoot,appended⟩ := transact_replace grounded.consistent.wellFormed done
      obtain ⟨middle,conversation,inserted,_,_⟩ := appended.written
      have belongs := (grounded.head checkpoint isReached).1
      have extends_ := Writes.extends_ writes grounded.consistent.wellFormed
      refine ⟨extends_.belongs belongs,(after.head id rfl).1,?_,inserted.distinct,?_⟩
      · have loads := grounded.replace_history (b := ⟨Control.goTo c id,World.stored w
          (.replace_checkpoint prepared.conversation_id prepared.run_id checkpoint messages) (.Checkpoint id) store⟩)
          done rfl rfl
        exact loads
      · rw [grounded.load_stable writes belongs]
        cases replacement with
        | summary event_id summary compacts => exact .summary event_id summary compacts
        | @compaction loaded index summary isRead =>
          have same := grounded.read loaded isRead
          simp only [Config.history,isReached] at same
          exact .compaction index summary (congrArg some same.symm)
  | _ => exact old (other member (by simp [replacing]))

theorem reach_replaces (reach : Reach prepared start a) (checkpoint : Nat) (messages : List CanonicalMessage) (id : Nat)
    (member : replacing prepared checkpoint messages id ∈ a.world.log) :
    Replaces prepared a.world.store checkpoint messages id := by
  induction reach generalizing checkpoint messages id with
  | refl => cases member
  | tail earlier step ih => exact step_replaces step (Reach.grounded earlier) ih checkpoint messages id member

theorem run_replaces {ops : List Op} {script : List Move} {result : Except Halt RunOutcome} {w : World Digest}
    (ran : runFrom (run prepared) (initial (replay ops) script) = (result,w)) (checkpoint : Nat)
    (messages : List CanonicalMessage) (id : Nat) (member : replacing prepared checkpoint messages id ∈ w.log) :
    WellFormed w.store ∧ Replaces prepared w.store checkpoint messages id := by
  obtain ⟨c,last,reach,ended,_⟩ :=
    @EngineSteps.run_reaches Digest _ _ _ _ prepared ⟨replay ops,script,ops,rfl⟩ result w ran
  have wf := (Reach.grounded reach).consistent.wellFormed
  rcases ended with rfl | ⟨outcome,rfl⟩
  · exact ⟨wf,reach_replaces reach checkpoint messages id member⟩
  · refine ⟨wf,reach_replaces reach checkpoint messages id ?_⟩
    rcases List.mem_append.mp member with earlier | new
    · exact earlier
    · cases List.mem_singleton.mp new

variable {s : Tables Digest}

/-- The new history ends with the input, each message of it once. Every other
    message of the old history is in the compacted list or is the latest request
    context and retained, and is so once. -/
structure Survives (input old new compacted : List CanonicalMessage) (retained : Option CanonicalMessage) : Prop where
  ends : input <:+ new
  once : ∀ m ∈ input, new.count m = 1
  others : (compacted ++ retained.toList).Perm (old.filter (· ∉ input))
  latest : ∀ m, retained = some m → old.reverse.find? isRequestContext = some m ∧ m ∈ new
  distinct : (new.map (·.message_id)).Nodup

variable {m : CanonicalMessage}

theorem mem_load (forest : Forest s) {c : ConversationId}
    (belongs : Belongs s c checkpoint) (member : m ∈ load_checkpoint_messages s checkpoint) :
    message s c m.message_id = some m := by
  induction checkpoint using Nat.strongRecOn with
  | ind checkpoint ih =>
    obtain ⟨row,isRow,rfl,owner⟩ := belongs
    rw [forest.load_eq isRow,List.mem_append] at member
    rcases member with parent | added
    · unfold parentMessages at parent
      split at parent
      · cases parent
      · rename_i earlier isParent
        obtain ⟨older,belongs⟩ := forest.parents row isRow earlier isParent
        exact ih earlier older (owner ▸ belongs) parent
    · obtain ⟨id,_,found⟩ := List.mem_filterMap.mp added
      have named := message_named found
      rw [named,← owner]
      exact found
theorem same_of_id (forest : Forest s) {c : ConversationId} {first second : Nat}
    (isFirst : Belongs s c first) (isSecond : Belongs s c second) {other : CanonicalMessage}
    (member : m ∈ load_checkpoint_messages s first) (isOther : other ∈ load_checkpoint_messages s second)
    (same : m.message_id = other.message_id) : m = other := by
  have found := mem_load forest isFirst member
  rw [same,mem_load forest isSecond isOther] at found
  exact (Option.some.inj found).symm

theorem Replaces.survives (wf : WellFormed s) {id : Nat} {messages : List CanonicalMessage}
    (replaces : Replaces prepared s checkpoint messages id) (starts : prepared.action ≠ .Compact) :
    Survives prepared.initial_messages (load_checkpoint_messages s checkpoint) (load_checkpoint_messages s id)
      (partition (load_checkpoint_messages s checkpoint) (prepared.initial_messages.map (·.message_id))).1
      (partition (load_checkpoint_messages s checkpoint) (prepared.initial_messages.map (·.message_id))).2 := by
  obtain ⟨old,new,loads,distinct,replacement⟩ := replaces
  cases replacement with
  | summary event_id summary compacts => exact absurd compacts starts
  | @compaction loaded index summary isRead =>
    obtain rfl := Option.some.inj isRead
    have own : ∀ m ∈ prepared.initial_messages, m ∈ load_checkpoint_messages s id := by
      intro m member
      rw [loads]
      exact List.mem_append_right _ member
    refine ⟨?_,?_,?_,?_,?_⟩
    · rw [loads]
      exact List.suffix_append _ _
    · intro m member
      rw [loads] at own ⊢
      exact List.count_eq_one_of_mem (List.Nodup.of_map _ distinct) (own m member)
    · refine (partition_perm _ _).trans (.of_eq (List.filter_congr fun m member => ?_))
      -- An old message with the id of a message of the input is that message.
      have same : m.message_id ∈ prepared.initial_messages.map (·.message_id) ↔ m ∈ prepared.initial_messages := by
        refine ⟨fun named => ?_,fun isOwn => List.mem_map_of_mem isOwn⟩
        obtain ⟨other,isOther,isId⟩ := List.mem_map.mp named
        rw [same_of_id wf.toForest old new member (own other isOther) isId.symm]
        exact isOther
      simp only [keeps,List.contains_eq_mem,same,decide_not]
    · intro m retained
      refine ⟨?_,?_⟩
      · rw [partition_retained,Option.filter_eq_some_iff] at retained
        exact retained.1
      · rw [loads]
        simp [retained]
    · rw [loads]
      exact distinct

theorem matchFrom_le (s : Tables Digest) (c : ConversationId) (additions : List CanonicalMessage) :
    ∀ (checkpoint : Nat) (messages : List CanonicalMessage) (index : Nat),
      (matchFrom s c checkpoint messages index additions).2 ≤ index + additions.length := by
  induction additions with
  | nil => exact fun _ _ _ => Nat.le_refl _
  | cons addition rest ih =>
    intro checkpoint messages index
    unfold matchFrom
    rw [List.length_cons]
    split
    · omega
    · rename_i child _
      split_ifs
      · have later := ih child (messages ++ [addition]) (index + 1)
        omega
      · omega

theorem summary_not_input {request : AgentRunRequest} {projection : ActionProjection}
    {history input : List CanonicalMessage} (isAction : Prepare.action request = .ok projection)
    (isInput : inputMessages s request projection history = .ok input) (run_id : RunId) (index : Int) (summary : String) :
    summaryMessage s!"summary:auto:{run_id}:{index}" summary ∉ input := by
  intro member
  obtain ⟨event_id,isEvent,named⟩ := input_named isInput member
  obtain ⟨origin,known,rest,rfl⟩ := eventId_origin isAction isEvent
  simp only [summaryMessage] at named
  rcases named with named | named
  · have letters := congrArg String.toList named
    simp [toString,String.toList_append] at letters
  · have letters := congrArg String.toList named
    simp only [List.mem_cons,List.not_mem_nil,or_false] at known
    rcases known with rfl | rfl | rfl <;> simp [toString,String.toList_append] at letters

theorem not_suffix_of_drop {front pending input : List CanonicalMessage} {count : Nat}
    (absent : m ∉ input) (positive : 0 < count) (within : count ≤ input.length) :
    ¬ pending ++ input <:+ front ++ [m] ++ (pending ++ input.drop count) := by
  rintro ⟨before,same⟩
  have lengths := congrArg List.length same
  simp only [List.length_append,List.length_drop,List.length_singleton] at lengths
  -- What stands before the input is shorter than what stands before its rest.
  have shorter : before.length ≤ front.length := by omega
  obtain ⟨front',rfl⟩ : ∃ front', front = before ++ front' := by
    have isPrefix : before <+: front := by
      have whole : before <+: front ++ [m] ++ (pending ++ input.drop count) := ⟨_,same⟩
      have front_first : front <+: front ++ [m] ++ (pending ++ input.drop count) :=
        ⟨[m] ++ (pending ++ input.drop count),by simp⟩
      exact List.prefix_of_prefix_length_le whole front_first shorter
    obtain ⟨rest,isRest⟩ := isPrefix
    exact ⟨rest,isRest.symm⟩
  simp only [List.append_assoc,List.append_cancel_left_eq] at same
  have counts := congrArg (List.count m) same
  simp only [List.count_append,List.count_singleton_self,List.count_eq_zero_of_not_mem absent] at counts
  omega

theorem spawned_initial (s later : Tables Digest) (closing : Bool) (pending : List CompiledMessages) (request : AgentRunRequest)
    (chosen : Chosen) (action : RunAction) :
    (spawned later closing pending (matched s request chosen action) chosen).initial_messages =
      pending.flatMap (·.messages) ++ if chosen.projection.background_completion then [] else
        chosen.input.drop (matchCheckpointPrefix s request.conversation_id chosen.base_checkpoint_id chosen.input).2 := by
  rw [spawned,withPending_initial]
  split_ifs <;> rfl
theorem spawned_same (s later : Tables Digest) (closing : Bool) (pending : List CompiledMessages) (request : AgentRunRequest)
    (chosen : Chosen) (action : RunAction) :
    (spawned later closing pending (matched s request chosen action) chosen).conversation_id = request.conversation_id ∧
      (spawned later closing pending (matched s request chosen action) chosen).run_id = request.run_id ∧
      (spawned later closing pending (matched s request chosen action) chosen).action = action := by
  cases background : chosen.projection.background_completion <;> cases pending <;>
    simp [spawned,withPending,background,undelivered,matched]

end Runs

section Identity
local instance : MessageHash (List CanonicalMessage) := ⟨id⟩
-- Neither tools, tool calls nor images occur in the runs below, and no request has a state.
local instance : SerdeText := ⟨fun _ => "",fun _ => "",fun _ => ""⟩
local instance : Blobs := ⟨fun _ => .ok [],id⟩
local instance : Serde :=
  ⟨id,fun _ => .refl _,fun _ => [],fun _ => .error "",fun _ => [],fun _ => .error "",id,id⟩

def asking : AgentRunRequest :=
  { request_id := "request", run_id := "run", conversation_id := "c", conversation_state := none,
    action := .UserMessageAction "m" "go on", context := "files", content := .Parts [.Text "go on"],
    semantic := fun _ => "digest", model := turn.model, checkpoint_prompt := turn.prompt,
    compaction_prompt := turn.prompt, pending_tool_round := .ok none }
def greeted : List Op :=
  [.import_checkpoint "c" [greeting],.claim_run ⟨"earlier",none,"c",.Root,2⟩,.finish_run "earlier" .Completed none none]
def runFor (request : AgentRunRequest) (ops : List Op) (anchors : ConversationId → String → Option Nat) (script : List Move) :
    Option (Chosen × PreparedRun × World (List CanonicalMessage)) :=
  match (runFrom (prepare request) ⟨replay ops,anchors⟩ : Except Error (PreparedRun × Chosen) × Storage (List CanonicalMessage)) with
  | (.ok (prepared,chosen),after) =>
    some (chosen,prepared,
      (runFrom (run (spawned after.tables false [] prepared chosen)) (initial (replay ops) script)).2)
  | (.error _,_) => none
def firstAttempt : List Move := [{},{ choice := .Anchor none },{},{},{},ready,{},{},{}] ++ overflow ++ ending
/-- The first attempt had only appended the input when it was cancelled. -/
def retrying : AgentRunRequest := { asking with request_id := "again", run_id := "retry" }
def appended : List Op :=
  greeted ++ [.claim_run ⟨"run",some "request","c",.Root,2⟩,
    .append_message_once "c" "run" 2 (text "request-context:cursor:user:m:digest" .User .Prompt "files"),
    .append_message_once "c" "run" 3 (runtimeMessage "cursor:user:m:digest" (.Parts [.Text "go on"])),
    .finish_run "run" .Cancelled none none]
def anchored : ConversationId → String → Option Nat := fun _ input_id => if input_id = "cursor:user:m" then some 2 else none
def calling : List Move := [{},{ choice := .Anchor none },{},{},{}]
def secondAttempt : List Move := calling ++ overflow ++ ending

/-- The checkpoint that was replaced and the one that replaced it. -/
def replacedBy : Entry → Option (ConversationId × RunId × Nat × Nat)
  | .Stored (.replace_checkpoint conversation_id run_id checkpoint _) (.Checkpoint id) =>
    some (conversation_id,run_id,checkpoint,id)
  | _ => none

theorem replaced_mem {log : List Entry} {conversation_id : ConversationId} {run_id : RunId} {checkpoint id : Nat}
    (replaced : log.filterMap replacedBy = [(conversation_id,run_id,checkpoint,id)]) :
    ∃ messages, .Stored (.replace_checkpoint conversation_id run_id checkpoint messages) (.Checkpoint id) ∈ log := by
  have member : (conversation_id,run_id,checkpoint,id) ∈ log.filterMap replacedBy := by
    rw [replaced]
    exact List.mem_singleton_self _
  obtain ⟨entry,logged,isReplaced⟩ := List.mem_filterMap.mp member
  unfold replacedBy at isReplaced
  split at isReplaced
  · rename_i messages _
    obtain ⟨rfl,rfl,rfl,rfl⟩ := by simpa using isReplaced
    exact ⟨messages,logged⟩
  · cases isReplaced

theorem runFor_some {request : AgentRunRequest} {ops : List Op} {anchors : ConversationId → String → Option Nat}
    {script : List Move} {α : Type} {f : Chosen × PreparedRun × World (List CanonicalMessage) → α} {a : α}
    (ran : (runFor request ops anchors script).map f = some a) :
    ∃ chosen prepared after result w,
      runFrom (prepare request) (⟨replay ops,anchors⟩ : Storage (List CanonicalMessage)) = (.ok (prepared,chosen),after) ∧
        runFrom (run (spawned after.tables false [] prepared chosen)) (initial (replay ops) script) = (result,w) ∧
        runFor request ops anchors script = some (chosen,prepared,w) := by
  unfold runFor at ran ⊢
  split at ran
  · rename_i prepared chosen after prepares
    exact ⟨chosen,prepared,after,_,_,prepares,Prod.mk.eta.symm,rfl⟩
  · cases ran

end Identity

end MyCursor.CompactedInput

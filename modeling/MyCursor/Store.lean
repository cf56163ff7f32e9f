import Mathlib.Algebra.Order.Ring.Int
import MyCursor.Error
import MyCursor.Message
import Mathlib.Logic.Function.Basic

/-!
# The store

The SQLite tables of `migrations/` that hold conversations, checkpoints,
messages, runs and tool rounds, and the transactions of `store/` over them. A
transaction returns the new tables, or an error and then nothing is written.
Timestamps and the statistics of provider calls are left out. Reads that a
function makes before it opens its transaction are of immutable rows and are
made together with it.
-/
namespace MyCursor.Store
open Message

/-- SHA-256 of the serialised messages, each with its length in front; the
    store only compares digests. -/
class MessageHash (Digest : Type) where
  message_digest : List CanonicalMessage → Digest
export MessageHash (message_digest)

structure ConversationRow where
  current_checkpoint_id : Option Nat
  active_run_id : Option RunId
deriving DecidableEq

/-- A row of `conversation_checkpoints` with its rows of
    `checkpoint_messages` in the order of their ordinals. -/
structure CheckpointRow (Digest : Type) where
  checkpoint_id : Nat
  conversation_id : ConversationId
  parent_checkpoint_id : Option Nat
  state_digest : Digest
  message_ids : List String
deriving DecidableEq

/-- A row of `messages`; the payload is kept as the message it serialises. -/
structure MessageRow where
  conversation_id : ConversationId
  message : CanonicalMessage
deriving DecidableEq

inductive RunStatus where
  | Running
  | Completed
  | Cancelled
  | Failed
deriving DecidableEq

inductive SubagentKind where
  | GeneralPurpose
  | Named (name : String)
deriving DecidableEq

inductive RunKind where
  | Root
  | Subagent (parent_run_id : RunId) (parent_tool_call_id : String) (kind : SubagentKind) (background : Bool)
deriving DecidableEq

/-- `model/observability.rs`; an unreported count is `none`. -/
structure Usage where
  input_tokens : Option Nat := none
  context_input_tokens : Option Nat := none
  output_tokens : Option Nat := none
  total_tokens : Option Nat := none
  cache_read_tokens : Option Nat := none
  cache_write_tokens : Option Nat := none
  reasoning_tokens : Option Nat := none
deriving DecidableEq

structure RunRow where
  cursor_request_id : Option String
  conversation_id : ConversationId
  base_checkpoint_id : Nat
  head_checkpoint_id : Nat
  kind : RunKind
  status : RunStatus
  provider_call_index : Int := -1
  turn_usage : Option Usage := none
  failure_category : Option String := none
  failure_summary : Option String := none
deriving DecidableEq

inductive ToolRoundStatus where
  | Pending
  | Settled
deriving DecidableEq

inductive ToolCallStatus where
  | Pending
  | Completed
deriving DecidableEq

structure ToolRoundCallRow where
  call_index : Nat
  call_id : String
  model_call_id : String
  name : String
  arguments : Value
  argument_error : Option String
  status : ToolCallStatus := .Pending
  completion_seq : Option Nat := none
  result_content : Option String := none
  result_is_error : Option Bool := none
  committed_checkpoint_id : Option Nat := none
deriving DecidableEq

/-- A row of `tool_rounds` with its rows of `tool_round_calls`. `created_at_ms`
    is `none` when the row takes the time of its insertion. -/
structure ToolRoundRow where
  run_id : RunId
  base_checkpoint_id : Nat
  assistant : ToolRoundAssistant
  status : ToolRoundStatus
  version : Nat
  next_completion_seq : Nat
  created_at_ms : Option Nat
  calls : List ToolRoundCallRow
deriving DecidableEq

structure Tables (Digest : Type) where
  conversations : ConversationId → Option ConversationRow
  checkpoints : List (CheckpointRow Digest)
  messages : List MessageRow
  runs : RunId → Option RunRow
  tool_rounds : ToolRoundId → Option ToolRoundRow

def Tables.empty {Digest : Type} : Tables Digest := ⟨fun _ => none,[],[],fun _ => none,fun _ => none⟩

variable {Digest : Type} [DecidableEq Digest] [MessageHash Digest]

def checkpointRow (s : Tables Digest) (id : Nat) : Option (CheckpointRow Digest) :=
  s.checkpoints.find? fun row => row.checkpoint_id = id
/-- The checkpoint of the conversation with the given digest; there is at most one. -/
def checkpointByDigest (s : Tables Digest) (conversation_id : ConversationId) (digest : Digest) : Option Nat :=
  (s.checkpoints.find? fun row => row.conversation_id = conversation_id ∧ row.state_digest = digest).map
    (·.checkpoint_id)
def childByDigest (s : Tables Digest) (conversation_id : ConversationId) (parent : Nat) (digest : Digest) : Option Nat :=
  (s.checkpoints.find? fun row => row.conversation_id = conversation_id ∧
    row.parent_checkpoint_id = some parent ∧ row.state_digest = digest).map (·.checkpoint_id)
def rootCheckpoint (s : Tables Digest) (conversation_id : ConversationId) : Option Nat :=
  (s.checkpoints.find? fun row => row.conversation_id = conversation_id ∧ row.parent_checkpoint_id = none).map
    (·.checkpoint_id)
/-- `Store::message`. -/
def message (s : Tables Digest) (conversation_id : ConversationId) (message_id : String) : Option CanonicalMessage :=
  (s.messages.find? fun row => row.conversation_id = conversation_id ∧ row.message.message_id = message_id).map
    (·.message)

def addedMessages (s : Tables Digest) (row : CheckpointRow Digest) : List CanonicalMessage :=
  row.message_ids.filterMap (message s row.conversation_id)
/-- The recursive query over the lineage, at most `depth` rows deep: the
    oldest ancestor first, and each checkpoint's messages by ordinal. -/
def loadLineage (s : Tables Digest) : Nat → Nat → List CanonicalMessage
  | 0, _ => []
  | depth + 1, id =>
    match checkpointRow s id with
    | none => []
    | some row =>
      (match row.parent_checkpoint_id with
        | none => []
        | some parent => loadLineage s depth parent) ++ addedMessages s row
/-- A parent is older than its child, so the row id bounds the depth. -/
def load_checkpoint_messages (s : Tables Digest) (id : Nat) : List CanonicalMessage := loadLineage s (id + 1) id

/-! ## Messages and checkpoints -/

/-- Rows that block an insertion: the same message id, or the same runtime event. -/
def sameIdentity (m stored : CanonicalMessage) : Bool :=
  stored.message_id = m.message_id || (m.runtime_event_id.isSome && stored.runtime_event_id = m.runtime_event_id)

def put_message_tx (s : Tables Digest) (conversation_id : ConversationId) (m : CanonicalMessage) : Except Error (Tables Digest) :=
  match s.messages.find? fun row => row.conversation_id = conversation_id ∧ sameIdentity m row.message with
  | none => .ok { s with messages := s.messages ++ [⟨conversation_id,m⟩] }
  | some existing =>
    if existing.message = m then .ok s
    else .error (.Store s!"message id or runtime event reused with different content: {m.message_id}")

def putMessages (s : Tables Digest) (conversation_id : ConversationId) : List CanonicalMessage → Except Error (Tables Digest)
  | [] => .ok s
  | m :: rest => do
    let s ← put_message_tx s conversation_id m
    putMessages s conversation_id rest

/-- The `INSERT` statements for one checkpoint, with the unique constraints
    of the tables. Every caller has just read the rows that the foreign keys
    refer to. -/
def insertCheckpointRow (s : Tables Digest) (conversation_id : ConversationId) (parent : Option Nat)
    (digest : Digest) (message_ids : List String) : Except Error (Nat × Tables Digest) :=
  if (checkpointByDigest s conversation_id digest).isSome then
    .error (.Database
      "UNIQUE constraint failed: conversation_checkpoints.conversation_id, conversation_checkpoints.state_digest")
  else if message_ids.Nodup then
    let id := s.checkpoints.length + 1
    .ok (id,{ s with checkpoints := s.checkpoints ++ [⟨id,conversation_id,parent,digest,message_ids⟩] })
  else
    .error (.Database "UNIQUE constraint failed: checkpoint_messages.checkpoint_id, checkpoint_messages.message_id")

def insert_checkpoint_tx (s : Tables Digest) (conversation_id : ConversationId) (parent : Nat)
    (additions : List CanonicalMessage) (digest : Digest) : Except Error (Nat × Tables Digest) := do
  let s ← putMessages s conversation_id additions
  insertCheckpointRow s conversation_id (some parent) digest (additions.map (·.message_id))

def setConversation (s : Tables Digest) (conversation_id : ConversationId) (row : ConversationRow) : Tables Digest :=
  { s with conversations := Function.update s.conversations conversation_id (some row) }
def updateRun (s : Tables Digest) (run_id : RunId) (change : RunRow → RunRow) : Tables Digest :=
  { s with runs := Function.update s.runs run_id ((s.runs run_id).map change) }

def ensure_conversation_tx (s : Tables Digest) (conversation_id : ConversationId) : Except Error (Nat × Tables Digest) :=
  let row := (s.conversations conversation_id).getD ⟨none,none⟩
  match row.current_checkpoint_id with
  | some current => .ok (current,s)
  | none => do
    let (root,s) ← insertCheckpointRow s conversation_id none (message_digest []) []
    .ok (root,setConversation s conversation_id { row with current_checkpoint_id := some root })

def require_active_head_tx (s : Tables Digest) (conversation_id : ConversationId) (run_id : RunId) (expected : Nat) : Except Error Unit :=
  match s.conversations conversation_id with
  | some row =>
    if row.current_checkpoint_id = some expected ∧ row.active_run_id = some run_id then .ok ()
    else .error (.Store s!"run {run_id} no longer owns conversation {conversation_id} at checkpoint {expected}")
  | none => .error (.Store s!"run {run_id} no longer owns conversation {conversation_id} at checkpoint {expected}")

/-- The two `UPDATE` statements that move the head of the conversation and of
    its active run; `doing` names the operation in the error. -/
def moveHead (s : Tables Digest) (doing : String) (conversation_id : ConversationId) (run_id : RunId)
    (expected checkpoint : Nat) : Except Error (Tables Digest) :=
  match s.conversations conversation_id with
  | some row =>
    if row.current_checkpoint_id = some expected ∧ row.active_run_id = some run_id then
      .ok (updateRun (setConversation s conversation_id { row with current_checkpoint_id := some checkpoint }) run_id
        fun run => { run with head_checkpoint_id := checkpoint })
    else .error (.Store s!"lost active ownership while {doing} checkpoint for run {run_id}")
  | none => .error (.Store s!"lost active ownership while {doing} checkpoint for run {run_id}")

def ensure_conversation (s : Tables Digest) (conversation_id : ConversationId) : Except Error (Nat × Tables Digest) :=
  ensure_conversation_tx s conversation_id

def import_checkpoint (s : Tables Digest) (conversation_id : ConversationId) (messages : List CanonicalMessage) :
    Except Error (Nat × Tables Digest) := do
  let digest := message_digest messages
  let (current,s) ← ensure_conversation_tx s conversation_id
  match checkpointByDigest s conversation_id digest with
  | some existing => .ok (existing,s)
  | none =>
    let current_messages := load_checkpoint_messages s current
    if current_messages <+: messages then
      insert_checkpoint_tx s conversation_id current (messages.drop current_messages.length) digest
    else
      match rootCheckpoint s conversation_id with
      | some root => insert_checkpoint_tx s conversation_id root messages digest
      | none => .error (.Database "no rows returned by a query that expected to return at least one row")

def append_checkpoint_with_digest_tx (s : Tables Digest) (conversation_id : ConversationId) (run_id : RunId)
    (expected : Nat) (additions : List CanonicalMessage) (digest : Digest) :
    Except Error (Nat × Tables Digest) := do
  require_active_head_tx s conversation_id run_id expected
  if (checkpointByDigest s conversation_id digest).isSome then
    .error (.Store "active append would reuse an existing checkpoint instead of creating a child")
  else do
    let (checkpoint,s) ← insert_checkpoint_tx s conversation_id expected additions digest
    let s ← moveHead s "appending" conversation_id run_id expected checkpoint
    .ok (checkpoint,s)

def append_checkpoint_tx (s : Tables Digest) (conversation_id : ConversationId) (run_id : RunId)
    (expected : Nat) (additions : List CanonicalMessage) : Except Error (Nat × Tables Digest) :=
  append_checkpoint_with_digest_tx s conversation_id run_id expected additions
    (message_digest (load_checkpoint_messages s expected ++ additions))

def append_checkpoint (s : Tables Digest) (conversation_id : ConversationId) (run_id : RunId)
    (expected : Nat) (additions : List CanonicalMessage) : Except Error (Nat × Tables Digest) :=
  if additions.isEmpty then .ok (expected,s)
  else append_checkpoint_tx s conversation_id run_id expected additions

def replace_checkpoint (s : Tables Digest) (conversation_id : ConversationId) (run_id : RunId)
    (expected : Nat) (messages : List CanonicalMessage) : Except Error (Nat × Tables Digest) := do
  require_active_head_tx s conversation_id run_id expected
  match rootCheckpoint s conversation_id with
  | none => .error (.Database "no rows returned by a query that expected to return at least one row")
  | some root => do
    let (checkpoint,s) ← insert_checkpoint_tx s conversation_id root messages (message_digest messages)
    let s ← moveHead s "replacing" conversation_id run_id expected checkpoint
    .ok (checkpoint,s)

def append_message_once (s : Tables Digest) (conversation_id : ConversationId) (run_id : RunId)
    (expected : Nat) (m : CanonicalMessage) : Except Error ((Nat × Bool) × Tables Digest) :=
  match (load_checkpoint_messages s expected).find? (sameIdentity m) with
  | some existing =>
    if existing = m then .ok ((expected,false),s)
    else .error (.Store s!"message id or runtime event reused with different content: {m.message_id}")
  | none => do
    let (checkpoint,s) ← append_checkpoint s conversation_id run_id expected [m]
    .ok ((checkpoint,true),s)

/-- Follows the children of `checkpoint` that add the given messages one by one. -/
def matchFrom (s : Tables Digest) (conversation_id : ConversationId) (checkpoint : Nat)
    (messages : List CanonicalMessage) (index : Nat) : List CanonicalMessage → Nat × Nat
  | [] => (checkpoint,index)
  | addition :: rest =>
    match childByDigest s conversation_id checkpoint (message_digest (messages ++ [addition])) with
    | none => (checkpoint,index)
    | some child =>
      if load_checkpoint_messages s child = messages ++ [addition] then
        matchFrom s conversation_id child (messages ++ [addition]) (index + 1) rest
      else (checkpoint,index)
def matchCheckpointPrefix (s : Tables Digest) (conversation_id : ConversationId) (base_checkpoint_id : Nat)
    (additions : List CanonicalMessage) : Nat × Nat :=
  matchFrom s conversation_id base_checkpoint_id (load_checkpoint_messages s base_checkpoint_id) 0 additions

/-- The part of `PreparedRun` that a claim stores. -/
structure RunClaim where
  run_id : RunId
  cursor_request_id : Option String
  conversation_id : ConversationId
  kind : RunKind
  base_checkpoint_id : Nat
deriving DecidableEq

structure ClaimedRun where
  run_id : RunId
  conversation_id : ConversationId
  head_checkpoint_id : Nat
  replaced_run_id : Option RunId
deriving DecidableEq

def cancelRunning (run : RunRow) : RunRow := if run.status = .Running then { run with status := .Cancelled } else run

/-- The run that the claim replaces, if it is another one, is cancelled. -/
def cancelReplaced (s : Tables Digest) (run_id : RunId) : Option RunId → Tables Digest
  | none => s
  | some replaced => if replaced = run_id then s else updateRun s replaced cancelRunning

def claim_run (s : Tables Digest) (prepared : RunClaim) : Except Error (ClaimedRun × Tables Digest) := do
  let (_,s) ← ensure_conversation_tx s prepared.conversation_id
  let belongs := s.checkpoints.any fun row =>
    row.checkpoint_id = prepared.base_checkpoint_id ∧ row.conversation_id = prepared.conversation_id
  if !belongs then
    .error (.Store
      s!"base checkpoint {prepared.base_checkpoint_id} does not belong to conversation {prepared.conversation_id}")
  else
    let replaced := (s.conversations prepared.conversation_id).bind (·.active_run_id)
    let s := cancelReplaced s prepared.run_id replaced
    if (s.runs prepared.run_id).isSome then .error (.Database "UNIQUE constraint failed: runs.run_id")
    else
      let run : RunRow := {
        cursor_request_id := prepared.cursor_request_id, conversation_id := prepared.conversation_id,
        base_checkpoint_id := prepared.base_checkpoint_id, head_checkpoint_id := prepared.base_checkpoint_id,
        kind := prepared.kind, status := .Running }
      let s := { s with runs := Function.update s.runs prepared.run_id (some run) }
      let s := setConversation s prepared.conversation_id ⟨some prepared.base_checkpoint_id,some prepared.run_id⟩
      .ok (⟨prepared.run_id,prepared.conversation_id,prepared.base_checkpoint_id,
        replaced.filter (· ≠ prepared.run_id)⟩,s)

def begin_provider_call (s : Tables Digest) (run_id : RunId) : Except Error (Int × Tables Digest) :=
  match s.runs run_id with
  | none => .error (.Store s!"run is not active: {run_id}")
  | some run =>
    if run.status = .Running then
      .ok (run.provider_call_index + 1,
        updateRun s run_id fun run => { run with provider_call_index := run.provider_call_index + 1 })
    else .error (.Store s!"run is not active: {run_id}")

/-- Only a running run takes the terminal status; a conversation is released
    by its active run only. -/
def finish_run (s : Tables Digest) (run_id : RunId) (status : RunStatus) (usage : Option Usage)
    (failure : Option (String × String)) : Except Error (Bool × Tables Digest) :=
  match s.runs run_id with
  | none => .error (.RunNotFound run_id)
  | some run =>
    let terminal_status := if run.status = .Running then status else run.status
    let s := if run.status = .Running then
        updateRun s run_id fun run => { run with
          status := status, turn_usage := usage, failure_category := failure.map (·.1), failure_summary := failure.map (·.2) }
      else s
    if terminal_status = .Running then
      .error (.Store "cannot finish LLM calls for non-terminal Run status: running")
    else
      match s.conversations run.conversation_id with
      | some row =>
        if row.active_run_id = some run_id then
          .ok (true,setConversation s run.conversation_id { row with active_run_id := none })
        else .ok (false,s)
      | none => .ok (false,s)

def setToolRound (s : Tables Digest) (round_id : ToolRoundId) (round : ToolRoundRow) : Tables Digest :=
  { s with tool_rounds := Function.update s.tool_rounds round_id (some round) }

def pendingCall (call : ToolCall) : ToolRoundCallRow :=
  { call_index := call.index, call_id := call.call_id, model_call_id := call.model_call_id, name := call.name,
    arguments := call.arguments, argument_error := call.argument_error }

/-- The `EXISTS` query of `create_tool_round`. -/
def ownsHead (s : Tables Digest) (run_id : RunId) (checkpoint : Nat) : Bool :=
  match s.runs run_id with
  | none => false
  | some run =>
    match s.conversations run.conversation_id with
    | none => false
    | some row =>
      run.head_checkpoint_id = checkpoint && run.status = .Running && row.active_run_id = some run_id &&
        row.current_checkpoint_id = some run.head_checkpoint_id

def create_tool_round (s : Tables Digest) (round_id : ToolRoundId) (run_id : RunId) (base_checkpoint_id : Nat)
    (assistant : ToolRoundAssistant) (calls : List ToolCall) (created_at_ms : Option Nat) :
    Except Error (Unit × Tables Digest) :=
  if calls.isEmpty then .error (.Store "cannot persist an empty tool round")
  else if !ownsHead s run_id base_checkpoint_id then
    .error (.Store s!"run {run_id} cannot start tool round at checkpoint {base_checkpoint_id}")
  else if created_at_ms.any (2 ^ 63 - 1 < ·) then
    .error (.Protocol "tool round timestamp exceeds SQLite INTEGER")
  else if (s.tool_rounds round_id).isSome then .error (.Database "UNIQUE constraint failed: tool_rounds.round_id")
  else if ¬ (calls.map (·.index)).Nodup then
    .error (.Database "UNIQUE constraint failed: tool_round_calls.round_id, tool_round_calls.call_index")
  else if ¬ (calls.map (·.call_id)).Nodup then
    .error (.Database "UNIQUE constraint failed: tool_round_calls.round_id, tool_round_calls.call_id")
  else
    let round : ToolRoundRow := {
      run_id, base_checkpoint_id, assistant, status := .Pending, version := 0, next_completion_seq := 0,
      created_at_ms, calls := calls.map pendingCall }
    .ok ((),setToolRound s round_id round)

structure ToolCommit where
  checkpoint_id : Nat
  tool_round_version : Nat
  completion_seq : Nat
  settled : Bool
deriving DecidableEq

/-- The two messages that commit a result. The first commit of a round carries
    the text, the thinking and the replay state of its assistant. -/
def commitMessages (round_id : ToolRoundId) (round : ToolRoundRow) (call : ToolRoundCallRow) (result : ToolResult) :
    List CanonicalMessage :=
  let first := round.next_completion_seq = 0
  [{ message_id := s!"{round_id}:{result.call_id}:assistant", role := .Assistant, origin := .Assistant,
     content := .Assistant (if first then round.assistant.text else "") (if first then round.assistant.thinking else "")
       (some round_id) (if first then round.assistant.replay_state else none)
       [⟨call.call_index,result.call_id,call.name,call.arguments⟩],
     runtime_event_id := none },
   { message_id := s!"{round_id}:{result.call_id}:result", role := .Tool, origin := .Tool,
     content := .ToolResult ⟨result.call_id,call.name,result.content,result.is_error,result.image⟩,
     runtime_event_id := none }]

/-- The `UPDATE` of the pending call with the given id. -/
def completeCall (seq : Nat) (result : ToolResult) (checkpoint : Nat) (call : ToolRoundCallRow) : ToolRoundCallRow :=
  if call.call_id = result.call_id ∧ call.status = .Pending then
    { call with
      status := .Completed, completion_seq := some seq, result_content := some result.content,
      result_is_error := some result.is_error, committed_checkpoint_id := some checkpoint }
  else call

def isPending (call : ToolRoundCallRow) : Bool := call.status = .Pending

/-- The round after a commit; it is settled when no call is pending. -/
def completeRound (round : ToolRoundRow) (result : ToolResult) (checkpoint : Nat) : ToolRoundRow :=
  let calls := round.calls.map (completeCall round.next_completion_seq result checkpoint)
  { round with
    calls := calls, status := if calls.countP isPending = 0 then .Settled else .Pending,
    version := round.version + 1, next_completion_seq := round.next_completion_seq + 1 }

def commit_tool_result (s : Tables Digest) (conversation_id : ConversationId) (run_id : RunId) (round_id : ToolRoundId)
    (result : ToolResult) : Except Error (ToolCommit × Tables Digest) :=
  match s.tool_rounds round_id with
  | none => .error (.Store s!"unknown tool round: {round_id}")
  | some round =>
    if round.run_id ≠ run_id then .error (.Store s!"unknown tool round: {round_id}")
    else if round.status ≠ .Pending then .error (.Store s!"tool round is already settled: {round_id}")
    else
      match round.calls.find? (·.call_id = result.call_id) with
      | none => .error (.Protocol s!"unknown tool result call_id: {result.call_id}")
      | some call =>
        if call.status ≠ .Pending then .error (.Protocol s!"duplicate tool result call_id: {result.call_id}")
        else
          match s.runs run_id with
          | none => .error (.Database "no rows returned by a query that expected to return at least one row")
          | some run => do
            let (checkpoint,s) ← append_checkpoint_tx s conversation_id run_id run.head_checkpoint_id
              (commitMessages round_id round call result)
            let after := completeRound round result checkpoint
            .ok (⟨checkpoint,after.version,round.next_completion_seq,after.status = .Settled⟩,
              setToolRound s round_id after)

inductive Op where
  | ensure_conversation (conversation_id : ConversationId)
  | import_checkpoint (conversation_id : ConversationId) (messages : List CanonicalMessage)
  | claim_run (prepared : RunClaim)
  | append_checkpoint (conversation_id : ConversationId) (run_id : RunId) (expected : Nat)
      (additions : List CanonicalMessage)
  | append_message_once (conversation_id : ConversationId) (run_id : RunId) (expected : Nat)
      (message : CanonicalMessage)
  | replace_checkpoint (conversation_id : ConversationId) (run_id : RunId) (expected : Nat)
      (messages : List CanonicalMessage)
  | create_tool_round (round_id : ToolRoundId) (run_id : RunId) (base_checkpoint_id : Nat)
      (assistant : ToolRoundAssistant) (calls : List ToolCall) (created_at_ms : Option Nat)
  | commit_tool_result (conversation_id : ConversationId) (run_id : RunId) (round_id : ToolRoundId) (result : ToolResult)
  | begin_provider_call (run_id : RunId)
  | finish_run (run_id : RunId) (status : RunStatus) (usage : Option Usage) (failure : Option (String × String))
deriving DecidableEq

inductive Reply where
  | Checkpoint (checkpoint_id : Nat)
  | Claimed (run : ClaimedRun)
  | Appended (checkpoint_id : Nat) (inserted : Bool)
  | Created
  | Committed (commit : ToolCommit)
  | ProviderCall (index : Int)
  | Finished (released : Bool)
deriving DecidableEq

def replyWith {α : Type} (reply : α → Reply) (result : Except Error (α × Tables Digest)) : Except Error (Reply × Tables Digest) :=
  result.map fun (value,s) => (reply value,s)

def transact (s : Tables Digest) : Op → Except Error (Reply × Tables Digest)
  | .ensure_conversation conversation_id => replyWith .Checkpoint (ensure_conversation s conversation_id)
  | .import_checkpoint conversation_id messages => replyWith .Checkpoint (import_checkpoint s conversation_id messages)
  | .claim_run prepared => replyWith .Claimed (claim_run s prepared)
  | .append_checkpoint conversation_id run_id expected additions =>
    replyWith .Checkpoint (append_checkpoint s conversation_id run_id expected additions)
  | .append_message_once conversation_id run_id expected m =>
    replyWith (fun (id,inserted) => .Appended id inserted) (append_message_once s conversation_id run_id expected m)
  | .replace_checkpoint conversation_id run_id expected messages =>
    replyWith .Checkpoint (replace_checkpoint s conversation_id run_id expected messages)
  | .create_tool_round round_id run_id base assistant calls created_at_ms =>
    replyWith (fun _ => .Created) (create_tool_round s round_id run_id base assistant calls created_at_ms)
  | .commit_tool_result conversation_id run_id round_id result =>
    replyWith .Committed (commit_tool_result s conversation_id run_id round_id result)
  | .begin_provider_call run_id => replyWith .ProviderCall (begin_provider_call s run_id)
  | .finish_run run_id status usage failure => replyWith .Finished (finish_run s run_id status usage failure)

/-- The tables after a transaction: a failed one is rolled back. -/
def step (s : Tables Digest) (op : Op) : Tables Digest :=
  match transact s op with
  | .ok (_,after) => after
  | .error _ => s
/-- The tables after any interleaving of transactions on a new database. -/
def replay (ops : List Op) : Tables Digest := ops.foldl step Tables.empty

end MyCursor.Store

import MyCursor.Compaction
import MyCursor.Store

/-!
# Runs and the parties around them

`model/run.rs`, `run/event.rs`, `run/command.rs`, `run/handle.rs` and
`run/port.rs`: a prepared run, the events it emits, the commands it takes and
the handle that submits them. `World` is what the engine shares with the other
parties, together with a log of what happened in the order in which it did.
-/
namespace MyCursor.Run
open Message Store Projection Compaction

structure RecoveredToolRound where
  assistant : ToolRoundAssistant
  calls : List ToolCall
  started_at_ms : Nat
deriving DecidableEq

inductive RunAction where
  | Start
  | Compact
  | Resume (pending_tool_round : Option RecoveredToolRound)
deriving DecidableEq

structure PreparedRun where
  run_id : RunId
  cursor_request_id : Option String
  conversation_id : ConversationId
  kind : RunKind
  model : ModelSpec
  prompt : PromptSpec
  initial_messages : List CanonicalMessage
  action : RunAction
  base_checkpoint_id : Nat
deriving DecidableEq

/-- What `claim_run` reads of a prepared run. -/
def PreparedRun.claim (prepared : PreparedRun) : RunClaim :=
  ⟨prepared.run_id,prepared.cursor_request_id,prepared.conversation_id,prepared.kind,prepared.base_checkpoint_id⟩

structure ModelInvocation where
  call_id : String
  run_id : RunId
  conversation_id : ConversationId
  provider_call_index : Int
  request : ModelRequest
deriving DecidableEq

inductive RunFailure where
  | Protocol (message : String)
  | Provider (message : String)
  | Store (message : String)
  | Client (message : String)
deriving DecidableEq

def RunFailure.category : RunFailure → String
  | .Protocol _ => "protocol"
  | .Provider _ => "provider"
  | .Store _ => "store"
  | .Client _ => "client"

/-- `impl From<Error> for RunFailure`. -/
def RunFailure.from : Error → RunFailure
  | .Protocol message | .Config message => .Protocol message
  | .Provider message => .Provider message
  | .Store message => .Store message
  | .Cancelled => .Client "run was cancelled"
  | .Http message => .Provider message
  | .Database message | .Migration message | .Io message => .Store message
  | .MigrationTimeout stage timeout_seconds =>
    .Store s!"database migration stage '{stage}' timed out after {timeout_seconds} seconds"
  | .Decode message | .Encode message | .Json message => .Protocol message
  | .RunNotFound run_id => .Store s!"run not found: {run_id}"

def failure_message : RunFailure → String
  | .Protocol message | .Provider message | .Store message | .Client message => message

inductive RunOutcome where
  | Completed
  | Cancelled
  | Failed (failure : RunFailure)
deriving DecidableEq

inductive CommitCause where
  | InitialMessages
  | ToolRoundStarted (round_id : ToolRoundId)
  | ToolResult (call_id : String) (interrupted : Bool)
  | FinalTurn
  | Compaction (summary : String)
  | RuntimeEvent (event_id : String)
deriving DecidableEq

inductive CommitBarrier where
  | None
  | BeforeContinue
deriving DecidableEq

def CommitBarrier.is_required : CommitBarrier → Bool
  | .None => false
  | .BeforeContinue => true

structure MessagesCommitted where
  checkpoint_id : Nat
  tool_round_version : Nat
  cause : CommitCause
  barrier : CommitBarrier
deriving DecidableEq

inductive RunEvent where
  | AutoCompactionStarted
  | AutoCompactionCompleted
  | CycleInterrupted
  | ModelAttemptFailed (attempt : Nat) (message : String)
  | TextStart
  | TextDelta (delta : String)
  | TextEnd
  | ThinkingStart
  | ThinkingDelta (delta : String)
  | ThinkingEnd (duration : Nat)
  | ToolCallStart (index : Nat) (call_id name model_call_id : String)
  | ToolCallArgumentsDelta (index : Nat) (delta : String)
  | ToolCallEnd (index : Nat)
  | UsageSnapshot (usage : Usage)
  | Usage (usage : Usage)
  | ExecuteToolRound (round_id : ToolRoundId) (calls : List ToolCall)
  | MessagesCommitted (state : MessagesCommitted)
  | Ended (outcome : RunOutcome)
deriving DecidableEq

/-- The events that `consume_model_cycle` forwards while a provider streams. -/
def RunEvent.streamed : RunEvent → Bool
  | .TextStart | .TextDelta _ | .TextEnd | .ThinkingStart | .ThinkingDelta _ | .ThinkingEnd _
  | .ToolCallStart _ _ _ _ | .ToolCallArgumentsDelta _ _ | .ToolCallEnd _ | .Usage _ => true
  | _ => false

inductive CommandResult where
  | Applied
  | Duplicate
  | RunClosing
  | RunEnded
  | StaleTarget
deriving DecidableEq

/-- The ticket stands for the channel that the submitter waits on. -/
structure MessageBatch where
  ticket : Nat
  event_id : String
  messages : List CanonicalMessage
deriving DecidableEq

inductive RunCommand where
  | ToolResult (result : ToolResult)
  | InsertMessages (batch : MessageBatch)
  | BreakMessages (batch : MessageBatch)
  | Cancel
deriving DecidableEq

inductive FinishReason where
  | Stop
  | Length
  | ToolUse
deriving DecidableEq

structure ModelCycleResult where
  model_call_id : String
  text : String
  reasoning : String
  replay_state : Option ProviderReplayState
  calls : List ToolCall
  usage : Option Usage
  finish_reason : FinishReason
deriving DecidableEq

structure ModelCycleFailure where
  failure : RunFailure
  partial_text : String
  partial_reasoning : String
  usage : Option Usage
  retryable : Bool
deriving DecidableEq

abbrev CycleEnd : Type := Except ModelCycleFailure ModelCycleResult

inductive RunPhase where
  | Running
  | Finalizing
  | Ended
deriving DecidableEq

/-- What happened: a batch was queued or refused, its submitter was answered,
    the engine emitted an event, called the provider, saw the end of a cycle or
    made a transaction; the anchor that it started with, and the history and the
    anchor of each estimate. A call for the conversation itself comes with the
    number of its messages that are persisted. -/
inductive Entry where
  | Accepted (batch : MessageBatch)
  | Refused (result : CommandResult)
  | Answered (ticket : Nat) (result : CommandResult)
  | Emitted (event : RunEvent)
  | Called (invocation : ModelInvocation) (anchored_messages : Option Nat)
  | Cycled (result : CycleEnd)
  | Stored (op : Op) (reply : Reply)
  | Anchored (anchor : Option ContextUsageAnchor)
  | Estimated (history : List ProjectedMessage) (anchor : Option ContextUsageAnchor)

/-- What another party does: it submits messages or a tool result, cancels the
    run or only its token, drops the receiver of the events or the last handle,
    or makes a transaction of its own. -/
inductive Action where
  | submit_messages (event_id : String) (messages : List CanonicalMessage) (should_break : Bool)
  | tool_result (result : ToolResult)
  | cancel
  | cancelToken
  | dropSession
  | dropHandles
  | transaction (op : Op)
deriving DecidableEq

inductive Choice where
  | Proceed
  | Fault (error : Error)
  | Missing
  | Anchor (anchor : Option ContextUsageAnchor)
  | Command
  | Streamed (event : RunEvent)
  | Cycle (result : CycleEnd)
  | Ready (result : Except String Unit)
  | Dropped
  | Cancelled
  | Elapsed

/-- The actions of the others before a step of the engine, and how its wait ends. -/
structure Move where
  actions : List Action := []
  choice : Choice := .Proceed

/-- The command queue and its senders, the phase, the cancellation token, the
    receiver of the events and the store; the usage and the anchor that the
    engine keeps; what happened; the commands that were taken, each with what
    had happened before; and the moves still to come. -/
structure World (Digest : Type) where
  store : Tables Digest
  commands : List RunCommand := []
  handles : Bool := true
  phase : RunPhase := .Running
  cancelled : Bool := false
  session : Bool := true
  tickets : Nat := 0
  usage : Option Usage := none
  context_usage_anchor : Option ContextUsageAnchor := none
  log : List Entry := []
  received : List (List Entry × Option RunCommand) := []
  script : List Move

variable {Digest : Type} [DecidableEq Digest] [MessageHash Digest]

def World.note (w : World Digest) (entry : Entry) : World Digest := { w with log := w.log ++ [entry] }
def World.send (w : World Digest) (command : RunCommand) : World Digest := { w with commands := w.commands ++ [command] }

/-- The phase is read and the command sent under one lock. -/
def submit_messages (w : World Digest) (event_id : String) (messages : List CanonicalMessage) (should_break : Bool) : World Digest :=
  let batch : MessageBatch := ⟨w.tickets,event_id,messages⟩
  let command : RunCommand := if should_break then .BreakMessages batch else .InsertMessages batch
  match w.phase with
  | .Running => { (w.send command).note (.Accepted batch) with tickets := w.tickets + 1 }
  | .Ended => w.note (.Refused .RunEnded)
  | .Finalizing => w.note (.Refused .RunClosing)
def tool_result (w : World Digest) (result : ToolResult) : World Digest :=
  if w.phase = .Running then w.send (.ToolResult result) else w
def cancel (w : World Digest) : World Digest := { w.send .Cancel with cancelled := true }

def engineOf : Op → Option RunId
  | .claim_run prepared => some prepared.run_id
  | .append_checkpoint _ run_id _ _ | .append_message_once _ run_id _ _ | .replace_checkpoint _ run_id _ _
  | .create_tool_round _ run_id _ _ _ _ | .commit_tool_result _ run_id _ _ | .begin_provider_call run_id => some run_id
  | .ensure_conversation _ | .import_checkpoint _ _ | .finish_run _ _ _ _ => none

def act (run_id : RunId) (w : World Digest) : Action → World Digest
  | .submit_messages event_id messages should_break =>
    if w.handles then submit_messages w event_id messages should_break else w
  | .tool_result result => if w.handles then tool_result w result else w
  | .cancel => if w.handles then cancel w else w
  | .cancelToken => { w with cancelled := true }
  | .dropSession => { w with session := false }
  | .dropHandles => { w with handles := false }
  | .transaction op => if engineOf op = some run_id then w else { w with store := step w.store op }

end MyCursor.Run

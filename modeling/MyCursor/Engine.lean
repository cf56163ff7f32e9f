import MyCursor.Hoare
import MyCursor.Run

/-!
# The run engine

`run/engine.rs`, `run/tool_round.rs` and `run/messages.rs`. Before every step
that waits or touches what is shared, the other parties may act; how a wait
ends is read from the script of the world, so a statement about every script
is about every interleaving. A run whose script ends is `Stuck`: its log is
that of a run that still goes on. An early return of the source throws the
outcome; the usage and the anchor, which the source returns or keeps with it,
are fields of the world.
-/
namespace MyCursor.Engine
open Message Store Projection Compaction Run Text

inductive Halt where
  | Stuck
  | Ended (outcome : RunOutcome)
deriving DecidableEq

abbrev EngineM (Digest α : Type) : Type := Hoare.Program (World Digest) Halt α

/-- Blobs are stored under the digest of their content, so an id has one
    content, which is found or missing. -/
class Blobs where
  from_base64 : String → Except Error (List UInt8)
  content : List UInt8 → List UInt8

variable {Digest : Type} [DecidableEq Digest] [MessageHash Digest] [SerdeText] [Blobs] (prepared : PreparedRun)

def stuck {α : Type} : EngineM Digest α := throw .Stuck
def exit {α : Type} (outcome : RunOutcome) : EngineM Digest α := throw (.Ended outcome)
def failed {α : Type} (error : Error) : EngineM Digest α := exit (.Failed (.from error))
def client_failure : RunOutcome := .Failed (.Client "client event channel closed")

def next : EngineM Digest Choice := do
  let w ← get
  match w.script with
  | [] => stuck
  | move :: rest => do
    set (move.actions.foldl (act prepared.run_id) { w with script := rest })
    pure move.choice
def loopFuel : EngineM Digest Nat := do
  let w ← get
  pure (w.script.length + 1)
def note (entry : Entry) : EngineM Digest Unit := do
  let w ← get
  set (w.note entry)

def emit (event : RunEvent) : EngineM Digest Bool := do
  let _ ← next prepared
  let w ← get
  if w.session then do
    note (.Emitted event)
    pure true
  else pure false
def send (event : RunEvent) : EngineM Digest Unit := do
  if ← emit prepared event then pure () else exit client_failure

def is_cancelled : EngineM Digest Bool := do
  let _ ← next prepared
  let w ← get
  pure w.cancelled
/-- The branch of a `select!` on the cancellation token. -/
def whenCancelled {α : Type} (branch : EngineM Digest α) : EngineM Digest α := do
  let w ← get
  if w.cancelled then branch else stuck
def wait_for_state_ready : EngineM Digest Unit := do
  match ← next prepared with
  | .Ready (.ok _) => pure ()
  | .Ready (.error error) => exit (.Failed (.Client error))
  | .Dropped => exit client_failure
  | .Cancelled => whenCancelled (exit .Cancelled)
  | _ => stuck

/-- The branch of a `select!` on `commands.recv()`; it ends with nothing when
    the queue is empty and every handle is dropped. -/
def recv : EngineM Digest (Option RunCommand) := do
  let w ← get
  match w.commands with
  | command :: rest => do
    set { w with commands := rest, received := w.received ++ [(w.log,some command)] }
    pure (some command)
  | [] =>
    if w.handles then stuck
    else do
      set { w with received := w.received ++ [(w.log,none)] }
      pure none

def tryTransaction (op : Op) : EngineM Digest (Except Error Reply) := do
  match ← next prepared with
  | .Fault error => pure (.error error)
  | _ => do
    let w ← get
    match transact w.store op with
    | .error error => pure (.error error)
    | .ok (reply,store) => do
      set ({ w with store := store }.note (.Stored op reply))
      pure (.ok reply)
def transaction (op : Op) : EngineM Digest Reply := do
  match ← tryTransaction prepared op with
  | .error error => failed error
  | .ok reply => pure reply
def checkpointTransaction (op : Op) : EngineM Digest Nat := do
  match ← transaction prepared op with
  | .Checkpoint checkpoint_id => pure checkpoint_id
  | _ => stuck
def appendMessageOnce (checkpoint : Nat) (message : CanonicalMessage) : EngineM Digest (Nat × Bool) := do
  match ← transaction prepared (.append_message_once prepared.conversation_id prepared.run_id checkpoint message) with
  | .Appended checkpoint_id inserted => pure (checkpoint_id,inserted)
  | _ => stuck
def beginProviderCall : EngineM Digest Int := do
  match ← transaction prepared (.begin_provider_call prepared.run_id) with
  | .ProviderCall index => pure index
  | _ => stuck
def commitToolResult (round_id : ToolRoundId) (result : ToolResult) : EngineM Digest ToolCommit := do
  match ← transaction prepared (.commit_tool_result prepared.conversation_id prepared.run_id round_id result) with
  | .Committed commit => pure commit
  | _ => stuck

def loadMessages (checkpoint : Nat) : EngineM Digest (List CanonicalMessage) := do
  match ← next prepared with
  | .Fault error => failed error
  | _ => do
    let w ← get
    pure (load_checkpoint_messages w.store checkpoint)
/-- The newest reported usage of the conversation's provider calls. -/
def latest_context_usage : EngineM Digest (Option ContextUsageAnchor) := do
  match ← next prepared with
  | .Fault error => failed error
  | .Anchor anchor => pure anchor
  | _ => stuck

def begin_finalizing : EngineM Digest Unit := do
  let _ ← next prepared
  let w ← get
  set (if w.phase = .Running then { w with phase := .Finalizing } else w)
def resume_running : EngineM Digest Unit := do
  let _ ← next prepared
  let w ← get
  set (if w.phase = .Finalizing then { w with phase := .Running } else w)
def finish : EngineM Digest Unit := do
  let _ ← next prepared
  let w ← get
  set { w with phase := .Ended }

def append_one (checkpoint : Nat) (message : CanonicalMessage) : EngineM Digest (Nat × Bool) :=
  match message.runtime_event_id with
  | none => exit (.Failed (.Protocol "runtime message has no event identity"))
  | some event_id => do
    let (checkpoint,inserted) ← appendMessageOnce prepared checkpoint message
    if !inserted then pure (checkpoint,false)
    else do
      send prepared (.MessagesCommitted ⟨checkpoint,0,.RuntimeEvent event_id,.BeforeContinue⟩)
      wait_for_state_ready prepared
      pure (checkpoint,true)
def appendMessages (checkpoint : Nat) (batch_inserted : Bool) : List CanonicalMessage → EngineM Digest (Nat × Bool)
  | [] => pure (checkpoint,batch_inserted)
  | message :: rest => do
    let (checkpoint,inserted) ← append_one prepared checkpoint message
    appendMessages checkpoint (batch_inserted || inserted) rest
def appendBatches (checkpoint : Nat) (inserted_any : Bool) : List MessageBatch → EngineM Digest (Nat × Bool)
  | [] => pure (checkpoint,inserted_any)
  | batch :: rest => do
    let (checkpoint,batch_inserted) ← appendMessages prepared checkpoint false batch.messages
    note (.Answered batch.ticket (if batch_inserted then .Applied else .Duplicate))
    appendBatches checkpoint (inserted_any || batch_inserted) rest
def append_batches (checkpoint : Nat) (batches : List MessageBatch) : EngineM Digest (Nat × Bool) :=
  appendBatches prepared checkpoint false batches

def drainLoop : Nat → List MessageBatch → EngineM Digest (List MessageBatch)
  | 0, _ => stuck
  | fuel + 1, messages => do
    let _ ← next prepared
    let w ← get
    match w.commands with
    | .InsertMessages batch :: rest | .BreakMessages batch :: rest => do
      set { w with commands := rest }
      drainLoop fuel (messages ++ [batch])
    | .Cancel :: rest => do
      set { w with commands := rest }
      exit .Cancelled
    | .ToolResult _ :: rest => do
      set { w with commands := rest }
      drainLoop fuel messages
    | [] => if w.handles then pure messages else exit client_failure
def drain_accepted : EngineM Digest (List MessageBatch) := do
  let fuel ← loopFuel
  drainLoop prepared fuel []

structure ToolRound where
  id : ToolRoundId
  assistant : ToolRoundAssistant
  calls : List ToolCall
  recovered_started_at_ms : Option Nat

def waitSettled (committed : ToolCommit) : EngineM Digest Unit :=
  if committed.settled then wait_for_state_ready prepared else pure ()
def commitResult (round_id : ToolRoundId) (result : ToolResult) (interrupted : Bool) : EngineM Digest Nat := do
  let committed ← commitToolResult prepared round_id result
  let barrier : CommitBarrier := if committed.settled then .BeforeContinue else .None
  send prepared (.MessagesCommitted
    ⟨committed.checkpoint_id,committed.tool_round_version,.ToolResult result.call_id interrupted,barrier⟩)
  waitSettled prepared committed
  pure committed.checkpoint_id

def interruptedResult (call : ToolCall) : ToolResult :=
  ⟨call.call_id,"Tool execution was interrupted by a newer user message.",true,none⟩
def commitInterrupted (round_id : ToolRoundId) (checkpoint : Nat) : List ToolCall → EngineM Digest Nat
  | [] => pure checkpoint
  | call :: rest => do
    let checkpoint ← commitResult prepared round_id (interruptedResult call) true
    commitInterrupted round_id checkpoint rest

def executeLoop (round_id : ToolRoundId) (calls : List ToolCall) : Nat → Nat → Nat → List String → List MessageBatch → EngineM Digest Nat
  | 0, _, _, _, _ => stuck
  | fuel + 1, checkpoint, remaining, completed_call_ids, pending_insertions =>
    if remaining = 0 then do
      let (checkpoint,_) ← append_batches prepared checkpoint pending_insertions
      pure checkpoint
    else do
      match ← next prepared with
      | .Cancelled => whenCancelled (exit .Cancelled)
      | .Command => do
        match ← recv with
        | some (.ToolResult result) =>
          if completed_call_ids.contains result.call_id then
            executeLoop round_id calls fuel checkpoint remaining completed_call_ids pending_insertions
          else do
            let checkpoint ← commitResult prepared round_id result false
            executeLoop round_id calls fuel checkpoint (remaining - 1) (completed_call_ids ++ [result.call_id])
              pending_insertions
        | some (.BreakMessages messages) => do
          let checkpoint ← commitInterrupted prepared round_id checkpoint
            (calls.filter fun call => !completed_call_ids.contains call.call_id)
          let (checkpoint,_) ← append_batches prepared checkpoint pending_insertions
          let (checkpoint,_) ← append_batches prepared checkpoint [messages]
          pure checkpoint
        | some (.InsertMessages insertion) =>
          executeLoop round_id calls fuel checkpoint remaining completed_call_ids (pending_insertions ++ [insertion])
        | some .Cancel => exit .Cancelled
        | none => exit client_failure
      | _ => stuck

def execute (checkpoint : Nat) (round : ToolRound) (insertions : List MessageBatch) : EngineM Digest Nat := do
  let _ ← transaction prepared (.create_tool_round round.id prepared.run_id checkpoint round.assistant round.calls
    round.recovered_started_at_ms)
  send prepared (.MessagesCommitted ⟨checkpoint,0,.ToolRoundStarted round.id,.None⟩)
  send prepared (.ExecuteToolRound round.id round.calls)
  let fuel ← loopFuel
  executeLoop prepared round.id round.calls fuel checkpoint round.calls.length [] insertions

/-- `Usage::add_assign` on one count. -/
def sum (left right : Option Nat) : Option Nat :=
  match left, right with
  | none, none => none
  | _, _ => some (saturating_add (left.getD 0) (right.getD 0))
def add_assign (total usage : Usage) : Usage :=
  { input_tokens := sum total.input_tokens usage.input_tokens
    context_input_tokens := sum total.context_input_tokens usage.context_input_tokens
    output_tokens := sum total.output_tokens usage.output_tokens
    total_tokens := sum total.total_tokens usage.total_tokens
    cache_read_tokens := sum total.cache_read_tokens usage.cache_read_tokens
    cache_write_tokens := sum total.cache_write_tokens usage.cache_write_tokens
    reasoning_tokens := sum total.reasoning_tokens usage.reasoning_tokens }
def accumulate_usage (total : Option Usage) (usage : Usage) : Option Usage :=
  match total with
  | some total => some (add_assign total usage)
  | none => some usage
def context_usage_snapshot (tokens : Nat) : Usage :=
  { input_tokens := some tokens, context_input_tokens := some tokens, output_tokens := some 0,
    total_tokens := some tokens, cache_read_tokens := some 0, cache_write_tokens := some 0, reasoning_tokens := some 0 }
def update_context_usage_anchor (anchor : Option ContextUsageAnchor) (usage : Usage) (message_count : Nat) : Option ContextUsageAnchor :=
  match usage.context_input_tokens with
  | some context_input_tokens => some ⟨context_input_tokens,message_count⟩
  | none => anchor

/-- The usage of a cycle for the conversation moves the anchor as well. -/
def recordUsage (usage : Option Usage) (anchored_messages : Nat) : EngineM Digest Unit :=
  match usage with
  | none => pure ()
  | some cycle_usage => do
    let w ← get
    set { w with
      context_usage_anchor := update_context_usage_anchor w.context_usage_anchor cycle_usage anchored_messages
      usage := accumulate_usage w.usage cycle_usage }
def recordCompaction (usage : Option Usage) : EngineM Digest Unit := do
  let w ← get
  match usage with
  | none => set { w with context_usage_anchor := none }
  | some compaction_usage =>
    set { w with context_usage_anchor := none, usage := accumulate_usage w.usage compaction_usage }

def cycleUsage : CycleEnd → Option Usage
  | .ok cycle => cycle.usage
  | .error failure => failure.usage

def stream (event : RunEvent) : EngineM Digest Unit := do
  let w ← get
  if !event.streamed then stuck
  else if w.session then note (.Emitted event)
  else pure ()
def cycleEnds (result : CycleEnd) : EngineM Digest CycleEnd := do
  note (.Cycled result)
  pure result
/-- `cycle.await` after its token was cancelled. -/
def awaitCycleLoop : Nat → EngineM Digest CycleEnd
  | 0 => stuck
  | fuel + 1 => do
    match ← next prepared with
    | .Streamed event => do
      stream event
      awaitCycleLoop fuel
    | .Cycle result => cycleEnds result
    | _ => stuck
def awaitCycle : EngineM Digest CycleEnd := do
  let fuel ← loopFuel
  awaitCycleLoop prepared fuel
def abandonCycle {α : Type} (outcome : RunOutcome) : EngineM Digest α := do
  let _ ← awaitCycle prepared
  let _ ← emit prepared .CycleInterrupted
  exit outcome

inductive Interruption where
  | Ended (result : CycleEnd)
  | Broken (messages : MessageBatch)

def consumeCycleLoop : Nat → List MessageBatch → EngineM Digest (Interruption × List MessageBatch)
  | 0, _ => stuck
  | fuel + 1, pending_insertions => do
    match ← next prepared with
    | .Streamed event => do
      stream event
      consumeCycleLoop fuel pending_insertions
    | .Cycle result => do
      let result ← cycleEnds result
      pure (.Ended result,pending_insertions)
    | .Command => do
      match ← recv with
      | some (.InsertMessages insertion) => consumeCycleLoop fuel (pending_insertions ++ [insertion])
      | some (.BreakMessages messages) => pure (.Broken messages,pending_insertions)
      | some .Cancel => abandonCycle prepared .Cancelled
      | some (.ToolResult _) =>
        abandonCycle prepared (.Failed (.Protocol "received a tool result while the model was running"))
      | none => abandonCycle prepared client_failure
    | _ => stuck
def consumeCycle (pending_insertions : List MessageBatch) : EngineM Digest (Interruption × List MessageBatch) := do
  let fuel ← loopFuel
  consumeCycleLoop prepared fuel pending_insertions

def retryDelayLoop : Nat → List MessageBatch → EngineM Digest (Option MessageBatch × List MessageBatch)
  | 0, _ => stuck
  | fuel + 1, pending_insertions => do
    match ← next prepared with
    | .Elapsed => pure (none,pending_insertions)
    | .Cancelled => whenCancelled do
      let _ ← emit prepared .CycleInterrupted
      exit .Cancelled
    | .Command => do
      match ← recv with
      | some (.InsertMessages insertion) => retryDelayLoop fuel (pending_insertions ++ [insertion])
      | some (.BreakMessages messages) => pure (some messages,pending_insertions)
      | some .Cancel => do
        let _ ← emit prepared .CycleInterrupted
        exit .Cancelled
      | some (.ToolResult _) =>
        exit (.Failed (.Protocol "received a tool result while waiting to retry the model"))
      | none => exit client_failure
    | _ => stuck
def retryDelay (pending_insertions : List MessageBatch) : EngineM Digest (Option MessageBatch × List MessageBatch) := do
  let fuel ← loopFuel
  retryDelayLoop prepared fuel pending_insertions

def MAX_MODEL_RETRIES : Nat := 8
def should_retry (failure : ModelCycleFailure) (retries : Nat) : Bool := failure.retryable && retries < MAX_MODEL_RETRIES

def summaryMessage (event_id summary : String) : CanonicalMessage :=
  { message_id := s!"runtime:{event_id}", role := .User, origin := .Runtime,
    content := .Parts [.Text s!"<conversation_summary>\n{summary}\n</conversation_summary>"],
    runtime_event_id := some event_id }

def compactionCycleLoop : Nat → List MessageBatch → EngineM Digest (CycleEnd × Option MessageBatch × List MessageBatch)
  | 0, _ => stuck
  | fuel + 1, pending_insertions => do
    match ← next prepared with
    | .Cycle result => do
      let result ← cycleEnds result
      pure (result,none,pending_insertions)
    | .Command => do
      match ← recv with
      | some (.InsertMessages insertion) => compactionCycleLoop fuel (pending_insertions ++ [insertion])
      | some (.BreakMessages messages) => do
        let result ← awaitSilent
        pure (result,some messages,pending_insertions)
      | some .Cancel => do
        let _ ← awaitSilent
        exit .Cancelled
      | some (.ToolResult _) => do
        let _ ← awaitSilent
        exit (.Failed (.Protocol "received a tool result while automatic compaction was running"))
      | none => do
        let _ ← awaitSilent
        exit client_failure
    | _ => stuck
where
  awaitSilent : EngineM Digest CycleEnd := do
    match ← next prepared with
    | .Cycle result => cycleEnds result
    | _ => stuck

def compactionSummary (compactable : List CanonicalMessage) (broken : Bool) (result : CycleEnd) : String :=
  match broken, result with
  | false, .ok cycle =>
    if cycle.calls.isEmpty && !(trim cycle.text).isEmpty then trim cycle.text else fallback_summary compactable
  | _, _ => fallback_summary compactable

def compactionModel (model : ModelSpec) : ModelSpec :=
  { model with max_output_tokens := some OUTPUT_TOKENS, reasoning := ⟨false,none⟩ }

def orFail {α : Type} (result : Except Error α) : EngineM Digest α :=
  match result with
  | .ok a => pure a
  | .error error => failed error

def auto_compact (checkpoint : Nat) (messages : List CanonicalMessage) : EngineM Digest (Nat × Option Usage) := do
  let current_ids := prepared.initial_messages.map (·.message_id)
  let (compactable,retained_request_context) := partition messages current_ids
  if compactable.isEmpty then do
    let projected ← orFail (project_messages messages)
    match validate_compacted prepared.prompt prepared.model projected with
    | .error message => exit (.Failed (.Protocol message))
    | .ok _ =>
      exit (.Failed (.Protocol "context overflow after compaction: no conversation history can be compacted"))
  else do
    send prepared .AutoCompactionStarted
    let provider_call_index ← beginProviderCall prepared
    let projected ← orFail (project_messages compactable)
    let history := compaction_history projected prepared.model.context_window_tokens
    note (.Called
      { call_id := s!"{prepared.run_id}:{provider_call_index}", run_id := prepared.run_id,
        conversation_id := prepared.conversation_id, provider_call_index,
        request := ⟨⟨INSTRUCTIONS,[]⟩,compactionModel prepared.model,history⟩ } none)
    let fuel ← loopFuel
    let (result,break_messages,pending_insertions) ← compactionCycleLoop prepared fuel []
    let summary := compactionSummary compactable break_messages.isSome result
    let event_id := s!"summary:auto:{prepared.run_id}:{provider_call_index}"
    let replacement := retained_request_context.toList ++ [summaryMessage event_id summary] ++ prepared.initial_messages
    let projected_replacement ← orFail (project_messages replacement)
    match validate_compacted prepared.prompt prepared.model projected_replacement with
    | .error message => exit (.Failed (.Protocol message))
    | .ok _ => do
      let checkpoint ← checkpointTransaction prepared
        (.replace_checkpoint prepared.conversation_id prepared.run_id checkpoint replacement)
      send prepared (.MessagesCommitted ⟨checkpoint,0,.Compaction summary,.BeforeContinue⟩)
      wait_for_state_ready prepared
      send prepared .AutoCompactionCompleted
      send prepared (.UsageSnapshot (context_usage_snapshot 0))
      let (checkpoint,_) ← append_batches prepared checkpoint pending_insertions
      match break_messages with
      | none => pure (checkpoint,cycleUsage result)
      | some messages => do
        let (checkpoint,_) ← append_batches prepared checkpoint [messages]
        pure (checkpoint,cycleUsage result)

/-- The cycle to go on with, or the checkpoint to start the next cycle from. -/
inductive Attempt where
  | Cycle (cycle : ModelCycleResult) (pending_insertions : List MessageBatch)
  | Continue (checkpoint : Nat) (overflow_compacted : Bool)

def interrupt (checkpoint : Nat) (pending_insertions : List MessageBatch) (interruption : MessageBatch) : EngineM Digest Nat := do
  send prepared .CycleInterrupted
  let (checkpoint,_) ← append_batches prepared checkpoint pending_insertions
  let (checkpoint,_) ← append_batches prepared checkpoint [interruption]
  pure checkpoint

def overflowed (failure : RunFailure) : Bool :=
  match failure with
  | .Provider message => is_context_overflow message
  | _ => false

def callId (provider_call_index : Int) (retries : Nat) : String :=
  if retries = 0 then s!"{prepared.run_id}:{provider_call_index}"
  else s!"{prepared.run_id}:{provider_call_index}:retry-{retries}"

def attemptLoop (provider_call_index : Int) (request : ModelRequest) (anchored_messages checkpoint : Nat)
    (overflow_compacted : Bool) : Nat → Nat → List MessageBatch → EngineM Digest Attempt
  | 0, _, _ => stuck
  | fuel + 1, retries, pending_insertions => do
    note (.Called
      { call_id := callId prepared provider_call_index retries, run_id := prepared.run_id,
        conversation_id := prepared.conversation_id, provider_call_index, request } (some anchored_messages))
    match ← consumeCycle prepared pending_insertions with
    | (.Broken messages,pending_insertions) => do
      let interrupted ← awaitCycle prepared
      recordUsage (cycleUsage interrupted) anchored_messages
      let checkpoint ← interrupt prepared checkpoint pending_insertions messages
      pure (.Continue checkpoint overflow_compacted)
    | (.Ended (.ok cycle),pending_insertions) => pure (.Cycle cycle pending_insertions)
    | (.Ended (.error cycle_failure),pending_insertions) => do
      recordUsage cycle_failure.usage anchored_messages
      if ← is_cancelled prepared then do
        let _ ← emit prepared .CycleInterrupted
        exit .Cancelled
      else if !overflow_compacted && prepared.action ≠ .Compact && overflowed cycle_failure.failure then do
        let (checkpoint,_) ← append_batches prepared checkpoint pending_insertions
        let messages ← loadMessages prepared checkpoint
        let (checkpoint,compaction_usage) ← auto_compact prepared checkpoint messages
        recordCompaction compaction_usage
        pure (.Continue checkpoint true)
      else if !should_retry cycle_failure retries then exit (.Failed cycle_failure.failure)
      else do
        send prepared (.ModelAttemptFailed (retries + 1) (failure_message cycle_failure.failure))
        match ← retryDelay prepared pending_insertions with
        | (none,pending_insertions) =>
          attemptLoop provider_call_index request anchored_messages checkpoint overflow_compacted fuel (retries + 1)
            pending_insertions
        | (some messages,pending_insertions) => do
          let checkpoint ← interrupt prepared checkpoint pending_insertions messages
          pure (.Continue checkpoint overflow_compacted)

def CONTINUE_MESSAGE_ID : String := "runtime:continue"
def CONTINUE_INSTRUCTION : String := "Continue from where you left off."

def providerParts (result : ProjectedToolResult) (image : ToolImageReference) (data : List UInt8) : ProjectedContent :=
  .ToolResult { result with provider_parts := [.Text result.content,.Image image.mime_type data] }

def hydrateToolImage (message : ProjectedMessage) : EngineM Digest ProjectedMessage :=
  match message.content with
  | .ToolResult result =>
    match result.image with
    | none => pure message
    | some image => do
      let id ← orFail (Blobs.from_base64 image.blob_id)
      match ← next prepared with
      | .Fault error => failed error
      | .Missing => failed (.Protocol s!"Read image Blob is missing: {image.blob_id}")
      | _ => pure { message with content := providerParts result image (Blobs.content id) }
  | _ => pure message
def hydrate_tool_images : List ProjectedMessage → EngineM Digest (List ProjectedMessage)
  | [] => pure []
  | message :: rest => do
    let message ← hydrateToolImage prepared message
    let rest ← hydrate_tool_images rest
    pure (message :: rest)

def withTail (history : List ProjectedMessage) : List ProjectedMessage :=
  if prepared.action = .Compact then user_terminated history "compaction:instruction" INSTRUCTIONS
  else user_terminated history CONTINUE_MESSAGE_ID CONTINUE_INSTRUCTION

def finishCompaction (checkpoint : Nat) (cycle : ModelCycleResult) (pending_insertions : List MessageBatch) : EngineM Digest RunOutcome :=
  if !cycle.calls.isEmpty then exit (.Failed (.Protocol "compaction model returned tool calls"))
  else
    let summary := trim cycle.text
    if summary.isEmpty then exit (.Failed (.Protocol "compaction model returned an empty summary"))
    else do
      let checkpoint ← checkpointTransaction prepared (.replace_checkpoint prepared.conversation_id prepared.run_id
        checkpoint [summaryMessage s!"summary:{prepared.run_id}" summary])
      let (checkpoint,_) ← append_batches prepared checkpoint pending_insertions
      begin_finalizing prepared
      let closing_insertions ← drain_accepted prepared
      let (checkpoint,_) ← append_batches prepared checkpoint closing_insertions
      send prepared (.MessagesCommitted ⟨checkpoint,0,.Compaction summary,.BeforeContinue⟩)
      wait_for_state_ready prepared
      pure .Completed

def assistantMessage (provider_call_index : Int) (cycle : ModelCycleResult) : CanonicalMessage :=
  { message_id := s!"{prepared.run_id}:assistant:{provider_call_index}", role := .Assistant, origin := .Assistant,
    content := .Assistant cycle.text cycle.reasoning none cycle.replay_state [],
    runtime_event_id := none }

/-- A turn without tool calls: the checkpoint to go on from when messages came
    in, and nothing when the run is completed. -/
def finishTurn (checkpoint : Nat) (provider_call_index : Int) (cycle : ModelCycleResult)
    (pending_insertions : List MessageBatch) : EngineM Digest (Option Nat) := do
  let checkpoint ← checkpointTransaction prepared (.append_checkpoint prepared.conversation_id prepared.run_id checkpoint
    [assistantMessage prepared provider_call_index cycle])
  let (checkpoint,inserted) ← append_batches prepared checkpoint pending_insertions
  if inserted then pure (some checkpoint)
  else do
    begin_finalizing prepared
    let closing_insertions ← drain_accepted prepared
    if !closing_insertions.isEmpty then do
      let (checkpoint,_) ← append_batches prepared checkpoint closing_insertions
      resume_running prepared
      pure (some checkpoint)
    else do
      send prepared (.MessagesCommitted ⟨checkpoint,0,.FinalTurn,.BeforeContinue⟩)
      wait_for_state_ready prepared
      pure none

def toolRound (provider_call_index : Int) (cycle : ModelCycleResult) : ToolRound :=
  { id := s!"{prepared.run_id}:round:{provider_call_index}",
    assistant := ⟨cycle.text,cycle.reasoning,cycle.model_call_id,cycle.replay_state⟩,
    calls := cycle.calls, recovered_started_at_ms := none }

def compactionEstimate (history : List ProjectedMessage) : EngineM Digest (Option Nat) := do
  let w ← get
  if prepared.action = .Compact then pure none
  else do
    note (.Estimated history w.context_usage_anchor)
    pure (compaction_estimate prepared.prompt prepared.model history w.context_usage_anchor)

def modelLoop : Nat → Nat → Bool → EngineM Digest RunOutcome
  | 0, _, _ => stuck
  | fuel + 1, checkpoint, overflow_compacted => do
    if ← is_cancelled prepared then exit .Cancelled
    else do
      let messages ← loadMessages prepared checkpoint
      let history ← orFail (project_messages messages)
      match ← compactionEstimate prepared history with
      | some estimated_tokens => do
        send prepared (.UsageSnapshot (context_usage_snapshot estimated_tokens))
        let (checkpoint,compaction_usage) ← auto_compact prepared checkpoint messages
        recordCompaction compaction_usage
        modelLoop fuel checkpoint overflow_compacted
      | none => do
        let provider_call_index ← beginProviderCall prepared
        let history ← hydrate_tool_images prepared history
        let attempts ← loopFuel
        match ← attemptLoop prepared provider_call_index ⟨prepared.prompt,prepared.model,withTail prepared history⟩
            history.length checkpoint overflow_compacted attempts 0 [] with
        | .Continue checkpoint overflow_compacted => modelLoop fuel checkpoint overflow_compacted
        | .Cycle cycle pending_insertions => do
          recordUsage cycle.usage history.length
          if prepared.action = .Compact then finishCompaction prepared checkpoint cycle pending_insertions
          else if cycle.calls.isEmpty then do
            match ← finishTurn prepared checkpoint provider_call_index cycle pending_insertions with
            | some checkpoint => modelLoop fuel checkpoint overflow_compacted
            | none => pure .Completed
          else do
            let checkpoint ← execute prepared checkpoint (toolRound prepared provider_call_index cycle)
              pending_insertions
            modelLoop fuel checkpoint overflow_compacted

def appendInitial (checkpoint : Nat) (changed : Bool) : List CanonicalMessage → EngineM Digest (Nat × Bool)
  | [] => pure (checkpoint,changed)
  | message :: rest => do
    let (checkpoint,inserted) ← appendMessageOnce prepared checkpoint message
    appendInitial checkpoint (changed || inserted) rest

def announceInitial (checkpoint : Nat) (changed : Bool) : EngineM Digest Unit :=
  if changed then do
    send prepared (.MessagesCommitted ⟨checkpoint,0,.InitialMessages,.BeforeContinue⟩)
    wait_for_state_ready prepared
  else pure ()

def recoveredRound (round : RecoveredToolRound) : ToolRound :=
  { id := s!"{prepared.run_id}:round:resume", assistant := round.assistant, calls := round.calls,
    recovered_started_at_ms := some round.started_at_ms }

def resumeRound (checkpoint : Nat) : EngineM Digest Nat :=
  match prepared.action with
  | .Resume (some round) => execute prepared checkpoint (recoveredRound prepared round) []
  | _ => pure checkpoint

def run_claimed (checkpoint : Nat) : EngineM Digest RunOutcome := do
  let anchor ← latest_context_usage prepared
  let w ← get
  set ({ w with context_usage_anchor := anchor }.note (.Anchored anchor))
  let (checkpoint,changed) ← appendInitial prepared checkpoint false prepared.initial_messages
  announceInitial prepared checkpoint changed
  let checkpoint ← resumeRound prepared checkpoint
  let fuel ← loopFuel
  modelLoop prepared fuel checkpoint false

def statusOf : RunOutcome → RunStatus × Option (String × String)
  | .Completed => (.Completed,none)
  | .Cancelled => (.Cancelled,none)
  | .Failed failure => (.Failed,some (failure.category,failure_message failure))

def outcomeOf : Halt → EngineM Digest RunOutcome
  | .Stuck => stuck
  | .Ended outcome => pure outcome

def endRun (outcome : RunOutcome) : EngineM Digest RunOutcome := do
  finish prepared
  let _ ← emit prepared (.Ended outcome)
  pure outcome

def run : EngineM Digest RunOutcome := do
  match ← tryTransaction prepared (.claim_run prepared.claim) with
  | .ok (.Claimed claimed) => do
    let outcome ← tryCatch (run_claimed prepared claimed.head_checkpoint_id) outcomeOf
    let w ← get
    let _ ← tryTransaction prepared
      (.finish_run prepared.run_id (statusOf outcome).1 w.usage (statusOf outcome).2)
    endRun prepared outcome
  | .ok _ => stuck
  | .error error => endRun prepared (.Failed (.from error))

def initial (store : Tables Digest) (script : List Move) : World Digest := { store, script }

end MyCursor.Engine

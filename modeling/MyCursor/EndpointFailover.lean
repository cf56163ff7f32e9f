import MyCursor.Antigravity
import MyCursor.Credentials

/-!
# Failover between the Antigravity endpoints

The loop of `streamCloudCode` in `plugins/build-in/antigravity-auth/provider.ts` over
the endpoints. Each endpoint is asked in turn; whether the next one is asked after a
failure is decided by the status of the response, and by the surrounding `catch`,
which only looks at whether something was emitted.
-/
namespace MyCursor.EndpointFailover
open Message Wire CheckpointCodec CheckpointRoundTrip
open Credentials (Runtime trimText)
open ProviderEvents (stringOf)
open Antigravity (Adapter Chunk FunctionCall Part clean truthy toPart toChunk responseOf firstCandidate contentParts
  takeText takeCall takePart takeParts closeBlocks closing)
set_option linter.unusedSectionVars false

/-- What the loop over the parts of a chunk comes to. The parts are `uncallable` if they
    have no `some`. -/
structure Walk where
  parts : List Part := []
  error : Option String := none
  uncallable : Bool := false

/-- An error comes behind the parts of the chunk. -/
inductive Line
  | Skip
  | Stop
  | Data (chunk : Chunk) (uncallable : Bool)
  | Throw (chunk : Chunk) (error : String)
deriving DecidableEq

section Lines
variable [JavaScript] [Runtime]

/-- A name of another shape than a text stands in the event as its JSON. -/
def nameOf (call : Value) : String :=
  match Json.get call "name" with
  | some (.String name) => name
  | some name => JavaScript.stringify name
  | none => "undefined"
def callOf (part : Value) : Option FunctionCall :=
  ((Json.get part "functionCall").filter truthy).map fun call => ⟨nameOf call,Json.get call "args"⟩

/-- `for (const part of parts)`. The letters of a text carry nothing. -/
def walk : Option Value → Walk
  | none | some .Null => {}
  | some (.Array values) =>
    { parts := (values.takeWhile (· ≠ .Null)).map fun value => toPart value (callOf value)
      error := if .Null ∈ values then some "Cannot read properties of null (reading 'thoughtSignature')" else none }
  | some (.String _) => { uncallable := true }
  | some value => if truthy value then { error := some "parts is not iterable" } else { uncallable := true }
def readValue (value : Value) : Line :=
  if value = .Null then .Throw {} "Cannot read properties of null (reading 'response')"
  else
    let resp := responseOf value
    let walked := walk (contentParts (firstCandidate resp))
    let chunk := toChunk resp walked.parts
    walked.error.elim (.Data chunk walked.uncallable) (.Throw chunk)
/-- What a line is to the loop. A line that is not JSON is passed over. -/
def readLine (line : String) : Line :=
  if "data:".toList.isPrefixOf line.toList then
    let raw := trimText (String.ofList (line.toList.drop 5))
    if raw = "" ∨ raw = "[DONE]" then .Stop else (Runtime.parse raw).elim .Skip readValue
  else .Skip

end Lines

inductive Failure
  | Http (status : Nat) (body : String)
  | Network (message : String)
  | Type (message : String)
deriving DecidableEq

def succeeds (status : Nat) : Bool := 200 ≤ status && status < 300
def passesOver (status : Nat) : Bool := status = 503 || status = 502 || status = 504 || status = 404

section Replies
variable [JavaScript] [Runtime]

/-- The lines come one after another, and may end with an error. `now` is the time at
    which a call is emitted. -/
structure Response where
  status : Nat
  lines : List String
  broken : Option String := none
  now : Nat → Nat := fun _ => 0

inductive Reply
  | Unreachable (message : String)
  | Response (response : Response)

def readBody (lines : List String) : String := "\n".intercalate lines

/-- How the body of the `try` is left. -/
inductive Leaves
  | Return
  | Continue (lastError : Failure)
  | Throw (error : Failure)
deriving DecidableEq

structure Attempt where
  events : List SdkEvent
  hasEmittedAnyChunk : Bool
  leaves : Leaves
deriving DecidableEq

def Attempt.after (events : List SdkEvent) (attempt : Attempt) : Attempt := { attempt with events := events ++ attempt.events }

/-- A part with which `hasEmittedAnyChunk` is set. -/
def emits (part : Part) : Bool := part.text.any (clean · ≠ "") || part.functionCall.isSome

variable [Serde]

def atEnd (a : Adapter) : List SdkEvent := closing a ++ [.Done (if a.hasTools then .ToolUse else .Stop)]
/-- `for await (const line of response.lines)`, and what comes after it. -/
def readLines (now : Nat → Nat) (broken : Option String) (a : Adapter) (hasEmittedAnyChunk : Bool) : List String → Attempt
  | [] =>
    match broken with
    | none => ⟨atEnd a,hasEmittedAnyChunk,.Return⟩
    | some message => ⟨[],hasEmittedAnyChunk,.Throw (.Network message)⟩
  | line :: rest =>
    match readLine line with
    | .Skip => readLines now broken a hasEmittedAnyChunk rest
    | .Stop => ⟨atEnd a,hasEmittedAnyChunk,.Return⟩
    | .Throw chunk error =>
      ⟨(takeParts now a chunk.parts).2,hasEmittedAnyChunk || chunk.parts.any emits,.Throw (.Type error)⟩
    | .Data chunk uncallable =>
      let a := { a with finalUsage := chunk.usageMetadata.or a.finalUsage }
      let (a,events) := takeParts now a chunk.parts
      let hasEmittedAnyChunk := hasEmittedAnyChunk || chunk.parts.any emits
      match chunk.finishReason with
      | none => (readLines now broken a hasEmittedAnyChunk rest).after events
      | some finishReason =>
        -- the parts are only asked for a call where none was emitted
        if finishReason = "STOP" ∧ !a.hasTools ∧ uncallable then
          ⟨events ++ closing a,hasEmittedAnyChunk,.Throw (.Type "parts?.some is not a function")⟩
        else
          let isTool := finishReason = "STOP" ∧ (a.hasTools ∨ chunk.parts.any (·.functionCall.isSome))
          ⟨events ++ (closing a ++ [.Done (if isTool then .ToolUse else .Stop)]),hasEmittedAnyChunk,.Return⟩

/-- The body of the `try`. -/
def attempt (hasEmittedAnyChunk : Bool) : Reply → Attempt
  | .Unreachable message => ⟨[],hasEmittedAnyChunk,.Throw (.Network message)⟩
  | .Response response =>
    if succeeds response.status then readLines response.now response.broken {} hasEmittedAnyChunk response.lines
    else
      match response.broken with
      | some message => ⟨[],hasEmittedAnyChunk,.Throw (.Network message)⟩
      | none =>
        let lastError := Failure.Http response.status (readBody response.lines)
        ⟨[],hasEmittedAnyChunk,if passesOver response.status then .Continue lastError else .Throw lastError⟩

/-- `for (const endpoint of ANTIGRAVITY_ENDPOINTS)`: what is emitted, and the error that is thrown. -/
def streamFrom (lastError : Option Failure) (hasEmittedAnyChunk : Bool) : List Reply → List SdkEvent × Option Failure
  | [] => ([],lastError)
  | reply :: rest =>
    if hasEmittedAnyChunk then ([],lastError)
    else
      let tried := attempt hasEmittedAnyChunk reply
      match tried.leaves with
      | .Return => (tried.events,none)
      | .Continue lastError =>
        let (events,thrown) := streamFrom (some lastError) tried.hasEmittedAnyChunk rest
        (tried.events ++ events,thrown)
      | .Throw error =>
        -- the `catch` does not look at the error
        if tried.hasEmittedAnyChunk then (tried.events,some error)
        else
          let (events,thrown) := streamFrom (some error) tried.hasEmittedAnyChunk rest
          (tried.events ++ events,thrown)

def streamCloudCode (replies : List Reply) : List SdkEvent × Option Failure := streamFrom none false replies

/-- A line with which nothing is emitted, and behind which the stream goes on. -/
def quiet (line : String) : Bool :=
  match readLine line with
  | .Skip => true
  | .Stop => false
  | .Throw _ _ => false
  | .Data chunk _ => !chunk.parts.any emits && chunk.finishReason = none
def FailsEarly (response : Response) : Prop :=
  succeeds response.status = true ∧ response.broken ≠ none ∧ ∀ line ∈ response.lines, quiet line = true
/-- A network failure before anything is emitted, or one of the four statuses. -/
def Retryable : Reply → Prop
  | .Unreachable _ => True
  | .Response response =>
    FailsEarly response ∨ succeeds response.status = false ∧ (response.broken ≠ none ∨ passesOver response.status = true)
/-- A response whose error ends the call. -/
def IsFinal (response : Response) : Prop :=
  succeeds response.status = false ∧ response.broken = none ∧ passesOver response.status = false

/-- The endpoints before this one fail retryably, and this one does not. -/
structure First (replies before : List Reply) (reply : Reply) (after : List Reply) : Prop where
  split : replies = before ++ reply :: after
  before : ∀ earlier ∈ before, Retryable earlier
  reply : ¬ Retryable reply

/-- The call behaves as the first endpoint alone that does not fail retryably, an error of
    such an endpoint is the error of the call, and the events are those of one endpoint. -/
structure FailsOver (replies : List Reply) : Prop where
  first : ∀ before reply after, First replies before reply after → streamCloudCode replies = streamCloudCode [reply]
  final : ∀ before response after, First replies before (.Response response) after → IsFinal response →
    streamCloudCode replies = ([],some (.Http response.status (readBody response.lines)))
  unmixed : (streamCloudCode replies).1 = [] ∨ ∃ reply ∈ replies, (streamCloudCode replies).1 = (streamCloudCode [reply]).1

def told (chunk : Chunk) : Bool := chunk.usageMetadata.isSome || chunk.parts.any (·.thoughtSignature.isSome)
/-- The error that the lines throw before anything is emitted, and whether something was
    said at the end by then. -/
def faultIn (sayable : Bool) : List String → Option (String × Bool)
  | [] => none
  | line :: rest =>
    match readLine line with
    | .Skip => faultIn sayable rest
    | .Stop => none
    | .Throw chunk error => if chunk.parts.any emits then none else some (error,false)
    | .Data chunk uncallable =>
      if chunk.parts.any emits then none
      else
        let sayable := sayable || told chunk
        match chunk.finishReason with
        | none => faultIn sayable rest
        | some finishReason =>
          if finishReason = "STOP" ∧ uncallable then some ("parts?.some is not a function",sayable) else none
def Response.fault (response : Response) : Option (String × Bool) :=
  if succeeds response.status then faultIn false response.lines else none

/-- The next endpoint is asked, although the failure is not retryable. -/
def PassedOver : Reply → Prop
  | .Unreachable _ => False
  | .Response response => IsFinal response ∨ response.fault.isSome = true
def Fails (reply : Reply) : Prop := Retryable reply ∨ PassedOver reply
/-- Nothing was said at the end before an error. -/
def Mute : Reply → Prop
  | .Unreachable _ => True
  | .Response response => response.fault.any (·.2) = false
/-- The error of an endpoint that fails. -/
def errorOf : Reply → Failure
  | .Unreachable message => .Network message
  | .Response response =>
    match response.fault with
    | some (error,_) => .Type error
    | none => response.broken.elim (.Http response.status (readBody response.lines)) .Network

/-- The endpoints fail one after another without an event, and the last of them with this error. -/
def EndsAlike (error : Failure) (after : List Reply) : Prop :=
  (∀ reply ∈ after, Fails reply ∧ Mute reply) ∧ ∀ reply ∈ after.getLast?, errorOf reply = error

end Replies

section Parts
variable [JavaScript] {now : Nat → Nat} {a : Adapter} {part : Part} {parts : List Part}

theorem takeParts_cons (rest : List Part) : takeParts now a (part :: rest) = ((takeParts now (takePart now a part).1 rest).1,
      (takePart now a part).2 ++ (takeParts now (takePart now a part).1 rest).2) := rfl

theorem takeText_quiet (unread : part.text.any (clean · ≠ "") = false) (unstarted : a.thinkingStarted = false) :
    takeText a part = (a,[]) := by
  rw [takeText]
  cases isText : part.text with
  | none => rfl
  | some text =>
    have cleaned : clean text = "" := by simpa [isText] using unread
    dsimp only
    rw [if_pos cleaned,if_pos cleaned,unstarted]
    have same : { a with thinkingStarted := false } = a := by rw [← unstarted]
    rw [same]
    exact ite_self _
/-- Nothing was emitted so far, and something is to be said at the end or not. -/
structure Fresh (a : Adapter) (sayable : Bool) : Prop where
  thinkingStarted : a.thinkingStarted = false
  textStarted : a.textStarted = false
  hasTools : a.hasTools = false
  sayable : sayable = (a.finalUsage.isSome || a.lastThoughtSignature.isSome)

theorem isSome_or {α : Type} (first second : Option α) : (first.or second).isSome = (second.isSome || first.isSome) := by
  cases first <;> simp
theorem takePart_quiet {sayable : Bool} (silent : emits part = false) (fresh : Fresh a sayable) :
    (takePart now a part).2 = [] ∧ Fresh (takePart now a part).1 (sayable || part.thoughtSignature.isSome) := by
  obtain ⟨unread,uncalled⟩ := Bool.or_eq_false_iff.mp silent
  have noCall : part.functionCall = none := by simpa using uncalled
  have signed : ({ a with lastThoughtSignature := part.thoughtSignature.or a.lastThoughtSignature } : Adapter).thinkingStarted = false :=
    fresh.thinkingStarted
  rw [takePart]
  simp only [takeText_quiet unread signed,takeCall,noCall]
  refine ⟨rfl,fresh.thinkingStarted,fresh.textStarted,fresh.hasTools,?_⟩
  rw [isSome_or,fresh.sayable,Bool.or_assoc]
theorem takeParts_quiet {sayable : Bool} (silent : parts.any emits = false) (fresh : Fresh a sayable) :
    (takeParts now a parts).2 = [] ∧ Fresh (takeParts now a parts).1 (sayable || parts.any (·.thoughtSignature.isSome)) := by
  induction parts generalizing a sayable with
  | nil => exact ⟨rfl,by rwa [List.any_nil,Bool.or_false]⟩
  | cons part rest ih =>
    rw [List.any_cons,Bool.or_eq_false_iff] at silent
    obtain ⟨nothing,still⟩ := @takePart_quiet _ now _ _ _ silent.1 fresh
    obtain ⟨later,atEnd⟩ := ih silent.2 still
    rw [takeParts_cons]
    constructor
    · rw [nothing,later]
      rfl
    · rwa [List.any_cons,← Bool.or_assoc]

theorem takeText_emits (read : part.text.any (clean · ≠ "") = true) : (takeText a part).2 ≠ [] := by
  rw [takeText]
  cases isText : part.text with
  | none => simp [isText] at read
  | some text =>
    have cleaned : clean text ≠ "" := by simpa [isText] using read
    dsimp only
    rw [if_neg cleaned,if_neg cleaned]
    split <;> simp
theorem takePart_emits (emitted : emits part = true) : (takePart now a part).2 ≠ [] := by
  rw [takePart]
  refine fun nothing => ?_
  obtain ⟨noText,noCall⟩ := List.append_eq_nil_iff.mp nothing
  rcases Bool.or_eq_true_iff.mp emitted with read | called
  · exact takeText_emits read noText
  · obtain ⟨call,isCall⟩ := Option.isSome_iff_exists.mp called
    rw [takeCall,isCall] at noCall
    exact List.cons_ne_nil _ _ (List.append_eq_nil_iff.mp noCall).2
theorem takeParts_emits (emitted : parts.any emits = true) : (takeParts now a parts).2 ≠ [] := by
  induction parts generalizing a with
  | nil => cases emitted
  | cons part rest ih =>
    rw [takeParts_cons]
    refine fun nothing => ?_
    obtain ⟨here,later⟩ := List.append_eq_nil_iff.mp nothing
    rw [List.any_cons,Bool.or_eq_true] at emitted
    rcases emitted with one | others
    · exact takePart_emits one here
    · exact ih others later

end Parts

section Stream
variable [JavaScript] [Runtime] [Serde] {now : Nat → Nat} {broken : Option String} {a : Adapter} {lines : List String} {sayable : Bool}

theorem readLines_left (emitted : Bool) : ((readLines now broken a emitted lines).leaves = .Return ∨
      ∃ error, (readLines now broken a emitted lines).leaves = .Throw error) ∧
    (emitted = true → (readLines now broken a emitted lines).hasEmittedAnyChunk = true) := by
  induction lines generalizing a emitted with
  | nil =>
    cases broken with
    | none => exact ⟨.inl rfl,id⟩
    | some message => exact ⟨.inr ⟨_,rfl⟩,id⟩
  | cons line rest ih =>
    rw [readLines]
    cases readLine line with
    | Skip => exact ih emitted
    | Stop => exact ⟨.inl rfl,id⟩
    | Throw chunk error => exact ⟨.inr ⟨_,rfl⟩,fun already => Bool.or_eq_true_iff.mpr (.inl already)⟩
    | Data chunk uncallable =>
      have still : emitted = true → (emitted || chunk.parts.any emits) = true := fun already => Bool.or_eq_true_iff.mpr (.inl already)
      dsimp only
      cases chunk.finishReason with
      | some finishReason =>
        dsimp only
        split
        · exact ⟨.inr ⟨_,rfl⟩,still⟩
        · exact ⟨.inl rfl,still⟩
      | none => exact ⟨(ih _).1,fun already => (ih _).2 (still already)⟩

theorem Fresh.closing (fresh : Fresh a sayable) : closing a = [] ↔ sayable = false := by
  rw [Antigravity.closing,closeBlocks,fresh.thinkingStarted,fresh.textStarted,fresh.sayable]
  cases a.finalUsage <;> cases a.lastThoughtSignature <;> simp
theorem Fresh.chunk {chunk : Chunk} (fresh : Fresh a sayable) (silent : chunk.parts.any emits = false) :
    (takeParts now { a with finalUsage := chunk.usageMetadata.or a.finalUsage } chunk.parts).2 = [] ∧
      Fresh (takeParts now { a with finalUsage := chunk.usageMetadata.or a.finalUsage } chunk.parts).1 (sayable || told chunk) := by
  have used : Fresh { a with finalUsage := chunk.usageMetadata.or a.finalUsage } (sayable || chunk.usageMetadata.isSome) := by
    refine ⟨fresh.thinkingStarted,fresh.textStarted,fresh.hasTools,?_⟩
    dsimp only
    rw [isSome_or,fresh.sayable,Bool.or_right_comm]
  have taken := @takeParts_quiet _ now _ _ _ silent used
  rwa [Bool.or_assoc] at taken

/-- The stream comes to its end, or something was emitted. -/
def Settles (tried : Attempt) : Prop := tried.leaves = .Return ∨ tried.hasEmittedAnyChunk = true ∧ tried.events ≠ []

/-- A line throws before anything is emitted, the stream breaks before that, or it settles. -/
inductive Comes (sayable : Bool) (broken : Option String) (lines : List String) (tried : Attempt) : Prop where
  | faulty (error : String) (said : Bool) (events : List SdkEvent) (loud : ∃ line ∈ lines, quiet line = false)
      (fault : faultIn sayable lines = some (error,said)) (told : events = [] ↔ said = false)
      (throws : tried = ⟨events,false,.Throw (.Type error)⟩)
  | breaks (message : String) (silent : ∀ line ∈ lines, quiet line = true) (faultless : faultIn sayable lines = none)
      (isBroken : broken = some message) (throws : tried = ⟨[],false,.Throw (.Network message)⟩)
  | settles (loud : broken = none ∨ ∃ line ∈ lines, quiet line = false) (faultless : faultIn sayable lines = none) (settled : Settles tried)

theorem readLines_comes (fresh : Fresh a sayable) : Comes sayable broken lines (readLines now broken a false lines) := by
  induction lines generalizing a sayable with
  | nil =>
    cases broken with
    | none => exact .settles (.inl rfl) rfl (.inl rfl)
    | some message => exact .breaks message (List.forall_mem_nil _) rfl rfl rfl
  | cons line rest ih =>
    -- Where nothing comes of the line, the rest decides.
    have goes {b : Adapter} {saying : Bool} (still : Fresh b saying) (silent : quiet line = true)
        (sameFault : faultIn sayable (line :: rest) = faultIn saying rest)
        (same : readLines now broken a false (line :: rest) = readLines now broken b false rest) :
        Comes sayable broken (line :: rest) (readLines now broken a false (line :: rest)) := by
      have later : (∃ line ∈ rest, quiet line = false) → ∃ one ∈ line :: rest, quiet one = false :=
        fun ⟨one,behind,loud⟩ => ⟨one,List.mem_cons_of_mem _ behind,loud⟩
      rw [same]
      cases ih still with
      | faulty error said events loud fault told throws => exact .faulty error said events (later loud) (sameFault.trans fault) told throws
      | breaks message others faultless isBroken throws =>
        exact .breaks message (List.forall_mem_cons.mpr ⟨silent,others⟩) (sameFault.trans faultless) isBroken throws
      | settles loud faultless settled => exact .settles (loud.imp_right later) (sameFault.trans faultless) settled
    have loud (isLoud : quiet line = false) : ∃ one ∈ line :: rest, quiet one = false := ⟨line,List.mem_cons_self,isLoud⟩
    have isQuiet := quiet.eq_def line
    have isFault := faultIn.eq_def sayable (line :: rest)
    have isRead := readLines.eq_def now broken a false (line :: rest)
    dsimp only at isFault isRead
    cases isLine : readLine line with
    | Skip =>
      rw [isLine] at isQuiet isFault isRead
      exact goes fresh isQuiet isFault isRead
    | Stop =>
      rw [isLine] at isQuiet isFault isRead
      exact .settles (.inr (loud isQuiet)) isFault (isRead ▸ .inl rfl)
    | Throw chunk error =>
      rw [isLine] at isQuiet isFault isRead
      dsimp only at isFault isRead
      cases silent : chunk.parts.any emits with
      | true =>
        rw [if_pos silent] at isFault
        exact .settles (.inr (loud isQuiet)) isFault (isRead ▸ .inr ⟨silent,takeParts_emits silent⟩)
      | false =>
        rw [if_neg (Bool.eq_false_iff.mp silent)] at isFault
        rw [silent] at isRead
        exact .faulty _ _ _ (loud isQuiet) isFault (iff_of_true (takeParts_quiet silent fresh).1 rfl) isRead
    | Data chunk uncallable =>
      rw [isLine] at isQuiet isFault isRead
      dsimp only at isQuiet isFault isRead
      cases silent : chunk.parts.any emits with
      | true =>
        have said := @takeParts_emits _ now { a with finalUsage := chunk.usageMetadata.or a.finalUsage } _ silent
        rw [if_pos silent] at isFault
        rw [silent] at isQuiet isRead
        refine .settles (.inr (loud isQuiet)) isFault ?_
        rw [isRead]
        cases chunk.finishReason with
        | none => exact .inr ⟨(readLines_left true).2 rfl,List.append_ne_nil_of_left_ne_nil said _⟩
        | some finishReason =>
          dsimp only
          split
          · exact .inr ⟨rfl,List.append_ne_nil_of_left_ne_nil said _⟩
          · exact .inl rfl
      | false =>
        obtain ⟨nothing,still⟩ := @Fresh.chunk _ _ _ now _ _ _ fresh silent
        rw [if_neg (Bool.eq_false_iff.mp silent)] at isFault
        rw [silent,nothing,still.hasTools] at isRead
        rw [silent] at isQuiet
        cases isLabel : chunk.finishReason with
        | none =>
          rw [isLabel] at isQuiet isFault isRead
          exact goes still isQuiet isFault isRead
        | some finishReason =>
          rw [isLabel] at isQuiet isFault isRead
          dsimp only at isFault isRead
          by_cases asked : finishReason = "STOP" ∧ uncallable = true
          · rw [if_pos asked] at isFault
            rw [if_pos ⟨asked.1,rfl,asked.2⟩] at isRead
            exact .faulty _ _ _ (loud isQuiet) isFault still.closing isRead
          · rw [if_neg asked] at isFault
            rw [if_neg fun all => asked ⟨all.1,all.2.2⟩] at isRead
            exact .settles (.inr (loud isQuiet)) isFault (isRead ▸ .inl rfl)

end Stream

section Endpoints
variable [JavaScript] [Runtime] [Serde] {reply : Reply} {replies before after : List Reply} {lastError : Option Failure}

theorem fresh : Fresh {} false := ⟨rfl,rfl,rfl,rfl⟩

theorem Retryable.faultless {response : Response} (retryable : Retryable (.Response response)) : response.fault = none := by
  rw [Response.fault]
  rcases retryable with early | refused
  · rw [if_pos early.1]
    rcases @readLines_comes _ _ _ response.now response.broken _ response.lines _ fresh with
      ⟨_,_,_,⟨line,isIn,loud⟩,_⟩ | ⟨_,_,faultless,_⟩ | ⟨_,faultless,_⟩
    · cases (early.2.2 line isIn).symm.trans loud
    · exact faultless
    · exact faultless
  · rw [if_neg (Bool.eq_false_iff.mp refused.1)]
theorem Retryable.mute (retryable : Retryable reply) : Mute reply := by
  cases reply with
  | Unreachable message => trivial
  | Response response =>
    rw [Mute,Retryable.faultless retryable]
    rfl

theorem streamFrom_fails (fails : Fails reply) : ∃ said, (said = [] ↔ Mute reply) ∧ ∀ lastError rest,
    streamFrom lastError false (reply :: rest) =
      (said ++ (streamFrom (some (errorOf reply)) false rest).1,(streamFrom (some (errorOf reply)) false rest).2) := by
  cases reply with
  | Unreachable message => exact ⟨[],iff_of_true rfl trivial,fun _ _ => rfl⟩
  | Response response =>
    simp only [streamFrom,Bool.false_eq_true,if_false,attempt,errorOf]
    by_cases ok : succeeds response.status = true
    · rw [if_pos ok]
      have isFault : response.fault = faultIn false response.lines := if_pos ok
      rcases @readLines_comes _ _ _ response.now response.broken _ response.lines _ fresh with
        ⟨error,said,events,_,faulty,isSaid,read⟩ | ⟨message,_,faultless,isBroken,read⟩ | ⟨loud,faultless,_⟩
      · rw [read,isFault,faulty]
        refine ⟨events,?_,fun lastError rest => rfl⟩
        rw [isSaid,Mute,isFault,faulty]
        exact Iff.rfl
      · rw [read,isFault,faultless,isBroken]
        refine ⟨[],iff_of_true rfl ?_,fun lastError rest => rfl⟩
        rw [Mute,isFault,faultless]
        rfl
      · exfalso
        rcases fails with (⟨_,isBroken,silent⟩ | ⟨refused,-⟩) | final | faulty
        · obtain ⟨line,isIn,isLoud⟩ := loud.resolve_left isBroken
          cases (silent line isIn).symm.trans isLoud
        · cases ok.symm.trans refused
        · cases ok.symm.trans final.1
        · rw [isFault,faultless] at faulty
          cases faulty
    · have faultless : response.fault = none := if_neg ok
      rw [if_neg ok,faultless]
      refine ⟨[],iff_of_true rfl ?_,fun lastError rest => ?_⟩
      · rw [Mute,faultless]
        rfl
      · cases response.broken with
        | some message => rfl
        | none =>
          dsimp only
          cases passesOver response.status <;> rfl

theorem streamFrom_settles (settled : ¬ Fails reply) : ∃ outcome : List SdkEvent × Option Failure,
    (outcome.2 = none ∨ outcome.1 ≠ []) ∧ ∀ lastError rest, streamFrom lastError false (reply :: rest) = outcome := by
  cases reply with
  | Unreachable message => exact absurd (.inl trivial) settled
  | Response response =>
    have ok : succeeds response.status = true := by
      by_contra refused
      rw [Bool.not_eq_true] at refused
      refine settled ?_
      by_cases passed : response.broken ≠ none ∨ passesOver response.status = true
      · exact .inl (.inr ⟨refused,passed⟩)
      · obtain ⟨whole,kept⟩ := not_or.mp passed
        exact .inr (.inl ⟨refused,not_not.mp whole,Bool.eq_false_iff.mpr kept⟩)
    have tried : attempt false (.Response response) = readLines response.now response.broken {} false response.lines := if_pos ok
    simp only [streamFrom,tried,Bool.false_eq_true,if_false]
    have settles : Settles (readLines response.now response.broken {} false response.lines) := by
      rcases @readLines_comes _ _ _ response.now response.broken _ response.lines _ fresh with
        ⟨_,_,_,_,faulty,_⟩ | ⟨message,silent,_,isBroken,_⟩ | ⟨_,_,settled⟩
      · refine absurd (.inr (.inr ?_)) settled
        rw [Response.fault,if_pos ok,faulty]
        rfl
      · exact absurd (.inl (.inl ⟨ok,by rw [isBroken]; nofun,silent⟩)) settled
      · exact settled
    generalize isAttempt : readLines response.now response.broken {} false response.lines = stream at settles
    have throws := (@readLines_left _ _ _ response.now response.broken {} response.lines false).1
    rw [isAttempt] at throws
    rcases throws with returned | ⟨error,thrown⟩
    · refine ⟨(stream.events,none),.inl rfl,fun lastError rest => ?_⟩
      rw [returned]
    · obtain ⟨emitted,said⟩ := settles.resolve_left (by rw [thrown]; nofun)
      refine ⟨(stream.events,some error),.inr said,fun lastError rest => ?_⟩
      rw [thrown]
      exact if_pos emitted

theorem streamFrom_retries (retryable : ∀ reply ∈ before, Retryable reply) :
    ∃ error, streamFrom lastError false (before ++ after) = streamFrom error false after := by
  induction before generalizing lastError with
  | nil => exact ⟨lastError,rfl⟩
  | cons reply rest ih =>
    obtain ⟨one,others⟩ := List.forall_mem_cons.mp retryable
    obtain ⟨said,isSaid,asked⟩ := streamFrom_fails (.inl one)
    obtain ⟨error,streamed⟩ := @ih (some (errorOf reply)) others
    refine ⟨error,?_⟩
    rw [List.cons_append,asked,isSaid.mpr one.mute,streamed]
    rfl

theorem first_or (replies : List Reply) : (∀ reply ∈ replies, Retryable reply) ∨
    ∃ before reply after, First replies before reply after := by
  induction replies with
  | nil => exact .inl fun reply member => absurd member List.not_mem_nil
  | cons reply rest ih =>
    by_cases retryable : Retryable reply
    · rcases ih with all | ⟨before,first,after,isFirst⟩
      · exact .inl (List.forall_mem_cons.mpr ⟨retryable,all⟩)
      · refine .inr ⟨reply :: before,first,after,?_,List.forall_mem_cons.mpr ⟨retryable,isFirst.before⟩,isFirst.reply⟩
        rw [isFirst.split]
        rfl
    · exact .inr ⟨[],reply,rest,rfl,fun earlier member => absurd member List.not_mem_nil,retryable⟩

theorem streamFrom_same (last error : Failure) : streamFrom (some last) false after = ([],some error) ↔
    (∀ reply ∈ after, Fails reply ∧ Mute reply) ∧ (after.getLast?.map errorOf).getD last = error := by
  induction after generalizing last with
  | nil => simp [streamFrom]
  | cons reply rest ih =>
    rw [List.getLast?_cons,List.forall_mem_cons]
    by_cases fails : Fails reply
    · obtain ⟨said,isSaid,asked⟩ := streamFrom_fails fails
      have errors : ((some (rest.getLast?.getD reply)).map errorOf).getD last = (rest.getLast?.map errorOf).getD (errorOf reply) := by
        cases rest.getLast? <;> rfl
      rw [asked,errors,Prod.mk.injEq,List.append_eq_nil_iff,isSaid,and_iff_right fails,and_assoc,and_assoc,← ih,Prod.ext_iff]
    · obtain ⟨outcome,notError,isOutcome⟩ := streamFrom_settles fails
      rw [isOutcome]
      refine iff_of_false ?_ fun both => fails both.1.1.1
      rintro rfl
      rcases notError with none | said
      · cases none
      · exact said rfl
theorem endsAlike_iff (error : Failure) : streamFrom (some error) false after = ([],some error) ↔ EndsAlike error after := by
  rw [streamFrom_same,EndsAlike]
  refine and_congr_right fun all => ?_
  cases after.getLast? <;> simp

theorem First.streamed (first : First replies before reply after) :
    ∃ lastError, streamCloudCode replies = streamFrom lastError false (reply :: after) := by
  rw [streamCloudCode,first.split]
  exact streamFrom_retries first.before

theorem First.alike (first : First replies before reply after) (passed : PassedOver reply) :
    streamCloudCode replies = streamCloudCode [reply] ↔ EndsAlike (errorOf reply) after := by
  obtain ⟨said,-,asked⟩ := streamFrom_fails (.inr passed)
  obtain ⟨lastError,streamed⟩ := first.streamed
  rw [streamed,streamCloudCode,asked,asked,← endsAlike_iff,Prod.mk.injEq,List.append_cancel_left_eq,← Prod.ext_iff]
  exact Iff.rfl

/-- The endpoint loop fails over as it should exactly when an endpoint that is passed over
    although it should end the call is the last one, or one behind which all others fail
    without an event and the last one with the same error. -/
theorem failsOver_iff (replies : List Reply) : FailsOver replies ↔
    ∀ before reply after, First replies before reply after → PassedOver reply → EndsAlike (errorOf reply) after := by
  constructor
  · intro failsOver before reply after first passed
    exact (first.alike passed).mp (failsOver.first before reply after first)
  · intro alike
    have firsts : ∀ before reply after, First replies before reply after → streamCloudCode replies = streamCloudCode [reply] := by
      intro before reply after first
      by_cases fails : Fails reply
      · have passed : PassedOver reply := fails.resolve_left first.reply
        exact (first.alike passed).mpr (alike before reply after first passed)
      · obtain ⟨outcome,-,isOutcome⟩ := streamFrom_settles fails
        obtain ⟨lastError,streamed⟩ := first.streamed
        rw [streamed,isOutcome,streamCloudCode,isOutcome]
    refine ⟨firsts,?_,?_⟩
    · intro before response after first final
      have refused : attempt false (.Response response) = ⟨[],false,.Throw (.Http response.status (readBody response.lines))⟩ := by
        rw [attempt,if_neg (Bool.eq_false_iff.mp final.1),final.2.1]
        dsimp only
        rw [final.2.2]
        rfl
      rw [firsts before _ after first,streamCloudCode,streamFrom,if_neg Bool.false_ne_true,refused]
      rfl
    · rcases first_or replies with all | ⟨before,reply,after,first⟩
      · obtain ⟨error,streamed⟩ := @streamFrom_retries _ _ _ replies [] none all
        rw [List.append_nil] at streamed
        refine .inl ?_
        rw [streamCloudCode,streamed]
        rfl
      · refine .inr ⟨reply,?_,congrArg Prod.fst (firsts before reply after first)⟩
        rw [first.split]
        exact List.mem_append_right _ List.mem_cons_self

end Endpoints

section Example
local instance : Serde := printing
local instance : JavaScript := .plain fun value => String.ofList (printed value)
local instance : Runtime := ⟨fun _ => none,fun _ => "",fun _ => none,fun _ => List.replicate 32 0,fun _ => List.length_replicate⟩

/-- The first endpoint refuses the token; the second one answers with nothing. -/
def refused : List Reply :=
  [.Response { status := 401, lines := ["denied"] },.Response { status := 200, lines := [] }]

/-- The error of the first endpoint does not end the call. -/
theorem refusal_passed_over : streamCloudCode refused = ([.Done .Stop],none) ∧ ¬ FailsOver refused := by
  have streamed : streamCloudCode refused = ([.Done .Stop],none) := rfl
  refine ⟨streamed,fun failsOver => ?_⟩
  have ends := failsOver.final [] _ _ ⟨rfl,nofun,?_⟩ ⟨rfl,rfl,rfl⟩
  · rw [streamed] at ends
    cases ends
  · rintro (early | ⟨-,isBroken | passed⟩)
    · cases early.1
    · exact isBroken rfl
    · cases passed

end Example

end MyCursor.EndpointFailover

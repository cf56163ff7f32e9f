import MyCursor.Chat
import MyCursor.CheckpointRoundTrip
import MyCursor.Wire

/-!
# The Antigravity adapter

The stream loop of `streamCloudCode` in `plugins/build-in/antigravity-auth/provider.ts`.
Blocks of text and of thinking are opened and closed by flags, every function
call is emitted whole, and the label at the end becomes a finish reason.
-/
namespace MyCursor.Antigravity
open Message Store Run ModelCycle CycleProgress Text Wire
open ProviderEvents (stringOf)
open Chat (nonEmpty)
open CheckpointCodec (Serde object)
open CheckpointRoundTrip (printed printing)
set_option linter.unusedSectionVars false

def lower (c : Char) : Char := if 'A' ≤ c ∧ c ≤ 'Z' then Char.ofNat (c.toNat + 32) else c
/-- How many letters of a tag stand at the beginning: `<think>` or `</think>` in
    any case. -/
def tagLength (letters : List Char) : Nat :=
  if (letters.take 7).map lower = "<think>".toList then 7
  else if (letters.take 8).map lower = "</think>".toList then 8
  else 0
/-- `skip` letters of a tag are still to come. -/
def removeTags (skip : Nat) : List Char → List Char
  | [] => []
  | c :: rest =>
    match skip with
    | skip + 1 => removeTags skip rest
    | 0 =>
      match tagLength (c :: rest) with
      | 0 => c :: removeTags 0 rest
      | more + 1 => removeTags more rest
/-- `text.replace(/<\/?think>/gi, "")`. -/
def clean (text : String) : String := String.ofList (removeTags 0 text.toList)

example : clean "<think>a</THINK><b" = "a<b" := by decide

structure FunctionCall where
  name : String
  args : Option Value
deriving DecidableEq

structure Part where
  text : Option String := none
  thought : Bool := false
  thoughtSignature : Option String := none
  functionCall : Option FunctionCall := none
deriving DecidableEq

structure Chunk where
  usageMetadata : Option ModelUsage := none
  parts : List Part := []
  finishReason : Option String := none
deriving DecidableEq

section Adapter
variable [JavaScript]

def truthy : Value → Bool
  | .Null => false
  | .Bool value => value
  | .Number number => JavaScript.through number ≠ .PosInt 0
  | .String text => text ≠ ""
  | .Array _ | .Object _ => true
def count (usage : Value) (name : String) : Option Number :=
  match Json.get usage name with
  | some (.Number number) => some (JavaScript.through number)
  | _ => none
def readUsageMetadata (usage : Value) : ModelUsage :=
  { inputTokens := count usage "promptTokenCount"
    outputTokens := count usage "candidatesTokenCount"
    totalTokens := count usage "totalTokenCount"
    cacheReadTokens := count usage "cachedContentTokenCount" }

/-- A function call has a name; other values are not of its type. -/
def readCall (value : Value) : Option (Option FunctionCall) :=
  match (Json.get value "functionCall").filter truthy with
  | none => some none
  | some call => (stringOf call "name").map fun name => some ⟨name,Json.get call "args"⟩
def toPart (value : Value) (functionCall : Option FunctionCall) : Part :=
  { text := nonEmpty (stringOf value "text")
    thought := Json.get value "thought" = some (.Bool true)
    thoughtSignature := nonEmpty (stringOf value "thoughtSignature")
    functionCall }
def readPart (value : Value) : Option Part := if value = .Null then none else (readCall value).map (toPart value)

/-- `json.response ?? json`. -/
def responseOf (value : Value) : Value := ((Json.get value "response").filter (· ≠ .Null)).getD value
/-- `candidates?.[0]`. -/
def first : Value → Value
  | .Array values => values.headD .Null
  | candidates => (Json.get candidates "0").getD .Null
def firstCandidate (resp : Value) : Value := ((Json.get resp "candidates").map first).getD .Null
def contentParts (candidate : Value) : Option Value := (Json.get candidate "content").bind (Json.get · "parts")
def readParts (candidate : Value) : Option (List Part) :=
  match (contentParts candidate).filter truthy with
  | none => some []
  | some (.Array parts) => parts.mapM readPart
  | some _ => none
def toChunk (resp : Value) (parts : List Part) : Chunk :=
  { usageMetadata := ((Json.get resp "usageMetadata").filter truthy).map readUsageMetadata
    parts
    finishReason := nonEmpty (stringOf (firstCandidate resp) "finishReason") }
/-- What a chunk carries, if it is of the declared types. -/
def readChunk (value : Value) : Option Chunk :=
  if value = .Null then none
  else
    let resp := responseOf value
    (readParts (firstCandidate resp)).map (toChunk resp)

structure Adapter where
  textStarted : Bool := false
  thinkingStarted : Bool := false
  hasTools : Bool := false
  toolIndex : Nat := 0
  lastThoughtSignature : Option String := none
  finalUsage : Option ModelUsage := none
deriving DecidableEq

def takeText (a : Adapter) (part : Part) : Adapter × List SdkEvent :=
  match part.text with
  | none => (a,[])
  | some text =>
    let cleaned := clean text
    if part.thought then
      if cleaned = "" then (a,[])
      else ({ a with thinkingStarted := true },
        (if a.thinkingStarted then [] else [.ThinkingStart]) ++ [.ThinkingDelta cleaned])
    else
      let ended := if a.thinkingStarted then [SdkEvent.ThinkingEnd] else []
      if cleaned = "" then ({ a with thinkingStarted := false },ended)
      else ({ a with thinkingStarted := false, textStarted := true },
        ended ++ (if a.textStarted then [] else [.TextStart]) ++ [.TextDelta cleaned])

def argsStr (args : Option Value) : String :=
  match args with
  | some (.String text) => text
  | args => JavaScript.stringify ((args.filter truthy).getD (.Object []))
def callId (now index : Nat) : String := s!"call_{now}_{index}"
def closeBlocks (a : Adapter) : List SdkEvent :=
  (if a.thinkingStarted then [.ThinkingEnd] else []) ++ if a.textStarted then [.TextEnd] else []
def emitCall (now : Nat → Nat) (index : Nat) (call : FunctionCall) : List SdkEvent :=
  [.ToolCallStart (.PosInt index) (callId (now index) index) call.name,
    .ToolCallArgumentsDelta (.PosInt index) (argsStr call.args),.ToolCallEnd (.PosInt index)]
def takeCall (now : Nat → Nat) (a : Adapter) (part : Part) : Adapter × List SdkEvent :=
  match part.functionCall with
  | none => (a,[])
  | some call =>
    ({ a with thinkingStarted := false, textStarted := false, hasTools := true, toolIndex := a.toolIndex + 1 },
      closeBlocks a ++ emitCall now a.toolIndex call)

def takePart (now : Nat → Nat) (a : Adapter) (part : Part) : Adapter × List SdkEvent :=
  let a := { a with lastThoughtSignature := part.thoughtSignature.or a.lastThoughtSignature }
  let (a,said) := takeText a part
  let (a,called) := takeCall now a part
  (a,said ++ called)
def takeParts (now : Nat → Nat) (a : Adapter) : List Part → Adapter × List SdkEvent
  | [] => (a,[])
  | part :: rest =>
    let (a,events) := takePart now a part
    let (a,more) := takeParts now a rest
    (a,events ++ more)

section Stream
variable [Serde]

def closing (a : Adapter) : List SdkEvent :=
  closeBlocks a ++ (a.lastThoughtSignature.map fun signature =>
      SdkEvent.ReplayState "antigravity" (object [("thoughtSignature",.String signature)])).toList ++
    (a.finalUsage.map SdkEvent.Usage).toList

def runFrom (now : Nat → Nat) (a : Adapter) : List Chunk → List SdkEvent
  | [] => closing a ++ [.Done (if a.hasTools then .ToolUse else .Stop)]
  | chunk :: rest =>
    let a := { a with finalUsage := chunk.usageMetadata.or a.finalUsage }
    let (a,events) := takeParts now a chunk.parts
    match chunk.finishReason with
    | none => events ++ runFrom now a rest
    | some finishReason =>
      let isTool := finishReason = "STOP" ∧ (a.hasTools ∨ chunk.parts.any (·.functionCall.isSome))
      events ++ (closing a ++ [.Done (if isTool then .ToolUse else .Stop)])

/-- The loop over the parsed lines; `now` is the time at which a call is emitted. -/
def streamCloudCode (now : Nat → Nat) (values : List Value) : Option (List SdkEvent) :=
  (values.mapM readChunk).map (runFrom now {})

end Stream

end Adapter

def partsOf (chunks : List Chunk) : List Part := chunks.flatMap (·.parts)
def said (part : Part) : String := if part.thought then "" else clean (part.text.getD "")
def thought (part : Part) : String := if part.thought then clean (part.text.getD "") else ""
def callsIn (parts : List Part) : List FunctionCall := parts.filterMap (·.functionCall)
def callsOf (chunks : List Chunk) : List FunctionCall := callsIn (partsOf chunks)
def endOf (chunks : List Chunk) : Option String := chunks.getLast?.bind (·.finishReason)

/-- The label, if there is one, stands on the last chunk; the arguments of the
    calls are objects. -/
structure Legal (chunks : List Chunk) : Prop where
  last : ∀ chunk ∈ chunks.dropLast, chunk.finishReason = none
  objects : ∀ call ∈ callsOf chunks, ∃ members, call.args = some (.Object members)

section Conformance
variable [ArgumentText]

/-- The output is accepted or was cut, it was cut as the label has it, and the
    texts and the calls are those of the parts. -/
structure Conforms (chunks : List Chunk) (output : List ModelEvent × Option Error) : Prop where
  finished : output.2 = none
  accepted : Accepts output.1
  cut : .Length ∈ output.1.filterMap doneReason ↔ endOf chunks = some "MAX_TOKENS"
  text : String.join (Lanes.deltas (textLane output.1)) = String.join ((partsOf chunks).map said)
  reasoning : String.join (Lanes.deltas (thinkingLane output.1)) = String.join ((partsOf chunks).map thought)
  calls : ∀ index, ((output.1.filterMap toolStart).filter (·.1 = index)).map (·.2.2) = ((callsOf chunks)[index]?.map (·.name)).toList
  arguments : ∀ index call, (callsOf chunks)[index]? = some call →
    parseArguments call.name (String.join (Lanes.deltas (toolLane index output.1))) = (call.args.getD .Null,none)

variable [JavaScript]

/-- The stream was not cut, a stream with calls ends with the ordinary label or
    without one, and the text that JavaScript writes of the arguments denotes them. -/
structure Ordinary (chunks : List Chunk) : Prop where
  uncut : endOf chunks ≠ some "MAX_TOKENS"
  label : callsOf chunks = [] ∨ endOf chunks = none ∨ endOf chunks = some "STOP"
  kept : ∀ call ∈ callsOf chunks,
    parseArguments call.name (JavaScript.stringify (call.args.getD .Null)) = (call.args.getD .Null,none)

end Conformance

section Reading
variable [Serde] {p q r : Progress}

def Reaches (p : Progress) (events : List SdkEvent) (q : Progress) : Prop :=
  ∃ read, events.map SdkEvent.read = read.map some ∧ Leads p read q

theorem Reaches.nothing (p : Progress) : Reaches p [] p := ⟨[],rfl,rfl⟩
theorem Reaches.one {event : SdkEvent} (read : ModelEvent) (isRead : event.read = some read) (going : p.finish = none)
    (taken : p.Takes read) : Reaches p [event] (p.after read) := ⟨[read],by simp [isRead],going,taken,rfl⟩
theorem Reaches.trans {events more : List SdkEvent} (first : Reaches p events q) (second : Reaches q more r) :
    Reaches p (events ++ more) r := by
  obtain ⟨read,isRead,leads⟩ := first
  obtain ⟨later,isLater,leads'⟩ := second
  exact ⟨read ++ later,by simp [isRead,isLater],leads.trans leads'⟩
theorem Reaches.either {condition : Bool} {events : List SdkEvent} (yes : condition = true → Reaches p events q)
    (no : condition = false → q = p) : Reaches p (if condition then events else []) q := by
  cases condition with
  | true => exact yes rfl
  | false =>
    rw [no rfl]
    exact .nothing p

theorem Reaches.unless {condition : Bool} {events : List SdkEvent} (yes : condition = true → q = p)
    (no : condition = false → Reaches p events q) : Reaches p (if condition then [] else events) q := by
  cases condition with
  | true =>
    rw [yes rfl]
    exact .nothing p
  | false => exact no rfl

theorem closeBlocks_reaches {a : Adapter} (going : p.finish = none) (text : p.text_open = a.textStarted)
    (thinking : p.thinking_open = a.thinkingStarted) :
    Reaches p (closeBlocks a) { p with text_open := false, thinking_open := false } := by
  have thought : Reaches p (if a.thinkingStarted then [.ThinkingEnd] else []) { p with thinking_open := false } := by
    refine .either (fun started => .one .ThinkingEnd rfl going ?_) fun unstarted => ?_
    · exact thinking.trans started
    · rw [← unstarted,← thinking]
  refine thought.trans (.either (fun started => ?_) fun unstarted => ?_)
  · exact .one .TextEnd rfl going (text.trans started)
  · rw [← unstarted,← text]

end Reading

section Run
variable [Serde] [JavaScript] {now : Nat → Nat} {a : Adapter} {parts : List Part} {p : Progress}

def emittedCall (now : Nat → Nat) (index : Nat) (call : FunctionCall) : Tool :=
  ⟨callId (now index) index,call.name,argsStr call.args,true⟩

structure Follows (now : Nat → Nat) (a : Adapter) (parts : List Part) (p : Progress) : Prop where
  named : p.model_call_id ≠ none
  going : p.finish = none
  text_open : p.text_open = a.textStarted
  thinking_open : p.thinking_open = a.thinkingStarted
  text : p.text = String.join (parts.map said)
  reasoning : p.reasoning = String.join (parts.map thought)
  count : a.toolIndex = (callsIn parts).length
  hasTools : a.hasTools = !(callsIn parts).isEmpty
  tools : ∀ index, p.tools index = (callsIn parts)[index]?.map (emittedCall now index)
  replay_state : p.replay_state = none
  usage : p.usage = none

theorem callId_inj {first second i j : Nat} (same : callId first i = callId second j) : i = j := by
  have letters : ∀ m n : Nat, (callId m n).toList = ("call_".toList ++ Nat.toDigits 10 m) ++ '_' :: Nat.toDigits 10 n := by
    intro m n
    have isId : callId m n = "call_" ++ m.repr ++ "_" ++ n.repr := rfl
    rw [isId]
    simp only [String.toList_append,Nat.toList_repr]
    simp
  have lists := congrArg String.toList same
  rw [letters,letters] at lists
  exact numbered_inj (by decide) lists

theorem clean_empty : clean "" = "" := by decide

theorem thinkingEnd_reaches (follows : Follows now a parts p) :
    Reaches p (if a.thinkingStarted then [.ThinkingEnd] else []) { p with thinking_open := false } := by
  refine .either (fun started => .one .ThinkingEnd rfl follows.going ?_) fun unstarted => ?_
  · exact follows.thinking_open.trans started
  · rw [← unstarted,← follows.thinking_open]
theorem thinking_reaches (follows : Follows now a parts p) (text : String) :
    Reaches p ((if a.thinkingStarted then [] else [.ThinkingStart]) ++ [.ThinkingDelta text])
      { p with reasoning := p.reasoning ++ text, thinking_open := true } := by
  have started : Reaches p (if a.thinkingStarted then [] else [.ThinkingStart]) { p with thinking_open := true } := by
    refine .unless (fun started => ?_) fun unstarted => .one .ThinkingStart rfl follows.going ⟨follows.named,?_⟩
    · rw [← started,← follows.thinking_open]
    · exact follows.thinking_open.trans unstarted
  exact started.trans (.one (.ThinkingDelta text) rfl follows.going rfl)
theorem text_reaches (follows : Follows now a parts p) (text : String) :
    Reaches { p with thinking_open := false } ((if a.textStarted then [] else [.TextStart]) ++ [.TextDelta text])
      { p with text := p.text ++ text, text_open := true, thinking_open := false } := by
  have started : Reaches { p with thinking_open := false } (if a.textStarted then [] else [.TextStart])
      { p with text_open := true, thinking_open := false } := by
    refine .unless (fun started => ?_) fun unstarted => .one .TextStart rfl follows.going ⟨follows.named,?_⟩
    · rw [← started,← follows.text_open]
    · exact follows.text_open.trans unstarted
  exact started.trans (.one (.TextDelta text) rfl follows.going rfl)

theorem takeText_reaches (part : Part) (follows : Follows now a parts p) : Reaches p (takeText a part).2 { p with
      text := p.text ++ said part
      reasoning := p.reasoning ++ thought part
      text_open := (takeText a part).1.textStarted
      thinking_open := (takeText a part).1.thinkingStarted } := by
  have texts := follows.text_open
  have thinks := follows.thinking_open
  cases isText : part.text with
  | none =>
    have nothing : said part = "" ∧ thought part = "" := by simp [said,thought,isText,clean_empty]
    simp only [takeText,isText,nothing,String.append_empty,← texts,← thinks]
    exact .nothing p
  | some text =>
    cases isThought : part.thought with
    | true =>
      by_cases empty : clean text = ""
      · simp only [takeText,said,thought,isText,isThought,empty,Option.getD_some,if_true,String.append_empty,← texts,← thinks]
        exact .nothing p
      · simp only [takeText,said,thought,isText,isThought,empty,Option.getD_some,if_true,if_false,String.append_empty,← texts]
        exact thinking_reaches follows (clean text)
    | false =>
      by_cases empty : clean text = ""
      · simp only [takeText,said,thought,isText,isThought,empty,Option.getD_some,Bool.false_eq_true,if_true,if_false,
          String.append_empty,← texts]
        exact thinkingEnd_reaches follows
      · simp only [takeText,said,thought,isText,isThought,empty,Option.getD_some,Bool.false_eq_true,if_false,
          String.append_empty,List.append_assoc]
        exact (thinkingEnd_reaches follows).trans (text_reaches follows (clean text))

theorem emitCall_reaches (now : Nat → Nat) (index : Nat) (call : FunctionCall) (going : p.finish = none) (named : p.model_call_id ≠ none)
    (free : p.tools index = none) (fresh : ∀ other tool, p.tools other = some tool → tool.call_id ≠ callId (now index) index) :
    Reaches p (emitCall now index call) (p.withTool index (some (emittedCall now index call))) := by
  have started : Reaches p [.ToolCallStart (.PosInt index) (callId (now index) index) call.name]
      (p.withTool index (some ⟨callId (now index) index,call.name,"",false⟩)) :=
    .one (.ToolCallStart index (callId (now index) index) call.name) rfl going ⟨named,free,fresh⟩
  have filled : Reaches (p.withTool index (some ⟨callId (now index) index,call.name,"",false⟩))
      [.ToolCallArgumentsDelta (.PosInt index) (argsStr call.args)]
      (p.withTool index (some ⟨callId (now index) index,call.name,argsStr call.args,false⟩)) := by
    refine ⟨[.ToolCallArgumentsDelta index (argsStr call.args)],rfl,?_⟩
    refine (arguments_leads ((withTool_finish p index _).trans going) (withTool_tools p index _) rfl).mpr ?_
    simp [Tool.push]
  have ended : Reaches (p.withTool index (some ⟨callId (now index) index,call.name,argsStr call.args,false⟩))
      [.ToolCallEnd (.PosInt index)] (p.withTool index (some (emittedCall now index call))) := by
    refine ⟨[.ToolCallEnd index],rfl,?_⟩
    refine (end_leads ((withTool_finish p index _).trans going) (withTool_tools p index _) rfl).mpr ?_
    simp [Tool.end,emittedCall]
  exact (started.trans filled).trans ended

theorem callsIn_snoc (parts : List Part) (part : Part) : callsIn (parts ++ [part]) = callsIn parts ++ part.functionCall.toList := by
  cases isCall : part.functionCall <;> simp [callsIn,isCall]
theorem takeText_tools (a : Adapter) (part : Part) :
    (takeText a part).1.toolIndex = a.toolIndex ∧ (takeText a part).1.hasTools = a.hasTools := by
  unfold takeText
  split
  · exact ⟨rfl,rfl⟩
  · dsimp only
    split_ifs <;> exact ⟨rfl,rfl⟩

theorem Follows.free (follows : Follows now a parts p) : p.tools (callsIn parts).length = none := by
  rw [follows.tools]
  simp
theorem Follows.fresh (follows : Follows now a parts p) (other : Nat) (tool : Tool) (known : p.tools other = some tool) :
    tool.call_id ≠ callId (now (callsIn parts).length) (callsIn parts).length := by
  intro same
  rw [follows.tools] at known
  obtain ⟨one,isOne,rfl⟩ := Option.map_eq_some_iff.mp known
  have within : other < (callsIn parts).length := (List.getElem?_eq_some_iff.mp isOne).1
  have sameIndex := callId_inj same
  omega

theorem Follows.part (follows : Follows now a parts p) (part : Part) :
    ∃ q, Reaches p (takePart now a part).2 q ∧ Follows now (takePart now a part).1 (parts ++ [part]) q := by
  have signed : Follows now { a with lastThoughtSignature := part.thoughtSignature.or a.lastThoughtSignature } parts p :=
    ⟨follows.named,follows.going,follows.text_open,follows.thinking_open,follows.text,follows.reasoning,follows.count,
      follows.hasTools,follows.tools,follows.replay_state,follows.usage⟩
  unfold takePart
  generalize ({ a with lastThoughtSignature := part.thoughtSignature.or a.lastThoughtSignature } : Adapter) = a at signed
  have spoken := takeText_reaches part signed
  obtain ⟨sameIndex,sameTools⟩ := takeText_tools a part
  have text : p.text ++ said part = String.join ((parts ++ [part]).map said) := by simp [signed.text]
  have reasoning : p.reasoning ++ thought part = String.join ((parts ++ [part]).map thought) := by simp [signed.reasoning]
  cases isCall : part.functionCall with
  | none =>
    have sameCalls : callsIn (parts ++ [part]) = callsIn parts := by simp [callsIn_snoc,isCall]
    simp only [takeCall,isCall,List.append_nil]
    refine ⟨_,spoken,signed.named,signed.going,rfl,rfl,text,reasoning,?_,?_,?_,signed.replay_state,signed.usage⟩
    · rw [sameCalls,sameIndex,signed.count]
    · rw [sameCalls,sameTools,signed.hasTools]
    · rw [sameCalls]
      exact signed.tools
  | some call =>
    have newCalls : callsIn (parts ++ [part]) = callsIn parts ++ [call] := by simp [callsIn_snoc,isCall]
    have index : (takeText a part).1.toolIndex = (callsIn parts).length := sameIndex.trans signed.count
    have closed := closeBlocks_reaches (p := { p with
      text := p.text ++ said part
      reasoning := p.reasoning ++ thought part
      text_open := (takeText a part).1.textStarted
      thinking_open := (takeText a part).1.thinkingStarted }) signed.going rfl rfl
    have called := emitCall_reaches now (p := { p with
      text := p.text ++ said part
      reasoning := p.reasoning ++ thought part
      text_open := false
      thinking_open := false }) (callsIn parts).length call signed.going signed.named signed.free signed.fresh
    simp only [takeCall,isCall,index]
    refine ⟨_,spoken.trans (closed.trans called),signed.named,signed.going,rfl,rfl,text,reasoning,?_,?_,?_,
      signed.replay_state,signed.usage⟩
    · simp [newCalls]
    · simp [newCalls]
    · intro other
      rw [withTool_apply,newCalls,List.getElem?_append]
      by_cases here : other = (callsIn parts).length
      · subst here
        simp
      · rw [if_neg here,signed.tools]
        by_cases within : other < (callsIn parts).length
        · rw [if_pos within]
        · rw [if_neg within,List.getElem?_eq_none (by omega)]
          simp only [Option.map_none]
          rw [List.getElem?_eq_none (by simp; omega)]
          rfl
theorem Follows.chunk (more : List Part) : ∀ {a : Adapter} {parts : List Part} {p : Progress}, Follows now a parts p →
    ∃ q, Reaches p (takeParts now a more).2 q ∧ Follows now (takeParts now a more).1 (parts ++ more) q := by
  induction more with
  | nil =>
    intro a parts p follows
    exact ⟨p,.nothing p,by rwa [List.append_nil]⟩
  | cons part rest ih =>
    intro a parts p follows
    obtain ⟨q,reaches,follows'⟩ := follows.part part
    obtain ⟨r,reaches',follows''⟩ := ih follows'
    refine ⟨r,reaches.trans reaches',?_⟩
    rwa [List.append_assoc,List.singleton_append] at follows''

theorem closing_reaches (follows : Follows now a parts p) (reason : FinishReason) :
    ∃ q, Reaches p (closing a ++ [.Done reason]) q ∧ q.finish = some reason ∧ q.text = p.text ∧
      q.reasoning = p.reasoning ∧ q.tools = p.tools := by
  have closed := closeBlocks_reaches follows.going follows.text_open follows.thinking_open
  obtain ⟨replay_state,replayed⟩ : ∃ replay_state, Reaches { p with text_open := false, thinking_open := false }
      (a.lastThoughtSignature.map fun signature =>
        SdkEvent.ReplayState "antigravity" (object [("thoughtSignature",.String signature)])).toList
      { p with text_open := false, thinking_open := false, replay_state } := by
    cases a.lastThoughtSignature with
    | none => exact ⟨p.replay_state,.nothing _⟩
    | some signature => exact ⟨_,.one (.ProviderReplayState ⟨"antigravity",_⟩) rfl follows.going follows.replay_state⟩
  obtain ⟨usage,used⟩ : ∃ usage, Reaches { p with text_open := false, thinking_open := false, replay_state }
      (a.finalUsage.map SdkEvent.Usage).toList { p with text_open := false, thinking_open := false, replay_state, usage } := by
    cases a.finalUsage with
    | none => exact ⟨p.usage,.nothing _⟩
    | some usage => exact ⟨_,.one (.Usage (readUsage usage)) rfl follows.going follows.usage⟩
  have ended : ∀ index tool, p.tools index = some tool → tool.ended = true := by
    intro index tool known
    rw [follows.tools] at known
    obtain ⟨call,_,rfl⟩ := Option.map_eq_some_iff.mp known
    rfl
  refine ⟨_,((closed.trans replayed).trans used).trans
    (.one (.Done reason) rfl follows.going ⟨follows.named,rfl,rfl,ended⟩),rfl,rfl,rfl,rfl⟩

def reasonOf (label : Option String) (calls : List FunctionCall) : FinishReason :=
  if (label = none ∨ label = some "STOP") ∧ calls ≠ [] then .ToolUse else .Stop

structure Ends (now : Nat → Nat) (parts : List Part) (label : Option String) (q : Progress) : Prop where
  finish : q.finish = some (reasonOf label (callsIn parts))
  text : q.text = String.join (parts.map said)
  reasoning : q.reasoning = String.join (parts.map thought)
  tools : ∀ index, q.tools index = (callsIn parts)[index]?.map (emittedCall now index)

theorem Follows.ends (follows : Follows now a parts p) (label : Option String) :
    ∃ q, Reaches p (closing a ++ [.Done (reasonOf label (callsIn parts))]) q ∧ Ends now parts label q := by
  obtain ⟨q,reaches,finish,text,reasoning,tools⟩ := closing_reaches follows (reasonOf label (callsIn parts))
  refine ⟨q,reaches,finish,text.trans follows.text,reasoning.trans follows.reasoning,fun index => ?_⟩
  rw [tools,follows.tools]

theorem any_call (parts : List Part) : parts.any (·.functionCall.isSome) = true ↔ callsIn parts ≠ [] := by
  rw [List.any_eq_true]
  constructor
  · rintro ⟨part,member,isCall⟩ none_
    obtain ⟨call,isCall⟩ := Option.isSome_iff_exists.mp isCall
    have called : call ∈ callsIn parts := List.mem_filterMap.mpr ⟨part,member,isCall⟩
    rw [none_] at called
    cases called
  · intro some_
    obtain ⟨call,rest,isCalls⟩ := List.exists_cons_of_ne_nil some_
    have called : call ∈ callsIn parts := by simp [isCalls]
    obtain ⟨part,member,isCall⟩ := List.mem_filterMap.mp called
    exact ⟨part,member,by simp [isCall]⟩

theorem Follows.run {chunks : List Chunk} : ∀ {a : Adapter} {parts : List Part} {p : Progress}, Follows now a parts p →
    (∀ chunk ∈ chunks.dropLast, chunk.finishReason = none) →
    ∃ q, Reaches p (runFrom now a chunks) q ∧ Ends now (parts ++ partsOf chunks) (endOf chunks) q := by
  induction chunks with
  | nil =>
    intro a parts p follows _
    have reason : (if a.hasTools then FinishReason.ToolUse else .Stop) = reasonOf none (callsIn parts) := by
      cases isCalls : callsIn parts <;> simp [reasonOf,follows.hasTools,isCalls]
    rw [runFrom,reason,partsOf,List.flatMap_nil,List.append_nil]
    exact follows.ends none
  | cons chunk rest ih =>
    intro a parts p follows last
    have used : Follows now { a with finalUsage := chunk.usageMetadata.or a.finalUsage } parts p :=
      ⟨follows.named,follows.going,follows.text_open,follows.thinking_open,follows.text,follows.reasoning,follows.count,
        follows.hasTools,follows.tools,follows.replay_state,follows.usage⟩
    obtain ⟨q,reaches,follows'⟩ := used.chunk chunk.parts
    have allParts : parts ++ partsOf (chunk :: rest) = parts ++ chunk.parts ++ partsOf rest := by simp [partsOf]
    cases isLabel : chunk.finishReason with
    | none =>
      have sameEnd : endOf (chunk :: rest) = endOf rest := by cases rest <;> simp [endOf,isLabel]
      have last' : ∀ chunk ∈ rest.dropLast, chunk.finishReason = none := by
        intro other member
        cases rest with
        | nil => cases member
        | cons next rest => exact last other (List.mem_cons_of_mem chunk member)
      obtain ⟨r,reaches',ends⟩ := ih follows' last'
      rw [runFrom,allParts,sameEnd]
      simp only [isLabel]
      exact ⟨r,reaches.trans reaches',ends⟩
    | some label =>
      -- A label ends the loop, so this is the last chunk.
      obtain rfl : rest = [] := by
        cases rest with
        | nil => rfl
        | cons next rest =>
          have missing := last chunk (by simp)
          rw [isLabel] at missing
          cases missing
      have isEnd : endOf [chunk] = some label := by simp [endOf,isLabel]
      have none_left : parts ++ partsOf [chunk] = parts ++ chunk.parts := by simp [partsOf]
      have called : chunk.parts.any (·.functionCall.isSome) = true → callsIn (parts ++ chunk.parts) ≠ [] := by
        intro some_ none_
        rw [callsIn,List.filterMap_append,List.append_eq_nil_iff] at none_
        exact (any_call chunk.parts).mp some_ none_.2
      have reason : (if label = "STOP" ∧ ((takeParts now { a with finalUsage := chunk.usageMetadata.or a.finalUsage }
            chunk.parts).1.hasTools ∨ chunk.parts.any (·.functionCall.isSome)) then FinishReason.ToolUse else .Stop) =
          reasonOf (some label) (callsIn (parts ++ chunk.parts)) := by
        rw [follows'.hasTools,reasonOf]
        refine if_congr ?_ rfl rfl
        constructor
        · rintro ⟨rfl,some_ | some_⟩
          · exact ⟨.inr rfl,by simpa using some_⟩
          · exact ⟨.inr rfl,called some_⟩
        · rintro ⟨isStop,some_⟩
          exact ⟨by simpa using isStop,.inl (by simpa using some_)⟩
      obtain ⟨r,reaches',ends⟩ := follows'.ends (some label)
      rw [runFrom,none_left,isEnd]
      simp only [isLabel]
      rw [reason]
      exact ⟨r,reaches.trans reaches',ends⟩

end Run

section Conformance
variable [ArgumentText] [JavaScript] [Serde] {now : Nat → Nat} {chunks : List Chunk} {q : Progress} {read : List ModelEvent}

theorem argsStr_object {args : Option Value} (isObject : ∃ members, args = some (.Object members)) :
    argsStr args = JavaScript.stringify (args.getD .Null) := by
  obtain ⟨members,rfl⟩ := isObject
  rfl
section
variable (ends : Ends now (partsOf chunks) (endOf chunks) q)
include ends

theorem Ends.some_tools : (∃ index, q.tools index ≠ none) ↔ callsOf chunks ≠ [] := by
  constructor
  · rintro ⟨index,known⟩ none_
    refine known ?_
    rw [ends.tools]
    rw [callsOf] at none_
    simp [none_]
  · intro some_
    obtain ⟨call,rest,isCalls⟩ := List.exists_cons_of_ne_nil some_
    refine ⟨0,?_⟩
    rw [ends.tools]
    rw [callsOf] at isCalls
    simp [isCalls]
/-- A stream ends as its calls have it exactly if its label is the ordinary one, or
    there are none. -/
theorem Ends.accepted : q.Ends ↔ callsOf chunks = [] ∨ endOf chunks = none ∨ endOf chunks = some "STOP" := by
  have finish : q.finish = some (reasonOf (endOf chunks) (callsOf chunks)) := ends.finish
  rw [Progress.Ends,ends.some_tools]
  simp only [finish,Option.some.injEq,exists_eq_left']
  unfold reasonOf
  by_cases none_ : callsOf chunks = []
  · simp [none_]
  · by_cases ordinary : endOf chunks = none ∨ endOf chunks = some "STOP"
    · simp [none_,ordinary]
    · rw [if_neg fun both => ordinary both.1]
      simp [none_,ordinary]
theorem Ends.cut (leads : Leads {} read q) : .Length ∉ read.filterMap doneReason := by
  have finished := leads.finish
  rw [ends.finish,show (({} : Progress).finish).toList = [] from rfl,List.nil_append] at finished
  rw [← finished]
  unfold reasonOf
  split_ifs <;> simp
theorem Ends.arguments (leads : Leads {} read q) (legal : Legal chunks)
    {index : Nat} {call : FunctionCall} (isCall : (callsOf chunks)[index]? = some call) :
    String.join (Lanes.deltas (toolLane index read)) = JavaScript.stringify (call.args.getD .Null) := by
  have filled := leads.arguments index
  rw [ends.tools,← callsOf,isCall] at filled
  rw [← argsStr_object (legal.objects call (List.mem_of_getElem? isCall))]
  simpa [emittedCall] using filled.symm

end

/-- The adapter conforms exactly for ordinary streams. -/
theorem cloud_code_conforms (call_id : String) (now : Nat → Nat) (values : List Value) (chunks : List Chunk)
    (reads : values.mapM readChunk = some chunks) (legal : Legal chunks) :
    (∃ events, streamCloudCode now values = some events ∧ Conforms chunks (stream_model call_id (events,none))) ↔ Ordinary chunks := by
  have started : Follows now {} [] (({} : Progress).after (.Start call_id)) :=
    ⟨Option.some_ne_none call_id,rfl,rfl,rfl,rfl,rfl,rfl,rfl,fun _ => rfl,rfl,rfl⟩
  obtain ⟨q,⟨read,isRead,leads⟩,ends⟩ := started.run legal.last
  rw [List.nil_append] at ends
  have streamed : stream_model call_id (runFrom now {} chunks,none) = (.Start call_id :: read,none) := by
    rw [stream_model,readEvents_all none isRead]
    rfl
  have whole : Leads {} (.Start call_id :: read) q := ⟨rfl,rfl,leads⟩
  have accepted : Accepts (.Start call_id :: read) ↔ callsOf chunks = [] ∨ endOf chunks = none ∨ endOf chunks = some "STOP" := by
    rw [accepts_leads,← ends.accepted]
    refine ⟨?_,fun finished => ⟨q,whole,finished⟩⟩
    rintro ⟨q',whole',finished⟩
    rwa [leads_unique whole whole']
  have emits : (∃ events, streamCloudCode now values = some events ∧ Conforms chunks (stream_model call_id (events,none))) ↔
      Conforms chunks (.Start call_id :: read,none) := by
    rw [streamCloudCode,reads]
    simp [streamed]
  rw [emits]
  constructor
  · intro conforms
    refine ⟨fun isCut => ends.cut whole (conforms.cut.mpr isCut),accepted.mp conforms.accepted,fun call member => ?_⟩
    obtain ⟨index,isCall⟩ := List.mem_iff_getElem?.mp member
    have parsed := conforms.arguments index call isCall
    rwa [ends.arguments whole legal isCall] at parsed
  · intro ordinary
    refine ⟨rfl,accepted.mpr ordinary.label,iff_of_false (ends.cut whole) ordinary.uncut,?_,?_,?_,?_⟩
    · rw [← ends.text,whole.text]
      simp
    · rw [← ends.reasoning,whole.reasoning]
      simp
    · intro index
      have starts := whole.starts index
      rw [ends.tools,← callsOf,show (({} : Progress).tools index) = none from rfl] at starts
      simp only [Option.map_none,Option.toList_none,List.nil_append] at starts
      rw [← starts]
      cases (callsOf chunks)[index]? <;> rfl
    · intro index call isCall
      rw [ends.arguments whole legal isCall]
      exact ordinary.kept call (List.mem_of_getElem? isCall)

end Conformance

def candidateOf (parts : List Value) (label : List (String × Value)) : Value :=
  .Object [("response",.Object [("candidates",.Array
    [.Object (("content",.Object [("parts",.Array parts)]) :: label)])])]
def cut : List Value := [candidateOf [.Object [("text",.String "hi")]] [("finishReason",.String "MAX_TOKENS")]]
def fetch : List Value :=
  [candidateOf [.Object [("thought",.Bool true),("text",.String "<think>hm")]] [],
    candidateOf [.Object [("functionCall",.Object [("name",.String "Read"),("args",.Object [])])]]
      [("finishReason",.String "STOP")]]

section Example
local instance : Serde := printing
local instance : ArgumentText where
  from_str text := if text = "{}" then .ok (.Object []) else .error "expected value at line 1 column 1"
local instance : JavaScript := .plain fun value => String.ofList (printed value)

/-- The stream was cut, and the cycle is accepted as one that came to its end. -/
theorem cut_not_reported : cut.mapM readChunk = some [{ parts := [{ text := some "hi" }], finishReason := some "MAX_TOKENS" }] ∧
      Legal [{ parts := [{ text := some "hi" }], finishReason := some "MAX_TOKENS" }] ∧
      streamCloudCode (fun _ => 0) cut = some [.TextStart,.TextDelta "hi",.TextEnd,.Done .Stop] ∧
      (consume_model_cycle ((stream_model "m" ([.TextStart,.TextDelta "hi",.TextEnd,.Done .Stop],none)).1.map
        fun event => nextEvent (event,0)) none).1 = .ok ⟨"m","hi","",none,[],none,.Stop⟩ ∧
      ¬ ∃ events, streamCloudCode (fun _ => 0) cut = some events ∧
        Conforms [{ parts := [{ text := some "hi" }], finishReason := some "MAX_TOKENS" }] (stream_model "m" (events,none)) := by
  have streamed : streamCloudCode (fun _ => 0) cut = some [.TextStart,.TextDelta "hi",.TextEnd,.Done .Stop] := by decide +kernel
  refine ⟨by decide +kernel,⟨by decide,by simp [callsOf,callsIn,partsOf]⟩,streamed,by decide +kernel,?_⟩
  rintro ⟨events,isEvents,conforms⟩
  obtain rfl := Option.some.inj (streamed.symm.trans isEvents)
  have reported := conforms.cut.mpr rfl
  revert reported
  decide +kernel

theorem cloud_code_conforms_fetch : ∃ events, streamCloudCode (fun _ => 0) fetch = some events ∧
    Conforms [{ parts := [{ text := some "<think>hm", thought := true }] },
        { parts := [{ functionCall := some ⟨"Read",some (.Object [])⟩ }], finishReason := some "STOP" }]
      (stream_model "m" (events,none)) := by
  refine (cloud_code_conforms "m" (fun _ => 0) fetch _ (by decide +kernel) ⟨by decide,?_⟩).mpr ⟨by decide,.inr (.inr rfl),?_⟩
  · simp [callsOf,callsIn,partsOf]
  · decide +kernel

end Example

end MyCursor.Antigravity

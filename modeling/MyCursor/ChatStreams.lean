import MyCursor.Chat

/-!
# What the Chat adapters make of their chunks

Everything that a cycle learns from the loop is said by the chunks alone: the text
and the reasoning are those of the deltas, a call is started with what has come of
its id and its name, and its arguments are all fragments. The map of the tools does
not matter.
-/
namespace MyCursor.Chat
open Message Store Run ModelCycle CycleProgress Text
open CheckpointCodec (Serde object)
open Responses (sliceFrom)
set_option linter.unusedSectionVars false

section Chunks
variable {κ υ : Type} [DecidableEq κ]

def Chunk.tools (chunk : Chunk κ υ) : List (ToolDelta κ) := chunk.choice.elim [] (·.tools)
def Chunk.content (chunk : Chunk κ υ) : String := (chunk.choice.bind (·.content)).getD ""
def Chunk.reasoning (chunk : Chunk κ υ) : String := (chunk.choice.bind (·.reasoning)).getD ""
def Chunk.label (chunk : Chunk κ υ) : Option String := chunk.choice.bind (·.finish_reason)

def deltas (chunks : List (Chunk κ υ)) : List (ToolDelta κ) := chunks.flatMap (·.tools)
def deltasOf (index : κ) (before : List (ToolDelta κ)) : List (ToolDelta κ) := before.filter (·.index = index)
def textOf (chunks : List (Chunk κ υ)) : String := String.join (chunks.map (·.content))
def reasoningOf (chunks : List (Chunk κ υ)) : String := String.join (chunks.map (·.reasoning))
def usageOf (chunks : List (Chunk κ υ)) : Option υ := chunks.foldl (fun usage chunk => chunk.usage.or usage) none

/-- The last finish reason, and whether there was a tool by then. -/
def labelStep (known : Bool × Option (String × Bool)) (chunk : Chunk κ υ) : Bool × Option (String × Bool) :=
  let seen := known.1 || !chunk.tools.isEmpty
  (seen,(chunk.label.map (·,seen)).or known.2)
def labelOf (chunks : List (Chunk κ υ)) : Option (String × Bool) := (chunks.foldl labelStep (false,none)).2

/-- What has come of the id and the name when there is something of both. -/
def openStep (known : String × String) (delta : ToolDelta κ) : String × String :=
  if known.1 ≠ "" ∧ known.2 ≠ "" then known
  else (delta.id.elim known.1 (merge_chat_fragment known.1),delta.name.elim known.2 (merge_chat_fragment known.2))
def opening (own : List (ToolDelta κ)) : String × String := own.foldl openStep ("","")
def opened (own : List (ToolDelta κ)) : Bool := (opening own).1 ≠ "" && (opening own).2 ≠ ""
def argumentsOf (own : List (ToolDelta κ)) : String := String.join (own.map (·.arguments.getD ""))

def mergedId (own : List (ToolDelta κ)) : String :=
  own.foldl (fun known delta => delta.id.elim known (merge_chat_fragment known)) ""
def mergedName (own : List (ToolDelta κ)) : String :=
  own.foldl (fun known delta => delta.name.elim known (merge_chat_fragment known)) ""
def stateOf (own : List (ToolDelta κ)) : ChatToolState :=
  ⟨mergedId own,mergedName own,argumentsOf own,if opened own then (argumentsOf own).length else 0,opened own⟩

theorem argumentsOf_snoc (own : List (ToolDelta κ)) (delta : ToolDelta κ) :
    argumentsOf (own ++ [delta]) = argumentsOf own ++ delta.arguments.getD "" := by
  simp [argumentsOf]
theorem opening_snoc (own : List (ToolDelta κ)) (delta : ToolDelta κ) : opening (own ++ [delta]) = openStep (opening own) delta := by
  simp [opening]
theorem opened_iff (own : List (ToolDelta κ)) : opened own = true ↔ (opening own).1 ≠ "" ∧ (opening own).2 ≠ "" := by
  simp [opened]

variable {own : List (ToolDelta κ)}

theorem opening_append (isOpen : opened own = true) (more : List (ToolDelta κ)) : opening (own ++ more) = opening own := by
  induction more using List.reverseRecOn with
  | nil => rw [List.append_nil]
  | append_singleton more delta ih =>
    rw [← List.append_assoc,opening_snoc,ih,openStep,if_pos ((opened_iff own).mp isOpen)]
theorem opened_append (isOpen : opened own = true) (more : List (ToolDelta κ)) : opened (own ++ more) = true := by
  rw [opened_iff,opening_append isOpen,← opened_iff]
  exact isOpen
theorem unopened (closed : opened own = false) : opening own = (mergedId own,mergedName own) := by
  induction own using List.reverseRecOn with
  | nil => rfl
  | append_singleton own delta ih =>
    have earlier : opened own = false := by
      by_contra isOpen
      rw [Bool.not_eq_false] at isOpen
      rw [opened_append isOpen] at closed
      cases closed
    have both : ¬ ((opening own).1 ≠ "" ∧ (opening own).2 ≠ "") := by
      rw [← opened_iff,earlier]
      decide
    rw [opening_snoc,openStep,if_neg both,ih earlier]
    simp [mergedId,mergedName]

def shown (own : List (ToolDelta κ)) : Option Tool :=
  if opened own then some ⟨(opening own).1,(opening own).2,argumentsOf own,false⟩ else none

def sentFor (index : κ) : (before now : Option Tool) → List (Event κ υ)
  | _, none => []
  | none, some now =>
    .ToolCallStart index now.call_id now.name :: (if now.arguments = "" then [] else [.ToolCallArgumentsDelta index now.arguments])
  | some before, some now =>
    if now.arguments = before.arguments then []
    else [.ToolCallArgumentsDelta index (sliceFrom now.arguments before.arguments.length)]

theorem merged_snoc (own : List (ToolDelta κ)) (delta : ToolDelta κ) : mergeTool delta (stateOf own) = { stateOf own with
      call_id := mergedId (own ++ [delta]), name := mergedName (own ++ [delta]), arguments := argumentsOf (own ++ [delta]) } := by
  simp [mergeTool,stateOf,mergedId,mergedName,argumentsOf_snoc]

theorem sliceFrom_zero (text : String) : sliceFrom text 0 = text := by simp [sliceFrom]
theorem length_pos_iff {text : String} : 0 < text.length ↔ text ≠ "" := by
  rw [Nat.pos_iff_ne_zero,ne_eq,String.length_eq_zero_iff]

theorem updateTool_eq (own : List (ToolDelta κ)) (delta : ToolDelta κ) : updateTool (υ := υ) delta (stateOf own) =
      (stateOf (own ++ [delta]),sentFor delta.index (shown own) (shown (own ++ [delta]))) := by
  unfold updateTool
  rw [merged_snoc]
  cases isOpen : opened own with
  | true =>
    have later := opened_append isOpen [delta]
    have same := opening_append isOpen [delta]
    simp only [startTool,stateOf,isOpen,Bool.not_true,Bool.false_and,Bool.false_eq_true,if_false,if_true,shown,later,same,
      sentFor,List.nil_append]
    by_cases more : delta.arguments.getD "" = ""
    · simp [emitArguments,argumentsOf_snoc,more]
    · simp [emitArguments,argumentsOf_snoc,more,length_pos_iff]
  | false =>
    have both : ¬ ((opening own).1 ≠ "" ∧ (opening own).2 ≠ "") := by
      rw [← opened_iff,isOpen]
      decide
    have next : opening (own ++ [delta]) = (mergedId (own ++ [delta]),mergedName (own ++ [delta])) := by
      rw [opening_snoc,openStep,if_neg both,unopened isOpen]
      simp [mergedId,mergedName]
    by_cases starts : mergedId (own ++ [delta]) ≠ "" ∧ mergedName (own ++ [delta]) ≠ ""
    · have later : opened (own ++ [delta]) = true := by
        rw [opened_iff,next]
        exact starts
      simp only [startTool,stateOf,isOpen,shown,later,next,starts.1,starts.2,sentFor,if_true,Bool.false_eq_true,if_false,
        Bool.not_false,Bool.true_and,ne_eq,not_false_eq_true,decide_true]
      by_cases none_ : argumentsOf (own ++ [delta]) = ""
      · simp [emitArguments,none_]
      · simp [emitArguments,none_,length_pos_iff,sliceFrom_zero]
    · have later : opened (own ++ [delta]) = false := by
        rw [← Bool.not_eq_true,opened_iff,next]
        exact starts
      have unstarted : (decide (mergedId (own ++ [delta]) ≠ "") && decide (mergedName (own ++ [delta]) ≠ "")) = false := by
        rw [← Bool.decide_and,decide_eq_false_iff_not]
        exact starts
      simp only [startTool,emitArguments,stateOf,isOpen,shown,later,sentFor,Bool.not_false,Bool.true_and,unstarted,
        Bool.false_eq_true,if_false,Bool.false_and,List.append_nil]

end Chunks

section Tools
variable [Serde] {p q : Progress} {index : Nat}

theorem start_arguments_leads (call_id name arguments : String) (going : p.finish = none) (named : p.model_call_id ≠ none)
    (free : p.tools index = none) (distinct : p.DistinctIds) :
    Leads p (.ToolCallStart index call_id name :: (if arguments = "" then [] else [.ToolCallArgumentsDelta index arguments])) q ↔
      (p.withTool index (some ⟨call_id,name,arguments,false⟩)).DistinctIds ∧
        q = p.withTool index (some ⟨call_id,name,arguments,false⟩) := by
  have starts := fun q => start_leads (q := q) call_id name going named free distinct
  split_ifs with none_
  · subst none_
    exact starts q
  · rw [← List.singleton_append,leads_append]
    have pushed := distinct_same p index (by rfl : Tool.call_id ⟨call_id,name,arguments,false⟩ = Tool.call_id ⟨call_id,name,"",false⟩)
    constructor
    · rintro ⟨middle,first,second⟩
      obtain ⟨apart,rfl⟩ := (starts middle).mp first
      rw [arguments_leads (by exact going) (withTool_tools _ _ _) rfl,withTool_twice] at second
      simp only [Tool.push,String.empty_append] at second
      exact ⟨pushed.mpr apart,second⟩
    · rintro ⟨apart,rfl⟩
      refine ⟨_,(starts _).mpr ⟨pushed.mp apart,rfl⟩,?_⟩
      rw [arguments_leads (by exact going) (withTool_tools _ _ _) rfl,withTool_twice]
      simp [Tool.push]

theorem shown_append {κ : Type} [DecidableEq κ] {own : List (ToolDelta κ)} {tool : Tool} (known : shown own = some tool)
    (more : List (ToolDelta κ)) :
    shown (own ++ more) = some { tool with arguments := argumentsOf (own ++ more) } := by
  unfold shown at known ⊢
  split_ifs at known with isOpen
  obtain rfl := Option.some.inj known
  rw [if_pos (opened_append isOpen more),opening_append isOpen]

theorem sentFor_leads (own : List (ToolDelta Nat)) (delta : ToolDelta Nat) (going : p.finish = none)
    (named : p.model_call_id ≠ none) (known : p.tools index = shown own) (distinct : p.DistinctIds) :
    Leads p ((sentFor (υ := Usage) index (shown own) (shown (own ++ [delta]))).map yielded) q ↔
      (p.withTool index (shown (own ++ [delta]))).DistinctIds ∧ q = p.withTool index (shown (own ++ [delta])) := by
  cases isShown : shown own with
  | none =>
    rw [isShown] at known
    cases isNow : shown (own ++ [delta]) with
    | none =>
      rw [sentFor,withTool_self known]
      exact ⟨fun same => ⟨distinct,same.symm⟩,fun next => next.2.symm⟩
    | some now =>
      have running : now.ended = false := by
        unfold shown at isNow
        split_ifs at isNow
        rw [← Option.some.inj isNow]
      obtain ⟨call_id,name,arguments,ended⟩ := now
      subst running
      have starts := start_arguments_leads (q := q) call_id name arguments going named known distinct
      simp only [sentFor]
      rw [← starts]
      split_ifs <;> rfl
  | some tool =>
    have isNow := shown_append isShown [delta]
    have running : tool.ended = false ∧ tool.arguments = argumentsOf own := by
      unfold shown at isShown
      split_ifs at isShown
      rw [← Option.some.inj isShown]
      exact ⟨rfl,rfl⟩
    rw [isShown] at known
    rw [argumentsOf_snoc,← running.2] at isNow
    have pushed : some (tool.push (delta.arguments.getD "")) = shown (own ++ [delta]) := by rw [isNow]; rfl
    have apart : (p.withTool index (shown (own ++ [delta]))).DistinctIds := by
      rw [← pushed,distinct_same p index (by rfl : _ = tool.call_id),withTool_self known]
      exact distinct
    rw [isNow,sentFor]
    rw [isNow] at apart pushed
    by_cases more : delta.arguments.getD "" = ""
    · have same : some { tool with arguments := tool.arguments ++ delta.arguments.getD "" } = some tool := by simp [more]
      rw [if_pos (by simp [more]),same,withTool_self known]
      exact ⟨fun leads => ⟨distinct,leads.symm⟩,fun next => next.2.symm⟩
    · have longer : tool.arguments ++ delta.arguments.getD "" ≠ tool.arguments := by simpa using more
      have slice : sliceFrom (tool.arguments ++ delta.arguments.getD "") tool.arguments.length = delta.arguments.getD "" := by
        refine String.toList_inj.mp ?_
        rw [sliceFrom,String.toList_ofList,String.toList_append,← String.length_toList,List.drop_left]
      rw [if_neg longer,slice,← pushed]
      rw [← pushed] at apart
      refine (arguments_leads going known running.1).trans ?_
      exact ⟨fun same => ⟨apart,same⟩,fun next => next.2⟩

end Tools

section Loop
variable {κ υ : Type} [DecidableEq κ] {d : Dialect κ}

structure Lawful (d : Dialect κ) (Keeps : List (κ × ChatToolState) → Prop) : Prop where
  nil : Keeps []
  insert : ∀ index tool tools, Keeps tools → Keeps (d.insert index tool tools)
  distinct : ∀ tools, Keeps tools → Keyed.Distinct tools
  found : ∀ index tool tools other,
    Keyed.lookup (d.insert index tool tools) other = if other = index then some tool else Keyed.lookup tools other

def found (own : List (ToolDelta κ)) : Option ChatToolState := if own.isEmpty then none else some (stateOf own)
theorem found_getD (own : List (ToolDelta κ)) : (found own).getD {} = stateOf own := by
  cases own <;> rfl
theorem found_snoc (own : List (ToolDelta κ)) (delta : ToolDelta κ) : found (own ++ [delta]) = some (stateOf (own ++ [delta])) := by
  simp [found]

theorem deltasOf_snoc (before : List (ToolDelta κ)) (delta : ToolDelta κ) (index : κ) :
    deltasOf index (before ++ [delta]) = if index = delta.index then deltasOf index before ++ [delta] else deltasOf index before := by
  by_cases same : index = delta.index
  · simp [deltasOf,same]
  · simp [deltasOf,same,Ne.symm same]

structure Tracks (Keeps : List (κ × ChatToolState) → Prop) (before : List (ToolDelta κ)) (tools : List (κ × ChatToolState)) : Prop where
  keeps : Keeps tools
  found : ∀ index, Keyed.lookup tools index = found (deltasOf index before)

variable {Keeps : List (κ × ChatToolState) → Prop} {before : List (ToolDelta κ)} {tools : List (κ × ChatToolState)}

theorem Tracks.update (lawful : Lawful d Keeps) (tracks : Tracks Keeps before tools) (delta : ToolDelta κ) :
    Tracks Keeps (before ++ [delta]) (d.insert delta.index (stateOf (deltasOf delta.index before ++ [delta])) tools) := by
  refine ⟨lawful.insert _ _ _ tracks.keeps,fun index => ?_⟩
  rw [lawful.found,tracks.found,deltasOf_snoc]
  split_ifs with same
  · rw [same,found_snoc]
  · rfl
theorem Tracks.empty (tracks : Tracks Keeps before tools) : tools.isEmpty = before.isEmpty := by
  cases before with
  | nil =>
    cases tools with
    | nil => rfl
    | cons entry rest =>
      have missing := tracks.found entry.1
      simp [Keyed.lookup_cons,deltasOf,Chat.found] at missing
  | cons delta rest =>
    cases tools with
    | nil =>
      have present := tracks.found delta.index
      simp [deltasOf,Chat.found] at present
    | cons entry rest => rfl

theorem update_chat_tool_eq {a : Loop κ υ} (tracks : Tracks Keeps before a.tools) (delta : ToolDelta κ) : update_chat_tool d a delta =
      ({ a with tools := d.insert delta.index (stateOf (deltasOf delta.index before ++ [delta])) a.tools },
        sentFor delta.index (shown (deltasOf delta.index before)) (shown (deltasOf delta.index before ++ [delta]))) := by
  unfold update_chat_tool
  rw [tracks.found,found_getD,updateTool_eq]

def runSteps (d : Dialect κ) (a : Loop κ υ) : List (Chunk κ υ) → Loop κ υ × List (Event κ υ)
  | [] => (a,[])
  | chunk :: rest =>
    let (a,events) := step d a chunk
    let (a,more) := runSteps d a rest
    (a,events ++ more)
theorem runSteps_snoc (chunks : List (Chunk κ υ)) (chunk : Chunk κ υ) : ∀ {a : Loop κ υ},
    runSteps d a (chunks ++ [chunk]) =
      ((step d (runSteps d a chunks).1 chunk).1,(runSteps d a chunks).2 ++ (step d (runSteps d a chunks).1 chunk).2) := by
  induction chunks with
  | nil =>
    intro a
    simp [runSteps]
  | cons first rest ih =>
    intro a
    simp [runSteps,ih]
theorem runFrom_eq (chunks : List (Chunk κ υ)) (marked : Bool) : ∀ {a : Loop κ υ}, runFrom d a marked chunks =
    ((runSteps d a chunks).2 ++ (finishLoop d (runSteps d a chunks).1 marked).1,(finishLoop d (runSteps d a chunks).1 marked).2) := by
  induction chunks with
  | nil =>
    intro a
    simp [runSteps,runFrom]
  | cons first rest ih =>
    intro a
    simp [runSteps,runFrom,ih]

structure Follows (d : Dialect κ) (Keeps : List (κ × ChatToolState) → Prop) (chunks : List (Chunk κ υ)) (a : Loop κ υ) : Prop where
  tools : Tracks Keeps (deltas chunks) a.tools
  reasoning : a.reasoning = reasoningOf chunks
  usage : a.final_usage = usageOf chunks
  finish : a.finish = (labelOf chunks).map fun label => d.map_finish label.1 label.2

theorem update_chat_tools_tracks (lawful : Lawful d Keeps) (more : List (ToolDelta κ)) :
    ∀ {a : Loop κ υ} {before : List (ToolDelta κ)}, Tracks Keeps before a.tools →
    ∃ tools, (update_chat_tools d a more).1 = { a with tools } ∧ Tracks Keeps (before ++ more) tools := by
  induction more with
  | nil =>
    intro a before tracks
    exact ⟨a.tools,rfl,by rwa [List.append_nil]⟩
  | cons delta rest ih =>
    intro a before tracks
    have next : Tracks Keeps (before ++ [delta]) (update_chat_tool d a delta).1.tools := by
      rw [update_chat_tool_eq tracks]
      exact tracks.update lawful delta
    obtain ⟨tools,isTools,tracks'⟩ := ih next
    rw [List.append_assoc,List.singleton_append] at tracks'
    refine ⟨tools,?_,tracks'⟩
    rw [update_chat_tool_eq tracks] at isTools
    rw [update_chat_tools]
    simp only [update_chat_tool_eq tracks,isTools]

theorem seen_eq (chunks : List (Chunk κ υ)) : (chunks.foldl labelStep (false,none)).1 = !(deltas chunks).isEmpty := by
  induction chunks using List.reverseRecOn with
  | nil => rfl
  | append_singleton chunks chunk ih =>
    rw [List.foldl_append,List.foldl_cons,List.foldl_nil,labelStep,ih]
    simp only [deltas,List.flatMap_append,List.flatMap_cons,List.flatMap_nil,List.append_nil]
    cases chunks.flatMap (·.tools) <;> simp
theorem labelOf_snoc (chunks : List (Chunk κ υ)) (chunk : Chunk κ υ) :
    labelOf (chunks ++ [chunk]) = (chunk.label.map (·,!(deltas (chunks ++ [chunk])).isEmpty)).or (labelOf chunks) := by
  rw [← seen_eq]
  simp [labelOf,labelStep]

theorem label_seen (chunks : List (Chunk κ υ)) {label : String} (isLabel : labelOf chunks = some (label,true)) :
    (deltas chunks).isEmpty = false := by
  induction chunks using List.reverseRecOn with
  | nil => cases isLabel
  | append_singleton chunks chunk ih =>
    rw [labelOf_snoc] at isLabel
    cases own : chunk.label with
    | none =>
      rw [own] at isLabel
      have earlier := ih isLabel
      have more : deltas (chunks ++ [chunk]) = deltas chunks ++ chunk.tools := by simp [deltas]
      rw [more]
      cases isDeltas : deltas chunks with
      | nil => rw [isDeltas] at earlier; cases earlier
      | cons delta rest => rfl
    | some text =>
      rw [own] at isLabel
      simpa using congrArg (Option.map Prod.snd) isLabel

theorem Follows.step (lawful : Lawful d Keeps) {chunks : List (Chunk κ υ)} {a : Loop κ υ} (follows : Follows d Keeps chunks a)
    (chunk : Chunk κ υ) : Follows d Keeps (chunks ++ [chunk]) (Chat.step d a chunk).1 := by
  have usage : chunk.usage.or a.final_usage = usageOf (chunks ++ [chunk]) := by simp [usageOf,follows.usage]
  cases isChoice : chunk.choice with
  | none =>
    have none_ : chunk.tools = [] := by rw [Chunk.tools,isChoice]; rfl
    have same : deltas (chunks ++ [chunk]) = deltas chunks := by simp [deltas,none_]
    rw [Chat.step,isChoice]
    refine ⟨by rw [same]; exact follows.tools,?_,usage,?_⟩
    · simp [reasoningOf,Chunk.reasoning,isChoice,follows.reasoning]
    · simp [labelOf_snoc,Chunk.label,isChoice,follows.finish]
  | some choice =>
    have own : chunk.tools = choice.tools := by rw [Chunk.tools,isChoice]; rfl
    have next : deltas (chunks ++ [chunk]) = deltas chunks ++ choice.tools := by simp [deltas,own]
    rw [Chat.step,isChoice]
    simp only [Option.elim_some,takeChoice]
    generalize isA : (takeContent (takeReasoning { a with final_usage := chunk.usage.or a.final_usage } choice.reasoning).1
      choice.content).1 = a'
    have sameTools : a'.tools = a.tools := by
      rw [← isA]
      cases choice.reasoning <;> cases choice.content <;> rfl
    have sameUsage : a'.final_usage = chunk.usage.or a.final_usage := by
      rw [← isA]
      cases choice.reasoning <;> cases choice.content <;> rfl
    have sameFinish : a'.finish = a.finish := by
      rw [← isA]
      cases choice.reasoning <;> cases choice.content <;> rfl
    have moreReasoning : a'.reasoning = a.reasoning ++ choice.reasoning.getD "" := by
      rw [← isA]
      cases choice.reasoning <;> cases choice.content <;> simp [takeReasoning,takeContent]
    have before : Tracks Keeps (deltas chunks) a'.tools := by
      rw [sameTools]
      exact follows.tools
    obtain ⟨tools,isTools,tracks⟩ := update_chat_tools_tracks lawful choice.tools before
    rw [isTools]
    refine ⟨by rw [next]; exact tracks,?_,?_,?_⟩
    · rw [moreReasoning,follows.reasoning]
      simp [reasoningOf,Chunk.reasoning,isChoice]
    · rw [← usage]
      exact sameUsage
    · rw [labelOf_snoc,next,tracks.empty,sameFinish,follows.finish,Chunk.label,isChoice]
      cases isLabel : choice.finish_reason <;> simp [isLabel]
theorem follows_run (lawful : Lawful d Keeps) (chunks : List (Chunk κ υ)) : Follows d Keeps chunks (runSteps d {} chunks).1 := by
  induction chunks using List.reverseRecOn with
  | nil => exact ⟨⟨lawful.nil,fun _ => rfl⟩,rfl,rfl,rfl⟩
  | append_singleton chunks chunk ih =>
    rw [runSteps_snoc]
    exact ih.step lawful chunk

end Loop

section Cycle
variable [Serde] {d : Dialect Nat} {Keeps : List (Nat × ChatToolState) → Prop} {q : Progress}

def progressAt (call_id : String) (a : Loop Nat Usage) (text : String) (before : List (ToolDelta Nat)) : Progress :=
  { model_call_id := some call_id, text, reasoning := a.reasoning, text_open := a.text_open, thinking_open := a.thinking_open
    tools := fun index => shown (deltasOf index before) }

theorem progressAt_snoc (call_id : String) (a : Loop Nat Usage) (text : String) (before : List (ToolDelta Nat))
    (delta : ToolDelta Nat) : (progressAt call_id a text before).withTool delta.index (shown (deltasOf delta.index before ++ [delta])) =
      progressAt call_id a text (before ++ [delta]) := by
  have same : Function.update (fun index => shown (deltasOf index before)) delta.index
      (shown (deltasOf delta.index before ++ [delta])) = fun index => shown (deltasOf index (before ++ [delta])) := by
    funext index
    rw [Function.update_apply,deltasOf_snoc]
    split_ifs with here
    · rw [here]
    · rfl
  rw [Progress.withTool,progressAt,progressAt]
  simp only [same]
theorem progressAt_extends (call_id : String) (a a' : Loop Nat Usage) (text text' : String) (before more : List (ToolDelta Nat)) :
    Extends (progressAt call_id a text before) (progressAt call_id a' text' (before ++ more)) := by
  intro index tool known
  have isShown : shown (deltasOf index before) = some tool := known
  have later := shown_append isShown (deltasOf index more)
  refine ⟨{ tool with arguments := argumentsOf (deltasOf index before ++ deltasOf index more) },?_,rfl⟩
  simp only [progressAt,deltasOf,List.filter_append]
  exact later

variable {call_id text : String} {a : Loop Nat Usage} {before : List (ToolDelta Nat)}

theorem tools_lead (lawful : Lawful d Keeps) (more : List (ToolDelta Nat)) : ∀ {a : Loop Nat Usage} {before : List (ToolDelta Nat)},
    Tracks Keeps before a.tools → (progressAt call_id a text before).DistinctIds →
    (Leads (progressAt call_id a text before) ((update_chat_tools d a more).2.map yielded) q ↔
      (progressAt call_id a text (before ++ more)).DistinctIds ∧ q = progressAt call_id a text (before ++ more)) := by
  induction more with
  | nil =>
    intro a before _ distinct
    rw [List.append_nil]
    exact ⟨fun same => ⟨distinct,same.symm⟩,fun next => next.2.symm⟩
  | cons delta rest ih =>
    intro a before tracks distinct
    have first := fun q => sentFor_leads (p := progressAt call_id a text before) (q := q) (deltasOf delta.index before) delta
      rfl (by simp [progressAt]) rfl distinct
    have others := fun apart => ih
      (a := { a with tools := d.insert delta.index (stateOf (deltasOf delta.index before ++ [delta])) a.tools })
      (tracks.update lawful delta) apart
    have shorter : (progressAt call_id a text (before ++ delta :: rest)).DistinctIds →
        (progressAt call_id a text (before ++ [delta])).DistinctIds := by
      intro apart
      have extends_ := progressAt_extends call_id a a text text (before ++ [delta]) rest
      rw [List.append_assoc,List.singleton_append] at extends_
      exact extends_.distinct apart
    simp only [progressAt_snoc] at first
    rw [List.append_assoc,List.singleton_append] at others
    rw [update_chat_tools]
    simp only [update_chat_tool_eq tracks,List.map_append]
    rw [leads_append]
    constructor
    · rintro ⟨middle,one,two⟩
      obtain ⟨apart,rfl⟩ := (first middle).mp one
      exact (others apart).mp two
    · rintro ⟨apart,rfl⟩
      exact ⟨_,(first _).mpr ⟨shorter apart,rfl⟩,(others (shorter apart)).mpr ⟨apart,rfl⟩⟩

theorem reasoning_leads (delta : Option String) : Leads (progressAt call_id a text before) ((takeReasoning a delta).2.map yielded) q ↔
    q = progressAt call_id (takeReasoning a delta).1 text before := by
  have leads : Leads (progressAt call_id a text before) ((takeReasoning a delta).2.map yielded)
      (progressAt call_id (takeReasoning a delta).1 text before) := by
    cases delta with
    | none => rfl
    | some delta =>
      cases isOpen : a.thinking_open <;>
        simp [takeReasoning,isOpen,yielded,Leads,Progress.Takes,Progress.after,progressAt]
  exact ⟨fun leads' => leads_unique leads' leads,fun same => same ▸ leads⟩
theorem content_leads (content : Option String) : Leads (progressAt call_id a text before) ((takeContent a content).2.map yielded) q ↔
    q = progressAt call_id (takeContent a content).1 (text ++ content.getD "") before := by
  have leads : Leads (progressAt call_id a text before) ((takeContent a content).2.map yielded)
      (progressAt call_id (takeContent a content).1 (text ++ content.getD "") before) := by
    cases content with
    | none => simp [takeContent,Leads]
    | some content =>
      cases isThinking : a.thinking_open <;> cases isOpen : a.text_open <;>
        simp [takeContent,isThinking,isOpen,yielded,Leads,Progress.Takes,Progress.after,progressAt]
  exact ⟨fun leads' => leads_unique leads' leads,fun same => same ▸ leads⟩

theorem step_leads (lawful : Lawful d Keeps) (tracks : Tracks Keeps before a.tools) (chunk : Chunk Nat Usage)
    (distinct : (progressAt call_id a text before).DistinctIds) :
    Leads (progressAt call_id a text before) ((step d a chunk).2.map yielded) q ↔
      (progressAt call_id (step d a chunk).1 (text ++ chunk.content) (before ++ chunk.tools)).DistinctIds ∧
        q = progressAt call_id (step d a chunk).1 (text ++ chunk.content) (before ++ chunk.tools) := by
  unfold step
  cases isChoice : chunk.choice with
  | none =>
    have nothing : chunk.content = "" ∧ chunk.tools = [] := by simp [Chunk.content,Chunk.tools,isChoice]
    rw [nothing.1,nothing.2,List.append_nil,String.append_empty]
    exact ⟨fun same => ⟨distinct,same.symm⟩,fun next => next.2.symm⟩
  | some choice =>
    have own : chunk.content = choice.content.getD "" ∧ chunk.tools = choice.tools := by
      simp [Chunk.content,Chunk.tools,isChoice]
    rw [own.1,own.2]
    simp only [Option.elim_some,takeChoice,List.map_append]
    rw [leads_append]
    generalize isUsed : ({ a with final_usage := chunk.usage.or a.final_usage } : Loop Nat Usage) = used
    have sameStart : progressAt call_id a text before = progressAt call_id used text before := by rw [← isUsed]; rfl
    generalize isTaken : (takeContent (takeReasoning used choice.reasoning).1 choice.content).1 = taken
    have sameTools : taken.tools = a.tools := by
      rw [← isTaken,← isUsed]
      cases choice.reasoning <;> cases choice.content <;> rfl
    have tracks' : Tracks Keeps before taken.tools := by rw [sameTools]; exact tracks
    obtain ⟨tools,isTools,_⟩ := update_chat_tools_tracks lawful choice.tools tracks'
    have apart : (progressAt call_id taken (text ++ choice.content.getD "") before).DistinctIds := distinct
    have called := fun q => tools_lead (q := q) lawful choice.tools tracks' apart
    have said : ∀ q, (∃ middle, Leads (progressAt call_id a text before) ((takeReasoning used choice.reasoning).2.map yielded) middle ∧
        Leads middle ((takeContent (takeReasoning used choice.reasoning).1 choice.content).2.map yielded) q) ↔
          q = progressAt call_id taken (text ++ choice.content.getD "") before := by
      intro q
      rw [sameStart,← isTaken]
      constructor
      · rintro ⟨middle,first,second⟩
        obtain rfl := (reasoning_leads _).mp first
        exact (content_leads _).mp second
      · rintro rfl
        exact ⟨_,(reasoning_leads _).mpr rfl,(content_leads _).mpr rfl⟩
    rw [isTools]
    constructor
    · rintro ⟨middle,first,second⟩
      obtain rfl := (said middle).mp (leads_append.mp first)
      exact (called q).mp second
    · intro next
      exact ⟨_,leads_append.mpr ((said _).mpr rfl),(called q).mpr next⟩

theorem loop_leads (call_id : String) (lawful : Lawful d Keeps) (chunks : List (Chunk Nat Usage)) :
    Leads (progressAt call_id {} "" []) ((runSteps d {} chunks).2.map yielded) q ↔
      (progressAt call_id (runSteps d {} chunks).1 (textOf chunks) (deltas chunks)).DistinctIds ∧
        q = progressAt call_id (runSteps d {} chunks).1 (textOf chunks) (deltas chunks) := by
  induction chunks using List.reverseRecOn generalizing q with
  | nil =>
    have apart : (progressAt call_id {} "" []).DistinctIds := fun _ _ _ _ known => by cases known
    exact ⟨fun same => ⟨apart,same.symm⟩,fun next => next.2.symm⟩
  | append_singleton chunks chunk ih =>
    have follows := follows_run lawful chunks
    have more : textOf (chunks ++ [chunk]) = textOf chunks ++ chunk.content ∧
        deltas (chunks ++ [chunk]) = deltas chunks ++ chunk.tools := by simp [textOf,deltas]
    rw [runSteps_snoc,List.map_append,leads_append,more.1,more.2]
    constructor
    · rintro ⟨middle,first,second⟩
      obtain ⟨apart,rfl⟩ := ih.mp first
      exact (step_leads lawful follows.tools chunk apart).mp second
    · intro next
      have apart := (progressAt_extends call_id (runSteps d {} chunks).1 _ (textOf chunks) _ (deltas chunks) chunk.tools).distinct next.1
      exact ⟨_,ih.mpr ⟨apart,rfl⟩,(step_leads lawful follows.tools chunk apart).mpr next⟩

def endedAs (d : Dialect Nat) (index : Nat) (own : List (ToolDelta Nat)) : Tool :=
  ⟨if (opening own).1 = "" then "call-" ++ d.label index else (opening own).1,(opening own).2,argumentsOf own,true⟩

theorem named_iff (own : List (ToolDelta Nat)) :
    (!(stateOf own).started && decide ((stateOf own).name = "")) = false ↔ (opening own).2 ≠ "" := by
  cases isOpen : opened own with
  | true => simpa [stateOf,isOpen] using ((opened_iff own).mp isOpen).2
  | false => simp [stateOf,isOpen,unopened isOpen]

theorem entry_leads {p : Progress} {index : Nat} {own : List (ToolDelta Nat)} (going : p.finish = none)
    (named : p.model_call_id ≠ none) (known : p.tools index = shown own) (distinct : p.DistinctIds) :
    Leads p ((lateStart d index (stateOf own) ++ [Event.ToolCallEnd index]).map yielded) q ↔
      (p.withTool index (some (endedAs d index own))).DistinctIds ∧ q = p.withTool index (some (endedAs d index own)) := by
  cases isOpen : opened own with
  | true =>
    have both := (opened_iff own).mp isOpen
    have isShown : shown own = some ⟨(opening own).1,(opening own).2,argumentsOf own,false⟩ := by rw [shown,if_pos isOpen]
    have isEnded : endedAs d index own = Tool.end ⟨(opening own).1,(opening own).2,argumentsOf own,false⟩ := by
      simp [endedAs,Tool.end,both.1]
    have apart : (p.withTool index (some (endedAs d index own))).DistinctIds := by
      have sameId : (endedAs d index own).call_id = Tool.call_id ⟨(opening own).1,(opening own).2,argumentsOf own,false⟩ := by
        rw [isEnded]
        rfl
      rw [distinct_same p index sameId,withTool_self (known.trans isShown)]
      exact distinct
    have ends := end_leads (q := q) going (known.trans isShown) rfl
    rw [lateStart,stateOf,if_pos isOpen]
    refine ends.trans ?_
    rw [← isEnded]
    exact ⟨fun same => ⟨apart,same⟩,fun next => next.2⟩
  | false =>
    have free : p.tools index = none := by rw [known,shown,isOpen]; rfl
    have isState : (stateOf own).call_id = (opening own).1 ∧ (stateOf own).name = (opening own).2 := by
      rw [unopened isOpen]
      exact ⟨rfl,rfl⟩
    have starts := fun q => start_arguments_leads (q := q) (endedAs d index own).call_id (opening own).2 (argumentsOf own)
      going named free distinct
    have isStart : (lateStart (υ := Usage) d index (stateOf own)).map yielded =
        .ToolCallStart index (endedAs d index own).call_id (opening own).2 ::
          (if argumentsOf own = "" then [] else [.ToolCallArgumentsDelta index (argumentsOf own)]) := by
      unfold lateStart
      have unstarted : (stateOf own).started = false := isOpen
      rw [unstarted,isState.1,isState.2]
      simp only [Bool.false_eq_true,if_false,List.map_cons,yielded,endedAs]
      have isArguments : (stateOf own).arguments = argumentsOf own := rfl
      rw [isArguments]
      split_ifs <;> rfl
    have same := distinct_same p index (by rfl : (endedAs d index own).call_id = Tool.call_id
      ⟨(endedAs d index own).call_id,(opening own).2,argumentsOf own,false⟩)
    rw [List.map_append,isStart,leads_append]
    constructor
    · rintro ⟨middle,first,second⟩
      obtain ⟨apart,rfl⟩ := (starts middle).mp first
      refine ⟨same.mpr apart,?_⟩
      have ended := (end_leads (by exact going) (withTool_tools _ _ _) rfl).mp second
      rwa [withTool_twice] at ended
    · rintro ⟨apart,rfl⟩
      refine ⟨_,(starts _).mpr ⟨same.mp apart,rfl⟩,?_⟩
      have running : Tool.ended ⟨(endedAs d index own).call_id,(opening own).2,argumentsOf own,false⟩ = false := rfl
      refine (end_leads (by exact going) (withTool_tools _ _ _) running).mpr ?_
      rw [withTool_twice]
      rfl

def endAll (d : Dialect Nat) (before : List (ToolDelta Nat)) (p : Progress) (indices : List Nat) : Progress :=
  { p with tools := fun index => if index ∈ indices then some (endedAs d index (deltasOf index before)) else p.tools index }

theorem endAll_cons (p : Progress) (index : Nat) (rest : List Nat) (free : index ∉ rest) :
    endAll d before (p.withTool index (some (endedAs d index (deltasOf index before)))) rest = endAll d before p (index :: rest) := by
  have same : (fun other => if other ∈ rest then some (endedAs d other (deltasOf other before))
      else (p.withTool index (some (endedAs d index (deltasOf index before)))).tools other) =
      fun other => if other ∈ index :: rest then some (endedAs d other (deltasOf other before)) else p.tools other := by
    funext other
    rw [withTool_apply]
    by_cases here : other = index
    · subst here
      simp [free]
    · simp [here]
  unfold endAll
  rw [same]
  rfl
theorem endAll_extends (p : Progress) (indices : List Nat)
    (known : ∀ index ∈ indices, ∀ tool, p.tools index = some tool → tool.call_id = (endedAs d index (deltasOf index before)).call_id) :
    Extends p (endAll d before p indices) := by
  intro index tool isTool
  by_cases here : index ∈ indices
  · exact ⟨_,if_pos here,(known index here tool isTool).symm⟩
  · exact ⟨tool,(if_neg here).trans isTool,rfl⟩
theorem shown_id {own : List (ToolDelta Nat)} {tool : Tool} (known : shown own = some tool) (index : Nat) :
    tool.call_id = (endedAs d index own).call_id := by
  unfold shown at known
  split_ifs at known with isOpen
  have both := (opened_iff own).mp isOpen
  rw [← Option.some.inj known,endedAs,if_neg both.1]

def ending (d : Dialect Nat) (entry : Nat × ChatToolState) : List (Event Nat Usage) :=
  lateStart d entry.1 entry.2 ++ [.ToolCallEnd entry.1]
theorem closeTools_eq (todo : List (Nat × ChatToolState))
    (named : ∀ entry ∈ todo, (!entry.2.started && decide (entry.2.name = "")) = false) :
    closeTools d todo = (todo.flatMap (ending d),none) := by
  induction todo with
  | nil => rfl
  | cons entry rest ih =>
    rw [closeTools,named entry List.mem_cons_self,ih fun other member => named other (List.mem_cons_of_mem _ member)]
    simp [ending]
theorem closeTools_fails (todo : List (Nat × ChatToolState)) {entry : Nat × ChatToolState} (member : entry ∈ todo)
    (unnamed : (!entry.2.started && decide (entry.2.name = "")) = true) : (closeTools (υ := Usage) d todo).2 ≠ none := by
  induction todo with
  | nil => cases member
  | cons first rest ih =>
    rw [closeTools]
    split_ifs with stops
    · simp
    · rcases List.mem_cons.mp member with rfl | later
      · exact absurd unnamed stops
      · exact ih later

theorem endings_lead (todo : List (Nat × ChatToolState)) : ∀ {p : Progress}, p.finish = none → p.model_call_id ≠ none →
    Keyed.Distinct todo →
    (∀ entry ∈ todo, entry.2 = stateOf (deltasOf entry.1 before) ∧ p.tools entry.1 = shown (deltasOf entry.1 before)) →
    p.DistinctIds →
    (Leads p ((todo.flatMap (ending d)).map yielded) q ↔
      (endAll d before p (todo.map (·.1))).DistinctIds ∧ q = endAll d before p (todo.map (·.1))) := by
  induction todo with
  | nil =>
    intro p going named _ _ distinct
    have same : endAll d before p [] = p := by simp [endAll]
    rw [List.map_nil,same]
    exact ⟨fun leads => ⟨distinct,leads.symm⟩,fun next => next.2.symm⟩
  | cons entry rest ih =>
    obtain ⟨index,tool⟩ := entry
    intro p going named apart known distinct
    obtain ⟨isTool,isShown⟩ := known _ List.mem_cons_self
    dsimp only at isTool isShown
    subst isTool
    rw [Keyed.Distinct,List.map_cons,List.nodup_cons] at apart
    have first := fun q => entry_leads (d := d) (q := q) going named isShown distinct
    have remain : ∀ entry ∈ rest, entry.2 = stateOf (deltasOf entry.1 before) ∧
        (p.withTool index (some (endedAs d index (deltasOf index before)))).tools entry.1 = shown (deltasOf entry.1 before) := by
      intro entry member
      obtain ⟨isTool,isShown⟩ := known entry (List.mem_cons_of_mem _ member)
      have different : entry.1 ≠ index := by
        intro same
        exact apart.1 (same ▸ List.mem_map_of_mem (f := (·.1)) member)
      exact ⟨isTool,by rw [withTool_apply,if_neg different,isShown]⟩
    have others := fun apart' => ih (p := p.withTool index (some (endedAs d index (deltasOf index before)))) going named
      apart.2 remain apart'
    have earlier : (endAll d before p (index :: rest.map (·.1))).DistinctIds →
        (p.withTool index (some (endedAs d index (deltasOf index before)))).DistinctIds := by
      intro all
      rw [← endAll_cons p index _ apart.1] at all
      refine (endAll_extends _ _ ?_).distinct all
      intro other member tool isTool
      obtain ⟨entry,isEntry,rfl⟩ := List.mem_map.mp member
      rw [(remain entry isEntry).2] at isTool
      exact shown_id isTool entry.1
    rw [endAll_cons p index _ apart.1] at others
    rw [List.map_cons,List.flatMap_cons,List.map_append,leads_append]
    constructor
    · rintro ⟨middle,one,two⟩
      obtain ⟨apart',rfl⟩ := (first middle).mp one
      exact (others apart').mp two
    · intro next
      exact ⟨_,(first _).mpr ⟨earlier next.1,rfl⟩,(others (earlier next.1)).mpr next⟩

def toolsOf (d : Dialect Nat) (chunks : List (Chunk Nat Usage)) (index : Nat) : Option Tool :=
  let own := deltasOf index (deltas chunks)
  if own.isEmpty then none else some (endedAs d index own)
theorem toolsOf_none {chunks : List (Chunk Nat Usage)} {index : Nat} :
    toolsOf d chunks index = none ↔ deltasOf index (deltas chunks) = [] := by
  unfold toolsOf
  cases deltasOf index (deltas chunks) <;> simp
theorem some_tools {chunks : List (Chunk Nat Usage)} : (∃ index, toolsOf d chunks index ≠ none) ↔ deltas chunks ≠ [] := by
  constructor
  · rintro ⟨index,known⟩ none_
    refine known (toolsOf_none.mpr ?_)
    rw [none_]
    rfl
  · intro some_
    obtain ⟨delta,rest,isDeltas⟩ := List.exists_cons_of_ne_nil some_
    refine ⟨delta.index,fun none_ => ?_⟩
    have missing := toolsOf_none.mp none_
    rw [isDeltas] at missing
    simp [deltasOf] at missing

def reasonOf (d : Dialect Nat) (chunks : List (Chunk Nat Usage)) (marked : Bool) : Option FinishReason :=
  ((labelOf chunks).map fun label => d.map_finish label.1 label.2).or
    (if marked then some (if (deltas chunks).isEmpty then .Stop else .ToolUse) else none)
def made (call_id : String) (d : Dialect Nat) (chunks : List (Chunk Nat Usage)) (reason : FinishReason) : Progress :=
  { model_call_id := some call_id, text := textOf chunks, reasoning := reasoningOf chunks, tools := toolsOf d chunks
    replay_state := if reasoningOf chunks = "" then none else some (replayState (reasoningOf chunks))
    usage := usageOf chunks, finish := some reason }
@[simp] theorem made_tools (call_id : String) (d : Dialect Nat) (chunks : List (Chunk Nat Usage)) (reason : FinishReason) :
    (made call_id d chunks reason).tools = toolsOf d chunks := rfl
def Named (chunks : List (Chunk Nat Usage)) : Prop :=
  ∀ index, deltasOf index (deltas chunks) ≠ [] → (opening (deltasOf index (deltas chunks))).2 ≠ ""

theorem Tracks.entry {tools : List (Nat × ChatToolState)} (lawful : Lawful d Keeps) (tracks : Tracks Keeps before tools)
    {entry : Nat × ChatToolState} : entry ∈ tools ↔ deltasOf entry.1 before ≠ [] ∧ entry.2 = stateOf (deltasOf entry.1 before) := by
  rw [Keyed.mem_iff (lawful.distinct _ tracks.keeps) entry.1 entry.2,tracks.found,Chat.found]
  cases deltasOf entry.1 before with
  | nil => simp
  | cons delta rest => simp [eq_comm]

theorem run_ok (lawful : Lawful d Keeps) (chunks : List (Chunk Nat Usage)) (marked : Bool) :
    (runFrom d {} marked chunks).2 = none ↔ Named chunks ∧ (reasonOf d chunks marked).isSome = true := by
  have follows := follows_run lawful chunks
  have isReason : finalReason (runSteps d {} chunks).1 marked = reasonOf d chunks marked := by
    rw [finalReason,follows.finish,follows.tools.empty]
    rfl
  rw [runFrom_eq]
  by_cases named : Named chunks
  · have all : ∀ entry ∈ (runSteps d {} chunks).1.tools, (!entry.2.started && decide (entry.2.name = "")) = false := by
      intro entry member
      obtain ⟨some_,isState⟩ := (follows.tools.entry lawful).mp member
      rw [isState,named_iff]
      exact named entry.1 some_
    rw [finishLoop,closeTools_eq _ all,isReason]
    cases reasonOf d chunks marked <;> simp [named]
  · refine iff_of_false ?_ fun fine => named fine.1
    unfold Named at named
    push Not at named
    obtain ⟨index,some_,unnamed⟩ := named
    have member : (index,stateOf (deltasOf index (deltas chunks))) ∈ (runSteps d {} chunks).1.tools :=
      (follows.tools.entry lawful).mpr ⟨some_,rfl⟩
    have stops : (closeTools (υ := Usage) d (runSteps d {} chunks).1.tools).2 ≠ none := by
      refine closeTools_fails _ member ?_
      rw [← Bool.not_eq_false,named_iff,unnamed]
      simp
    obtain ⟨error,isError⟩ := Option.ne_none_iff_exists'.mp stops
    rw [finishLoop]
    rcases isClosed : closeTools (υ := Usage) d (runSteps d {} chunks).1.tools with ⟨ended,ending⟩
    rw [isClosed] at isError
    obtain rfl : ending = some error := isError
    simp

def closing (a : Loop Nat Usage) : List (Event Nat Usage) :=
  (if a.thinking_open then [.ThinkingEnd] else []) ++ (if a.text_open then [.TextEnd] else [])
def closedAt (call_id : String) (a : Loop Nat Usage) (text : String) (before : List (ToolDelta Nat)) : Progress :=
  { progressAt call_id a text before with text_open := false, thinking_open := false }
theorem closing_leads : Leads (progressAt call_id a text before) ((closing a).map yielded) q ↔ q = closedAt call_id a text before := by
  have leads : Leads (progressAt call_id a text before) ((closing a).map yielded)
      (closedAt call_id a text before) := by
    cases isThinking : a.thinking_open <;> cases isOpen : a.text_open <;>
      simp [closing,closedAt,isThinking,isOpen,yielded,Leads,Progress.Takes,Progress.after,progressAt]
  exact ⟨fun leads' => leads_unique leads' leads,fun same => same ▸ leads⟩

def telling (usage : Option Usage) (reasoning : String) (reason : FinishReason) : List (Event Nat Usage) :=
  usage.toList.map .Usage ++ (if reasoning = "" then [] else [.Replay reasoning]) ++ [.Done reason]
theorem telling_leads {p : Progress} (going : p.finish = none) (named : p.model_call_id ≠ none) (text : p.text_open = false)
    (thinking : p.thinking_open = false) (tools : ∀ index tool, p.tools index = some tool → tool.ended = true)
    (unused : p.usage = none) (fresh : p.replay_state = none) (usage : Option Usage) (reasoning : String) (reason : FinishReason) :
    Leads p ((telling usage reasoning reason).map yielded) q ↔
      q = { p with usage, replay_state := if reasoning = "" then none else some (replayState reasoning), finish := some reason } := by
  have leads : Leads p ((telling usage reasoning reason).map yielded)
      { p with usage, replay_state := if reasoning = "" then none else some (replayState reasoning), finish := some reason } := by
    obtain ⟨model_call_id,isText,isReasoning,text_open,thinking_open,isTools,replay_state,isUsage,finish⟩ := p
    simp only at going text thinking unused fresh
    subst going text thinking unused fresh
    have done : ∀ index tool, isTools index = some tool → tool.ended = true := tools
    cases usage <;> by_cases none_ : reasoning = "" <;>
      simp [telling,none_,yielded,Leads,Progress.Takes,Progress.after] <;> exact ⟨named,done⟩
  exact ⟨fun leads' => leads_unique leads' leads,fun same => same ▸ leads⟩

theorem run_leads (lawful : Lawful d Keeps) (call_id : String) (chunks : List (Chunk Nat Usage)) (marked : Bool)
    (named : Named chunks) {reason : FinishReason} (isReason : reasonOf d chunks marked = some reason) :
    Leads {} (.Start call_id :: (runFrom d {} marked chunks).1.map yielded) q ↔
      (made call_id d chunks reason).DistinctIds ∧ q = made call_id d chunks reason := by
  have follows := follows_run lawful chunks
  generalize isRun : runSteps d {} chunks = run at follows
  obtain ⟨a,events⟩ := run
  dsimp only at follows
  have isFinal : finalReason a marked = some reason := by
    rw [finalReason,follows.finish,follows.tools.empty]
    exact isReason
  have all : ∀ entry ∈ a.tools, (!entry.2.started && decide (entry.2.name = "")) = false := by
    intro entry member
    obtain ⟨some_,isState⟩ := (follows.tools.entry lawful).mp member
    rw [isState,named_iff]
    exact named entry.1 some_
  have isOutput : (runFrom d {} marked chunks).1 =
      events ++ (closing a ++ (a.tools.flatMap (ending d) ++ telling (usageOf chunks) (reasoningOf chunks) reason)) := by
    rw [runFrom_eq,isRun,finishLoop,closeTools_eq _ all,isFinal]
    simp [closing,telling,follows.usage,follows.reasoning]
  have begins : Leads {} (.Start call_id :: (runFrom d {} marked chunks).1.map yielded) q ↔
      Leads (progressAt call_id {} "" []) ((runFrom d {} marked chunks).1.map yielded) q :=
    ⟨fun leads => leads.2.2,fun leads => ⟨rfl,rfl,leads⟩⟩
  have loop := fun q => loop_leads (q := q) call_id lawful chunks
  rw [isRun] at loop
  have known : ∀ entry ∈ a.tools, entry.2 = stateOf (deltasOf entry.1 (deltas chunks)) ∧
      (closedAt call_id a (textOf chunks) (deltas chunks)).tools entry.1 = shown (deltasOf entry.1 (deltas chunks)) := by
    intro entry member
    exact ⟨((follows.tools.entry lawful).mp member).2,rfl⟩
  have ends := fun q apart => endings_lead (d := d) (q := q) a.tools (p := closedAt call_id a (textOf chunks) (deltas chunks))
    rfl (by simp [closedAt,progressAt]) (lawful.distinct _ follows.tools.keeps) known apart
  have isEnded : endAll d (deltas chunks) (closedAt call_id a (textOf chunks) (deltas chunks)) (a.tools.map (·.1)) =
      { model_call_id := some call_id, text := textOf chunks, reasoning := reasoningOf chunks, tools := toolsOf d chunks } := by
    have sameTools : (fun index => if index ∈ a.tools.map (·.1) then some (endedAs d index (deltasOf index (deltas chunks)))
        else shown (deltasOf index (deltas chunks))) = toolsOf d chunks := by
      funext index
      have isKey : index ∈ a.tools.map (·.1) ↔ deltasOf index (deltas chunks) ≠ [] := by
        rw [List.mem_map]
        constructor
        · rintro ⟨entry,member,rfl⟩
          exact ((follows.tools.entry lawful).mp member).1
        · intro some_
          exact ⟨(index,stateOf (deltasOf index (deltas chunks))),(follows.tools.entry lawful).mpr ⟨some_,rfl⟩,rfl⟩
      unfold toolsOf
      by_cases none_ : deltasOf index (deltas chunks) = []
      · rw [if_neg fun member => isKey.mp member none_,none_]
        rfl
      · rw [if_pos (isKey.mpr none_)]
        simp [none_]
    simp only [endAll,closedAt,progressAt,sameTools,follows.reasoning]
  simp only [isEnded] at ends
  have tells := fun q => telling_leads (q := q)
    (p := { model_call_id := some call_id, text := textOf chunks, reasoning := reasoningOf chunks, tools := toolsOf d chunks })
    rfl (by simp) rfl rfl (by
      intro index tool isTool
      simp only [toolsOf] at isTool
      split_ifs at isTool
      rw [← Option.some.inj isTool]
      rfl) rfl rfl (usageOf chunks) (reasoningOf chunks) reason
  rw [begins,isOutput,List.map_append,List.map_append,List.map_append,leads_append]
  constructor
  · rintro ⟨looped,first,rest⟩
    obtain ⟨apart,rfl⟩ := (loop looped).mp first
    obtain ⟨closed,second,rest⟩ := leads_append.mp rest
    obtain rfl := closing_leads.mp second
    obtain ⟨ended,third,fourth⟩ := leads_append.mp rest
    obtain ⟨distinct,rfl⟩ := (ends _ apart).mp third
    exact ⟨distinct,(tells q).mp fourth⟩
  · rintro ⟨distinct,rfl⟩
    have apart : (progressAt call_id a (textOf chunks) (deltas chunks)).DistinctIds := by
      have extends_ := endAll_extends (d := d) (closedAt call_id a (textOf chunks) (deltas chunks)) (a.tools.map (·.1))
        fun index _ tool isTool => shown_id isTool index
      rw [isEnded] at extends_
      exact extends_.distinct distinct
    refine ⟨_,(loop _).mpr ⟨apart,rfl⟩,leads_append.mpr ⟨_,closing_leads.mpr rfl,leads_append.mpr ⟨_,?_,(tells _).mpr rfl⟩⟩⟩
    exact (ends _ apart).mpr ⟨distinct,rfl⟩

end Cycle

end MyCursor.Chat

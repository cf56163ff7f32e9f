import MyCursor.ChatStreams
import MyCursor.ResponsesConformance

/-!
# Conformance of the built-in Chat adapter

What a stream of chunks means is given by the whole ids and names of its tools;
these come once, repeatedly, or in pieces. The adapter merges pieces by their
beginnings and ends and starts a call as soon as there is something of both. The
stream conforms exactly if nothing is missing then.
-/
namespace MyCursor.Chat
open Message Store Run ModelCycle CycleProgress Text
open ProviderEvents (Source stringOf provider_event_error)
open CheckpointCodec (Serde object)
open CheckpointRoundTrip (printed printing)
set_option linter.unusedSectionVars false

/-- The whole id and the whole name of a tool. -/
structure Meant where
  id : String
  name : String
deriving DecidableEq

def deltaOf (value : Value) : Value := member ((firstChoice value).getD .Null) "delta"
def contentOf (value : Value) : String := (stringOf (deltaOf value) "content").getD ""
def thoughtOf (value : Value) : String :=
  ((stringOf (deltaOf value) "reasoning_content").or (stringOf (deltaOf value) "reasoning")).getD ""
def ownDeltas (values : List Value) (index : Nat) : List (ToolDelta Nat) := deltasOf index (deltas (values.map readChunk))

/-- A text is sent once, repeated in full, or split into pieces. -/
def Sent (whole : String) (pieces : List String) : Prop :=
  whole ≠ "" ∧ ((∃ times, pieces = List.replicate (times + 1) whole) ∨ String.join pieces = whole)

/-- A stream in which every tool delta carries its index. -/
structure Legal (meant : List (Nat × Meant)) (values : List Value) : Prop where
  indexed : ∀ value ∈ values, ∀ tool ∈ toolCalls (deltaOf value), (Json.get tool "index").bind Json.as_u64 ≠ none
  keys : Keyed.Distinct meant
  tools : ∀ index, index ∈ meant.map (·.1) ↔ ownDeltas values index ≠ []
  sent : ∀ index one, (index,one) ∈ meant →
    Sent one.id ((ownDeltas values index).filterMap (·.id)) ∧ Sent one.name ((ownDeltas values index).filterMap (·.name))
  distinct : (meant.map (·.2.id)).Nodup

section Conformance
variable [ArgumentText]

/-- The output is accepted, the calls have their whole ids and names, and all texts
    are those of the deltas. -/
structure Conforms (meant : List (Nat × Meant)) (values : List Value) (output : List ModelEvent × Option Error) : Prop where
  finished : output.2 = none
  accepted : Accepts output.1
  calls : ∀ index one, (index,one) ∈ meant → (output.1.filterMap toolStart).filter (·.1 = index) = [(index,one.id,one.name)]
  distinct : ((output.1.filterMap toolStart).map (·.2.1)).Nodup
  arguments : ∀ index, String.join (Lanes.deltas (toolLane index output.1)) =
    String.join ((ownDeltas values index).map (·.arguments.getD ""))
  text : String.join (Lanes.deltas (textLane output.1)) = String.join (values.map contentOf)
  reasoning : String.join (Lanes.deltas (thinkingLane output.1)) = String.join (values.map thoughtOf)

end Conformance

/-- A finish reason that agrees with the tools; an ordinary one comes after the
    first delta of a tool, if there is one. -/
def Fits (label : String) (seen tools : Bool) : Prop :=
  if label = "tool_calls" ∨ label = "function_call" then tools = true
  else if label = "length" then True
  else if label = "content_filter" then tools = false
  else tools = true → seen = true
/-- The reasoning stands behind a field that is not a text. -/
def Hidden (value : Value) : Prop :=
  (∃ other, Json.get (deltaOf value) "reasoning_content" = some other ∧ Json.as_str other = none) ∧
    ∃ text, text ≠ "" ∧ stringOf (deltaOf value) "reasoning" = some text

/-- When there first is something of the id and of the name, the pieces merge into
    all of both; no reasoning is hidden; and the end agrees with the tools. -/
structure Plain (meant : List (Nat × Meant)) (values : List Value) (marked : Bool) : Prop where
  whole : ∀ index one, (index,one) ∈ meant → opening (ownDeltas values index) = (one.id,one.name)
  reasoning : ∀ value ∈ values, ¬ Hidden value
  ends : (labelOf (values.map readChunk)).elim (marked = true) fun label => Fits label.1 label.2 !meant.isEmpty

theorem merge_empty {target fragment : String} (none_ : merge_chat_fragment target fragment = "") : target = "" ∧ fragment = "" := by
  unfold merge_chat_fragment at none_
  split_ifs at none_ with same starts
  · subst none_
    refine ⟨rfl,?_⟩
    rcases same with same | ends
    · exact same.symm
    · rw [ends_with,decide_eq_true_eq] at ends
      exact String.toList_inj.mp (List.eq_nil_of_suffix_nil ends)
  · subst none_
    rw [starts_with,decide_eq_true_eq] at starts
    exact ⟨String.toList_inj.mp (List.eq_nil_of_prefix_nil starts),rfl⟩
  · exact String.append_eq_empty_iff.mp none_
theorem merged_ne {α : Type} (piece : α → Option String) (own : List α) {target : String} (some_ : target ≠ "") :
    own.foldl (fun known delta => (piece delta).elim known (merge_chat_fragment known)) target ≠ "" := by
  induction own generalizing target with
  | nil => exact some_
  | cons delta rest ih =>
    refine ih ?_
    dsimp only
    cases piece delta with
    | none => exact some_
    | some text => exact fun none_ => some_ (merge_empty none_).1
theorem merged_some {α : Type} (piece : α → Option String) (own : List α) {target : String}
    (some_ : ∃ text ∈ own.filterMap piece, text ≠ "") :
    own.foldl (fun known delta => (piece delta).elim known (merge_chat_fragment known)) target ≠ "" := by
  induction own generalizing target with
  | nil => simp at some_
  | cons delta rest ih =>
    cases isPiece : piece delta with
    | none =>
      rw [List.filterMap_cons,isPiece] at some_
      exact ih some_
    | some text =>
      rw [List.filterMap_cons,isPiece] at some_
      obtain ⟨one,member,nonempty⟩ := some_
      rcases List.mem_cons.mp member with rfl | later
      · refine merged_ne piece rest ?_
        dsimp only
        rw [isPiece]
        exact fun none_ => nonempty (merge_empty none_).2
      · exact ih ⟨one,later,nonempty⟩

theorem Sent.piece {whole : String} {pieces : List String} (sent : Sent whole pieces) : ∃ text ∈ pieces, text ≠ "" := by
  obtain ⟨nonempty,⟨times,rfl⟩ | joined⟩ := sent
  · exact ⟨whole,by simp,nonempty⟩
  · by_contra none_
    push Not at none_
    refine nonempty (joined.symm.trans ?_)
    have all : pieces = List.replicate pieces.length "" := List.eq_replicate_of_mem none_
    rw [all]
    induction pieces.length with
    | zero => rfl
    | succ n ih => rw [List.replicate_succ,String.join_cons,ih,String.empty_append]

theorem Legal.opening_ne {meant : List (Nat × Meant)} {values : List Value} (legal : Legal meant values) {index : Nat} {one : Meant}
    (member : (index,one) ∈ meant) : (opening (ownDeltas values index)).1 ≠ "" ∧ (opening (ownDeltas values index)).2 ≠ "" := by
  obtain ⟨ids,names⟩ := legal.sent index one member
  cases isOpen : opened (ownDeltas values index) with
  | true => exact (opened_iff _).mp isOpen
  | false =>
    rw [unopened isOpen]
    exact ⟨merged_some (fun delta : ToolDelta Nat => delta.id) _ ids.piece,
      merged_some (fun delta : ToolDelta Nat => delta.name) _ names.piece⟩

theorem join_same {α : Type} {f g : α → String} (values : List α) (less : ∀ value ∈ values, f value = g value ∨ f value = "") :
    String.join (values.map f) = String.join (values.map g) ↔ ∀ value ∈ values, f value = g value := by
  have shorter : ∀ rest : List α, (∀ value ∈ rest, f value = g value ∨ f value = "") →
      (String.join (rest.map f)).length ≤ (String.join (rest.map g)).length := by
    intro rest less
    induction rest with
    | nil => exact Nat.le_refl _
    | cons value rest ih =>
      have first := less value List.mem_cons_self
      have others := ih fun other member => less other (List.mem_cons_of_mem _ member)
      rw [List.map_cons,List.map_cons,String.join_cons,String.join_cons,String.length_append,String.length_append]
      rcases first with same | none_
      · rw [same]
        omega
      · rw [none_,String.length_empty]
        omega
  constructor
  · intro same
    induction values with
    | nil => exact fun value member => by cases member
    | cons value rest ih =>
      have others : ∀ other ∈ rest, f other = g other ∨ f other = "" :=
        fun other member => less other (List.mem_cons_of_mem _ member)
      have rest_le := shorter rest others
      have first_le : (f value).length ≤ (g value).length := by
        rcases less value List.mem_cons_self with same | none_
        · rw [same]
        · rw [none_,String.length_empty]
          exact Nat.zero_le _
      rw [List.map_cons,List.map_cons,String.join_cons,String.join_cons] at same
      have lengths := congrArg String.length same
      rw [String.length_append,String.length_append] at lengths
      obtain ⟨sameFirst,sameRest⟩ := Responses.append_same_length same (by omega)
      intro other member
      rcases List.mem_cons.mp member with rfl | later
      · exact sameFirst
      · exact ih others sameRest other later
  · intro same
    rw [List.map_congr_left same]

theorem nonEmpty_getD (text : Option String) : (nonEmpty text).getD "" = text.getD "" := by
  cases text with
  | none => rfl
  | some text =>
    by_cases none_ : text = "" <;> simp [nonEmpty,Option.filter,none_]

theorem read_content (value : Value) : (readChunk value).content = contentOf value := by
  cases isChoice : firstChoice value with
  | none => simp [Chunk.content,readChunk,contentOf,deltaOf,isChoice,member,Json.get,stringOf]
  | some choice => simp [Chunk.content,readChunk,contentOf,deltaOf,isChoice,readChoice,nonEmpty_getD]
theorem readReasoning_eq (delta : Value) : (readReasoning delta).getD "" =
    (((Json.get delta "reasoning_content").or (Json.get delta "reasoning")).bind Json.as_str).getD "" := nonEmpty_getD _

theorem read_reasoning (value : Value) : ((readChunk value).reasoning = thoughtOf value ∨ (readChunk value).reasoning = "") ∧
      ((readChunk value).reasoning = thoughtOf value ↔ ¬ Hidden value) := by
  have isRead : (readChunk value).reasoning =
      (((Json.get (deltaOf value) "reasoning_content").or (Json.get (deltaOf value) "reasoning")).bind Json.as_str).getD "" := by
    cases isChoice : firstChoice value with
    | none => simp [Chunk.reasoning,readChunk,deltaOf,isChoice,member,Json.get]
    | some choice => simp [Chunk.reasoning,readChunk,deltaOf,isChoice,readChoice,readReasoning_eq]
  rw [isRead,thoughtOf,Hidden,stringOf,stringOf]
  cases isContent : Json.get (deltaOf value) "reasoning_content" with
  | none => simp
  | some other =>
    cases isText : Json.as_str other with
    | some text => simp [isText]
    | none =>
      cases (Json.get (deltaOf value) "reasoning").bind Json.as_str with
      | none => simp [isText]
      | some text =>
        by_cases none_ : text = "" <;> simp [isText,none_,eq_comm]

theorem reasoning_iff (values : List Value) :
    reasoningOf (values.map readChunk) = String.join (values.map thoughtOf) ↔ ∀ value ∈ values, ¬ Hidden value := by
  rw [reasoningOf,List.map_map]
  refine (join_same values fun value _ => (read_reasoning value).1).trans ?_
  exact forall₂_congr fun value _ => (read_reasoning value).2
theorem text_eq (values : List Value) : textOf (values.map readChunk) = String.join (values.map contentOf) := by
  rw [textOf,List.map_map]
  exact congrArg String.join (List.map_congr_left fun value _ => read_content value)

theorem builtIn_lawful : Lawful builtIn Keyed.Ordered where
  nil := List.Pairwise.nil
  insert index tool _ ordered := ordered.insert index tool
  distinct _ ordered := ordered.distinct
  found index tool tools other := Keyed.lookup_insertOrdered tools index tool other

theorem fits_iff (label : String) (seen tools : Bool) (later : seen = true → tools = true) :
    (map_finish label seen = .Length ∨ (map_finish label seen = .ToolUse ↔ tools = true)) ↔ Fits label seen tools := by
  unfold map_finish Fits
  split_ifs with calls length filter has <;> simp_all

section Conformance
variable [Serde] [ArgumentText]

def Marks (marker : List Source) (marked : Bool) : Prop :=
  marker = [] ∧ marked = false ∨ (∃ event rest, marker = .Event event "[DONE]" :: rest) ∧ marked = true

theorem streamFrom_run {sources : List (String × String)} {marker : List Source} {marked : Bool} (marks : Marks marker marked) :
    ∀ {chunks : List (Chunk Nat Usage)} {a : Loop Nat Usage},
    sources.map (fun source => readSource source.2) = chunks.map .ok → (∀ source ∈ sources, source.2 ≠ "[DONE]") →
    streamFrom a ((sources.map fun source => .Event source.1 source.2) ++ marker) = provider (runFrom builtIn a marked chunks) := by
  induction sources with
  | nil =>
    intro chunks a reads _
    obtain rfl : [] = chunks := by simpa using reads
    rcases marks with ⟨rfl,rfl⟩ | ⟨⟨event,rest,rfl⟩,rfl⟩
    · rfl
    · simp [streamFrom,runFrom]
  | cons source rest ih =>
    intro chunks a reads unmarked
    cases chunks with
    | nil => cases reads
    | cons chunk more =>
      obtain ⟨isChunk,others⟩ := List.cons.inj reads
      have isChunk : readSource source.2 = .ok chunk := isChunk
      have later := fun a => ih (a := a) others fun other member => unmarked other (List.mem_cons_of_mem _ member)
      rw [List.map_cons,List.cons_append,streamFrom,if_neg (unmarked source List.mem_cons_self),isChunk]
      simp only [later,runFrom,provider,List.map_append]

theorem reads_chunks {sources : List (String × String)} : ∀ {values : List Value},
    sources.map (fun source => ArgumentText.from_str source.2) = values.map .ok →
    (∀ value ∈ values, provider_event_error "OpenAI Chat" value = none) →
    sources.map (fun source => readSource source.2) = (values.map readChunk).map .ok := by
  induction sources with
  | nil =>
    intro values parses _
    obtain rfl : [] = values := by simpa using parses
    rfl
  | cons source rest ih =>
    intro values parses fine
    cases values with
    | nil => cases parses
    | cons value more =>
      obtain ⟨isValue,others⟩ := List.cons.inj parses
      have isValue : ArgumentText.from_str source.2 = .ok value := isValue
      rw [List.map_cons,ih others fun other member => fine other (List.mem_cons_of_mem _ member)]
      refine congrArg (· :: _) ?_
      rw [readSource,isValue]
      simp only [Except.mapError,bind,Except.bind,fine value List.mem_cons_self]

variable {meant : List (Nat × Meant)} {values : List Value}

section
variable (legal : Legal meant values)
include legal

theorem Legal.starts {index : Nat} {one : Meant} (isMeant : (index,one) ∈ meant) : toolsOf builtIn (values.map readChunk) index =
      some ⟨(opening (ownDeltas values index)).1,(opening (ownDeltas values index)).2,argumentsOf (ownDeltas values index),true⟩ := by
  have some_ := (legal.tools index).mp (List.mem_map_of_mem isMeant)
  have both := legal.opening_ne isMeant
  unfold toolsOf
  rw [← ownDeltas]
  simp [some_,endedAs,both.1]
theorem Legal.missing {index : Nat} (missing : index ∉ meant.map (·.1)) : toolsOf builtIn (values.map readChunk) index = none := by
  have none_ : ownDeltas values index = [] := by
    by_contra some_
    exact missing ((legal.tools index).mpr some_)
  unfold toolsOf
  rw [← ownDeltas,none_]
  rfl
theorem Legal.named : Named (values.map readChunk) := by
  intro index some_
  obtain ⟨entry,isMeant,rfl⟩ := List.mem_map.mp ((legal.tools index).mpr some_)
  exact (legal.opening_ne isMeant).2
theorem Legal.some_tools : (∃ index, toolsOf builtIn (values.map readChunk) index ≠ none) ↔ (!meant.isEmpty) = true := by
  constructor
  · rintro ⟨index,known⟩
    have key : index ∈ meant.map (·.1) := by
      by_contra missing
      exact known (legal.missing missing)
    cases meant with
    | nil => cases key
    | cons entry rest => rfl
  · intro some_
    cases meant with
    | nil => cases some_
    | cons entry rest =>
      have first : (entry.1,entry.2) ∈ entry :: rest := List.mem_cons_self
      refine ⟨entry.1,?_⟩
      rw [legal.starts first]
      simp

theorem Legal.empty : (deltas (values.map readChunk)).isEmpty = meant.isEmpty := by
  cases isDeltas : deltas (values.map readChunk) with
  | nil =>
    cases meant with
    | nil => rfl
    | cons entry rest =>
      have some_ := (legal.tools entry.1).mp (by simp)
      simp [ownDeltas,isDeltas,deltasOf] at some_
  | cons delta rest =>
    have key := (legal.tools delta.index).mpr (by simp [ownDeltas,isDeltas,deltasOf])
    cases meant with
    | nil => cases key
    | cons entry rest => rfl

theorem Legal.reason_iff (marked : Bool) : (∃ reason, reasonOf builtIn (values.map readChunk) marked = some reason ∧
      (reason = .Length ∨ (reason = .ToolUse ↔ ∃ index, toolsOf builtIn (values.map readChunk) index ≠ none))) ↔
      (labelOf (values.map readChunk)).elim (marked = true) fun label => Fits label.1 label.2 !meant.isEmpty := by
  rw [legal.some_tools,reasonOf]
  cases isLabel : labelOf (values.map readChunk) with
  | none =>
    cases marked with
    | false => simp
    | true => cases isEmpty : meant.isEmpty <;> simp [legal.empty,isEmpty]
  | some label =>
    obtain ⟨text,seen⟩ := label
    have later : seen = true → (!meant.isEmpty) = true := by
      rintro rfl
      rw [← legal.empty,label_seen _ isLabel]
      rfl
    have fits := fits_iff text seen (!meant.isEmpty) later
    simp only [Option.map_some,Option.some_or,Option.elim_some]
    constructor
    · rintro ⟨reason,isReason,agrees⟩
      obtain rfl := Option.some.inj isReason
      exact fits.mp agrees
    · exact fun fitting => ⟨_,rfl,fits.mpr fitting⟩

end

/-- For every stream of chunks, with or without its end marker: it is accepted, with
    the whole ids and names of its tools and all texts, exactly if every tool has
    its whole id and name when there first is something of both, no reasoning is
    hidden and the finish reason agrees with the tools. -/
theorem chat_conforms (call_id : String) (sources : List (String × String)) (values : List Value) (marker : List Source)
    (marked : Bool) (meant : List (Nat × Meant))
    (parses : sources.map (fun source => ArgumentText.from_str source.2) = values.map .ok)
    (fine : ∀ value ∈ values, provider_event_error "OpenAI Chat" value = none)
    (unmarked : ∀ source ∈ sources, source.2 ≠ "[DONE]") (marks : Marks marker marked) (legal : Legal meant values) :
    Conforms meant values (stream call_id ((sources.map fun source => .Event source.1 source.2) ++ marker)) ↔
      Plain meant values marked := by
  rw [stream,streamFrom_run marks (reads_chunks parses fine) unmarked]
  have leads := fun q {reason : FinishReason} (isReason : reasonOf builtIn (values.map readChunk) marked = some reason) =>
    run_leads (q := q) builtIn_lawful call_id (values.map readChunk) marked legal.named isReason
  constructor
  · intro conforms
    have finished : (runFrom builtIn {} marked (values.map readChunk)).2 = none := Option.map_eq_none_iff.mp conforms.finished
    obtain ⟨_,ended⟩ := (run_ok builtIn_lawful _ _).mp finished
    obtain ⟨reason,isReason⟩ := Option.isSome_iff_exists.mp ended
    obtain ⟨p,taken,ends⟩ := accepts_leads.mp conforms.accepted
    obtain ⟨_,rfl⟩ := (leads p isReason).mp taken
    refine ⟨?_,?_,?_⟩
    · intro index one isMeant
      have starts := taken.starts index
      have whole := conforms.calls index one isMeant
      rw [← List.nil_append (List.filter _ _)] at whole
      have same := starts.trans whole
      rw [made_tools,legal.starts isMeant] at same
      simpa [Prod.ext_iff] using same
    · have same := taken.reasoning
      have all := conforms.reasoning
      rw [String.empty_append] at same
      exact (reasoning_iff values).mp (same.trans all)
    · obtain ⟨last,isLast,agrees⟩ := ends
      obtain rfl : reason = last := Option.some.inj isLast
      exact (legal.reason_iff marked).mp ⟨reason,isReason,agrees⟩
  · intro plain
    obtain ⟨reason,isReason,agrees⟩ := (legal.reason_iff marked).mpr plain.ends
    have finished : (runFrom builtIn {} marked (values.map readChunk)).2 = none :=
      (run_ok builtIn_lawful _ _).mpr ⟨legal.named,by rw [isReason]; rfl⟩
    have distinct : (made call_id builtIn (values.map readChunk) reason).DistinctIds := by
      have isMeant : ∀ {index tool}, toolsOf builtIn (values.map readChunk) index = some tool →
          ∃ one, (index,one) ∈ meant ∧ tool.call_id = one.id := by
        intro index tool known
        have key : index ∈ meant.map (·.1) := by
          by_contra missing
          rw [legal.missing missing] at known
          cases known
        obtain ⟨entry,isEntry,rfl⟩ := List.mem_map.mp key
        refine ⟨entry.2,isEntry,?_⟩
        rw [legal.starts isEntry,plain.whole _ _ isEntry] at known
        rw [← Option.some.inj known]
      intro first second one other isOne isOther same
      obtain ⟨one',isOne',sameOne⟩ := isMeant isOne
      obtain ⟨other',isOther',sameOther⟩ := isMeant isOther
      have equal := List.inj_on_of_nodup_map legal.distinct isOne' isOther' (by rw [← sameOne,← sameOther,same])
      exact congrArg Prod.fst equal
    have taken := (leads _ isReason).mpr ⟨distinct,rfl⟩
    refine ⟨by rw [provider,finished]; rfl,accepts_leads.mpr ⟨_,taken,reason,rfl,agrees⟩,?_,taken.started_ids.1,?_,?_,?_⟩
    · intro index one isMeant
      have starts := taken.starts index
      rw [made_tools,legal.starts isMeant,plain.whole _ _ isMeant] at starts
      exact starts.symm
    · intro index
      have arguments := taken.arguments index
      rw [made_tools,Option.elim_none,String.empty_append] at arguments
      refine arguments.symm.trans ?_
      by_cases key : index ∈ meant.map (·.1)
      · obtain ⟨entry,isEntry,rfl⟩ := List.mem_map.mp key
        rw [legal.starts isEntry]
        rfl
      · have none_ : ownDeltas values index = [] := by
          by_contra some_
          exact key ((legal.tools index).mpr some_)
        rw [legal.missing key,none_]
        rfl
    · have text := taken.text
      rw [String.empty_append] at text
      exact text.symm.trans (text_eq values)
    · have reasoning := taken.reasoning
      rw [String.empty_append] at reasoning
      exact reasoning.symm.trans ((reasoning_iff values).mpr plain.reasoning)

end Conformance

/-! ## A split name, and a call with its answer -/

def chunkOf (delta : List (String × Value)) (finish_reason : List (String × Value)) : Value :=
  .Object [("choices",.Array [.Object (("delta",.Object delta) :: finish_reason)])]
def callDelta (id : List (String × Value)) (function : List (String × Value)) : List (String × Value) :=
  [("tool_calls",.Array [.Object (id ++ [("index",.Number (.PosInt 0)),("function",.Object function)])])]
def finished (reason : String) : Value := chunkOf [] [("finish_reason",.String reason)]

def split : List Value :=
  [chunkOf (callDelta [("id",.String "c")] [("name",.String "Re")]) [],chunkOf (callDelta [] [("name",.String "ad")]) [],
    finished "tool_calls"]
def fetch : List Value :=
  [chunkOf [("content",.String "hi"),("reasoning",.String "hm")] [],
    chunkOf (callDelta [("id",.String "c")] [("arguments",.String "["),("name",.String "Read")]) [],
    chunkOf (callDelta [("id",.String "c")] [("arguments",.String "]")]) [],finished "tool_calls"]
def sourcesOf (values : List Value) : List (String × String) := values.map fun value => ("",String.ofList (printed value))

section Example
local instance : Serde := printing
local instance : ArgumentText where
  from_str text :=
    ((split ++ fetch).find? (fun value => String.ofList (printed value) = text)).elim
      (.error "expected value at line 1 column 1") .ok

/-- The call is started with a piece of its name. -/
theorem split_name_started : (sourcesOf split).map (fun source => ArgumentText.from_str source.2) = split.map .ok ∧
      (∀ value ∈ split, provider_event_error "OpenAI Chat" value = none) ∧ Legal [(0,⟨"c","Read"⟩)] split ∧
      ((stream "m" ((sourcesOf split).map fun source => .Event source.1 source.2)).1.filterMap toolStart) = [(0,"c","Re")] ∧
      ¬ Conforms [(0,⟨"c","Read"⟩)] split (stream "m" ((sourcesOf split).map fun source => .Event source.1 source.2)) := by
  have starts : (stream "m" ((sourcesOf split).map fun source => .Event source.1 source.2)).1.filterMap toolStart = [(0,"c","Re")] := by
    decide +kernel
  refine ⟨by decide +kernel,by decide +kernel,?_,starts,?_⟩
  · have own : ∀ index, ownDeltas split index = if index = 0 then
        [⟨0,some "c",some "Re",none⟩,⟨0,none,some "ad",none⟩] else [] := by
      intro index
      have all : deltas (split.map readChunk) = [⟨0,some "c",some "Re",none⟩,⟨0,none,some "ad",none⟩] := by decide +kernel
      rw [ownDeltas,all]
      by_cases first : index = 0
      · subst first
        rfl
      · simp [deltasOf,first,Ne.symm first]
    refine ⟨by decide +kernel,List.nodup_singleton 0,?_,?_,by decide⟩
    · intro index
      rw [own]
      by_cases first : index = 0 <;> simp [first]
    · intro index one member
      obtain ⟨rfl,rfl⟩ : index = 0 ∧ one = ⟨"c","Read"⟩ := by simpa using member
      rw [own]
      exact ⟨⟨by decide,.inl ⟨0,rfl⟩⟩,by decide,.inr (by decide)⟩
  · intro conforms
    have whole := conforms.calls 0 ⟨"c","Read"⟩ (by simp)
    rw [starts] at whole
    exact absurd whole (by decide)

theorem chat_conforms_fetch : Conforms [(0,⟨"c","Read"⟩)] fetch
    (stream "m" (((sourcesOf fetch).map fun source => .Event source.1 source.2) ++ [.Event "" "[DONE]"])) := by
  have own : ∀ index, ownDeltas fetch index = if index = 0 then
      [⟨0,some "c",some "Read",some "["⟩,⟨0,some "c",none,some "]"⟩] else [] := by
    intro index
    have all : deltas (fetch.map readChunk) = [⟨0,some "c",some "Read",some "["⟩,⟨0,some "c",none,some "]"⟩] := by
      decide +kernel
    rw [ownDeltas,all]
    by_cases first : index = 0
    · subst first
      rfl
    · simp [deltasOf,first,Ne.symm first]
  have legal : Legal [(0,⟨"c","Read"⟩)] fetch := by
    refine ⟨by decide +kernel,List.nodup_singleton 0,?_,?_,by decide⟩
    · intro index
      rw [own]
      by_cases first : index = 0 <;> simp [first]
    · intro index one member
      obtain ⟨rfl,rfl⟩ : index = 0 ∧ one = ⟨"c","Read"⟩ := by simpa using member
      rw [own]
      exact ⟨⟨by decide,.inl ⟨1,rfl⟩⟩,by decide,.inl ⟨0,rfl⟩⟩
  have plain : Plain [(0,⟨"c","Read"⟩)] fetch true := by
    refine ⟨?_,?_,?_⟩
    · intro index one member
      obtain ⟨rfl,rfl⟩ : index = 0 ∧ one = ⟨"c","Read"⟩ := by simpa using member
      rw [own]
      decide
    · rintro value member ⟨⟨other,isContent,_⟩,_⟩
      have missing : ∀ value ∈ fetch, Json.get (deltaOf value) "reasoning_content" = none := by decide +kernel
      rw [missing value member] at isContent
      cases isContent
    · have label : labelOf (fetch.map readChunk) = some ("tool_calls",true) := by decide +kernel
      rw [label]
      simp [Fits]
  exact (chat_conforms "m" _ fetch _ true _ (by decide +kernel) (by decide +kernel) (by decide +kernel)
    (.inr ⟨⟨_,_,rfl⟩,rfl⟩) legal).mpr plain

end Example

end MyCursor.Chat

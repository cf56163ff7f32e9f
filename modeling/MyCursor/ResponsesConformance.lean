import MyCursor.CheckpointRoundTrip
import MyCursor.Responses
import MyCursor.StoreSteps

/-!
# Conformance of the Responses adapter

The adapter keeps one text for all parts of all messages. It is never longer than
the text that was announced, and where it is not that text it is shorter; only the
end of the first message that has a text makes it up again. Tools are compared
with the calls of the stream by their indices.
-/
namespace MyCursor.Responses
open Message Store Run ModelCycle CycleProgress Text
open ProviderEvents (Source)
open StoreSteps (bind_ok)
open CheckpointCodec (Serde object)
open CheckpointRoundTrip (printed printing)
set_option linter.unusedSectionVars false

variable {text part : String}

theorem starts_with_iff : starts_with text part = true ↔ ∃ rest, text = part ++ rest := by
  rw [starts_with,decide_eq_true_eq]
  constructor
  · rintro ⟨rest,same⟩
    refine ⟨String.ofList rest,String.toList_inj.mp ?_⟩
    rw [String.toList_append,String.toList_ofList,same]
  · rintro ⟨rest,rfl⟩
    exact ⟨rest.toList,by rw [String.toList_append]⟩
theorem starts_slice (starts : starts_with text part = true) : part ++ sliceFrom text part.length = text := by
  obtain ⟨rest,rfl⟩ := starts_with_iff.mp starts
  refine congrArg (part ++ ·) (String.toList_inj.mp ?_)
  rw [sliceFrom,String.toList_ofList,String.toList_append,← String.length_toList,List.drop_left]
theorem starts_length (starts : starts_with text part = true) : part.length ≤ text.length := by
  obtain ⟨rest,rfl⟩ := starts_with_iff.mp starts
  simp
theorem starts_all (starts : starts_with text part = true) (whole : text.length ≤ part.length) : part = text := by
  obtain ⟨rest,rfl⟩ := starts_with_iff.mp starts
  have none_ : rest.length = 0 := by
    rw [String.length_append] at whole
    omega
  rw [String.length_eq_zero_iff.mp none_,String.append_empty]
theorem append_same_length {a b c d : String} (same : a ++ b = c ++ d) (lengths : a.length = c.length) : a = c ∧ b = d := by
  have lists := congrArg String.toList same
  rw [String.toList_append,String.toList_append] at lists
  obtain ⟨first,second⟩ := List.append_inj lists (by rwa [String.length_toList,String.length_toList])
  exact ⟨String.toList_inj.mp first,String.toList_inj.mp second⟩

def Close (before full : String) : Prop := before = full ∨ before.length < full.length
def reconciled (now final : String) : String := if starts_with final now then final else now

variable {full : String}

theorem Close.le {before : String} (close : Close before full) : before.length ≤ full.length := by
  rcases close with rfl | shorter
  · exact Nat.le_refl _
  · exact shorter.le

/-- Once there is a text, a part of it is right exactly if what came before it was
    and its deltas are all of it. -/
theorem part_right {before : String} {part : Part} (close : Close before full)
    (streamed : starts_with part.final part.streamed = true) (some_ : full ≠ "") :
    reconciled (before ++ part.streamed) part.final = full ++ part.final ↔ before = full ∧ part.streamed = part.final := by
  have positive : 0 < full.length := Nat.pos_of_ne_zero fun zero => some_ (String.length_eq_zero_iff.mp zero)
  have le := close.le
  have within := starts_length streamed
  unfold reconciled
  constructor
  · intro right
    split_ifs at right with starts
    · have lengths := congrArg String.length right
      rw [String.length_append] at lengths
      omega
    · have lengths := congrArg String.length right
      rw [String.length_append,String.length_append] at lengths
      exact append_same_length right (by omega)
  · rintro ⟨rfl,whole⟩
    rw [whole]
    split_ifs with starts
    · have longer := starts_length starts
      rw [String.length_append] at longer
      omega
    · rfl
theorem part_close {before : String} {part : Part} (close : Close before full) (streamed : starts_with part.final part.streamed = true) :
    Close (reconciled (before ++ part.streamed) part.final) (full ++ part.final) := by
  have within := starts_length streamed
  unfold reconciled Close
  split_ifs with starts
  · by_cases none_ : full = ""
    · exact .inl (by simp [none_])
    · have positive : 0 < full.length := Nat.pos_of_ne_zero fun zero => none_ (String.length_eq_zero_iff.mp zero)
      refine .inr ?_
      rw [String.length_append]
      omega
  · rcases close with rfl | shorter
    · by_cases whole : part.streamed = part.final
      · exact .inl (by rw [whole])
      · refine .inr ?_
        have different : part.streamed.length ≠ part.final.length :=
          fun same => whole (starts_all streamed (by omega))
        rw [String.length_append,String.length_append]
        omega
    · refine .inr ?_
      rw [String.length_append,String.length_append]
      omega

def Streamed (parts : List Part) : Prop := ∀ part ∈ parts, starts_with part.final part.streamed = true

theorem textOf_cons (part : Part) (rest : List Part) : textOf (part :: rest) = part.final ++ textOf rest := by
  simp [textOf]

variable {parts : List Part}

theorem sent_close : ∀ {before full : String}, Close before full → Streamed parts → Close (sent before parts) (full ++ textOf parts) := by
  induction parts with
  | nil =>
    intro before full close _
    simpa [sent,textOf] using close
  | cons part rest ih =>
    intro before full close streamed
    have next := ih (part_close close (streamed part List.mem_cons_self))
      fun other member => streamed other (List.mem_cons_of_mem _ member)
    rw [textOf_cons,← String.append_assoc]
    exact next
theorem sent_right : ∀ {before full : String}, Close before full → Streamed parts → full ≠ "" →
    (sent before parts = full ++ textOf parts ↔ before = full ∧ ∀ part ∈ parts, part.streamed = part.final) := by
  induction parts with
  | nil =>
    intro before full close _ _
    simp [sent,textOf]
  | cons part rest ih =>
    intro before full close streamed some_
    have first := streamed part List.mem_cons_self
    have others := ih (part_close close first) (fun other member => streamed other (List.mem_cons_of_mem _ member))
      (by simp [some_])
    rw [textOf_cons,← String.append_assoc]
    change sent (reconciled (before ++ part.streamed) part.final) rest = _ ↔ _
    rw [others,part_right close first some_]
    simp [and_assoc]

def afterMessage (before : String) (parts : List Part) : String := reconciled (sent before parts) (textOf parts)

theorem message_right {before : String} (close : Close before full) (streamed : Streamed parts) (some_ : full ≠ "") :
    (afterMessage before parts = full ++ textOf parts ↔ before = full ∧ ∀ part ∈ parts, part.streamed = part.final) ∧
      Close (afterMessage before parts) (full ++ textOf parts) := by
  have positive : 0 < full.length := Nat.pos_of_ne_zero fun zero => some_ (String.length_eq_zero_iff.mp zero)
  have right := sent_right close streamed some_
  have close' := sent_close close streamed
  unfold afterMessage reconciled
  split_ifs with starts
  · -- The text of a later message is too short to be all of it.
    have shorter : (textOf parts).length < (full ++ textOf parts).length := by
      rw [String.length_append]
      omega
    refine ⟨⟨fun same => ?_,fun whole => ?_⟩,.inr shorter⟩
    · rw [← same] at shorter
      omega
    · have same := right.mpr whole
      have longer := starts_length starts
      rw [same] at longer
      omega
  · exact ⟨right,close'⟩
theorem messages_right {messages : List (List Part)} : ∀ {before full : String}, Close before full →
    (∀ parts ∈ messages, Streamed parts) → full ≠ "" →
    (messages.foldl afterMessage before = full ++ String.join (messages.map textOf) ↔
      before = full ∧ ∀ parts ∈ messages, ∀ part ∈ parts, part.streamed = part.final) := by
  induction messages with
  | nil =>
    intro before full _ _ _
    simp
  | cons parts rest ih =>
    intro before full close streamed some_
    obtain ⟨right,close'⟩ := message_right close (streamed parts List.mem_cons_self) some_
    have others := ih close' (fun other member => streamed other (List.mem_cons_of_mem _ member)) (by simp [some_])
    rw [List.foldl_cons,List.map_cons,String.join_cons,← String.append_assoc,others,right]
    simp [and_assoc]

theorem sent_empty (streamed : Streamed parts) (none_ : textOf parts = "") : sent "" parts = "" := by
  have close := sent_close (Or.inl rfl : Close "" "") streamed
  rw [none_] at close
  rcases close with same | shorter
  · exact same
  · simp at shorter

theorem delivered_iff {messages : List (List Part)} (streamed : ∀ parts ∈ messages, Streamed parts) :
    messages.foldl afterMessage "" = String.join (messages.map textOf) ↔ Delivered messages := by
  induction messages with
  | nil => simp [Delivered]
  | cons parts rest ih =>
    have own := streamed parts List.mem_cons_self
    have others : ∀ other ∈ rest, Streamed other := fun other member => streamed other (List.mem_cons_of_mem _ member)
    rw [List.foldl_cons,List.map_cons,String.join_cons]
    by_cases none_ : textOf parts = ""
    · have nothing : afterMessage "" parts = "" := by
        rw [afterMessage,sent_empty own none_,none_,reconciled,ite_self]
      rw [nothing,none_,String.empty_append,ih others,Delivered,Delivered]
      simp [none_]
    · have close := sent_close (Or.inl rfl : Close "" "") own
      rw [String.empty_append] at close
      have first : Close (afterMessage "" parts) (textOf parts) := by
        unfold afterMessage reconciled
        split_ifs
        · exact .inl rfl
        · exact close
      have same : afterMessage "" parts = textOf parts ↔ starts_with (textOf parts) (sent "" parts) = true := by
        unfold afterMessage reconciled
        split_ifs with starts
        · simp [starts]
        · refine ⟨fun same => ?_,fun starts' => absurd starts' starts⟩
          exact starts_with_iff.mpr ⟨"",by rw [same,String.append_empty]⟩
      rw [messages_right first others none_,same,Delivered]
      simp [none_]

section Tools
variable {index : Nat} {tool : ResponseToolState} {p q : Progress}

def sentArguments (tool : ResponseToolState) : String :=
  String.ofList (tool.arguments.toList.take tool.emitted_arguments)
def view (tool : ResponseToolState) : Option Tool :=
  if tool.started then some ⟨tool.call_id.getD "",tool.name.getD "",sentArguments tool,tool.ended⟩ else none
/-- Nothing is sent or ended before the start; afterwards everything is sent. -/
structure Steady (tool : ResponseToolState) : Prop where
  started : tool.started = (tool.call_id.isSome && tool.name.isSome)
  emitted : tool.emitted_arguments = if tool.started then tool.arguments.length else 0
  ended : tool.ended = true → tool.started = true

def Fresh (p : Progress) (tool : ResponseToolState) : Prop :=
  tool.started = false → ∀ call_id name, tool.call_id = some call_id → tool.name = some name →
    ∀ other one, p.tools other = some one → one.call_id ≠ call_id

theorem startTool_leads (going : p.finish = none) (named : p.model_call_id ≠ none) (known : p.tools index = view tool)
    (unsent : tool.started = false → tool.emitted_arguments = 0 ∧ tool.ended = false) (fresh : Fresh p tool) :
    Leads p (startTool index tool).2 (p.withTool index (view (startTool index tool).1)) := by
  unfold startTool
  split
  · rename_i call_id name isStarted isId isName
    obtain ⟨none_,running⟩ := unsent isStarted
    have free : p.tools index = none := by rw [known,view,isStarted]; rfl
    refine ⟨going,⟨named,free,fresh isStarted call_id name isId isName⟩,?_⟩
    simp [Progress.after,Progress.withTool,view,sentArguments,none_,running,isId,isName]
    rfl
  · exact (withTool_self known).symm
theorem startTool_fresh (leads : Leads p (startTool index tool).2 q) : Fresh p tool := by
  intro isStarted call_id name isId isName
  simp only [startTool,isStarted,isId,isName] at leads
  exact leads.2.1.2.2

theorem take_append_slice (text : String) (count : Nat) : String.ofList (text.toList.take count) ++ sliceFrom text count = text := by
  refine String.toList_inj.mp ?_
  rw [String.toList_append,String.toList_ofList,sliceFrom,String.toList_ofList,List.take_append_drop]
theorem take_length (text : String) : String.ofList (text.toList.take text.length) = text := by
  rw [← String.length_toList,List.take_length,String.ofList_toList]

theorem emitArguments_leads (going : p.finish = none) (known : p.tools index = view tool)
    (running : tool.started = true → tool.emitted_arguments < tool.arguments.length → tool.ended = false) :
    Leads p (emitArguments index tool).2 (p.withTool index (view (emitArguments index tool).1)) := by
  unfold emitArguments
  split_ifs with more
  · simp only [Bool.and_eq_true,decide_eq_true_eq] at more
    obtain ⟨isStarted,less⟩ := more
    have isView : view tool = some ⟨tool.call_id.getD "",tool.name.getD "",sentArguments tool,tool.ended⟩ := by
      rw [view,isStarted]
      rfl
    refine ⟨going,⟨_,known.trans isView,running isStarted less⟩,?_⟩
    simp only [Leads,Progress.after,Progress.withTool,changeTool,known,isView,Option.map_some,Tool.push,sentArguments,take_append_slice]
    simp [view,isStarted,sentArguments,take_length]
  · exact (withTool_self known).symm

variable {done : Bool} {tool' : ResponseToolState} {events : List ModelEvent}

theorem endTool_leads (going : p.finish = none)
    (known : p.tools index = view tool) (ends : endTool index done tool = .ok (tool',events)) :
    Leads p events (p.withTool index (view tool')) := by
  unfold endTool at ends
  split_ifs at ends with ending unstarted
  · simp only [Bool.and_eq_true,Bool.not_eq_true'] at ending
    simp only [Bool.not_eq_true',Bool.not_eq_false] at unstarted
    obtain ⟨rfl,rfl⟩ := Prod.mk.inj (Except.ok.inj ends)
    have isView : view tool = some ⟨tool.call_id.getD "",tool.name.getD "",sentArguments tool,tool.ended⟩ := by
      rw [view,unstarted]
      rfl
    refine ⟨going,⟨_,known.trans isView,ending.2⟩,?_⟩
    simp [Leads,Progress.after,Progress.withTool,changeTool,known,Tool.end,view,unstarted,sentArguments]
  · obtain ⟨rfl,rfl⟩ := Prod.mk.inj (Except.ok.inj ends)
    exact (withTool_self known).symm

theorem takeArguments_ok {arguments : ResponseToolArguments} {taken : ResponseToolState}
    (takes : takeArguments tool arguments = .ok taken) : ∃ more, taken = { tool with arguments := tool.arguments ++ more } := by
  cases arguments with
  | None =>
    obtain rfl := Except.ok.inj takes
    exact ⟨"",by simp⟩
  | Delta delta => exact ⟨delta,(Except.ok.inj takes).symm⟩
  | Snapshot snapshot =>
    simp only [takeArguments] at takes
    split_ifs at takes
    · obtain rfl := Except.ok.inj takes
      exact ⟨"",by simp⟩
    · exact ⟨_,(Except.ok.inj takes).symm⟩

def learned (tool : ResponseToolState) (call_id name : Option String) : ResponseToolState :=
  { tool with call_id := tool.call_id.or call_id, name := tool.name.or name }

theorem updateTool_stages {call_id name : Option String} {arguments : ResponseToolArguments}
    (updates : updateTool index call_id name arguments done tool = .ok (tool',events)) :
    ∃ taken ended, takeArguments (learned tool call_id name) arguments = .ok taken ∧
      endTool index done (emitArguments index (startTool index taken).1).1 = .ok (tool',ended) ∧
      events = (startTool index taken).2 ++ (emitArguments index (startTool index taken).1).2 ++ ended := by
  obtain ⟨taken,takes,rest⟩ := bind_ok.mp updates
  rcases started : startTool index taken with ⟨first,starts⟩
  rcases emitted : emitArguments index first with ⟨second,emits⟩
  simp only [started,emitted] at rest
  obtain ⟨⟨third,ended⟩,ends,same⟩ := bind_ok.mp rest
  obtain ⟨rfl,rfl⟩ := Prod.mk.inj (Except.ok.inj same)
  refine ⟨taken,ended,takes,?_,?_⟩
  · rw [started,emitted]
    exact ends
  · rw [started,emitted]

theorem startTool_state (tool : ResponseToolState) : (startTool index tool).1 =
    { tool with started := tool.started || (tool.call_id.isSome && tool.name.isSome) } := by
  obtain ⟨call_id,name,arguments,emitted,started,ended⟩ := tool
  cases started <;> cases call_id <;> cases name <;> rfl
theorem emitArguments_state (index : Nat) (tool : ResponseToolState) (within : tool.emitted_arguments ≤ tool.arguments.length) :
    (emitArguments index tool).1 =
      { tool with emitted_arguments := if tool.started then tool.arguments.length else tool.emitted_arguments } := by
  obtain ⟨call_id,name,arguments,emitted,started,ended⟩ := tool
  unfold emitArguments
  cases started with
  | false => rfl
  | true =>
    by_cases more : emitted < arguments.length
    · simp [more]
    · have same : emitted = arguments.length := by
        simp only at within
        omega
      simp [same]
theorem endTool_state (ends : endTool index done tool = .ok (tool',events)) : tool' = { tool with ended := tool.ended || done } ∧
      (done = true → tool.ended = true ∨ tool.started = true) := by
  unfold endTool at ends
  obtain ⟨call_id,name,arguments,emitted,started,ended⟩ := tool
  cases done <;> cases ended <;> cases started <;> simp_all

def settled (tool : ResponseToolState) (done : Bool) : ResponseToolState :=
  { tool with
    started := tool.call_id.isSome && tool.name.isSome
    emitted_arguments := if tool.call_id.isSome && tool.name.isSome then tool.arguments.length else 0
    ended := tool.ended || done }

section Update
variable {call_id name : Option String} {arguments : ResponseToolArguments} {done : Bool} {tool' : ResponseToolState}
  {events : List ModelEvent}

theorem Steady.unsent (steady : Steady tool) (unstarted : tool.started = false) : tool.emitted_arguments = 0 ∧ tool.ended = false := by
  refine ⟨by rw [steady.emitted,unstarted]; rfl,?_⟩
  by_contra ended
  have started := steady.ended (by simpa using ended)
  rw [unstarted] at started
  cases started
theorem Steady.within (steady : Steady tool) : tool.emitted_arguments ≤ tool.arguments.length := by
  rw [steady.emitted]
  split_ifs <;> omega

theorem Steady.known (steady : Steady tool) (call_id name : Option String) (started : tool.started = true) :
    learned tool call_id name = tool ∧ (tool.call_id.isSome && tool.name.isSome) = true := by
  have isStarted := steady.started
  obtain ⟨id,called,text,emitted,started',ended⟩ := tool
  cases id <;> cases called <;> simp_all [learned]

theorem settled_of_stages (index : Nat) (done : Bool) (taken : ResponseToolState)
    (unsent : taken.started = false → taken.emitted_arguments = 0)
    (known : taken.started = true → (taken.call_id.isSome && taken.name.isSome) = true)
    (within : taken.emitted_arguments ≤ taken.arguments.length) :
    let sent := (emitArguments index (startTool index taken).1).1
    { sent with ended := sent.ended || done } = settled taken done ∧
      sent.started = (taken.call_id.isSome && taken.name.isSome) ∧ sent.ended = taken.ended := by
  obtain ⟨id,called,text,emitted,started,ended⟩ := taken
  have sent := emitArguments_state index ⟨id,called,text,emitted,started || (id.isSome && called.isSome),ended⟩ within
  rw [startTool_state]
  simp only at sent ⊢
  rw [sent]
  cases started with
  | false =>
    have none_ : emitted = 0 := unsent rfl
    simp [settled,none_]
  | true =>
    have isKnown : (id.isSome && called.isSome) = true := known rfl
    simp [settled,isKnown]

theorem updateTool_settled (steady : Steady tool) (updates : updateTool index call_id name arguments done tool = .ok (tool',events)) :
    ∃ taken, takeArguments (learned tool call_id name) arguments = .ok taken ∧ tool' = settled taken done ∧
      (done = true → tool.ended = true ∨ (taken.call_id.isSome && taken.name.isSome) = true) := by
  obtain ⟨taken,ended,takes,ends,_⟩ := updateTool_stages updates
  obtain ⟨more,rfl⟩ := takeArguments_ok takes
  refine ⟨_,takes,?_⟩
  obtain ⟨rfl,complete⟩ := endTool_state ends
  obtain ⟨same,isStarted,isEnded⟩ := settled_of_stages index done
    { learned tool call_id name with arguments := (learned tool call_id name).arguments ++ more }
    (fun unstarted => (steady.unsent unstarted).1)
    (fun started => by
      obtain ⟨same,known⟩ := steady.known call_id name started
      rw [same]
      exact known)
    (by have within := steady.within; simp only [learned,String.length_append]; omega)
  refine ⟨same,fun isDone => ?_⟩
  rw [← isStarted]
  exact (complete isDone).imp_left fun ended => isEnded ▸ ended

theorem view_taken (steady : Steady tool) (call_id name : Option String) (more : String) :
    view { learned tool call_id name with arguments := tool.arguments ++ more } = view tool := by
  cases started : tool.started with
  | false => simp [view,learned,started]
  | true =>
    rw [(steady.known call_id name started).1]
    have within : tool.emitted_arguments ≤ tool.arguments.toList.length := by
      rw [String.length_toList]
      exact steady.within
    simp [view,started,sentArguments,List.take_append_of_le_length within]

theorem updateTool_leads (steady : Steady tool) (updates : updateTool index call_id name arguments done tool = .ok (tool',events))
    (going : p.finish = none) (named : p.model_call_id ≠ none) (known : p.tools index = view tool)
    (quiet : tool.ended = true → tool'.arguments = tool.arguments) (fresh : Fresh p (learned tool call_id name)) :
    Leads p events (p.withTool index (view tool')) := by
  obtain ⟨taken',takes',isSettled,_⟩ := updateTool_settled steady updates
  obtain ⟨taken,ended,takes,ends,rfl⟩ := updateTool_stages updates
  obtain rfl := Except.ok.inj (takes.symm.trans takes')
  obtain ⟨more,isTaken⟩ := takeArguments_ok takes
  have isView : view taken = view tool := by
    rw [isTaken]
    exact view_taken steady call_id name more
  have starts : Leads p (startTool index taken).2 (p.withTool index (view (startTool index taken).1)) := by
    refine startTool_leads going named (known.trans isView.symm) ?_ ?_
    · rw [isTaken]
      exact steady.unsent
    · rw [isTaken]
      exact fresh
  have running : (startTool index taken).1.started = true →
      (startTool index taken).1.emitted_arguments < (startTool index taken).1.arguments.length →
      (startTool index taken).1.ended = false := by
    -- A call that has ended has no arguments left to send.
    intro _ less
    rw [startTool_state] at less ⊢
    by_contra isEnded
    have isEnded : tool.ended = true := by simpa [isTaken,learned] using isEnded
    have same := quiet isEnded
    have emitted := steady.emitted
    rw [steady.ended isEnded,if_pos rfl] at emitted
    rw [isSettled] at same
    simp only [isTaken,settled,learned] at same less
    rw [same,emitted] at less
    exact Nat.lt_irrefl _ less
  have emits := emitArguments_leads (p := p.withTool index (view (startTool index taken).1)) going (withTool_tools _ _ _) running
  have finishes := endTool_leads
    (p := p.withTool index (view (emitArguments index (startTool index taken).1).1)) going (withTool_tools _ _ _) ends
  rw [withTool_twice] at emits finishes
  exact (starts.trans emits).trans finishes
theorem updateTool_fresh (updates : updateTool index call_id name arguments done tool = .ok (tool',events))
    (leads : Leads p events q) : Fresh p (learned tool call_id name) := by
  obtain ⟨taken,ended,takes,_,rfl⟩ := updateTool_stages updates
  obtain ⟨more,rfl⟩ := takeArguments_ok takes
  rw [List.append_assoc] at leads
  obtain ⟨middle,first,_⟩ := leads_append.mp leads
  have fresh := startTool_fresh first
  exact fun unstarted => fresh unstarted

end Update

theorem updateTool_ok (index : Nat) (done : Bool) (steady : Steady tool) {call_id name : Option String}
    {arguments : ResponseToolArguments} {taken : ResponseToolState}
    (takes : takeArguments (learned tool call_id name) arguments = .ok taken) :
    if done = true ∧ tool.ended = false ∧ (taken.call_id.isSome && taken.name.isSome) = false then
      ∃ error, updateTool index call_id name arguments done tool = .error error
    else ∃ events, updateTool index call_id name arguments done tool = .ok (settled taken done,events) := by
  obtain ⟨more,isTaken⟩ := takeArguments_ok takes
  obtain ⟨same,isStarted,isEnded⟩ := settled_of_stages index done taken
    (by rw [isTaken]; exact fun unstarted => (steady.unsent unstarted).1)
    (by
      rw [isTaken]
      intro started
      obtain ⟨same,known⟩ := steady.known call_id name started
      rw [same]
      exact known)
    (by
      have within := steady.within
      rw [isTaken]
      simp only [learned,String.length_append]
      omega)
  have sameEnded : (emitArguments index (startTool index taken).1).1.ended = tool.ended := by
    rw [isEnded,isTaken]
    rfl
  have unfolded : updateTool index call_id name arguments done tool =
      (endTool index done (emitArguments index (startTool index taken).1).1).bind fun ended =>
        .ok (ended.1,(startTool index taken).2 ++ (emitArguments index (startTool index taken).1).2 ++ ended.2) := by
    have takes' : takeArguments { tool with call_id := tool.call_id.or call_id, name := tool.name.or name } arguments = .ok taken := takes
    simp only [updateTool,takes',bind,Except.bind]
  split_ifs with refused
  · obtain ⟨isDone,running,unknown⟩ := refused
    refine ⟨.Provider "OpenAI Responses function call is missing call_id or name",?_⟩
    rw [unfolded,endTool,isDone,sameEnded,isStarted,running,unknown]
    rfl
  · by_cases ending : (done && !(emitArguments index (startTool index taken).1).1.ended) = true
    · have started : (emitArguments index (startTool index taken).1).1.started = true := by
        rw [Bool.and_eq_true,Bool.not_eq_true',sameEnded] at ending
        rw [isStarted]
        by_contra unknown
        exact refused ⟨ending.1,ending.2,by simpa using unknown⟩
      refine ⟨(startTool index taken).2 ++ (emitArguments index (startTool index taken).1).2 ++ [.ToolCallEnd index],?_⟩
      rw [unfolded,endTool,if_pos ending,if_neg (by simp [started])]
      simp only [Except.bind]
      rw [Bool.and_eq_true] at ending
      rw [← same,ending.1,Bool.or_true]
    · refine ⟨(startTool index taken).2 ++ (emitArguments index (startTool index taken).1).2 ++ [],?_⟩
      rw [unfolded,endTool,if_neg ending]
      simp only [Except.bind]
      have unchanged : ((emitArguments index (startTool index taken).1).1.ended || done) =
          (emitArguments index (startTool index taken).1).1.ended := by
        cases done <;> simp_all
      rw [← same]
      simp only [unchanged]

end Tools

section Tracks
variable [Serde] [ArgumentText] {s s' : Items} {a a' : Adapter} {event : Incoming}

def Call.known (call : Call) : Bool := call.call_id.isSome && call.name.isSome
def Call.ended (call : Call) : Bool := call.done || call.final.any (· ≠ "")
def stateOf (call : Call) : ResponseToolState :=
  { call_id := call.call_id, name := call.name, arguments := call.arguments,
    emitted_arguments := if call.known then call.arguments.length else 0, started := call.known, ended := call.ended }

/-- A call that has ended is known, and its arguments are the final ones. -/
structure Sound (call : Call) : Prop where
  ended : call.ended = true → call.known = true
  final : ∀ arguments, call.final = some arguments → call.arguments = arguments
  done : call.done = true → call.final.isSome = true

structure Tracks (s : Items) (a : Adapter) : Prop where
  text : a.text = sent (s.messages.foldl afterMessage "") s.parts ++ s.pending.getD ""
  tools : ∀ index, Keyed.lookup a.tools index = (Keyed.lookup s.calls index).map stateOf
  ordered : Keyed.Ordered a.tools
  distinct : Keyed.Distinct s.calls
  sound : ∀ index call, Keyed.lookup s.calls index = some call → Sound call
  messages : ∀ parts ∈ s.messages, Streamed parts
  parts : Streamed s.parts
  saw_tool : a.saw_tool = true → s.calls ≠ []
  tool_seen : ∀ entry ∈ s.calls, entry.2.done = true → a.saw_tool = true
  completed : a.saw_completed_item = true ↔ s.messages ≠ [] ∨ ∃ entry ∈ s.calls, entry.2.done = true
  terminal : a.terminal = false

theorem stateOf_steady {call : Call} (sound : Sound call) : Steady (stateOf call) := ⟨rfl,rfl,sound.ended⟩
theorem sound_new : Sound {} := by
  refine ⟨?_,?_,?_⟩
  · intro ended
    cases ended
  · intro arguments final
    cases final
  · intro done
    cases done
theorem tracks_nothing : Tracks {} {} := by
  refine ⟨rfl,fun _ => rfl,.nil,.nil,?_,?_,?_,?_,?_,?_,rfl⟩
  · intro index call known
    cases known
  · simp
  · intro part member
    cases member
  · intro seen
    cases seen
  · simp
  · simp

def callAt (s : Items) (index : Nat) : Call := (Keyed.lookup s.calls index).getD {}

theorem Tracks.sound_at (tracks : Tracks s a) (index : Nat) : Sound (callAt s index) := by
  unfold callAt
  cases known : Keyed.lookup s.calls index with
  | none => exact sound_new
  | some call => exact tracks.sound index call known
theorem Tracks.tool_at (tracks : Tracks s a) (index : Nat) : (Keyed.lookup a.tools index).getD {} = stateOf (callAt s index) := by
  rw [tracks.tools,callAt]
  cases Keyed.lookup s.calls index <;> rfl

variable {index : Nat}

theorem changeCall_some {change : Call → Option Call} (changes : changeCall s index change = some s') :
    (callAt s index).done = false ∧ ∃ call, change (callAt s index) = some call ∧
      s' = { s with calls := Keyed.insertLast index call s.calls } := by
  unfold changeCall at changes
  change (if (callAt s index).done then none else _) = _ at changes
  split_ifs at changes with done
  obtain ⟨call,isCall,rfl⟩ := Option.map_eq_some_iff.mp changes
  exact ⟨by simpa using done,call,isCall,rfl⟩

theorem exists_done {call : Call} (distinct : Keyed.Distinct s.calls) (running : (callAt s index).done = false) :
    (∃ entry ∈ Keyed.insertLast index call s.calls, entry.2.done = true) ↔ call.done = true ∨ ∃ entry ∈ s.calls, entry.2.done = true := by
  have distinct' := distinct.insert index call
  constructor
  · rintro ⟨⟨other,one⟩,member,isDone⟩
    rcases Keyed.mem_insertLast member with same | earlier
    · obtain ⟨_,rfl⟩ := Prod.mk.inj same
      exact .inl isDone
    · exact .inr ⟨_,earlier,isDone⟩
  · rintro (isDone | ⟨⟨other,one⟩,member,isDone⟩)
    · refine ⟨(index,call),(Keyed.mem_iff distinct' _ _).mpr ?_,isDone⟩
      rw [Keyed.lookup_insertLast,if_pos rfl]
    · have found := (Keyed.mem_iff distinct _ _).mp member
      have different : other ≠ index := by
        rintro rfl
        rw [callAt,found] at running
        simp only [Option.getD_some] at running
        simp [running] at isDone
      refine ⟨(other,one),(Keyed.mem_iff distinct' _ _).mpr ?_,isDone⟩
      rw [Keyed.lookup_insertLast,if_neg different,found]

theorem Tracks.call {index : Nat} {call : Call} {saw_completed_item saw_tool : Bool} (tracks : Tracks s a)
    (running : (callAt s index).done = false) (sound : Sound call)
    (saw : saw_tool = a.saw_tool ∨ saw_tool = true) (tool_seen : call.done = true → saw_tool = true)
    (completed : saw_completed_item = (a.saw_completed_item || call.done)) :
    Tracks { s with calls := Keyed.insertLast index call s.calls }
      { a with saw_completed_item, saw_tool, tools := Keyed.insertOrdered index (stateOf call) a.tools } := by
  have distinct := tracks.distinct.insert index call
  refine ⟨tracks.text,?_,tracks.ordered.insert _ _,distinct,?_,tracks.messages,tracks.parts,?_,?_,?_,tracks.terminal⟩
  · intro other
    rw [Keyed.lookup_insertOrdered,Keyed.lookup_insertLast]
    by_cases same : other = index
    · simp [same]
    · simp [same,tracks.tools]
  · intro other one known
    rw [Keyed.lookup_insertLast] at known
    by_cases same : other = index
    · rw [if_pos same] at known
      obtain rfl := Option.some.inj known
      exact sound
    · rw [if_neg same] at known
      exact tracks.sound other one known
  · intro _ none_
    have found := Keyed.lookup_insertLast s.calls index call index
    simp only at none_
    rw [none_,if_pos rfl] at found
    cases found
  · rintro ⟨other,one⟩ member isDone
    rcases Keyed.mem_insertLast member with same | earlier
    · obtain ⟨_,rfl⟩ := Prod.mk.inj same
      exact tool_seen isDone
    · rcases saw with same | seen
      · rw [same]
        exact tracks.tool_seen _ earlier isDone
      · exact seen
  · simp only
    rw [exists_done tracks.distinct running,completed,Bool.or_eq_true,tracks.completed]
    exact or_assoc.trans (or_congr_right or_comm)

/-- The index of the call that an event is about, with what it tells of its id and name. -/
def callEvent : Incoming → Option (Nat × Option String × Option String)
  | .CallAdded index call_id name | .CallDone index call_id name _ => some (index,call_id,name)
  | .ArgumentsDelta index (some _) | .ArgumentsDone index _ => some (index,none,none)
  | _ => none

/-- An event of a call: the change of the tool that it makes, or the error. -/
structure CallStep (s s' : Items) (a : Adapter) (event : Incoming) (index : Nat) (call_id name : Option String)
    (arguments : ResponseToolArguments) (done : Bool) (call : Call) : Prop where
  isEvent : callEvent event = some (index,call_id,name)
  running : (callAt s index).done = false
  takes : ∃ taken, takeArguments (learned (stateOf (callAt s index)) call_id name) arguments = .ok taken ∧
    settled taken done = stateOf call ∧ (taken.call_id.isSome && taken.name.isSome) = call.known
  after : s' = { s with calls := Keyed.insertLast index call s.calls }
  steps : ∃ saw_completed_item saw_tool, step a event =
      update_response_tool { a with saw_completed_item, saw_tool } index call_id name arguments done ∧
    (saw_tool = a.saw_tool ∨ saw_tool = true) ∧ (call.done = true → saw_tool = true) ∧
    saw_completed_item = (a.saw_completed_item || call.done)
  quiet : (callAt s index).ended = true → call.arguments = (callAt s index).arguments
  final : ∀ arguments, call.final = some arguments → call.arguments = arguments
  isDone : call.done = true → call.final.isSome = true
  ends : call.ended = ((callAt s index).ended || done)
  keeps : (callAt s index).known = true → call.known = true
  named : Named s event ↔ (done = true → call.known = true)

theorem takes_snapshot {tool : ResponseToolState} {snapshot : String} (starts : starts_with snapshot tool.arguments = true) :
    takeArguments tool (.Snapshot snapshot) = .ok { tool with arguments := snapshot } := by
  unfold takeArguments
  dsimp only
  split_ifs with same
  · rw [same]
  · rw [starts_slice starts]

theorem known_learn {call : Call} (call_id name : Option String) (known : call.known = true) :
    (call.learn call_id name).known = true := by
  obtain ⟨id,called,text,final,done⟩ := call
  cases id <;> cases called <;> simp_all [Call.known,Call.learn]

theorem CallStep.added {call_id name : Option String} (tracks : Tracks s a)
    (follows : follow s (.CallAdded index call_id name) = some s') :
    ∃ call, CallStep s s' a (.CallAdded index call_id name) index call_id name .None false call := by
  simp only [follow] at follows
  obtain ⟨running,call,isCall,rfl⟩ := changeCall_some follows
  obtain rfl := Option.some.inj isCall
  have sound := tracks.sound_at index
  refine ⟨_,rfl,running,⟨_,rfl,?_,rfl⟩,rfl,⟨a.saw_completed_item,true,rfl,.inr rfl,fun _ => rfl,?_⟩,fun _ => rfl,sound.final,
    sound.done,?_,known_learn call_id name,?_⟩
  · simp [settled,learned,stateOf,Call.learn,Call.known,Call.ended]
  · simp [Call.learn,running]
  · simp [Call.learn,Call.ended]
  · simp [Named]
theorem CallStep.delta {delta : String} (tracks : Tracks s a) (follows : follow s (.ArgumentsDelta index (some delta)) = some s') :
    ∃ call, CallStep s s' a (.ArgumentsDelta index (some delta)) index none none (.Delta delta) false call := by
  simp only [follow] at follows
  obtain ⟨running,call,isCall,rfl⟩ := changeCall_some follows
  have sound := tracks.sound_at index
  simp only [Option.ite_none_left_eq_some,Option.some.injEq,Bool.not_eq_true,Option.isSome_eq_false_iff,
    Option.isNone_iff_eq_none] at isCall
  obtain ⟨open_,rfl⟩ := isCall
  have unended : (callAt s index).ended = false := by simp [Call.ended,running,open_]
  refine ⟨_,rfl,running,⟨_,rfl,?_,?_⟩,rfl,⟨a.saw_completed_item,true,rfl,.inr rfl,fun _ => rfl,?_⟩,?_,?_,?_,?_,id,?_⟩
  · simp [settled,learned,stateOf,Call.known,Call.ended]
  · simp [learned,stateOf,Call.known]
  · simp [running]
  · simp [unended]
  · simp [open_]
  · simp [running]
  · simp [Call.ended]
  · simp [Named]
theorem CallStep.arguments {arguments : String} (tracks : Tracks s a)
    (follows : follow s (.ArgumentsDone index (some arguments)) = some s') :
    ∃ taken done call, CallStep s s' a (.ArgumentsDone index (some arguments)) index none none taken done call := by
  simp only [follow] at follows
  obtain ⟨running,call,isCall,rfl⟩ := changeCall_some follows
  have sound := tracks.sound_at index
  simp only [Option.ite_none_right_eq_some,Option.some.injEq,Bool.and_eq_true,Option.isNone_iff_eq_none] at isCall
  obtain ⟨⟨open_,starts⟩,rfl⟩ := isCall
  have unended : (callAt s index).ended = false := by simp [Call.ended,running,open_]
  by_cases none_ : arguments = ""
  · subst none_
    have nothing : (callAt s index).arguments = "" := starts_all starts (by simp)
    refine ⟨.None,false,_,rfl,running,⟨_,rfl,?_,?_⟩,rfl,⟨a.saw_completed_item,a.saw_tool,rfl,.inl rfl,?_,?_⟩,?_,?_,?_,?_,id,?_⟩
    · simp [settled,learned,stateOf,Call.known,Call.ended,nothing,running,open_]
    · simp [learned,stateOf,Call.known]
    · simp [running]
    · simp [running]
    · simp [unended]
    · simp
    · simp [running]
    · simp [Call.ended,running,open_]
    · simp [Named]
  · refine ⟨.Snapshot arguments,true,_,rfl,running,⟨_,takes_snapshot starts,?_,?_⟩,rfl,
      ⟨a.saw_completed_item,a.saw_tool,?_,.inl rfl,?_,?_⟩,?_,?_,?_,?_,id,?_⟩
    · simp [settled,learned,stateOf,Call.known,Call.ended,none_]
    · simp [learned,stateOf,Call.known]
    · simp [step,none_,ResponseToolArguments.ofSnapshot]
    · simp [running]
    · simp [running]
    · simp [unended]
    · simp
    · simp [running]
    · simp [Call.ended,none_]
    · simp only [Named,callAt,Call.known,true_imp_iff]
      cases Keyed.lookup s.calls index <;> simp [none_]
theorem CallStep.finished {call_id name : Option String} {arguments : String} (tracks : Tracks s a)
    (follows : follow s (.CallDone index call_id name (some arguments)) = some s') :
    ∃ call, CallStep s s' a (.CallDone index call_id name (some arguments)) index call_id name (.Snapshot arguments) true call := by
  simp only [follow] at follows
  obtain ⟨running,call,isCall,rfl⟩ := changeCall_some follows
  have sound := tracks.sound_at index
  simp only [Option.ite_none_right_eq_some,Option.some.injEq,Bool.and_eq_true] at isCall
  obtain ⟨⟨⟨⟨isId,isName⟩,same⟩,starts⟩,rfl⟩ := isCall
  have known : (callAt s index |>.learn call_id name).known = true := by simp [Call.known,isId,isName]
  refine ⟨_,rfl,running,⟨_,takes_snapshot starts,?_,?_⟩,rfl,⟨true,true,rfl,.inr rfl,fun _ => rfl,?_⟩,?_,?_,?_,?_,fun _ => known,?_⟩
  · simp [settled,learned,stateOf,Call.learn,Call.known,Call.ended]
  · simp [learned,stateOf,Call.learn,Call.known]
  · simp
  · intro ended
    obtain ⟨final,isFinal,_⟩ : ∃ final, (callAt s index).final = some final ∧ final ≠ "" := by
      simpa [Call.ended,running,Option.any_eq_true] using ended
    have equal : final = arguments := by simpa [Call.learn,isFinal] using same
    rw [← equal]
    exact (sound.final final isFinal).symm
  · simp
  · simp
  · simp [Call.ended]
  · simp only [Named,true_iff,true_imp_iff]
    exact known

/-- The cycle has what the adapter has yielded. -/
structure Shown (p : Progress) (a : Adapter) : Prop where
  named : p.model_call_id ≠ none
  text : p.text = a.text
  text_open : p.text_open = a.text_open
  thinking_open : p.thinking_open = a.thinking_open
  tools : ∀ index, p.tools index = (Keyed.lookup a.tools index).bind view
  replay_state : p.replay_state = none
  usage : p.usage = none
  finish : p.finish = none

def FreshStep (p : Progress) (a : Adapter) (event : Incoming) : Prop :=
  ∀ index call_id name, callEvent event = some (index,call_id,name) →
    Fresh p (learned ((Keyed.lookup a.tools index).getD {}) call_id name)

structure Stepped (s' : Items) (a : Adapter) (event : Incoming) (a' : Adapter) (events : List ModelEvent) : Prop where
  steps : step a event = (a',events,none)
  tracks : Tracks s' a'
  shown : ∀ p, Shown p a → FreshStep p a event → ∃ p', Leads p events p' ∧ Shown p' a'
  fresh : ∀ p p', Leads p events p' → FreshStep p a event

variable {index : Nat} {call_id name : Option String} {arguments : ResponseToolArguments} {done : Bool} {call : Call}

section
variable (calls : CallStep s s' a event index call_id name arguments done call)
include calls

theorem CallStep.sound (tracks : Tracks s a) (named : Named s event) : Sound call := by
  refine ⟨fun ended => ?_,calls.final,calls.isDone⟩
  rw [calls.ends,Bool.or_eq_true] at ended
  rcases ended with before | isDone
  · exact calls.keeps ((tracks.sound_at index).ended before)
  · exact calls.named.mp named isDone

theorem CallStep.stepped (tracks : Tracks s a) (named : Named s event) : ∃ a' events, Stepped s' a event a' events := by
  obtain ⟨taken,takes,isSettled,isKnown⟩ := calls.takes
  obtain ⟨saw_completed_item,saw_tool,steps,saw,tool_seen,completed⟩ := calls.steps
  have steady := stateOf_steady (tracks.sound_at index)
  have updates := updateTool_ok index done steady takes
  rw [if_neg (fun refused => by
    have known := calls.named.mp named refused.1
    rw [← isKnown,refused.2.2] at known
    cases known)] at updates
  obtain ⟨events,updates⟩ := updates
  rw [isSettled] at updates
  have isTool := tracks.tool_at index
  rw [calls.after]
  refine ⟨_,events,?_,tracks.call calls.running (calls.sound tracks named) saw tool_seen completed,?_,?_⟩
  · rw [steps,update_response_tool]
    simp only [isTool,updates]
  · intro p shown fresh
    have known : p.tools index = view (stateOf (callAt s index)) := by
      rw [shown.tools,tracks.tools,callAt]
      cases Keyed.lookup s.calls index <;> rfl
    have isFresh := fresh index call_id name calls.isEvent
    rw [isTool] at isFresh
    refine ⟨_,updateTool_leads steady updates shown.finish shown.named known calls.quiet isFresh,?_⟩
    refine ⟨shown.named,shown.text,shown.text_open,shown.thinking_open,?_,shown.replay_state,shown.usage,shown.finish⟩
    intro other
    rw [withTool_apply,Keyed.lookup_insertOrdered]
    by_cases same : other = index
    · rw [if_pos same,if_pos same,Option.bind_some]
    · rw [if_neg same,if_neg same,shown.tools]
  · intro p p' leads other id called isEvent
    rw [calls.isEvent] at isEvent
    obtain ⟨rfl,rfl,rfl⟩ := by simpa using isEvent
    rw [isTool]
    exact updateTool_fresh updates leads
theorem CallStep.refused (tracks : Tracks s a) (unnamed : ¬ Named s event) : ∃ error, (step a event).2.2 = some error := by
  obtain ⟨taken,takes,isSettled,isKnown⟩ := calls.takes
  obtain ⟨saw_completed_item,saw_tool,steps,_⟩ := calls.steps
  have sound := tracks.sound_at index
  have updates := updateTool_ok index done (stateOf_steady sound) takes
  obtain ⟨isDone,unknown⟩ : done = true ∧ call.known = false := by simpa [calls.named] using unnamed
  have running : (stateOf (callAt s index)).ended = false := by
    by_contra ended
    have known := calls.keeps (sound.ended (by simpa [stateOf] using ended))
    rw [unknown] at known
    cases known
  rw [if_pos ⟨isDone,running,isKnown.trans unknown⟩] at updates
  obtain ⟨error,updates⟩ := updates
  refine ⟨error,?_⟩
  rw [steps,update_response_tool]
  simp only [tracks.tool_at index,updates]

end

variable {events : List ModelEvent}

variable {p : Progress}

section
variable (shown : Shown p a)
include shown

theorem closeThinking_shown : ∃ p', Leads p (closeThinking a).2 p' ∧ Shown p' (closeThinking a).1 := by
  unfold closeThinking
  cases isOpen : a.thinking_open with
  | false => exact ⟨p,rfl,{ shown with thinking_open := by rw [shown.thinking_open,isOpen] }⟩
  | true =>
    refine ⟨p.after .ThinkingEnd,⟨shown.finish,by rw [Progress.Takes,shown.thinking_open,isOpen],rfl⟩,?_⟩
    exact ⟨shown.named,shown.text,shown.text_open,rfl,shown.tools,shown.replay_state,shown.usage,shown.finish⟩
theorem closeText_shown : ∃ p', Leads p (closeText a).2 p' ∧ Shown p' (closeText a).1 := by
  unfold closeText
  cases isOpen : a.text_open with
  | false => exact ⟨p,rfl,{ shown with text_open := by rw [shown.text_open,isOpen] }⟩
  | true =>
    refine ⟨p.after .TextEnd,⟨shown.finish,by rw [Progress.Takes,shown.text_open,isOpen],rfl⟩,?_⟩
    exact ⟨shown.named,shown.text,rfl,shown.thinking_open,shown.tools,shown.replay_state,shown.usage,shown.finish⟩
theorem openText_shown : ∃ p', Leads p (if a.text_open then [] else [.TextStart]) p' ∧ Shown p' { a with text_open := true } := by
  cases isOpen : a.text_open with
  | true => exact ⟨p,rfl,{ shown with text_open := by rw [shown.text_open,isOpen] }⟩
  | false =>
    refine ⟨p.after .TextStart,⟨shown.finish,⟨shown.named,by rw [shown.text_open,isOpen]⟩,rfl⟩,?_⟩
    exact ⟨shown.named,shown.text,rfl,shown.thinking_open,shown.tools,shown.replay_state,shown.usage,shown.finish⟩
theorem moreText_shown (delta : String) : ∃ p', Leads p ((if a.text_open then [] else [.TextStart]) ++ [.TextDelta delta]) p' ∧
      Shown p' { a with text_open := true, text := a.text ++ delta } := by
  obtain ⟨opened,opens,shown'⟩ := openText_shown shown
  refine ⟨opened.after (.TextDelta delta),opens.snoc shown'.finish shown'.text_open,?_⟩
  refine ⟨shown'.named,?_,shown'.text_open,shown'.thinking_open,shown'.tools,shown'.replay_state,shown'.usage,shown'.finish⟩
  rw [Progress.after,shown'.text]
theorem reconcile_shown (final_text : String) :
    ∃ p', Leads p (reconcile_response_text a final_text).2 p' ∧ Shown p' (reconcile_response_text a final_text).1 := by
  unfold reconcile_response_text
  by_cases more : (starts_with final_text a.text && decide (a.text.length < final_text.length)) = true
  · rw [if_pos more]
    exact moreText_shown shown _
  · rw [if_neg more]
    exact ⟨p,rfl,shown⟩
theorem finishText_shown (text : String) : ∃ p', Leads p (finishText a (some text)).2 p' ∧ Shown p' (finishText a (some text)).1 := by
  obtain ⟨middle,first,shown'⟩ := reconcile_shown shown text
  obtain ⟨last,second,shown''⟩ := closeText_shown shown'
  exact ⟨last,first.trans second,shown''⟩

end

theorem reconcile_text (a : Adapter) (final_text : String) : (reconcile_response_text a final_text).1 = { a with
        text := reconciled a.text final_text
        text_open := a.text_open || (starts_with final_text a.text && decide (a.text.length < final_text.length)) } := by
  unfold reconcile_response_text reconciled
  by_cases starts : starts_with final_text a.text = true
  · by_cases longer : a.text.length < final_text.length
    · simp [starts,longer,starts_slice starts]
    · have same := starts_all starts (Nat.le_of_not_lt longer)
      simp only [starts,longer,Bool.true_and,decide_false,Bool.false_eq_true,if_false,if_true,Bool.or_false]
      rw [← same]
  · simp [starts]
theorem finishText_state (a : Adapter) (text : String) :
    (finishText a (some text)).1 = { a with text := reconciled a.text text, text_open := false } := by
  simp only [finishText,Option.elim_some,closeText,reconcile_text]

theorem shown_stepped (other : callEvent event = none) (steps : step a event = (a',events,none))
    (tracks : Tracks s' a') (shows : ∀ p, Shown p a → ∃ p', Leads p events p' ∧ Shown p' a') :
    Stepped s' a event a' events := by
  refine ⟨steps,tracks,fun p shown _ => shows p shown,?_⟩
  intro p p' _ index call_id name isCall
  rw [other] at isCall
  cases isCall

theorem sent_snoc (before : String) (parts : List Part) (part : Part) :
    sent before (parts ++ [part]) = reconciled (sent before parts ++ part.streamed) part.final := by
  induction parts generalizing before with
  | nil => rfl
  | cons first rest ih => exact ih _

section
variable (tracks : Tracks s a)
include tracks

theorem stepped_text (delta : Option String) :
    ∃ a' events, Stepped { s with pending := some (s.pending.getD "" ++ delta.getD "") } a (.OutputTextDelta delta) a' events := by
  have text : a.text ++ delta.getD "" = sent (s.messages.foldl afterMessage "") s.parts ++ (s.pending.getD "" ++ delta.getD "") := by
    rw [tracks.text,String.append_assoc]
  cases delta with
  | none =>
    refine ⟨_,_,shown_stepped rfl rfl { tracks with text := by simpa using tracks.text } fun p shown => ?_⟩
    obtain ⟨closed,closes,shown'⟩ := closeThinking_shown shown
    obtain ⟨opened,opens,shown''⟩ := openText_shown shown'
    exact ⟨opened,closes.trans opens,shown''⟩
  | some delta =>
    refine ⟨_,_,shown_stepped rfl rfl { tracks with text } fun p shown => ?_⟩
    obtain ⟨closed,closes,shown'⟩ := closeThinking_shown shown
    obtain ⟨opened,opens,shown''⟩ := moreText_shown shown' delta
    refine ⟨opened,?_,shown''⟩
    rw [List.append_assoc]
    exact closes.trans opens
theorem stepped_part {text : String} (streamed : starts_with text (s.pending.getD "") = true) :
    ∃ a' events, Stepped { s with pending := none, parts := s.parts ++ [⟨s.pending.getD "",text⟩] } a
      (.OutputTextDone (some text)) a' events := by
  refine ⟨(finishText a (some text)).1,(finishText a (some text)).2,shown_stepped rfl rfl ?_ fun p shown => finishText_shown shown text⟩
  rw [finishText_state]
  refine { tracks with text := ?_, parts := ?_ }
  · simp only [sent_snoc,Option.getD_none,String.append_empty]
    rw [tracks.text]
  · intro part member
    rcases List.mem_append.mp member with earlier | new
    · exact tracks.parts part earlier
    · rw [List.mem_singleton.mp new]
      exact streamed
theorem stepped_message (settled : s.pending = none) : ∃ a' events, Stepped { s with messages := s.messages ++ [s.parts], parts := [] } a
      (.MessageItemDone (some (textOf s.parts))) a' events := by
  refine ⟨(finishText { a with saw_completed_item := true } (some (textOf s.parts))).1,
    (finishText { a with saw_completed_item := true } (some (textOf s.parts))).2,
    shown_stepped rfl rfl ?_ fun p shown => finishText_shown (a := { a with saw_completed_item := true }) ?_ (textOf s.parts)⟩
  · rw [finishText_state]
    refine { tracks with text := ?_, messages := ?_, parts := ?_, completed := ?_ }
    · simp only [settled,Option.getD_none,String.append_empty,List.foldl_append,List.foldl_cons,List.foldl_nil,sent]
      rw [tracks.text,settled,Option.getD_none,String.append_empty]
      rfl
    · intro parts member
      rcases List.mem_append.mp member with earlier | new
      · exact tracks.messages parts earlier
      · rw [List.mem_singleton.mp new]
        exact tracks.parts
    · intro part member
      cases member
    · simp
  · exact ⟨shown.named,shown.text,shown.text_open,shown.thinking_open,shown.tools,shown.replay_state,shown.usage,shown.finish⟩
theorem stepped_thinking (delta : Option String) : ∃ a' events, Stepped s a (.ReasoningDelta delta) a' events := by
  refine ⟨_,_,shown_stepped rfl rfl { tracks with } fun p shown => ?_⟩
  obtain ⟨opened,opens,shown'⟩ : ∃ p', Leads p (if a.thinking_open then [] else [.ThinkingStart]) p' ∧
      Shown p' { a with thinking_open := true } := by
    cases isOpen : a.thinking_open with
    | true => exact ⟨p,rfl,{ shown with thinking_open := by rw [shown.thinking_open,isOpen] }⟩
    | false =>
      refine ⟨p.after .ThinkingStart,⟨shown.finish,⟨shown.named,by rw [shown.thinking_open,isOpen]⟩,rfl⟩,?_⟩
      exact ⟨shown.named,shown.text,shown.text_open,rfl,shown.tools,shown.replay_state,shown.usage,shown.finish⟩
  cases delta with
  | none => exact ⟨opened,by simpa using opens,shown'⟩
  | some delta =>
    refine ⟨opened.after (.ThinkingDelta delta),opens.snoc shown'.finish shown'.thinking_open,?_⟩
    exact ⟨shown'.named,shown'.text,shown'.text_open,shown'.thinking_open,shown'.tools,shown'.replay_state,shown'.usage,shown'.finish⟩
theorem stepped_thought (items : List Value) (other : callEvent event = none)
    (steps : step a event = ({ (closeThinking a).1 with reasoning_items := items },(closeThinking a).2,none)) :
    ∃ a' events, Stepped s a event a' events := by
  refine ⟨_,_,shown_stepped other steps { tracks with } fun p shown => ?_⟩
  obtain ⟨closed,closes,shown'⟩ := closeThinking_shown shown
  exact ⟨closed,closes,⟨shown'.named,shown'.text,shown'.text_open,shown'.thinking_open,shown'.tools,shown'.replay_state,
    shown'.usage,shown'.finish⟩⟩

theorem Tracks.step (follows : follow s event = some s') : (Named s event → ∃ a' events, Stepped s' a event a' events) ∧
      (¬ Named s event → ∃ error, (Responses.step a event).2.2 = some error) := by
  have always : (∃ a' events, Stepped s' a event a' events) → Named s event = True →
      (Named s event → ∃ a' events, Stepped s' a event a' events) ∧
        (¬ Named s event → ∃ error, (Responses.step a event).2.2 = some error) :=
    fun steps isNamed => ⟨fun _ => steps,fun unnamed => absurd (isNamed ▸ trivial) unnamed⟩
  cases event with
  | OutputTextDelta delta =>
    obtain rfl := Option.some.inj follows
    exact always (stepped_text tracks delta) rfl
  | OutputTextDone text =>
    cases text with
    | none => cases follows
    | some text =>
      simp only [follow,Option.ite_none_right_eq_some,Option.some.injEq] at follows
      obtain ⟨streamed,rfl⟩ := follows
      exact always (stepped_part tracks streamed) rfl
  | MessageItemDone text =>
    cases text with
    | none => cases follows
    | some text =>
      simp only [follow,Option.ite_none_right_eq_some,Option.some.injEq] at follows
      obtain ⟨⟨settled,rfl⟩,rfl⟩ := follows
      exact always (stepped_message tracks settled) rfl
  | ReasoningDelta delta =>
    obtain rfl := Option.some.inj follows
    exact always (stepped_thinking tracks delta) rfl
  | ReasoningDone =>
    obtain rfl := Option.some.inj follows
    exact always (stepped_thought tracks a.reasoning_items rfl rfl) rfl
  | ReasoningItemDone item =>
    obtain rfl := Option.some.inj follows
    exact always (stepped_thought tracks (a.reasoning_items ++ [item]) rfl rfl) rfl
  | CallAdded index call_id name =>
    obtain ⟨call,calls⟩ := CallStep.added tracks follows
    exact ⟨calls.stepped tracks,calls.refused tracks⟩
  | CallDone index call_id name arguments =>
    cases arguments with
    | none => cases follows
    | some arguments =>
      obtain ⟨call,calls⟩ := CallStep.finished tracks follows
      exact ⟨calls.stepped tracks,calls.refused tracks⟩
  | ArgumentsDelta index delta =>
    cases delta with
    | none =>
      obtain rfl := Option.some.inj follows
      exact always ⟨_,_,shown_stepped rfl rfl tracks fun p shown => ⟨p,rfl,shown⟩⟩ rfl
    | some delta =>
      obtain ⟨call,calls⟩ := CallStep.delta tracks follows
      exact ⟨calls.stepped tracks,calls.refused tracks⟩
  | ArgumentsDone index arguments =>
    cases arguments with
    | none => cases follows
    | some arguments =>
      obtain ⟨taken,done,call,calls⟩ := CallStep.arguments tracks follows
      exact ⟨calls.stepped tracks,calls.refused tracks⟩
  | Completed usage | Incomplete usage => cases follows
  | Other =>
    obtain rfl := Option.some.inj follows
    exact always ⟨_,_,shown_stepped rfl rfl tracks fun p shown => ⟨p,rfl,shown⟩⟩ rfl

end

def runSteps (a : Adapter) : List Incoming → Yield
  | [] => (a,[],none)
  | incoming :: rest =>
    match Responses.step a incoming with
    | (a,events,some error) => (a,events,some error)
    | (a,events,none) =>
      let (a,more,ending) := runSteps a rest
      (a,events ++ more,ending)

theorem runSteps_append (before later : List Incoming) : ∀ {a middle : Adapter} {events : List ModelEvent},
    runSteps a before = (middle,events,none) →
    runSteps a (before ++ later) = ((runSteps middle later).1,events ++ (runSteps middle later).2.1,(runSteps middle later).2.2) := by
  induction before with
  | nil =>
    intro a middle events runs
    obtain ⟨rfl,rfl,_⟩ : a = middle ∧ [] = events ∧ True := by simpa [runSteps] using runs
    rfl
  | cons incoming rest ih =>
    intro a middle events runs
    rcases isStep : Responses.step a incoming with ⟨a',first,error⟩
    simp only [List.cons_append,runSteps,isStep] at runs ⊢
    cases error with
    | some error => simp at runs
    | none =>
      rcases isRest : runSteps a' rest with ⟨last,more,ending⟩
      simp only [isRest,Prod.mk.injEq] at runs
      obtain ⟨rfl,rfl,rfl⟩ := runs
      simp only [ih isRest,List.append_assoc]
theorem runFrom_steps (body later : List Incoming) : ∀ {a middle : Adapter} {events : List ModelEvent},
    runSteps a body = (middle,events,none) →
    runFrom a (body ++ later) = (events ++ (runFrom middle later).1,(runFrom middle later).2) := by
  induction body with
  | nil =>
    intro a middle events runs
    obtain ⟨rfl,rfl,_⟩ : a = middle ∧ [] = events ∧ True := by simpa [runSteps] using runs
    rfl
  | cons incoming rest ih =>
    intro a middle events runs
    rcases isStep : Responses.step a incoming with ⟨a',first,error⟩
    simp only [List.cons_append,runSteps,runFrom,isStep] at runs ⊢
    cases error with
    | some error => simp at runs
    | none =>
      rcases isRest : runSteps a' rest with ⟨last,more,ending⟩
      simp only [isRest,Prod.mk.injEq] at runs
      obtain ⟨rfl,rfl,rfl⟩ := runs
      simp only [ih isRest,List.append_assoc]
theorem runFrom_fails (body later : List Incoming) : ∀ {a : Adapter} {error : Error},
    (runSteps a body).2.2 = some error → (runFrom a (body ++ later)).2 = some error := by
  induction body with
  | nil =>
    intro a error runs
    cases runs
  | cons incoming rest ih =>
    intro a error runs
    rcases isStep : Responses.step a incoming with ⟨a',first,stops⟩
    simp only [List.cons_append,runSteps,runFrom,isStep] at runs ⊢
    cases stops with
    | some stop => simpa using runs
    | none => exact ih runs

theorem runSteps_fails (before later : List Incoming) : ∀ {a : Adapter} {error : Error},
    (runSteps a before).2.2 = some error → (runSteps a (before ++ later)).2.2 = some error := by
  induction before with
  | nil =>
    intro a error runs
    cases runs
  | cons incoming rest ih =>
    intro a error runs
    rcases isStep : Responses.step a incoming with ⟨a',first,stops⟩
    simp only [List.cons_append,runSteps,isStep] at runs ⊢
    cases stops with
    | some stop => simpa using runs
    | none => exact ih runs

theorem followAll_snoc {before : List Incoming} {event : Incoming} (follows : followAll {} (before ++ [event]) = some s) :
    ∃ known, followAll {} before = some known ∧ follow known event = some s := by
  simp only [followAll,List.foldlM_append,List.foldlM_cons,List.foldlM_nil,bind_pure] at follows
  exact Option.bind_eq_some_iff.mp follows

/-- The ids of different calls are different, as far as they are known. -/
def DistinctIds (s : Items) : Prop := ∀ first second one other id, Keyed.lookup s.calls first = some one →
  Keyed.lookup s.calls second = some other → one.call_id = some id → other.call_id = some id → first = second

theorem follow_calls (follows : follow s event = some s') :
    (callEvent event = none ∧ s'.calls = s.calls) ∨ ∃ index call_id name call, callEvent event = some (index,call_id,name) ∧
      s'.calls = Keyed.insertLast index call s.calls ∧ call.call_id = (callAt s index).call_id.or call_id := by
  cases event with
  | CallAdded index call_id name =>
    simp only [follow] at follows
    obtain ⟨_,call,isCall,rfl⟩ := changeCall_some follows
    obtain rfl := Option.some.inj isCall
    exact .inr ⟨index,call_id,name,_,rfl,rfl,rfl⟩
  | CallDone index call_id name arguments =>
    cases arguments with
    | none => cases follows
    | some arguments =>
      simp only [follow] at follows
      obtain ⟨_,call,isCall,rfl⟩ := changeCall_some follows
      simp only [Option.ite_none_right_eq_some,Option.some.injEq] at isCall
      obtain ⟨_,rfl⟩ := isCall
      exact .inr ⟨index,call_id,name,_,rfl,rfl,rfl⟩
  | ArgumentsDelta index delta =>
    cases delta with
    | none =>
      obtain rfl := Option.some.inj follows
      exact .inl ⟨rfl,rfl⟩
    | some delta =>
      simp only [follow] at follows
      obtain ⟨_,call,isCall,rfl⟩ := changeCall_some follows
      simp only [Option.ite_none_left_eq_some,Option.some.injEq] at isCall
      obtain ⟨_,rfl⟩ := isCall
      exact .inr ⟨index,none,none,_,rfl,rfl,by simp⟩
  | ArgumentsDone index arguments =>
    cases arguments with
    | none => cases follows
    | some arguments =>
      simp only [follow] at follows
      obtain ⟨_,call,isCall,rfl⟩ := changeCall_some follows
      simp only [Option.ite_none_right_eq_some,Option.some.injEq] at isCall
      obtain ⟨_,rfl⟩ := isCall
      exact .inr ⟨index,none,none,_,rfl,rfl,by simp⟩
  | OutputTextDone text | MessageItemDone text =>
    cases text with
    | none => cases follows
    | some text =>
      simp only [follow,Option.ite_none_right_eq_some,Option.some.injEq] at follows
      obtain ⟨_,rfl⟩ := follows
      exact .inl ⟨rfl,rfl⟩
  | OutputTextDelta _ | ReasoningDelta _ | ReasoningDone | ReasoningItemDone _ | Other =>
    obtain rfl := Option.some.inj follows
    exact .inl ⟨rfl,rfl⟩
  | Completed _ | Incomplete _ => cases follows

theorem follow_id (follows : follow s event = some s') {one : Call} {id : String}
    (found : Keyed.lookup s.calls index = some one) (isId : one.call_id = some id) :
    ∃ one', Keyed.lookup s'.calls index = some one' ∧ one'.call_id = some id := by
  rcases follow_calls follows with ⟨_,same⟩ | ⟨other,call_id,name,call,_,same,isCall⟩
  · exact ⟨one,same ▸ found,isId⟩
  · rw [same,Keyed.lookup_insertLast]
    by_cases here : index = other
    · subst here
      refine ⟨call,if_pos rfl,?_⟩
      rw [isCall,callAt,found]
      simp [isId]
    · exact ⟨one,by rw [if_neg here,found],isId⟩
theorem DistinctIds.before (distinct : DistinctIds s') (follows : follow s event = some s') : DistinctIds s := by
  intro first second one other id isOne isOther isId isId'
  obtain ⟨one',found,named⟩ := follow_id follows isOne isId
  obtain ⟨other',found',named'⟩ := follow_id follows isOther isId'
  exact distinct first second one' other' id found found' named named'

theorem DistinctIds.fresh (distinct : DistinctIds s') (follows : follow s event = some s') (tracks : Tracks s a)
    (shown : Shown p a) : FreshStep p a event := by
  intro index call_id name isCall unstarted id called isId isName other tool known same
  rcases follow_calls follows with ⟨none_,_⟩ | ⟨index',call_id',name',call,isCall',calls,named⟩
  · rw [isCall] at none_
    cases none_
  · obtain ⟨rfl,rfl,rfl⟩ : index = index' ∧ call_id = call_id' ∧ name = name' := by simpa [isCall] using isCall'
    rw [tracks.tool_at] at unstarted isId
    have isNew : call.call_id = some id := by
      rw [named]
      exact isId
    rw [shown.tools,tracks.tools] at known
    obtain ⟨state,isState,isTool⟩ := Option.bind_eq_some_iff.mp known
    obtain ⟨one,isOne,rfl⟩ := Option.map_eq_some_iff.mp isState
    have started : one.known = true := by
      by_contra unknown
      simp [view,stateOf,unknown] at isTool
    have oneId : one.call_id = some id := by
      obtain ⟨oneId,isOneId⟩ : ∃ oneId, one.call_id = some oneId := by
        rw [Call.known,Bool.and_eq_true,Option.isSome_iff_exists] at started
        exact started.1
      have isTool : (⟨one.call_id.getD "",one.name.getD "",sentArguments (stateOf one),one.ended⟩ : Tool) = tool := by
        simpa [view,stateOf,started] using isTool
      rw [← same,← isTool,isOneId]
      rfl
    have different : other ≠ index := by
      rintro rfl
      rw [callAt,isOne] at unstarted
      have unstarted : one.known = false := unstarted
      rw [started] at unstarted
      cases unstarted
    have isOne' : Keyed.lookup s'.calls other = some one := by
      rw [calls,Keyed.lookup_insertLast,if_neg different,isOne]
    have isCall' : Keyed.lookup s'.calls index = some call := by
      rw [calls,Keyed.lookup_insertLast,if_pos rfl]
    exact different (distinct other index one call id isOne' isCall' oneId isNew)

/-- Every step of a stream has a call's id and name when it needs them. -/
def NamedSteps (body : List Incoming) : Prop :=
  ∀ before event later known, body = before ++ event :: later → followAll {} before = some known → Named known event

theorem NamedSteps.earlier {before later : List Incoming} (named : NamedSteps (before ++ later)) : NamedSteps before := by
  intro first event rest known split follows
  exact named first event (rest ++ later) known (by simp [split]) follows

structure Ran (s : Items) (body : List Incoming) (a : Adapter) (events : List ModelEvent) : Prop where
  runs : runSteps {} body = (a,events,none)
  tracks : Tracks s a
  shown : ∀ p, Shown p {} → DistinctIds s → ∃ p', Leads p events p' ∧ Shown p' a
  shows : ∀ p p', Shown p {} → Leads p events p' → Shown p' a

theorem ran (body : List Incoming) : ∀ s, followAll {} body = some s → NamedSteps body → ∃ a events, Ran s body a events := by
  induction body using List.reverseRecOn with
  | nil =>
    intro s follows _
    obtain rfl : {} = s := Option.some.inj follows
    refine ⟨{},[],rfl,tracks_nothing,fun p shown _ => ⟨p,rfl,shown⟩,?_⟩
    rintro p p' shown rfl
    exact shown
  | append_singleton before event ih =>
    intro s follows named
    obtain ⟨known,isKnown,next⟩ := followAll_snoc follows
    obtain ⟨a,events,runs,tracks,shown,shows⟩ := ih known isKnown named.earlier
    obtain ⟨a',more,steps,tracks',shown',fresh⟩ := (tracks.step next).1 (named before event [] known rfl isKnown)
    refine ⟨a',events ++ more,?_,tracks',?_,?_⟩
    · rw [runSteps_append before [event] runs,runSteps,steps]
      simp [runSteps]
    · intro p isShown distinct
      obtain ⟨middle,first,isMiddle⟩ := shown p isShown (distinct.before next)
      obtain ⟨last,second,isLast⟩ := shown' middle isMiddle (distinct.fresh next tracks isMiddle)
      exact ⟨last,first.trans second,isLast⟩
    · intro p p' isShown leads
      obtain ⟨middle,first,second⟩ := leads_append.mp leads
      have isMiddle := shows p middle isShown first
      obtain ⟨last,second',isLast⟩ := shown' middle isMiddle (fresh middle p' second)
      rw [leads_unique second second']
      exact isLast
theorem not_ran (body : List Incoming) : ∀ s, followAll {} body = some s → ¬ NamedSteps body →
    ∃ error, (runSteps {} body).2.2 = some error := by
  induction body using List.reverseRecOn with
  | nil =>
    intro s _ unnamed
    refine absurd ?_ unnamed
    intro before event later known split
    simp at split
  | append_singleton before event ih =>
    intro s follows unnamed
    obtain ⟨known,isKnown,next⟩ := followAll_snoc follows
    by_cases earlier : NamedSteps before
    · obtain ⟨a,events,runs,tracks,_,_⟩ := ran before known isKnown earlier
      have unnamed : ¬ Named known event := by
        intro named
        refine unnamed ?_
        intro first one rest known' split follows'
        rcases List.append_eq_append_iff.mp split with ⟨middle,isFirst,isRest⟩ | ⟨middle,isBefore,isRest⟩
        · cases middle with
          | nil =>
            obtain ⟨rfl,_⟩ := List.cons.inj isRest
            rw [List.append_nil] at isFirst
            subst isFirst
            obtain rfl := Option.some.inj (isKnown.symm.trans follows')
            exact named
          | cons head tail => simp at isRest
        · cases middle with
          | nil =>
            rw [List.append_nil] at isBefore
            obtain ⟨rfl,_⟩ := List.cons.inj isRest
            subst isBefore
            obtain rfl := Option.some.inj (isKnown.symm.trans follows')
            exact named
          | cons head tail =>
            obtain ⟨rfl,_⟩ := List.cons.inj isRest
            exact earlier first one tail known' isBefore follows'
      obtain ⟨error,stops⟩ := (tracks.step next).2 unnamed
      refine ⟨error,?_⟩
      rw [runSteps_append before [event] runs,runSteps]
      rcases isStep : Responses.step a event with ⟨a',more,ending⟩
      rw [isStep] at stops
      obtain rfl : ending = some error := stops
      rfl
    · obtain ⟨error,stops⟩ := ih known isKnown earlier
      refine ⟨error,?_⟩
      rcases isRun : runSteps {} before with ⟨a',more,ending⟩
      rw [isRun] at stops
      obtain rfl : ending = some error := stops
      exact runSteps_fails before [event] (by rw [isRun])

theorem Tracks.all_known (tracks : Tracks s a) (finished : ∀ entry ∈ s.calls, entry.2.done = true)
    {tool : ResponseToolState} (member : (index,tool) ∈ a.tools) : tool.started = true ∧ tool.ended = true := by
  have found := (Keyed.mem_iff tracks.ordered.distinct _ _).mp member
  rw [tracks.tools] at found
  obtain ⟨call,isCall,rfl⟩ := Option.map_eq_some_iff.mp found
  have done : call.done = true := finished _ (Keyed.lookup_mem isCall)
  have ended : call.ended = true := by simp [Call.ended,done]
  exact ⟨(tracks.sound index call isCall).ended ended,ended⟩

theorem Tracks.reason (tracks : Tracks s a) (finished : ∀ entry ∈ s.calls, entry.2.done = true) (shown : Shown p a) :
    finalReason a = .ToolUse ↔ ∃ index, p.tools index ≠ none := by
  have seen : finalReason a = .ToolUse ↔ a.saw_tool = true := by
    unfold finalReason
    cases a.saw_tool <;> simp
  rw [seen]
  constructor
  · intro saw
    obtain ⟨⟨index,call⟩,rest,isCalls⟩ := List.exists_cons_of_ne_nil (tracks.saw_tool saw)
    have member : (index,call) ∈ s.calls := by rw [isCalls]; exact List.mem_cons_self
    have found := (Keyed.mem_iff tracks.distinct _ _).mp member
    have isTool : Keyed.lookup a.tools index = some (stateOf call) := by rw [tracks.tools,found]; rfl
    refine ⟨index,?_⟩
    rw [shown.tools,isTool,Option.bind_some,view,(tracks.all_known finished (Keyed.lookup_mem isTool)).1]
    simp
  · rintro ⟨index,known⟩
    rw [shown.tools,tracks.tools] at known
    cases isCall : Keyed.lookup s.calls index with
    | none => simp [isCall] at known
    | some call => exact tracks.tool_seen _ (Keyed.lookup_mem isCall) (finished _ (Keyed.lookup_mem isCall))

theorem Tracks.ends_none (tracks : Tracks s a) (finished : ∀ entry ∈ s.calls, entry.2.done = true) : endTools a.tools = (a.tools,[]) := by
  unfold endTools
  refine Prod.ext ?_ ?_
  · refine (List.map_congr_left fun entry member => ?_).trans (List.map_id _)
    obtain ⟨started,ended⟩ := tracks.all_known finished member
    obtain ⟨index,call_id,name,arguments,emitted,isStarted,isEnded⟩ := entry
    simp only at started ended
    simp [started,ended]
  · have none_ : a.tools.filter (fun entry => entry.2.started && !entry.2.ended) = [] := by
      refine List.filter_eq_nil_iff.mpr fun entry member => ?_
      obtain ⟨_,ended⟩ := tracks.all_known finished member
      simp [ended]
    exact congrArg (List.map _) none_

theorem closes_shown (shown : Shown p a) : ∃ p', Leads p ((closeThinking a).2 ++ (closeText (closeThinking a).1).2) p' ∧
      Shown p' (closeText (closeThinking a).1).1 ∧ p'.text_open = false ∧ p'.thinking_open = false := by
  obtain ⟨middle,first,shown'⟩ := closeThinking_shown shown
  obtain ⟨last,second,shown''⟩ := closeText_shown shown'
  exact ⟨last,first.trans second,shown'',shown''.text_open,shown''.thinking_open⟩

structure Final (p : Progress) (usage : Option Usage) (p' : Progress) : Prop where
  ends : p'.Ends
  text : p'.text = p.text
  tools : p'.tools = p.tools
  usage : p'.usage = usage

theorem replay_done (going : p.finish = none) (named : p.model_call_id ≠ none) (text : p.text_open = false)
    (thinking : p.thinking_open = false) (tools : ∀ index tool, p.tools index = some tool → tool.ended = true)
    (fresh : p.replay_state = none) (items : List Value) {reason : FinishReason}
    (fits : reason = .Length ∨ (reason = .ToolUse ↔ ∃ index, p.tools index ≠ none)) :
    ∃ p', Leads p (replayState items ++ [.Done reason]) p' ∧ Final p p.usage p' := by
  unfold replayState
  by_cases none_ : items.isEmpty = true
  · rw [if_pos none_,List.nil_append]
    exact ⟨_,⟨going,⟨named,text,thinking,tools⟩,rfl⟩,⟨reason,rfl,fits⟩,rfl,rfl,rfl⟩
  · rw [if_neg none_]
    exact ⟨_,⟨going,fresh,going,⟨named,text,thinking,tools⟩,rfl⟩,⟨reason,rfl,fits⟩,rfl,rfl,rfl⟩

def closing (a : Adapter) (items : List Value) (reason : FinishReason) : List ModelEvent :=
  (closeThinking a).2 ++ (closeText (closeThinking a).1).2 ++ (replayState items ++ [.Done reason])

theorem closing_usage (a : Adapter) (items : List Value) (reason : FinishReason) : (closing a items reason).filterMap usageOf = [] := by
  unfold closing closeThinking closeText replayState
  cases a.thinking_open <;> cases a.text_open <;> cases items <;> simp [usageOf]

def Ending.told : Ending → Option Usage
  | .Completed usage => usage.map responses_usage
  | .Incomplete _ | .Ended => none

variable {ending : Ending}

theorem ends_shown {body : List Incoming} (legal : Legal s body ending) (tracks : Tracks s a) :
    ∃ out, runFrom a ending.events = (out,none) ∧ ∀ p, Shown p a → ∃ p', Leads p out p' ∧ Final p ending.told p' := by
  have finished := legal.calls
  have endsNone := tracks.ends_none finished
  have started : a.tools.any (fun entry => !entry.2.started) = false := by
    simp only [List.any_eq_false,Bool.not_eq_true',Bool.not_eq_false]
    exact fun entry member => (tracks.all_known finished member).1
  have ended : a.tools.any (fun entry => !entry.2.ended) = false := by
    simp only [List.any_eq_false,Bool.not_eq_true',Bool.not_eq_false]
    exact fun entry member => (tracks.all_known finished member).2
  have tools_ended : ∀ {p : Progress}, Shown p a → ∀ index tool, p.tools index = some tool → tool.ended = true := by
    intro p shown index tool known
    rw [shown.tools] at known
    obtain ⟨state,isState,isTool⟩ := Option.bind_eq_some_iff.mp known
    obtain ⟨isStarted,isEnded⟩ := tracks.all_known finished (Keyed.lookup_mem isState)
    rw [view,isStarted] at isTool
    rw [← Option.some.inj isTool]
    exact isEnded
  -- The blocks are closed, and then the end is told.
  have close : ∀ (p : Progress) (reason : FinishReason) (items : List Value), Shown p a →
      (reason = .Length ∨ (reason = .ToolUse ↔ ∃ index, p.tools index ≠ none)) → ∃ p',
        Leads p (closing a items reason) p' ∧ Final p none p' := by
    intro p reason items shown fits
    obtain ⟨closed,closes,shown',text,thinking⟩ := closes_shown shown
    have sameTools : closed.tools = p.tools := by
      funext index
      rw [shown'.tools,shown.tools]
      rfl
    obtain ⟨p',leads,final⟩ := replay_done shown'.finish shown'.named text thinking (sameTools ▸ tools_ended shown)
      shown'.replay_state items (sameTools ▸ fits)
    refine ⟨p',closes.trans leads,final.ends,?_,final.tools.trans sameTools,final.usage.trans shown'.usage⟩
    rw [final.text,shown'.text,shown.text]
    rfl
  cases ending with
  | Completed usage =>
    refine ⟨usage.toList.map (fun usage => .Usage (responses_usage usage)) ++ closing a a.reasoning_items (finalReason a),?_,?_⟩
    · have steps : (Responses.step a (.Completed usage)).2 =
          (usage.toList.map (fun usage => .Usage (responses_usage usage)) ++ closing a a.reasoning_items (finalReason a),none) := by
        simp [Responses.step,complete,closeAll,closeThinking,closeText,endsNone,started,finalReason,closing]
      have terminal : (Responses.step a (.Completed usage)).1.terminal = true := by
        simp [Responses.step,complete,closeAll,closeThinking,closeText,endsNone,started]
      rcases isStep : Responses.step a (.Completed usage) with ⟨a',events,stops⟩
      rw [isStep] at steps terminal
      obtain ⟨rfl,rfl⟩ := Prod.mk.inj steps
      simp only at terminal
      simp [Ending.events,runFrom,isStep,finishStream,terminal]
    · intro p shown
      obtain ⟨p',leads,final⟩ := close p (finalReason a) a.reasoning_items shown (.inr (tracks.reason finished shown))
      cases usage with
      | none => exact ⟨p',leads,final⟩
      | some usage =>
        have later := leads.with_usage (some (responses_usage usage)) (closing_usage a a.reasoning_items (finalReason a))
        exact ⟨_,⟨shown.finish,shown.usage,later⟩,final.ends,final.text,final.tools,rfl⟩
  | Incomplete usage =>
    refine ⟨closing a [] .Length,?_,fun p shown => close p .Length [] shown (.inl rfl)⟩
    simp [Ending.events,runFrom,Responses.step,closeAll,closeThinking,closeText,endsNone,finishStream,closing,replayState]
  | Ended =>
    refine ⟨closing a a.reasoning_items (finalReason a),?_,fun p shown =>
      close p (finalReason a) a.reasoning_items shown (.inr (tracks.reason finished shown))⟩
    have completed : a.saw_completed_item = true := by
      refine tracks.completed.mpr ((legal.some_ rfl).imp_right fun some_ => ?_)
      obtain ⟨entry,rest,isCalls⟩ := List.exists_cons_of_ne_nil some_
      have member : entry ∈ s.calls := by rw [isCalls]; exact List.mem_cons_self
      exact ⟨entry,member,finished entry member⟩
    simp [Ending.events,runFrom,closeThinking,closeText,ended,finishStream,closing,completed,tracks.terminal,finalReason]

/-! ## Plain streams conform, and no others -/

theorem streamFrom_run {sources : List (String × String)} {marker : List Source}
    (isMarker : marker = [] ∨ ∃ event rest, marker = .Event event "[DONE]" :: rest) :
    ∀ {incoming : List Incoming} {a : Adapter},
    sources.map (fun source => readSource source.1 source.2) = incoming.map .ok → (∀ source ∈ sources, source.2 ≠ "[DONE]") →
    streamFrom a ((sources.map fun source => .Event source.1 source.2) ++ marker) = runFrom a incoming := by
  induction sources with
  | nil =>
    intro incoming a reads _
    obtain rfl : [] = incoming := by simpa using reads
    rcases isMarker with rfl | ⟨event,rest,rfl⟩
    · rfl
    · simp [streamFrom,runFrom]
  | cons source rest ih =>
    intro incoming a reads unmarked
    cases incoming with
    | nil => cases reads
    | cons event more =>
      obtain ⟨isEvent,others⟩ := List.cons.inj reads
      have isEvent : readSource source.1 source.2 = .ok event := isEvent
      have later := fun a => ih (a := a) others fun other member => unmarked other (List.mem_cons_of_mem _ member)
      rw [List.map_cons,List.cons_append,streamFrom,if_neg (unmarked source List.mem_cons_self),isEvent]
      simp only [runFrom]
      rcases Responses.step a event with ⟨a',events,stops⟩
      cases stops with
      | none => simp only [later a']
      | some error => rfl

theorem shown_start (call_id : String) : Shown { model_call_id := some call_id } {} := by
  refine ⟨?_,rfl,rfl,rfl,fun _ => rfl,rfl,rfl,rfl⟩
  intro unnamed
  cases unnamed

/-- What becomes of a stream all of whose steps are taken. -/
structure Outcome (s : Items) (ending : Ending) (events : List ModelEvent) : Prop where
  leads : DistinctIds s → ∃ p, Leads {} events p
  ends : ∀ p, Leads {} events p → p.Ends ∧ p.text = s.messages.foldl afterMessage "" ∧ p.usage = ending.told ∧
    ∀ index, p.tools index = (Keyed.lookup s.calls index).bind fun call => view (stateOf call)
  tracks : ∃ a, Tracks s a

theorem outcome {body : List Incoming} (call_id : String) (legal : Legal s body ending) (named : NamedSteps body) :
    ∃ events, runFrom {} (body ++ ending.events) = (events,none) ∧ Outcome s ending (.Start call_id :: events) := by
  obtain ⟨a,events,runs,tracks,shown,shows⟩ := ran body s legal.follows named
  obtain ⟨out,ends,finals⟩ := ends_shown legal tracks
  have begins : ∀ {later p}, Leads {} (.Start call_id :: later) p ↔ Leads { model_call_id := some call_id } later p :=
    fun {_ _} => ⟨fun leads => leads.2.2,fun leads => ⟨rfl,rfl,leads⟩⟩
  refine ⟨events ++ out,by rw [runFrom_steps body _ runs,ends],?_,?_,⟨a,tracks⟩⟩
  · intro distinct
    obtain ⟨middle,first,isMiddle⟩ := shown _ (shown_start call_id) distinct
    obtain ⟨p,second,_⟩ := finals middle isMiddle
    exact ⟨p,begins.mpr (first.trans second)⟩
  · intro p leads
    obtain ⟨middle,first,second⟩ := leads_append.mp (begins.mp leads)
    have isMiddle := shows _ middle (shown_start call_id) first
    obtain ⟨p',second',final⟩ := finals middle isMiddle
    obtain rfl := leads_unique second second'
    refine ⟨final.ends,?_,final.usage,?_⟩
    · rw [final.text,isMiddle.text,tracks.text,legal.text.1,legal.text.2,Option.getD_none,String.append_empty]
      rfl
    · intro index
      rw [final.tools,isMiddle.tools,tracks.tools]
      cases Keyed.lookup s.calls index <;> rfl

theorem Tracks.call_view (tracks : Tracks s a) (finished : ∀ entry ∈ s.calls, entry.2.done = true) {call : Call}
    (isCall : Keyed.lookup s.calls index = some call) :
    ∃ call_id name arguments, call.call_id = some call_id ∧ call.final = some arguments ∧
      view (stateOf call) = some ⟨call_id,name,arguments,true⟩ := by
  have sound := tracks.sound index call isCall
  have done : call.done = true := finished _ (Keyed.lookup_mem isCall)
  have ended : call.ended = true := by simp [Call.ended,done]
  have known := sound.ended ended
  obtain ⟨arguments,isFinal⟩ := Option.isSome_iff_exists.mp (sound.done done)
  have same := sound.final arguments isFinal
  have both := known
  rw [Call.known,Bool.and_eq_true] at both
  obtain ⟨call_id,isId⟩ := Option.isSome_iff_exists.mp both.1
  obtain ⟨name,isName⟩ := Option.isSome_iff_exists.mp both.2
  refine ⟨call_id,name,arguments,isId,isFinal,?_⟩
  simp [view,stateOf,known,sentArguments,take_length,same,ended,isId,isName]

theorem Tracks.distinct_iff (tracks : Tracks s a) (finished : ∀ entry ∈ s.calls, entry.2.done = true) :
    DistinctIds s ↔ (s.calls.map (·.2.call_id)).Nodup := by
  have apart := tracks.distinct
  rw [Keyed.Distinct] at apart
  constructor
  · intro distinct
    refine List.Nodup.map_on ?_ (List.Nodup.of_map _ apart)
    rintro ⟨first,one⟩ isOne ⟨second,other⟩ isOther same
    have isOne := (Keyed.mem_iff tracks.distinct _ _).mp isOne
    have isOther := (Keyed.mem_iff tracks.distinct _ _).mp isOther
    obtain ⟨id,_,_,isId,_⟩ := tracks.call_view finished isOne
    obtain rfl := distinct first second one other id isOne isOther isId (same ▸ isId)
    rw [Option.some.inj (isOne.symm.trans isOther)]
  · intro nodup first second one other id isOne isOther isId isId'
    have same := List.inj_on_of_nodup_map nodup (Keyed.lookup_mem isOne) (Keyed.lookup_mem isOther) (isId.trans isId'.symm)
    exact congrArg Prod.fst same

theorem Outcome.distinct (outcome : Outcome s ending events)
    (finished : ∀ entry ∈ s.calls, entry.2.done = true) (leads : Leads {} events p) : DistinctIds s := by
  obtain ⟨a,tracks⟩ := outcome.tracks
  have apart : p.DistinctIds := leads.distinct_ids fun _ _ _ _ known => by cases known
  have tools := (outcome.ends p leads).2.2.2
  intro first second one other id isOne isOther isId isId'
  obtain ⟨id₁,_,_,isId₁,_,view₁⟩ := tracks.call_view finished isOne
  obtain ⟨id₂,_,_,isId₂,_,view₂⟩ := tracks.call_view finished isOther
  have isFirst : p.tools first = view (stateOf one) := by rw [tools,isOne,Option.bind_some]
  have isSecond : p.tools second = view (stateOf other) := by rw [tools,isOther,Option.bind_some]
  refine apart first second _ _ (isFirst.trans view₁) (isSecond.trans view₂) ?_
  exact Option.some.inj (isId₁.symm.trans (isId.trans (isId'.symm.trans isId₂)))

/-- The events of a stream with the ids of its calls different, and what is made of
    them. -/
theorem Outcome.conforms_iff (outcome : Outcome s ending events) (finished : ∀ entry ∈ s.calls, entry.2.done = true) :
    Conforms s ending (events,none) ↔ Delivered s.messages ∧ DistinctIds s ∧ ∀ usage, ending ≠ .Incomplete (some usage) := by
  obtain ⟨a,tracks⟩ := outcome.tracks
  have told : ∀ {p}, Leads {} events p → events.filterMap usageOf = ending.told.toList := by
    intro p leads
    have used := leads.usage
    rw [(outcome.ends p leads).2.2.1] at used
    simpa using used.symm
  have text : ∀ {p}, Leads {} events p →
      (String.join (Lanes.deltas (textLane events)) = String.join (s.messages.map textOf) ↔ Delivered s.messages) := by
    intro p leads
    have isText := leads.text
    rw [(outcome.ends p leads).2.1,String.empty_append] at isText
    rw [← isText]
    exact delivered_iff tracks.messages
  constructor
  · intro conforms
    obtain ⟨p,leads,_⟩ := accepts_leads.mp conforms.accepted
    refine ⟨(text leads).mp conforms.text,outcome.distinct finished leads,?_⟩
    rintro usage rfl
    have used := conforms.usage usage rfl
    rw [told leads] at used
    cases used
  · rintro ⟨delivered,distinct,usage⟩
    obtain ⟨p,leads⟩ := outcome.leads distinct
    obtain ⟨ends,_,_,tools⟩ := outcome.ends p leads
    refine ⟨rfl,accepts_leads.mpr ⟨p,leads,ends⟩,(text leads).mpr delivered,?_,?_⟩
    · intro index call member
      have isCall := (Keyed.mem_iff tracks.distinct _ _).mp member
      obtain ⟨_,_,arguments,_,isFinal,isView⟩ := tracks.call_view finished isCall
      have sent := leads.arguments index
      rw [tools,isCall,Option.bind_some,isView] at sent
      simp only [Option.elim,String.empty_append] at sent
      rw [isFinal,← sent]
    · intro used isUsage
      rw [told leads]
      cases ending with
      | Completed own =>
        obtain rfl : own = some used := isUsage
        rfl
      | Incomplete incomplete =>
        obtain rfl : incomplete = some used := isUsage
        exact absurd rfl (usage used)
      | Ended => cases isUsage

/-- For every stream of the Responses API, with or without its end marker: its
    events are accepted, its text and arguments are the final ones and its usage is
    told exactly if the first message that has a text begins with what is sent of
    it, the later ones are streamed in full, the id and name of a call are known
    when its final arguments come, the ids are different, and no usage comes with an
    incomplete response. -/
theorem responses_conform (call_id : String) (sources : List (String × String)) (marker : List Source) (body : List Incoming)
    (ending : Ending) (s : Items)
    (reads : sources.map (fun source => readSource source.1 source.2) = (body ++ ending.events).map .ok)
    (unmarked : ∀ source ∈ sources, source.2 ≠ "[DONE]")
    (isMarker : marker = [] ∨ ∃ event rest, marker = .Event event "[DONE]" :: rest) (legal : Legal s body ending) :
    Conforms s ending (stream call_id ((sources.map fun source => .Event source.1 source.2) ++ marker)) ↔ Plain s body ending := by
  rw [stream,streamFrom_run isMarker reads unmarked]
  by_cases named : NamedSteps body
  · obtain ⟨events,runs,outcome⟩ := outcome call_id legal named
    obtain ⟨a,tracks⟩ := outcome.tracks
    rw [runs]
    refine (outcome.conforms_iff legal.calls).trans ?_
    rw [tracks.distinct_iff legal.calls]
    constructor
    · rintro ⟨delivered,distinct,usage⟩
      exact ⟨delivered,named,distinct,usage⟩
    · exact fun plain => ⟨plain.text,plain.distinct,plain.usage⟩
  · refine ⟨fun conforms => ?_,fun plain => absurd plain.named named⟩
    obtain ⟨error,stops⟩ := not_ran body s legal.follows named
    have finished := conforms.finished
    rw [runFrom_fails body _ stops] at finished
    cases finished

end Tracks

/-! ## Two messages, and a message with a call -/

def told (kind : String) (members : List (String × Value)) : String × String × Value :=
  let value : Value := .Object (members ++ [("type",.String kind)])
  (kind,String.ofList (printed value),value)
def sourcesOf (events : List (String × String × Value)) : List (String × String) := events.map fun event => (event.1,event.2.1)
def messageDone (text : String) : String × String × Value :=
  told "response.output_item.done" [("item",.Object [("content",.Array [.Object [("text",.String text),("type",.String "output_text")]]),
    ("type",.String "message")])]
def textDone (text : String) : String × String × Value := told "response.output_text.done" [("text",.String text)]
def used : Value := .Object [("input_tokens",.Number (.PosInt 0))]
def completed : String × String × Value := told "response.completed" [("response",.Object [("usage",used)])]

def twice : List (String × String × Value) := [textDone "a",messageDone "a",textDone "b",messageDone "b",completed]
def fetches : List (String × String × Value) :=
  let call (arguments : String) : Value := .Object [("arguments",.String arguments),("call_id",.String "c"),
    ("name",.String "Read"),("type",.String "function_call")]
  let first : String × Value := ("output_index",.Number (.PosInt 0))
  [told "response.output_text.delta" [("delta",.String "h")],textDone "hi",messageDone "hi",
    told "response.output_item.added" [("item",call ""),first],
    told "response.function_call_arguments.delta" [("delta",.String "["),first],
    told "response.function_call_arguments.done" [("arguments",.String "[]"),first],
    told "response.output_item.done" [("item",call "[]"),first],completed]

section Example
local instance : Serde := printing
local instance : ArgumentText where
  from_str text :=
    (((twice ++ fetches).find? (·.2.1 = text)).map (·.2.2)).elim (.error "expected value at line 1 column 1") .ok

def twiceBody : List Incoming :=
  [.OutputTextDone (some "a"),.MessageItemDone (some "a"),.OutputTextDone (some "b"),.MessageItemDone (some "b")]
/-- The text of the second message is dropped. -/
theorem second_message_dropped : ∃ s,
    (sourcesOf twice).map (fun source => readSource source.1 source.2) = (twiceBody ++ [Incoming.Completed (some used)]).map .ok ∧
      Legal s twiceBody (.Completed (some used)) ∧ String.join (s.messages.map textOf) = "ab" ∧
      String.join (Lanes.deltas (textLane (stream "m" ((sourcesOf twice).map fun source => .Event source.1 source.2)).1)) = "a" ∧
      ¬ Conforms s (.Completed (some used)) (stream "m" ((sourcesOf twice).map fun source => .Event source.1 source.2)) := by
  have text : String.join (Lanes.deltas (textLane
      (stream "m" ((sourcesOf twice).map fun source => .Event source.1 source.2)).1)) = "a" := by
    decide +kernel
  refine ⟨⟨[[⟨"","a"⟩],[⟨"","b"⟩]],[],none,[]⟩,by decide +kernel,⟨by decide,⟨rfl,rfl⟩,?_,?_⟩,by decide,text,?_⟩
  · intro entry member
    cases member
  · intro ended
    cases ended
  · intro conforms
    have same := conforms.text
    rw [text] at same
    exact absurd same (by decide)

def fetchesBody : List Incoming :=
  [.OutputTextDelta (some "h"),.OutputTextDone (some "hi"),.MessageItemDone (some "hi"),.CallAdded 0 (some "c") (some "Read"),
    .ArgumentsDelta 0 (some "["),.ArgumentsDone 0 (some "[]"),.CallDone 0 (some "c") (some "Read") (some "[]")]
def fetchesItems : Items :=
  { messages := [[⟨"h","hi"⟩]], calls := [(0,⟨some "c",some "Read","[]",some "[]",true⟩)] }
theorem responses_conform_fetches : Conforms fetchesItems (.Completed (some used))
      (stream "m" (((sourcesOf fetches).map fun source => .Event source.1 source.2) ++ [.Event "" "[DONE]"])) := by
  have reads : (sourcesOf fetches).map (fun source => readSource source.1 source.2) =
      (fetchesBody ++ (Ending.Completed (some used)).events).map .ok := by
    decide +kernel
  have legal : Legal fetchesItems fetchesBody (.Completed (some used)) := by
    refine ⟨by decide +kernel,⟨rfl,rfl⟩,by decide,?_⟩
    intro ended
    cases ended
  have plain : Plain fetchesItems fetchesBody (.Completed (some used)) := by
    refine ⟨⟨by decide,fun parts member => by cases member⟩,?_,by decide,?_⟩
    · intro before event later known split isKnown
      rcases before with _ | ⟨_,_ | ⟨_,_ | ⟨_,_ | ⟨_,_ | ⟨_,_ | ⟨_,_ | ⟨_,_⟩⟩⟩⟩⟩⟩⟩ <;> simp [fetchesBody] at split
      · obtain ⟨rfl,_⟩ := split
        trivial
      · obtain ⟨_,rfl,_⟩ := split
        trivial
      · obtain ⟨_,_,rfl,_⟩ := split
        trivial
      · obtain ⟨_,_,_,rfl,_⟩ := split
        trivial
      · obtain ⟨_,_,_,_,rfl,_⟩ := split
        trivial
      · obtain ⟨rfl,rfl,rfl,rfl,rfl,rfl,_⟩ := split
        obtain rfl : ({ messages := [[⟨"h","hi"⟩]], calls := [(0,⟨some "c",some "Read","[",none,false⟩)] } : Items) = known :=
          Option.some.inj isKnown
        exact fun _ => ⟨_,rfl,rfl,rfl⟩
      · obtain ⟨_,_,_,_,_,_,rfl,_⟩ := split
        trivial
    · intro usage incomplete
      cases incomplete
  exact (responses_conform "m" _ _ _ _ _ reads (by decide +kernel) (.inr ⟨_,_,rfl⟩) legal).mpr plain

end Example

end MyCursor.Responses

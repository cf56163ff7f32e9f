import MyCursor.Credentials
import MyCursor.SdkResponsesAgreement
import MyCursor.Stretches

/-!
# The contents of an Antigravity request

`convertToCloudCodeContents` of `antigravity-auth/provider.ts`: neighbours of one
role are put together, and a call and its result have no id. A result is found by
its place among the results that follow the entry with its call.
-/
namespace MyCursor.CloudCodeContents
open Message Projection Stretches
open ProviderEvents (stringOf)
open CheckpointCodec (Serde object)
open Credentials (trimText)
open Requests (isText textOf)
open SdkResponses
open Wire (JavaScript)
set_option linter.unusedSectionVars false

inductive ContentRole where
  | User
  | Model
deriving DecidableEq

inductive Part where
  | Text (text : String)
  | FunctionCall (name : String) (args : Value) (thoughtSignature : String)
  | FunctionResponse (name result : String)
  | InlineData (mimeType data : String)
deriving DecidableEq

abbrev Content : Type := Stretch ContentRole Part

structure Converted where
  contents : List Content
  systemInstruction : Option String
deriving DecidableEq

section Conversion
variable [JavaScript]

def textPart (text : String) : List Part := if text = "" then [] else [.Text text]
def argsOf : Value → Value
  | .Array items => .Array items
  | .Object members => .Object members
  | _ => .Object []
def signatureOf (replayState : Value) : String :=
  let sig := if stringOf replayState "providerKind" = some "antigravity" then
      stringOf ((Json.get replayState "value").getD .Null) "thoughtSignature"
    else none
  (sig.filter (· ≠ "")).getD "skip_thought_signature_validator"
def callPart (sig : String) (call : Value) : Part :=
  .FunctionCall ((stringOf call "name").getD "") (argsOf ((Json.get call "arguments").getD .Null)) sig
def assistantParts (msg : Value) : List Part :=
  textPart ((stringOf msg "text").getD "") ++
    (arrayOf msg "toolCalls").map (callPart (signatureOf ((Json.get msg "replayState").getD .Null)))
def toolPart (msg : Value) : Part :=
  .FunctionResponse (((stringOf msg "name").filter (· ≠ "")).getD "function") ((stringOf msg "content").getD "")
def userPart (p : Value) : List Part :=
  if stringOf p "type" = some "text" then textPart ((stringOf p "text").getD "")
  else if stringOf p "type" = some "image" then
    [.InlineData ((stringOf p "mediaType").getD "") ((stringOf p "dataBase64").getD "")]
  else []
def orBlank (parts : List Part) : List Part := if parts.isEmpty then [.Text " "] else parts

def rawContent (msg : Value) : Option Content :=
  let role := (stringOf msg "role").getD ""
  if role = "system" then none
  else if role = "assistant" then
    if (assistantParts msg).isEmpty then none else some ⟨.Model,assistantParts msg⟩
  else if role = "tool" then some ⟨.User,[toolPart msg]⟩
  else if role = "user" then some ⟨.User,orBlank ((arrayOf msg "content").flatMap userPart)⟩
  else none
def systemTextOf (msg : Value) : String :=
  String.intercalate "\n" (((arrayOf msg "content").map fun p =>
    if stringOf p "type" = some "text" then (stringOf p "text").getD "" else "").filter (· ≠ ""))
def addSystemText (systemText : String) (msg : Value) : String :=
  if stringOf msg "role" = some "system" ∧ systemTextOf msg ≠ "" then
    systemText ++ (if systemText = "" then "" else "\n\n") ++ systemTextOf msg
  else systemText
/-- A blank entry of the user stands first when the model would. -/
def leadWithUser (contents : List Content) : List Content :=
  match contents with
  | first :: _ => if first.role = .User then contents else ⟨.User,[.Text " "]⟩ :: contents
  | [] => []
def convertToCloudCodeContents (instructions : String) (messages : List Value) : Converted :=
  let systemText := trimText (messages.foldl addSystemText instructions)
  { contents := leadWithUser (merge (messages.filterMap rawContent))
    systemInstruction := if systemText = "" then none else some systemText }

end Conversion

inductive Item where
  | Text (text : String)
  | Result (content : String)
  | Image (mime_type : String) (data : List UInt8)
deriving DecidableEq

def textItem (text : String) : List Item := if text = "" then [] else [.Text text]
def partItem : ContentPart → List Item
  | .Text text => textItem text
  | .Image mime_type data => [.Image mime_type data]
def pictureItem : ContentPart → List Item
  | .Text _ => []
  | .Image mime_type data => [.Image mime_type data]
def items (m : ProjectedMessage) : List Item :=
  match m.content with
  | .Parts parts =>
    match m.role with
    | .System | .Tool => []
    | .User => parts.flatMap partItem
    | .Assistant => textItem (joined_text parts) ++ parts.flatMap pictureItem
  | .Assistant text _ _ _ => textItem text
  | .ToolResult result => .Result result.content :: result.provider_parts.flatMap pictureItem

def callIds (m : ProjectedMessage) : List String :=
  match m.content with
  | .Assistant _ _ _ calls => calls.map (·.call_id)
  | .Parts _ | .ToolResult _ => []
def resultIds (m : ProjectedMessage) : List String :=
  match m.content with
  | .ToolResult result => [result.call_id]
  | .Parts _ | .Assistant _ _ _ _ => []

def Shows : Part → Item → Prop
  | .Text text, .Text said => text = said
  | .FunctionResponse _ result, .Result content => result = content
  | .InlineData mimeType data, .Image mime_type bytes => mimeType = mime_type ∧ data = Base64.encode bytes
  | _, _ => False
/-- The items stand in the parts, each in one and in order; the other parts are
    calls and blanks. -/
inductive Carries : List Part → List Item → Prop where
  | nil : Carries [] []
  | call {parts : List Part} {items : List Item} (name : String) (args : Value) (thoughtSignature : String) :
      Carries parts items → Carries (.FunctionCall name args thoughtSignature :: parts) items
  | blank {parts : List Part} {items : List Item} : Carries parts items → Carries (.Text " " :: parts) items
  | item {part : Part} {item : Item} {parts : List Part} {items : List Item} :
      Shows part item → Carries parts items → Carries (part :: parts) (item :: items)

def isCall : Part → Bool
  | .FunctionCall _ _ _ => true
  | _ => false
def isResponse : Part → Bool
  | .FunctionResponse _ _ => true
  | _ => false
def callCount (content : Content) : Nat := content.items.countP isCall
def responseCount (content : Content) : Nat := content.items.countP isResponse
/-- The calls and the results are those of the lists, in order. Right after an
    entry of the model, the k-th result is the one of its k-th call. -/
def Paired : Option (List String) → List Content → List String → List String → Prop
  | _, [], _, _ => True
  | before, content :: rest, calls, results =>
    (∀ ids, before = some ids → results.take (responseCount content) <+: ids) ∧
      Paired (if content.role = .Model then some (calls.take (callCount content)) else none) rest
        (calls.drop (callCount content)) (results.drop (responseCount content))

structure Conforms (history : List ProjectedMessage) (contents : List Content) : Prop where
  starts : ∀ content, contents.head? = some content → content.role = .User
  alternates : contents.IsChain fun content next => content.role ≠ next.role
  filled : ∀ content ∈ contents, content.items ≠ []
  carries : Carries (contents.flatMap Stretch.items) (history.flatMap items)
  paired : Paired none contents (history.flatMap callIds) (history.flatMap resultIds)

def speaker (m : ProjectedMessage) : Option ContentRole :=
  match m.content with
  | .Parts parts =>
    match m.role with
    | .System | .Tool => none
    | .User => some .User
    | .Assistant => if joined_text parts = "" then none else some .Model
  | .Assistant text _ _ calls => if text = "" ∧ calls = [] then none else some .Model
  | .ToolResult _ => some .User
def dropped (m : ProjectedMessage) : List Item :=
  match m.content with
  | .Parts parts => if m.role = .Assistant then parts.flatMap pictureItem else []
  | .Assistant _ _ _ _ => []
  | .ToolResult result => result.provider_parts.flatMap pictureItem
def turnOf (m : ProjectedMessage) : Option (Stretch ContentRole ProjectedMessage) := (speaker m).map (⟨·,[m]⟩)
/-- The messages of the model, those of the user with the results, and so on. -/
def turns (history : List ProjectedMessage) : List (Stretch ContentRole ProjectedMessage) := grouped (history.filterMap turnOf)
def Answers (turn next : Stretch ContentRole ProjectedMessage) : Prop :=
  turn.role = .Model → next.items.flatMap resultIds <+: turn.items.flatMap callIds
/-- Only the user shows pictures, and the results between two turns of the
    model come in the order of its calls. -/
structure Fits (history : List ProjectedMessage) : Prop where
  plain : ∀ m ∈ history, dropped m = []
  ordered : (turns history).IsChain Answers

section Parts
variable [Serde] [JavaScript]

def sentPart : ContentPart → List Part
  | .Text text => textPart text
  | .Image mime_type data => [.InlineData mime_type (Base64.encode data)]
def sentCall (replay_state : Option ProviderReplayState) (call : ToolCallContent) : Part :=
  .FunctionCall call.name (argsOf (held call.arguments)) (signatureOf (held (wire_replay replay_state)))
def sentParts (m : ProjectedMessage) : List Part :=
  match m.content with
  | .Parts parts =>
    match m.role with
    | .System | .Tool => []
    | .User => orBlank (parts.flatMap sentPart)
    | .Assistant => textPart (joined_text parts)
  | .Assistant text _ replay_state calls => textPart text ++ calls.map (sentCall replay_state)
  | .ToolResult result => [.FunctionResponse (if result.name = "" then "function" else result.name) result.content]

theorem userPart_wire (parts : List ContentPart) : ((parts.map wire_part).map held).flatMap userPart = parts.flatMap sentPart := by
  rw [List.flatMap_map,List.flatMap_map]
  congr 1
  funext part
  cases part with
  | Text text => simp [userPart,get_held,held,wire_part,stringOf,Json.as_str,sentPart]
  | Image mime_type data => simp [userPart,get_held,held,wire_part,stringOf,Json.as_str,sentPart]
theorem callPart_wire (replay_state : Option ProviderReplayState) (calls : List ToolCallContent) :
    ((calls.map wire_call).map held).map (callPart (signatureOf (held (wire_replay replay_state)))) =
      calls.map (sentCall replay_state) := by
  rw [List.map_map,List.map_map]
  congr 1
  funext call
  simp [callPart,get_held,held,wire_call,stringOf,Json.as_str,sentCall]

variable {m : ProjectedMessage}

theorem rawContent_wire {wire : Value} (isWire : wire_message m = .ok wire) :
    rawContent (held wire) = (speaker m).map (⟨·,sentParts m⟩) := by
  obtain ⟨message_id,role,content⟩ := m
  cases content with
  | Parts parts =>
    cases role with
    | System =>
      obtain rfl := Except.ok.inj isWire
      simp [rawContent,get_held,held,stringOf,Json.as_str,speaker]
    | User =>
      obtain rfl := Except.ok.inj isWire
      simp [rawContent,get_held,held,heldItems_map,stringOf,Json.as_str,speaker,sentParts,arrayOf,wire_parts,Json.as_array,
        ← userPart_wire]
    | Assistant =>
      obtain rfl := Except.ok.inj isWire
      by_cases empty : joined_text parts = "" <;>
        simp [rawContent,assistantParts,get_held,held,heldItems_map,stringOf,Json.as_str,speaker,sentParts,arrayOf,Json.as_array,
          textPart,empty]
    | Tool => cases isWire
  | Assistant text thinking replay_state calls =>
    obtain rfl := Except.ok.inj isWire
    by_cases silent : text = "" ∧ calls = []
    · simp [rawContent,assistantParts,get_held,held,heldItems_map,stringOf,Json.as_str,speaker,arrayOf,Json.as_array,textPart,silent]
    · have parts : assistantParts (held (object [("role",.String "assistant"),("text",.String text),("thinking",.String thinking),
          ("replayState",wire_replay replay_state),("toolCalls",.Array (calls.map wire_call))])) =
          textPart text ++ calls.map (sentCall replay_state) := by
        simp [assistantParts,get_held,held,heldItems_map,stringOf,Json.as_str,arrayOf,Json.as_array,← callPart_wire]
      have filled : ¬ textPart text ++ calls.map (sentCall replay_state) = [] := by
        rw [List.append_eq_nil_iff,List.map_eq_nil_iff]
        rintro ⟨noText,noCalls⟩
        refine silent ⟨?_,noCalls⟩
        by_contra given
        simp [textPart,given] at noText
      have isRole : stringOf (held (object [("role",.String "assistant"),("text",.String text),("thinking",.String thinking),
          ("replayState",wire_replay replay_state),("toolCalls",.Array (calls.map wire_call))])) "role" = some "assistant" := by
        simp [get_held,held,stringOf,Json.as_str]
      simp only [rawContent,isRole,parts,speaker,silent,sentParts]
      simp [filled]
  | ToolResult result =>
    obtain rfl := Except.ok.inj isWire
    by_cases named : result.name = "" <;>
      simp [rawContent,toolPart,get_held,held,stringOf,Json.as_str,speaker,sentParts,named,Option.filter]

theorem rawContents_wire : ∀ {history : List ProjectedMessage} {messages : List Value}, llm_messages history = .ok messages →
    (messages.map held).filterMap rawContent = (history.filterMap turnOf).map (Stretch.bind sentParts)
  | [], messages, isWire => by
    obtain rfl := Except.ok.inj isWire
    rfl
  | m :: rest, messages, isWire => by
    rw [llm_messages,List.mapM_cons] at isWire
    cases first : wire_message m with
    | error e => rw [first] at isWire; cases isWire
    | ok wire =>
      cases later : llm_messages rest with
      | error e => rw [first,show rest.mapM wire_message = .error e from later] at isWire; cases isWire
      | ok others =>
        rw [first,show rest.mapM wire_message = .ok others from later] at isWire
        obtain rfl := Except.ok.inj isWire
        rw [List.map_cons,List.filterMap_cons,List.filterMap_cons,rawContent_wire first,rawContents_wire later,turnOf]
        cases speaker m with
        | none => rfl
        | some role => simp [Stretch.bind]

/-! ## Messages without an entry -/

theorem sentParts_filled {role : ContentRole} (speaks : speaker m = some role) : sentParts m ≠ [] := by
  obtain ⟨message_id,own,content⟩ := m
  cases content with
  | Parts parts =>
    cases own with
    | System => cases speaks
    | Tool => cases speaks
    | User =>
      simp only [sentParts,orBlank]
      split_ifs with empty
      · exact List.cons_ne_nil _ _
      · simpa using empty
    | Assistant =>
      simp only [speaker] at speaks
      split_ifs at speaks with silent
      simp [sentParts,textPart,silent]
  | Assistant text thinking replay_state calls =>
    simp only [speaker] at speaks
    split_ifs at speaks with silent
    by_cases empty : text = ""
    · have called : calls ≠ [] := fun noCalls => silent ⟨empty,noCalls⟩
      simp [sentParts,called]
    · simp [sentParts,textPart,empty]
  | ToolResult result => simp [sentParts]
theorem silent (silent : speaker m = none) : sentParts m = [] ∧ callIds m = [] ∧ resultIds m = [] := by
  obtain ⟨message_id,own,content⟩ := m
  cases content with
  | Parts parts =>
    cases own with
    | System => exact ⟨rfl,rfl,rfl⟩
    | Tool => exact ⟨rfl,rfl,rfl⟩
    | User => cases silent
    | Assistant =>
      simp only [speaker] at silent
      split_ifs at silent with empty
      exact ⟨by simp [sentParts,textPart,empty],rfl,rfl⟩
  | Assistant text thinking replay_state calls =>
    simp only [speaker] at silent
    split_ifs at silent with empty
    obtain ⟨rfl,rfl⟩ := empty
    exact ⟨rfl,rfl,rfl⟩
  | ToolResult result => cases silent
theorem turns_flatMap {β : Type} {f : ProjectedMessage → List β} (none : ∀ m, speaker m = none → f m = [])
    (history : List ProjectedMessage) : (turns history).flatMap (fun turn => turn.items.flatMap f) = history.flatMap f := by
  have whole : (turns history).flatMap Stretch.items = history.filter (fun m => (speaker m).isSome) := by
    rw [turns,grouped_items]
    induction history with
    | nil => rfl
    | cons m rest ih =>
      cases speaks : speaker m with
      | none => simpa [turnOf,speaks] using ih
      | some role => simpa [turnOf,speaks] using ih
  rw [← List.flatMap_assoc,whole]
  clear whole
  induction history with
  | nil => rfl
  | cons m rest ih =>
    cases speaks : speaker m with
    | none => simpa [speaks,none m speaks] using ih
    | some role => simpa [speaks] using ih

theorem merged_turns {history : List ProjectedMessage} {messages : List Value} (isWire : llm_messages history = .ok messages) :
    merge ((messages.map held).filterMap rawContent) = (turns history).map (Stretch.bind sentParts) := by
  rw [merge_grouped,rawContents_wire isWire]
  refine grouped_bind fun turn member m isItem => ?_
  obtain ⟨source,_,isTurn⟩ := List.mem_filterMap.mp member
  obtain ⟨role,speaks,rfl⟩ := Option.map_eq_some_iff.mp isTurn
  obtain rfl := List.mem_singleton.mp isItem
  exact sentParts_filled speaks

def shown (m : ProjectedMessage) : List Item :=
  match m.content with
  | .Parts parts =>
    match m.role with
    | .System | .Tool => []
    | .User => parts.flatMap partItem
    | .Assistant => textItem (joined_text parts)
  | .Assistant text _ _ _ => textItem text
  | .ToolResult result => [.Result result.content]
theorem items_shown : items m = shown m ++ dropped m := by
  obtain ⟨message_id,role,content⟩ := m
  cases content with
  | Parts parts => cases role <;> simp [items,shown,dropped]
  | Assistant text thinking replay_state calls => simp [items,shown,dropped]
  | ToolResult result => simp [items,shown,dropped]

variable {parts : List Part}

theorem Carries.append {more : List Part} {items others : List Item} (first : Carries parts items) (later : Carries more others) :
    Carries (parts ++ more) (items ++ others) := by
  induction first with
  | nil => exact later
  | call name args thoughtSignature _ ih => exact ih.call name args thoughtSignature
  | blank _ ih => exact ih.blank
  | item shows _ ih => exact ih.item shows
theorem Carries.one {part : Part} {item : Item} (shows : Shows part item) : Carries [part] [item] := .item shows .nil
theorem textPart_carries (text : String) : Carries (textPart text) (textItem text) := by
  unfold textPart textItem
  split_ifs
  · exact .nil
  · exact .one rfl
theorem calls_carries (replay_state : Option ProviderReplayState) (calls : List ToolCallContent) :
    Carries (calls.map (sentCall replay_state)) [] := by
  induction calls with
  | nil => exact .nil
  | cons call rest ih => exact ih.call _ _ _
theorem parts_carries (parts : List ContentPart) : Carries (parts.flatMap sentPart) (parts.flatMap partItem) := by
  induction parts with
  | nil => exact .nil
  | cons part rest ih =>
    refine Carries.append ?_ ih
    cases part with
    | Text text => exact textPart_carries text
    | Image mime_type data => exact .one ⟨rfl,rfl⟩
theorem orBlank_carries {items : List Item} (carries : Carries parts items) : Carries (orBlank parts) items := by
  unfold orBlank
  split_ifs with empty
  · obtain rfl := List.isEmpty_iff.mp empty
    exact carries.blank
  · exact carries
theorem shown_carries (m : ProjectedMessage) : Carries (sentParts m) (shown m) := by
  obtain ⟨message_id,role,content⟩ := m
  cases content with
  | Parts parts =>
    cases role with
    | System => exact .nil
    | Tool => exact .nil
    | User => exact orBlank_carries (parts_carries parts)
    | Assistant => exact textPart_carries _
  | Assistant text thinking replay_state calls =>
    have both := (textPart_carries text).append (calls_carries replay_state calls)
    rwa [List.append_nil] at both
  | ToolResult result => exact .one rfl
theorem history_carries (history : List ProjectedMessage) : Carries (history.flatMap sentParts) (history.flatMap shown) := by
  induction history with
  | nil => exact .nil
  | cons m rest ih => exact (shown_carries m).append ih

def isPicture : Item → Bool
  | .Image _ _ => true
  | _ => false
def isInline : Part → Bool
  | .InlineData _ _ => true
  | _ => false
theorem Carries.pictures {items : List Item} (carries : Carries parts items) : parts.countP isInline = items.countP isPicture := by
  induction carries with
  | nil => rfl
  | call name args thoughtSignature _ ih => simpa [isInline] using ih
  | blank _ ih => simpa [isInline] using ih
  | @item part item parts items shows _ ih =>
    have same : isInline part = isPicture item := by
      cases part <;> cases item <;> first | rfl | exact shows.elim
    rw [List.countP_cons,List.countP_cons,ih,same]
theorem pictureItem_counts (parts : List ContentPart) :
    (parts.flatMap pictureItem).countP isPicture = (parts.flatMap pictureItem).length := by
  refine List.countP_eq_length.mpr fun item member => ?_
  obtain ⟨part,_,isItem⟩ := List.mem_flatMap.mp member
  cases part with
  | Text text => cases isItem
  | Image mime_type data =>
    obtain rfl := List.mem_singleton.mp isItem
    rfl
theorem dropped_counts (m : ProjectedMessage) : (dropped m).countP isPicture = (dropped m).length := by
  obtain ⟨message_id,role,content⟩ := m
  cases content with
  | Parts parts =>
    simp only [dropped]
    split_ifs
    · exact pictureItem_counts parts
    · rfl
  | Assistant text thinking replay_state calls => rfl
  | ToolResult result => exact pictureItem_counts _
theorem history_counts (history : List ProjectedMessage) : (history.flatMap items).countP isPicture =
    (history.flatMap shown).countP isPicture + (history.flatMap dropped).length := by
  induction history with
  | nil => rfl
  | cons m rest ih =>
    simp only [List.flatMap_cons,items_shown,List.countP_append,List.length_append,dropped_counts]
    omega

/-- The contents with or without the blank entry carry what is said when no
    picture is dropped. -/
theorem carries_iff {history : List ProjectedMessage} (carries : Carries parts (history.flatMap shown)) :
    Carries parts (history.flatMap items) ↔ ∀ m ∈ history, dropped m = [] := by
  constructor
  · intro whole
    have same := carries.pictures.symm.trans whole.pictures
    rw [history_counts] at same
    have none : history.flatMap dropped = [] := List.eq_nil_of_length_eq_zero (by omega)
    exact fun m member => List.flatMap_eq_nil_iff.mp none m member
  · intro plain
    have same : history.flatMap items = history.flatMap shown :=
      List.flatMap_congr fun m member => by rw [items_shown,plain m member,List.append_nil]
    rwa [same]

theorem textPart_counts (text : String) : (textPart text).countP isCall = 0 ∧ (textPart text).countP isResponse = 0 := by
  unfold textPart
  split_ifs
  · exact ⟨rfl,rfl⟩
  · exact ⟨rfl,rfl⟩
theorem userParts_counts (parts : List ContentPart) :
    (orBlank (parts.flatMap sentPart)).countP isCall = 0 ∧ (orBlank (parts.flatMap sentPart)).countP isResponse = 0 := by
  have none : (parts.flatMap sentPart).countP isCall = 0 ∧ (parts.flatMap sentPart).countP isResponse = 0 := by
    induction parts with
    | nil => exact ⟨rfl,rfl⟩
    | cons part rest ih =>
      have one : (sentPart part).countP isCall = 0 ∧ (sentPart part).countP isResponse = 0 := by
        cases part with
        | Text text => exact textPart_counts text
        | Image mime_type data => exact ⟨rfl,rfl⟩
      rw [List.flatMap_cons,List.countP_append,List.countP_append,one.1,one.2,ih.1,ih.2]
      exact ⟨rfl,rfl⟩
  unfold orBlank
  split_ifs
  · exact ⟨rfl,rfl⟩
  · exact none
theorem calls_count (replay_state : Option ProviderReplayState) (calls : List ToolCallContent) :
    (calls.map (sentCall replay_state)).countP isCall = calls.length ∧ (calls.map (sentCall replay_state)).countP isResponse = 0 := by
  induction calls with
  | nil => exact ⟨rfl,rfl⟩
  | cons call rest ih =>
    rw [List.map_cons,List.countP_cons_of_pos rfl,List.countP_cons_of_neg Bool.false_ne_true,ih.1,ih.2]
    exact ⟨rfl,rfl⟩
theorem sentParts_counts (m : ProjectedMessage) :
    (sentParts m).countP isCall = (callIds m).length ∧ (sentParts m).countP isResponse = (resultIds m).length := by
  obtain ⟨message_id,role,content⟩ := m
  cases content with
  | Parts parts =>
    cases role with
    | System => exact ⟨rfl,rfl⟩
    | Tool => exact ⟨rfl,rfl⟩
    | User => exact userParts_counts parts
    | Assistant => exact textPart_counts _
  | Assistant text thinking replay_state calls =>
    obtain ⟨noCall,noResponse⟩ := textPart_counts text
    obtain ⟨called,unanswered⟩ := calls_count replay_state calls
    simp [sentParts,callIds,resultIds,noCall,noResponse,called,unanswered]
  | ToolResult result => exact ⟨rfl,rfl⟩
theorem turn_counts (turn : Stretch ContentRole ProjectedMessage) :
    callCount (turn.bind sentParts) = (turn.items.flatMap callIds).length ∧
      responseCount (turn.bind sentParts) = (turn.items.flatMap resultIds).length := by
  obtain ⟨role,messages⟩ := turn
  simp only [callCount,responseCount,Stretch.bind]
  induction messages with
  | nil => exact ⟨rfl,rfl⟩
  | cons m rest ih =>
    obtain ⟨calls,responses⟩ := sentParts_counts m
    simp only [List.flatMap_cons,List.countP_append,List.length_append,ih.1,ih.2,calls,responses]
    exact ⟨trivial,trivial⟩

def Follows (before : Option (List String)) (turns : List (Stretch ContentRole ProjectedMessage)) : Prop :=
  ∀ ids turn, before = some ids → turns.head? = some turn → turn.items.flatMap resultIds <+: ids
theorem paired_iff (before : Option (List String)) (turns : List (Stretch ContentRole ProjectedMessage)) :
    Paired before (turns.map (Stretch.bind sentParts)) (turns.flatMap fun turn => turn.items.flatMap callIds)
        (turns.flatMap fun turn => turn.items.flatMap resultIds) ↔
      Follows before turns ∧ turns.IsChain Answers := by
  induction turns generalizing before with
  | nil => exact ⟨fun _ => ⟨fun _ _ _ isTurn => (nomatch isTurn),.nil⟩,fun _ => trivial⟩
  | cons turn rest ih =>
    obtain ⟨calls,responses⟩ := turn_counts turn
    have first : (∀ ids, before = some ids → turn.items.flatMap resultIds <+: ids) ↔ Follows before (turn :: rest) := by
      constructor
      · rintro follows ids first isBefore isTurn
        obtain rfl := Option.some.inj isTurn
        exact follows ids isBefore
      · exact fun follows ids isBefore => follows ids turn isBefore rfl
    have next : Follows (if turn.role = .Model then some (turn.items.flatMap callIds) else none) rest ∧ rest.IsChain Answers ↔
        (turn :: rest).IsChain Answers := by
      cases rest with
      | nil => exact ⟨fun _ => .singleton turn,fun _ => ⟨fun _ _ _ isTurn => (nomatch isTurn),.nil⟩⟩
      | cons second others =>
        rw [List.isChain_cons_cons]
        refine and_congr_left fun _ => ⟨fun follows isModel => ?_,fun answers ids third isIds isTurn => ?_⟩
        · exact follows _ second (if_pos isModel) rfl
        · obtain rfl := Option.some.inj isTurn
          split_ifs at isIds with isModel
          obtain rfl := Option.some.inj isIds
          exact answers isModel
    rw [List.map_cons,List.flatMap_cons,List.flatMap_cons,Paired,calls,responses,List.take_left,List.drop_left,List.take_left,
      List.drop_left]
    rw [show (turn.bind sentParts).role = turn.role from rfl,ih,first,next]

theorem paired_lead (contents : List Content) (calls results : List String) :
    Paired none (leadWithUser contents) calls results ↔ Paired none contents calls results := by
  cases contents with
  | nil => exact Iff.rfl
  | cons first rest =>
    rw [leadWithUser]
    split_ifs
    · exact Iff.rfl
    · rw [Paired]
      simp [callCount,responseCount,isCall,isResponse]

variable {contents : List Content}

theorem leadWithUser_starts (contents : List Content) : ∀ content, (leadWithUser contents).head? = some content → content.role = .User := by
  intro content isFirst
  cases contents with
  | nil => cases isFirst
  | cons first rest =>
    rw [leadWithUser] at isFirst
    split_ifs at isFirst with isUser
    · obtain rfl := Option.some.inj isFirst
      exact isUser
    · obtain rfl := Option.some.inj isFirst
      rfl
theorem leadWithUser_alternates (alternates : contents.IsChain fun content next => content.role ≠ next.role) :
    (leadWithUser contents).IsChain fun content next => content.role ≠ next.role := by
  cases contents with
  | nil => exact .nil
  | cons first rest =>
    rw [leadWithUser]
    split_ifs with isUser
    · exact alternates
    · exact List.isChain_cons_cons.mpr ⟨Ne.symm isUser,alternates⟩
theorem leadWithUser_filled (filled : ∀ content ∈ contents, content.items ≠ []) :
    ∀ content ∈ leadWithUser contents, content.items ≠ [] := by
  cases contents with
  | nil => exact filled
  | cons first rest =>
    rw [leadWithUser]
    split_ifs
    · exact filled
    · exact List.forall_mem_cons.mpr ⟨List.cons_ne_nil _ _,filled⟩
theorem leadWithUser_carries {items : List Item} (carries : Carries (contents.flatMap Stretch.items) items) :
    Carries ((leadWithUser contents).flatMap Stretch.items) items := by
  cases contents with
  | nil => exact carries
  | cons first rest =>
    rw [leadWithUser]
    split_ifs
    · exact carries
    · exact carries.blank

/-- The contents are as they should be exactly when only the user shows
    pictures and the results come in the order of their calls. -/
theorem contents_conform (instructions : String) {history : List ProjectedMessage} {messages : List Value}
    (isWire : llm_messages history = .ok messages) :
    Conforms history (convertToCloudCodeContents instructions (messages.map held)).contents ↔ Fits history := by
  have isContents : (convertToCloudCodeContents instructions (messages.map held)).contents =
      leadWithUser ((turns history).map (Stretch.bind sentParts)) := by
    rw [convertToCloudCodeContents,merged_turns isWire]
  have filled : ∀ content ∈ (turns history).map (Stretch.bind sentParts), content.items ≠ [] := by
    rw [← merged_turns isWire,merge_grouped]
    exact grouped_filled _
  have alternates : ((turns history).map (Stretch.bind sentParts)).IsChain fun content next => content.role ≠ next.role := by
    rw [← merged_turns isWire,merge_grouped]
    exact grouped_changes _
  have sent : ((turns history).map (Stretch.bind sentParts)).flatMap Stretch.items = history.flatMap sentParts := by
    rw [List.flatMap_map]
    exact turns_flatMap (fun _ noEntry => (silent noEntry).1) history
  have pairs : Paired none (leadWithUser ((turns history).map (Stretch.bind sentParts))) (history.flatMap callIds)
      (history.flatMap resultIds) ↔ (turns history).IsChain Answers := by
    rw [paired_lead,← turns_flatMap (fun _ noEntry => (silent noEntry).2.1),← turns_flatMap (fun _ noEntry => (silent noEntry).2.2),
      paired_iff]
    exact and_iff_right fun _ _ isIds => nomatch isIds
  have carried := carries_iff (leadWithUser_carries (sent.symm ▸ history_carries history))
  rw [isContents]
  constructor
  · exact fun conforms => ⟨carried.mp conforms.carries,pairs.mp conforms.paired⟩
  · exact fun fits => ⟨leadWithUser_starts _,leadWithUser_alternates alternates,leadWithUser_filled filled,
      carried.mpr fits.plain,pairs.mpr fits.ordered⟩

end Parts

section Example
open CheckpointRoundTrip (printing)
local instance : Serde := printing
local instance exampleJavaScript : JavaScript := .plain fun _ => ""

def readCall (index : Nat) (call_id path : String) : ToolCallContent := ⟨index,call_id,"Read",.Object [("path",.String path)]⟩
def readResult (call_id content : String) : CanonicalMessage :=
  { message_id := "t-" ++ call_id, role := .Tool, origin := .Tool,
    content := .ToolResult { call_id, name := "Read", content, is_error := false, image := none }, runtime_event_id := none }
/-- A round of two calls with its results in the order of their completion. -/
def reading (results : List CanonicalMessage) : List CanonicalMessage :=
  [text "u" .User .User "compare",
    { message_id := "a", role := .Assistant, origin := .Assistant, runtime_event_id := none,
      content := .Assistant "" "" (some "r") none [readCall 0 "one" "a.txt",readCall 1 "two" "b.txt"] }] ++ results
def projected (results : List CanonicalMessage) : List ProjectedMessage := (project_messages (reading results)).toOption.getD []
def sent (results : List CanonicalMessage) : List Value := (llm_messages (projected results)).toOption.getD []
def swapped : List CanonicalMessage := [readResult "two" "second",readResult "one" "first"]
def inTurn : List CanonicalMessage := [readResult "one" "first",readResult "two" "second"]

/-- The second call ends first, so its result is taken for that of the first. -/
theorem results_swapped :
    project_messages (reading swapped) = .ok (projected swapped) ∧ llm_messages (projected swapped) = .ok (sent swapped) ∧
      ¬ Conforms (projected swapped) (convertToCloudCodeContents "" ((sent swapped).map held)).contents := by
  refine ⟨by decide +kernel,by decide +kernel,fun conforms => ?_⟩
  have isContents : (convertToCloudCodeContents "" ((sent swapped).map held)).contents = [⟨.User,[.Text "compare"]⟩,
        ⟨.Model,[.FunctionCall "Read" (.Object [("path",.String "a.txt")]) "skip_thought_signature_validator",
          .FunctionCall "Read" (.Object [("path",.String "b.txt")]) "skip_thought_signature_validator"]⟩,
        ⟨.User,[.FunctionResponse "Read" "second",.FunctionResponse "Read" "first"]⟩] := by
    decide +kernel
  have calls : (projected swapped).flatMap callIds = ["one","two"] := by decide +kernel
  have results : (projected swapped).flatMap resultIds = ["two","one"] := by decide +kernel
  have paired := conforms.paired
  rw [isContents,calls,results] at paired
  have answered : ["two","one"] <+: ["one","two"] := paired.2.2.1 _ rfl
  revert answered
  decide

theorem contents_conform_inTurn : Conforms (projected inTurn) (convertToCloudCodeContents "" ((sent inTurn).map held)).contents := by
  refine (contents_conform "" (by decide +kernel)).mpr ⟨by decide +kernel,?_⟩
  have isTurns : turns (projected inTurn) = [⟨.User,(projected inTurn).take 1⟩,⟨.Model,((projected inTurn).drop 1).take 1⟩,
      ⟨.User,(projected inTurn).drop 2⟩] := by
    decide +kernel
  rw [isTurns]
  refine .cons_cons (fun isModel => nomatch isModel) (.cons_cons (fun _ => ?_) (.singleton _))
  decide +kernel

end Example

end MyCursor.CloudCodeContents

import MyCursor.ByokProtocol
import MyCursor.CheckpointRoundTrip

/-!
# Answers that are sent back

What a client got from the external API stands in the history of its next request.
The message or the items of an answer are read there by `parse` as the turn of the
assistant that they are. The parser of a chat and of responses wants a text for the
arguments of every call, so that an answer with a call without arguments is refused.
-/
namespace MyCursor.ByokTurns
open Message Projection Run ModelCycle CycleProgress Text
open ByokOutput ByokProtocol
open CheckpointCodec (Serde object get_object)
open CheckpointRoundTrip (printing)
set_option linter.unusedSectionVars false

/-- Two lists in the order of their keys, each element of which has one of its key in
    the other, agree place by place. -/
theorem forall₂_ordered {α β : Type} {R : α → β → Prop} (f : α → Nat) (g : β → Nat) (same : ∀ a b, R a b → f a = g b)
    {as : List α} : ∀ {bs : List β}, as.Pairwise (f · < f ·) → bs.Pairwise (g · < g ·) → (∀ a ∈ as, ∃ b ∈ bs, R a b) →
      (∀ b ∈ bs, ∃ a ∈ as, R a b) → List.Forall₂ R as bs := by
  induction as with
  | nil =>
    intro bs _ _ _ back
    cases bs with
    | nil => exact .nil
    | cons b bs =>
      obtain ⟨a,member,_⟩ := back b List.mem_cons_self
      cases member
  | cons a as ih =>
    intro bs orderedA orderedB forth back
    obtain ⟨leastA,orderedA⟩ := List.pairwise_cons.mp orderedA
    cases bs with
    | nil =>
      obtain ⟨b,member,_⟩ := forth a List.mem_cons_self
      cases member
    | cons b bs =>
      obtain ⟨leastB,orderedB⟩ := List.pairwise_cons.mp orderedB
      have together : R a b := by
        obtain ⟨b',isB',related⟩ := forth a List.mem_cons_self
        rcases List.mem_cons.mp isB' with rfl | laterB
        · exact related
        · obtain ⟨a',isA',related'⟩ := back b List.mem_cons_self
          rcases List.mem_cons.mp isA' with rfl | laterA
          · exact related'
          · have above := leastB b' laterB
            have below := leastA a' laterA
            have keys := same _ _ related
            have keys' := same _ _ related'
            omega
      refine .cons together (ih orderedA orderedB ?_ ?_)
      · intro a' laterA
        obtain ⟨b',isB',related⟩ := forth a' (List.mem_cons_of_mem _ laterA)
        rcases List.mem_cons.mp isB' with rfl | laterB
        · have below := leastA a' laterA
          have keys := same _ _ together
          have keys' := same _ _ related
          omega
        · exact ⟨b',laterB,related⟩
      · intro b' laterB
        obtain ⟨a',isA',related⟩ := back b' (List.mem_cons_of_mem _ laterB)
        rcases List.mem_cons.mp isA' with rfl | laterA
        · have above := leastB b' laterB
          have keys := same _ _ together
          have keys' := same _ _ related
          omega
        · exact ⟨a',laterA,related⟩

theorem partner {α β : Type} {R : α → β → Prop} {as : List α} {bs : List β} (related : List.Forall₂ R as bs) {a : α}
    (member : a ∈ as) : ∃ b ∈ bs, R a b := by
  induction related with
  | nil => cases member
  | cons first _ ih =>
    rcases List.mem_cons.mp member with rfl | later
    · exact ⟨_,List.mem_cons_self,first⟩
    · obtain ⟨b,isB,same⟩ := ih later
      exact ⟨b,List.mem_cons_of_mem _ isB,same⟩

section Loop
variable {σ : Type} {read : Nat → Value → σ → Except Error σ} {before after : List Value} {state : σ} {index : Nat}

theorem each_append : each read index (before ++ after) state =
    (each read index before state).bind (each read (index + before.length) after) := by
  induction before generalizing index state with
  | nil => rfl
  | cons message rest ih =>
    simp only [List.cons_append,each,bind,Except.bind,List.length_cons]
    cases read index message state with
    | error e => rfl
    | ok state =>
      dsimp only
      rw [ih,show index + 1 + rest.length = index + (rest.length + 1) by omega]
      rfl
theorem each_refuses {message : Value} (member : message ∈ before)
    (refused : ∀ index state, ∃ e, read index message state = .error e) (index : Nat) (state : σ) :
    ∃ e, each read index before state = .error e := by
  induction before generalizing index state with
  | nil => cases member
  | cons first rest ih =>
    simp only [each,bind,Except.bind]
    cases isRead : read index first state with
    | error e => exact ⟨e,rfl⟩
    | ok next =>
      rcases List.mem_cons.mp member with rfl | later
      · obtain ⟨e,isError⟩ := refused index state
        rw [isRead] at isError
        cases isError
      · exact ih later _ _

end Loop

section Turns
variable [Serde] [ArgumentText]

def onHistory (read : Nat → Value → List ProjectedMessage → Except Error (List ProjectedMessage))
    (index : Nat) (message : Value) (reading : Reading) : Except Error Reading :=
  (read index message reading.2).map fun history => (reading.1,history)
def readMessage : Protocol → Nat → Value → Reading → Except Error Reading
  | .Chat => chatMessage
  | .Responses => onHistory responsesItem
  | .Messages => onHistory anthropicMessage
def messagesOf (protocol : Protocol) (body : Value) : Option (List Value) :=
  (Json.get body (if protocol = .Responses then "input" else "messages")).bind Json.as_array
/-- The instructions that stand apart from the messages. -/
def instructionsOf : Protocol → Value → String
  | .Chat,_ => ""
  | .Responses,body => ((Json.get body "instructions").bind Json.as_str).getD ""
  | .Messages,body => (text_content (Json.get body "system")).getD ""

theorem each_onHistory (read : Nat → Value → List ProjectedMessage → Except Error (List ProjectedMessage)) (messages : List Value) :
    ∀ (index : Nat) (reading : Reading), each (onHistory read) index messages reading =
      (each read index messages reading.2).map fun history => (reading.1,history) := by
  induction messages with
  | nil => exact fun _ _ => rfl
  | cons message rest ih =>
    intro index reading
    simp only [each,bind,Except.bind,onHistory]
    cases read index message reading.2 with
    | error e => rfl
    | ok history => exact ih _ _
theorem conversation_eq {protocol : Protocol} {body : Value} {messages : List Value} (found : messagesOf protocol body = some messages) :
    conversation protocol body = each (readMessage protocol) 0 messages (instructionsOf protocol body,[]) := by
  obtain ⟨value,isValue,isArray⟩ := Option.bind_eq_some_iff.mp found
  obtain ⟨rfl⟩ : value = .Array messages := by
    cases value <;> simp [Json.as_array] at isArray
    rw [isArray]
  cases protocol with
  | Chat =>
    have isValue : Json.get body "messages" = some (.Array messages) := isValue
    simp only [conversation,isValue,parse_chat_messages,Json.as_array,Option.bind_some,readMessage,instructionsOf]
  | Responses =>
    have isValue : Json.get body "input" = some (.Array messages) := isValue
    simp only [conversation,isValue,parse_responses_input,readMessage,instructionsOf,each_onHistory,bind,Except.bind]
    cases each responsesItem 0 messages [] <;> rfl
  | Messages =>
    have isValue : Json.get body "messages" = some (.Array messages) := isValue
    simp only [conversation,isValue,parse_anthropic_messages,Json.as_array,Option.bind_some,readMessage,instructionsOf,
      each_onHistory,bind,Except.bind]
    cases each anthropicMessage 0 messages [] <;> rfl

/-- What the arguments of a call denote; no text denotes the empty object. -/
def valueOf (arguments : String) : Value := if arguments = "" then .Object [] else inputOf arguments
def callsFrom (index : Nat) : List ToolOutput → List ToolCallContent
  | [] => []
  | tool :: rest => ⟨index,tool.id,tool.name,valueOf tool.arguments⟩ :: callsFrom (index + 1) rest
def callMessages (index : Nat) : List ToolOutput → List ProjectedMessage
  | [] => []
  | tool :: rest =>
    ⟨s!"external:{index}",.Assistant,.Assistant "" "" none [⟨0,tool.id,tool.name,valueOf tool.arguments⟩]⟩ ::
      callMessages (index + 1) rest
/-- The turn of the assistant with an answer that stands at an index. -/
def turn (protocol : Protocol) (index : Nat) (output : Output) : List ProjectedMessage :=
  let tools := output.tools.map (·.2)
  if protocol = .Responses then
    if output.text = "" then callMessages index tools
    else text_message index .Assistant output.text :: callMessages (index + 1) tools
  else [⟨s!"external:{index}",.Assistant,.Assistant output.text "" none (callsFrom 0 tools)⟩]

def replyOf (protocol : Protocol) (json : Value) : Option (List Value) :=
  match protocol with
  | .Chat => do
    let choices ← (Json.get json "choices").bind Json.as_array
    let choice ← choices.head?
    let message ← Json.get choice "message"
    some [message]
  | .Responses => (Json.get json "output").bind Json.as_array
  | .Messages => do
    let role ← Json.get json "role"
    let content ← Json.get json "content"
    some [object [("role",role),("content",content)]]
def reply (protocol : Protocol) (id : String) (output : Output) : List Value :=
  match protocol with
  | .Chat => [output.chatMessage]
  | .Responses => output.items id
  | .Messages => [object [("role",.String "assistant"),("content",.Array output.blocks)]]

theorem replyOf_json (protocol : Protocol) (id model : String) (output : Output) :
    replyOf protocol (output.json protocol id model) = some (reply protocol id output) := by
  cases protocol <;> simp [replyOf,reply,Output.json,Json.as_array]

def Sendable (protocol : Protocol) (tool : ToolOutput) : Prop :=
  tool.id ≠ "" ∧ tool.name ≠ "" ∧ (protocol = .Messages ∨ tool.arguments ≠ "")
def Objective (tool : ToolOutput) : Prop :=
  tool.arguments = "" ∨ ∃ members, ArgumentText.from_str tool.arguments = .ok (.Object members)

theorem object_nil : object [] = .Object [] := by
  rw [object,List.perm_nil.mp (Serde.order_perm [])]

section Required
variable {value : Value} {field : String}

theorem required_ok {text : String} (found : Json.get value field = some (.String text)) (filled : text ≠ "") :
    required_string value field = .ok text := by
  rw [required_string,found]
  simp only [Option.bind_some,Json.as_str]
theorem required_refuses {β : Type} {text : String} {next : String → Except Error β} (found : Json.get value field = some (.String text))
    (later : text ≠ "" → ∃ e, next text = .error e) : ∃ e, required_string value field >>= next = .error e := by
  by_cases empty : text = ""
  · rw [required_string,found,empty]
    exact ⟨_,rfl⟩
  · rw [required_ok found empty]
    exact later empty

end Required

section Calls
variable {tool : ToolOutput} {tools : List ToolOutput}

theorem argumentsOf_filled (objective : Objective tool) (filled : tool.arguments ≠ "") :
    argumentsOf tool.arguments = .ok (valueOf tool.arguments) := by
  obtain ⟨members,isObject⟩ := objective.resolve_left filled
  simp [argumentsOf,valueOf,inputOf,filled,isObject,Except.mapError]

theorem chatCall_id : Json.get (chatCall tool) "id" = some (.String tool.id) := by simp [chatCall]
theorem chatCall_function : Json.get (chatCall tool) "function" =
    some (object [("name",.String tool.name),("arguments",.String tool.arguments)]) := by simp [chatCall]

theorem parseCall_ok (sendable : Sendable .Chat tool) (objective : Objective tool) (index : Nat) :
    parseCall index (chatCall tool) = .ok ⟨index,tool.id,tool.name,valueOf tool.arguments⟩ := by
  obtain ⟨id,name,arguments⟩ := sendable
  have filled := arguments.resolve_left (by decide)
  rw [parseCall,chatCall_function]
  simp only [bind,Except.bind]
  rw [required_ok (by simp) filled]
  dsimp only
  rw [required_ok chatCall_id id]
  dsimp only
  rw [required_ok (by simp) name]
  dsimp only
  rw [argumentsOf_filled objective filled]
theorem parseCall_refuses (unsendable : ¬ Sendable .Chat tool) (index : Nat) : ∃ e, parseCall index (chatCall tool) = .error e := by
  have isName : Json.get (object [("name",.String tool.name),("arguments",.String tool.arguments)]) "name" =
    some (.String tool.name) := by simp
  have isArguments : Json.get (object [("name",.String tool.name),("arguments",.String tool.arguments)]) "arguments" =
    some (.String tool.arguments) := by simp
  rw [parseCall,chatCall_function]
  refine required_refuses isArguments fun noArguments => ?_
  refine required_refuses chatCall_id fun noId => ?_
  refine required_refuses isName fun noName => ?_
  exact absurd ⟨noId,noName,.inr noArguments⟩ unsendable
theorem parseCalls_ok (sendable : ∀ tool ∈ tools, Sendable .Chat tool) (objective : ∀ tool ∈ tools, Objective tool) :
    ∀ index, parseCalls index (tools.map chatCall) = .ok (callsFrom index tools) := by
  induction tools with
  | nil => exact fun _ => rfl
  | cons tool rest ih =>
    intro index
    have later := ih (fun tool member => sendable tool (List.mem_cons_of_mem _ member))
      (fun tool member => objective tool (List.mem_cons_of_mem _ member)) (index + 1)
    rw [List.map_cons,parseCalls,parseCall_ok (sendable tool List.mem_cons_self) (objective tool List.mem_cons_self)]
    simp only [bind,Except.bind]
    rw [later]
    rfl
theorem parseCalls_refuses (member : tool ∈ tools) (unsendable : ¬ Sendable .Chat tool) :
    ∀ index, ∃ e, parseCalls index (tools.map chatCall) = .error e := by
  induction tools with
  | nil => cases member
  | cons first rest ih =>
    intro index
    rw [List.map_cons,parseCalls]
    simp only [bind,Except.bind]
    cases isFirst : parseCall index (chatCall first) with
    | error e => exact ⟨e,rfl⟩
    | ok call =>
      rcases List.mem_cons.mp member with rfl | later
      · obtain ⟨e,isError⟩ := parseCall_refuses unsendable index
        rw [isFirst] at isError
        cases isError
      · obtain ⟨e,isError⟩ := ih later (index + 1)
        exact ⟨e,by rw [isError]⟩

theorem callItem_id (status : String) : Json.get (callItem tool status) "call_id" = some (.String tool.id) := by simp [callItem]
theorem callItem_name (status : String) : Json.get (callItem tool status) "name" = some (.String tool.name) := by simp [callItem]
theorem callItem_arguments (status : String) : Json.get (callItem tool status) "arguments" = some (.String tool.arguments) := by
  simp [callItem]
theorem callItem_type (status : String) : Json.get (callItem tool status) "type" = some (.String "function_call") := by
  simp [callItem]

theorem callItem_ok (sendable : Sendable .Responses tool) (objective : Objective tool) (index : Nat)
    (history : List ProjectedMessage) : responsesItem index (callItem tool "completed") history =
      .ok (history ++ callMessages index [tool]) := by
  obtain ⟨id,name,arguments⟩ := sendable
  have filled := arguments.resolve_left (by decide)
  simp only [responsesItem,callItem_type,Option.bind_some,Json.as_str,bind,Except.bind]
  rw [required_ok (callItem_id _) id]
  dsimp only
  rw [required_ok (callItem_name _) name]
  dsimp only
  rw [required_ok (callItem_arguments _) filled]
  dsimp only
  rw [argumentsOf_filled objective filled]
  rfl
theorem callItem_refuses (unsendable : ¬ Sendable .Responses tool) (index : Nat) (history : List ProjectedMessage) :
    ∃ e, responsesItem index (callItem tool "completed") history = .error e := by
  rw [responsesItem,callItem_type]
  refine required_refuses (callItem_id "completed") fun noId => ?_
  refine required_refuses (callItem_name "completed") fun noName => ?_
  refine required_refuses (callItem_arguments "completed") fun noArguments => ?_
  exact absurd ⟨noId,noName,.inr noArguments⟩ unsendable
theorem callItems_ok (sendable : ∀ tool ∈ tools, Sendable .Responses tool) (objective : ∀ tool ∈ tools, Objective tool) :
    ∀ index history, each responsesItem index (tools.map (callItem · "completed")) history =
      .ok (history ++ callMessages index tools) := by
  induction tools with
  | nil => exact fun _ _ => by simp [each,callMessages]
  | cons tool rest ih =>
    intro index history
    have later := ih (fun tool member => sendable tool (List.mem_cons_of_mem _ member))
      (fun tool member => objective tool (List.mem_cons_of_mem _ member)) (index + 1)
    simp only [List.map_cons,each,bind,Except.bind]
    rw [callItem_ok (sendable tool List.mem_cons_self) (objective tool List.mem_cons_self)]
    dsimp only
    rw [later,List.append_assoc]
    rfl
theorem messageItem_ok {text : String} (filled : text ≠ "") (id : String) (index : Nat) (history : List ProjectedMessage) :
    responsesItem index (messageItem id "completed" [outputText text]) history =
      .ok (history ++ [text_message index .Assistant text]) := by
  have isPart : parsePart (outputText text) = .ok (.Text text) := by
    have isType : Json.get (outputText text) "type" = some (.String "output_text") := by simp [outputText]
    have isText : Json.get (outputText text) "text" = some (.String text) := by simp [outputText]
    simp only [parsePart,isType,Option.bind_some,Json.as_str,Option.getD_some,bind,Except.bind]
    rw [if_pos (by decide),required_ok isText filled]
  have isType : Json.get (messageItem id "completed" [outputText text]) "type" = some (.String "message") := by simp [messageItem]
  have isRole : Json.get (messageItem id "completed" [outputText text]) "role" = some (.String "assistant") := by simp [messageItem]
  have isContent : Json.get (messageItem id "completed" [outputText text]) "content" = some (.Array [outputText text]) := by
    simp [messageItem]
  simp only [responsesItem,isType,isRole,isContent,Option.bind_some,Json.as_str,Option.getD_some,parse_parts,bind,Except.bind,
    List.mapM_cons,List.mapM_nil,isPart,pure,Except.pure]
  rfl

theorem toolUse_id : Json.get (toolUse tool) "id" = some (.String tool.id) := by simp [toolUse]
theorem toolUse_name : Json.get (toolUse tool) "name" = some (.String tool.name) := by simp [toolUse]
theorem toolUse_type : Json.get (toolUse tool) "type" = some (.String "tool_use") := by simp [toolUse]
theorem toolUse_input : Json.get (toolUse tool) "input" = some (inputOf tool.arguments) := by simp [toolUse]

def EmptyFails : Prop := ∃ e, ArgumentText.from_str "" = .error e
theorem inputOf_value (empty : EmptyFails) : inputOf tool.arguments = valueOf tool.arguments := by
  unfold valueOf
  split_ifs with blank
  · obtain ⟨e,fails⟩ := empty
    rw [blank,inputOf,fails]
    exact object_nil
  · rfl

theorem toolUse_ok (empty : EmptyFails) (sendable : Sendable .Messages tool) (index block_index : Nat)
    (role : String) (blocks : Blocks) : anthropicBlock role index block_index (toolUse tool) blocks =
      .ok { blocks with calls := blocks.calls ++ callsFrom blocks.calls.length [tool] } := by
  obtain ⟨id,name,_⟩ := sendable
  simp only [anthropicBlock,toolUse_type,toolUse_input,Option.bind_some,Json.as_str,bind,Except.bind,Option.getD_some]
  rw [required_ok toolUse_id id]
  dsimp only
  rw [required_ok toolUse_name name]
  dsimp only
  rw [inputOf_value empty]
  rfl
theorem toolUse_refuses (unsendable : ¬ Sendable .Messages tool) (index block_index : Nat) (role : String) (blocks : Blocks) :
    ∃ e, anthropicBlock role index block_index (toolUse tool) blocks = .error e := by
  rw [anthropicBlock,toolUse_type]
  refine required_refuses toolUse_id fun noId => ?_
  refine required_refuses toolUse_name fun noName => ?_
  exact absurd ⟨noId,noName,.inl rfl⟩ unsendable
theorem toolUses_ok (empty : EmptyFails) (index : Nat) (role : String) (sendable : ∀ tool ∈ tools, Sendable .Messages tool) :
    ∀ block_index (blocks : Blocks), each (anthropicBlock role index) block_index (tools.map toolUse) blocks =
      .ok { blocks with calls := blocks.calls ++ callsFrom blocks.calls.length tools } := by
  induction tools with
  | nil => exact fun _ blocks => by simp [each,callsFrom]
  | cons tool rest ih =>
    intro block_index blocks
    have later := ih (fun tool member => sendable tool (List.mem_cons_of_mem _ member)) (block_index + 1)
    simp only [List.map_cons,each,bind,Except.bind]
    rw [toolUse_ok empty (sendable tool List.mem_cons_self)]
    dsimp only
    rw [later]
    simp [callsFrom]
theorem textBlock_ok {text : String} (filled : text ≠ "") (role : String) (index block_index : Nat) (blocks : Blocks) :
    anthropicBlock role index block_index (object [("type",.String "text"),("text",.String text)]) blocks =
      .ok { blocks with text_parts := blocks.text_parts ++ [.Text text] } := by
  have isType : Json.get (object [("type",.String "text"),("text",.String text)]) "type" = some (.String "text") := by simp
  have isText : Json.get (object [("type",.String "text"),("text",.String text)]) "text" = some (.String text) := by simp
  have isPart : parsePart (object [("type",.String "text"),("text",.String text)]) = .ok (.Text text) := by
    simp only [parsePart,isType,Option.bind_some,Json.as_str,Option.getD_some,bind,Except.bind]
    rw [if_pos (by decide),required_ok isText filled]
  simp only [anthropicBlock,isType,Option.bind_some,Json.as_str,parse_parts,bind,Except.bind,List.mapM_cons,List.mapM_nil,isPart,
    pure,Except.pure]
  rfl

end Calls

section Answer
variable {protocol : Protocol} {output : Output} {entry : Nat × ToolOutput}

theorem reply_ok (empty : EmptyFails) (sendable : ∀ entry ∈ output.tools, Sendable protocol entry.2)
    (objective : ∀ entry ∈ output.tools, Objective entry.2) (id : String) (index : Nat) (reading : Reading) :
    each (readMessage protocol) index (reply protocol id output) reading = .ok (reading.1,reading.2 ++ turn protocol index output) := by
  have sendable : ∀ tool ∈ output.tools.map (·.2), Sendable protocol tool := List.forall_mem_map.mpr sendable
  have objective : ∀ tool ∈ output.tools.map (·.2), Objective tool := List.forall_mem_map.mpr objective
  obtain ⟨instructions,history⟩ := reading
  cases protocol with
  | Chat =>
    have isRole : Json.get output.chatMessage "role" = some (.String "assistant") := by simp [Output.chatMessage]
    have isContent : Json.get output.chatMessage "content" = some (.String output.text) := by simp [Output.chatMessage]
    have isCalls : Json.get output.chatMessage "tool_calls" = some (.Array ((output.tools.map (·.2)).map chatCall)) := by
      simp [Output.chatMessage,Function.comp_def]
    simp only [reply,readMessage,each,bind,Except.bind,chatMessage,isContent,isCalls,Option.bind_some,Json.as_array,Option.getD_some,
      text_content]
    rw [required_ok isRole (by decide)]
    dsimp only
    rw [parseCalls_ok sendable objective]
    rfl
  | Responses =>
    simp only [reply,readMessage,each_onHistory,Output.items,turn,if_true]
    have isCalls : output.tools.map (fun entry => callItem entry.2 "completed") =
        (output.tools.map (·.2)).map (callItem · "completed") := by
      rw [List.map_map]
      rfl
    rw [isCalls]
    split_ifs with silent
    · rw [List.nil_append,callItems_ok sendable objective]
      rfl
    · simp only [List.cons_append,List.nil_append,each,bind,Except.bind]
      rw [messageItem_ok silent]
      dsimp only
      rw [callItems_ok sendable objective,List.append_assoc]
      rfl
  | Messages =>
    have isRole : Json.get (object [("role",.String "assistant"),("content",.Array output.blocks)]) "role" =
      some (.String "assistant") := by simp
    have isContent : Json.get (object [("role",.String "assistant"),("content",.Array output.blocks)]) "content" =
      some (.Array output.blocks) := by simp
    have isBlocks : each (anthropicBlock "assistant" index) 0 output.blocks { history } =
        .ok ⟨history,if output.text = "" then [] else [.Text output.text],callsFrom 0 (output.tools.map (·.2))⟩ := by
      have isTools : output.tools.map (fun entry => toolUse entry.2) = (output.tools.map (·.2)).map toolUse := by
        rw [List.map_map]
        rfl
      rw [Output.blocks,isTools]
      split_ifs with silent
      · rw [List.nil_append,toolUses_ok empty _ _ sendable]
        rfl
      · simp only [List.cons_append,List.nil_append,each,bind,Except.bind]
        rw [textBlock_ok silent]
        dsimp only
        rw [toolUses_ok empty _ _ sendable]
        rfl
    have isText : String.join ((if output.text = "" then [] else [ContentPart.Text output.text]).filterMap textOfPart) = output.text := by
      split_ifs with silent
      · rw [silent]
        rfl
      · simp [textOfPart]
    simp only [reply,readMessage,each,bind,Except.bind,onHistory,anthropicMessage,isContent]
    rw [required_ok isRole (by decide)]
    dsimp only
    rw [isBlocks]
    dsimp only
    rw [if_pos rfl,isText]
    rfl
theorem reply_refuses (member : entry ∈ output.tools) (unsendable : ¬ Sendable protocol entry.2) (id : String) (index : Nat)
    (reading : Reading) : ∃ e, each (readMessage protocol) index (reply protocol id output) reading = .error e := by
  have among : entry.2 ∈ output.tools.map (·.2) := List.mem_map_of_mem member
  obtain ⟨instructions,history⟩ := reading
  cases protocol with
  | Chat =>
    have isRole : Json.get output.chatMessage "role" = some (.String "assistant") := by simp [Output.chatMessage]
    have isCalls : Json.get output.chatMessage "tool_calls" = some (.Array ((output.tools.map (·.2)).map chatCall)) := by
      simp [Output.chatMessage,Function.comp_def]
    obtain ⟨e,isError⟩ := parseCalls_refuses among unsendable 0
    refine ⟨e,?_⟩
    simp only [reply,readMessage,each,bind,Except.bind,chatMessage,isCalls,Option.bind_some,Json.as_array,Option.getD_some]
    rw [required_ok isRole (by decide)]
    dsimp only
    rw [isError]
    rfl
  | Responses =>
    have isItem : callItem entry.2 "completed" ∈ output.items id :=
      List.mem_append_right _ (List.mem_map.mpr ⟨entry,member,rfl⟩)
    obtain ⟨e,isError⟩ := each_refuses isItem (callItem_refuses unsendable) index history
    exact ⟨e,by simp only [reply,readMessage,each_onHistory,isError,Except.map]⟩
  | Messages =>
    have isRole : Json.get (object [("role",.String "assistant"),("content",.Array output.blocks)]) "role" =
      some (.String "assistant") := by simp
    have isContent : Json.get (object [("role",.String "assistant"),("content",.Array output.blocks)]) "content" =
      some (.Array output.blocks) := by simp
    have isBlock : toolUse entry.2 ∈ output.blocks := List.mem_append_right _ (List.mem_map.mpr ⟨entry,member,rfl⟩)
    have refused (block_index : Nat) (blocks : Blocks) := toolUse_refuses unsendable index block_index "assistant" blocks
    obtain ⟨e,isError⟩ := each_refuses isBlock refused 0 { history }
    refine ⟨e,?_⟩
    simp only [reply,readMessage,each,bind,Except.bind,onHistory,anthropicMessage,isContent]
    rw [required_ok isRole (by decide)]
    dsimp only
    rw [isError]
    rfl

end Answer

section Kept
variable {index : Nat} {message : Value} {history history' : List ProjectedMessage}

theorem each_keeps {σ : Type} {read : Nat → Value → σ → Except Error σ} (historyOf : σ → List ProjectedMessage)
    (keeps : ∀ index message state state', read index message state = .ok state' → historyOf state <+: historyOf state')
    {messages : List Value} : ∀ {index : Nat} {state state' : σ}, each read index messages state = .ok state' →
      historyOf state <+: historyOf state' := by
  induction messages with
  | nil =>
    intro index state state' isRead
    rw [← Except.ok.inj isRead]
  | cons message rest ih =>
    intro index state state' isRead
    simp only [each,bind,Except.bind] at isRead
    cases isFirst : read index message state with
    | error e => simp [isFirst] at isRead
    | ok next =>
      rw [isFirst] at isRead
      exact (keeps _ _ _ _ isFirst).trans (ih isRead)

theorem chatSystem_keeps {instructions : String} {reading : Reading} (isRead : chatSystem message instructions history = .ok reading) :
    history <+: reading.2 := by
  simp only [chatSystem] at isRead
  repeat' split at isRead
  all_goals first
    | contradiction
    | (obtain rfl := Except.ok.inj isRead; exact List.prefix_rfl)
theorem chatMessage_keeps {reading reading' : Reading} (isRead : chatMessage index message reading = .ok reading') :
    reading.2 <+: reading'.2 := by
  obtain ⟨instructions,history⟩ := reading
  simp only [chatMessage,bind,Except.bind] at isRead
  repeat' split at isRead
  all_goals first
    | contradiction
    | exact chatSystem_keeps isRead
    | (obtain rfl := Except.ok.inj isRead; exact List.prefix_append _ _)
theorem responsesItem_keeps (isRead : responsesItem index message history = .ok history') : history <+: history' := by
  simp only [responsesItem,bind,Except.bind] at isRead
  repeat' split at isRead
  all_goals first
    | contradiction
    | (obtain rfl := Except.ok.inj isRead; exact List.prefix_append _ _)
theorem toolResult_keeps {block_index : Nat} {blocks blocks' : Blocks}
    (isRead : blocks.toolResult index block_index message = .ok blocks') : blocks.history <+: blocks'.history := by
  simp only [Blocks.toolResult,bind,Except.bind] at isRead
  cases isId : required_string message "tool_use_id" with
  | error e => simp [isId] at isRead
  | ok call_id =>
    simp only [isId] at isRead
    obtain rfl := Except.ok.inj isRead
    dsimp only
    split_ifs
    · exact List.prefix_append _ _
    · exact (List.prefix_append _ _).trans (List.prefix_append _ _)
theorem anthropicBlock_keeps {role : String} {block_index : Nat} {blocks blocks' : Blocks}
    (isRead : anthropicBlock role index block_index message blocks = .ok blocks') : blocks.history <+: blocks'.history := by
  simp only [anthropicBlock,bind,Except.bind] at isRead
  repeat' split at isRead
  all_goals first
    | contradiction
    | exact toolResult_keeps isRead
    | (obtain rfl := Except.ok.inj isRead; exact List.prefix_rfl)
theorem anthropicMessage_keeps (isRead : anthropicMessage index message history = .ok history') : history <+: history' := by
  simp only [anthropicMessage,bind,Except.bind] at isRead
  cases isRole : required_string message "role" with
  | error e => simp [isRole] at isRead
  | ok role =>
    simp only [isRole] at isRead
    split at isRead
    · cases isRead
    · next items isContent =>
      cases isBlocks : each (anthropicBlock role index) 0 items { history } with
      | error e => simp [isBlocks] at isRead
      | ok blocks =>
        have kept : history <+: blocks.history :=
          each_keeps Blocks.history (fun _ _ _ _ => anthropicBlock_keeps) isBlocks
        simp only [isBlocks] at isRead
        split_ifs at isRead
        all_goals obtain rfl := Except.ok.inj isRead
        · exact kept.trans (List.prefix_append _ _)
        · exact kept.trans (List.prefix_append _ _)
        · exact kept
    · repeat' split at isRead
      all_goals first
        | contradiction
        | (obtain rfl := Except.ok.inj isRead; exact List.prefix_append _ _)
theorem readMessage_keeps (protocol : Protocol) (index : Nat) (message : Value) (reading reading' : Reading)
    (isRead : readMessage protocol index message reading = .ok reading') : reading.2 <+: reading'.2 := by
  have lifted : ∀ read : Nat → Value → List ProjectedMessage → Except Error (List ProjectedMessage),
      (∀ history', read index message reading.2 = .ok history' → reading.2 <+: history') →
        onHistory read index message reading = .ok reading' → reading.2 <+: reading'.2 := by
    intro read keeps isRead
    rw [onHistory] at isRead
    cases isHistory : read index message reading.2 with
    | error e => simp [isHistory,Except.map] at isRead
    | ok history' =>
      rw [isHistory] at isRead
      rw [← Except.ok.inj isRead]
      exact keeps _ isHistory
  cases protocol with
  | Chat => exact chatMessage_keeps isRead
  | Responses => exact lifted _ (fun _ => responsesItem_keeps) isRead
  | Messages => exact lifted _ (fun _ => anthropicMessage_keeps) isRead

end Kept

/-! ## The answer of a model call -/

def answered (events : List ModelEvent) : Output := events.foldl Output.update {}
def argumentsText (events : List ModelEvent) (index : Nat) : String := String.join (Lanes.deltas (toolLane index events))

def saidText (message : ProjectedMessage) : String :=
  match message.content with
  | .Parts parts => String.join (parts.filterMap textOfPart)
  | .Assistant text _ _ _ => text
  | .ToolResult _ => ""
def saidCalls (message : ProjectedMessage) : List ToolCallContent :=
  match message.content with
  | .Assistant _ _ _ calls => calls
  | _ => []
/-- What a text of arguments denotes; no text denotes the empty object. -/
def Denotes (arguments : String) (value : Value) : Prop :=
  if arguments = "" then value = .Object [] else ArgumentText.from_str arguments = .ok value
/-- A call as it was read, and as it was answered; the provider's name is kept. -/
structure SameCall (events : List ModelEvent) (read : ToolCallContent) (call : ToolCall) : Prop where
  call_id : read.call_id = call.call_id
  name : .ToolCallStart call.index call.call_id read.name ∈ events
  arguments : Denotes call.arguments_text read.arguments
structure Says (events : List ModelEvent) (result : ModelCycleResult) (messages : List ProjectedMessage) : Prop where
  role : ∀ message ∈ messages, message.role = .Assistant
  text : String.join (messages.map saidText) = result.text
  calls : List.Forall₂ (SameCall events) (messages.flatMap saidCalls) result.calls

/-- A request with an answer in its history, of which all else can be read. -/
structure Surrounds (protocol : Protocol) (body : Value) (before answer after : List Value) (messages : List ProjectedMessage) :
    Prop where
  model : ∃ model, required_string body "model" = .ok model
  tools : ∃ tools, parse_tools (Json.get body "tools") protocol = .ok tools
  placed : messagesOf protocol body = some (before ++ answer ++ after)
  readable : ∃ reading reading', each (readMessage protocol) 0 before (instructionsOf protocol body,[]) = .ok reading ∧
    each (readMessage protocol) (before.length + answer.length) after (reading.1,reading.2 ++ messages) = .ok reading' ∧
    reading'.2 ≠ []
/-- The request is accepted, and after the messages before the answer come those that say it. -/
def Returned (protocol : Protocol) (body : Value) (before : List Value) (events : List ModelEvent) (result : ModelCycleResult) : Prop :=
  ∃ parsed instructions earlier messages later, parse protocol body = .ok parsed ∧
    each (readMessage protocol) 0 before (instructionsOf protocol body,[]) = .ok (instructions,earlier) ∧
    parsed.request.history = earlier ++ messages ++ later ∧ Says events result messages
/-- Every call has an id and a name, and a text of arguments where the protocol has one. -/
structure CanReturn (protocol : Protocol) (events : List ModelEvent) : Prop where
  named : ∀ index call_id name, .ToolCallStart index call_id name ∈ events → call_id ≠ "" ∧ name ≠ ""
  argued : protocol = .Messages ∨ ∀ index call_id name, .ToolCallStart index call_id name ∈ events → argumentsText events index ≠ ""

section Answers
variable {events : List ModelEvent} {output : Output} {p : Progress} {result : ModelCycleResult} {protocol : Protocol}

structure SameTool (events : List ModelEvent) (entry : Nat × ToolOutput) (call : ToolCall) : Prop where
  index : entry.1 = call.index
  id : entry.2.id = call.call_id
  name : .ToolCallStart call.index call.call_id entry.2.name ∈ events
  arguments : entry.2.arguments = call.arguments_text
  lane : entry.2.arguments = argumentsText events call.index

theorem openTool_call (id : String) (index : Nat) (tool : Tool) : (openTool id index tool).call.call_id = tool.call_id ∧
    (openTool id index tool).call.arguments_text = tool.arguments := by
  unfold openTool
  split_ifs
  · rw [endTool_eq]
    exact ⟨rfl,rfl⟩
  · exact ⟨rfl,rfl⟩
theorem started_of_known (leads : Leads {} events p) {index : Nat} {tool : Tool} (known : p.tools index = some tool) :
    .ToolCallStart index tool.call_id tool.name ∈ events := by
  have starts := leads.starts index
  rw [known] at starts
  have among : (index,tool.call_id,tool.name) ∈ (events.filterMap toolStart).filter (·.1 = index) := by
    simp only [Option.map_some,Option.toList_some,Option.map_none,Option.toList_none,List.nil_append] at starts
    rw [← starts]
    exact List.mem_singleton.mpr rfl
  obtain ⟨event,isEvent,isStart⟩ := List.mem_filterMap.mp (List.mem_of_mem_filter among)
  cases event with
  | ToolCallStart other call_id name =>
    obtain ⟨rfl,rfl,rfl⟩ : other = index ∧ call_id = tool.call_id ∧ name = tool.name := by simpa [toolStart] using isStart
    exact isEvent
  | _ => cases isStart
theorem known_of_started (leads : Leads {} events p) {index : Nat} {call_id name : String}
    (started : .ToolCallStart index call_id name ∈ events) :
    ∃ tool, p.tools index = some tool ∧ tool.call_id = call_id ∧ tool.name = name := by
  have starts := leads.starts index
  have among : (index,call_id,name) ∈ (events.filterMap toolStart).filter (·.1 = index) :=
    List.mem_filter.mpr ⟨List.mem_filterMap.mpr ⟨_,started,rfl⟩,by simp⟩
  cases known : p.tools index with
  | none =>
    rw [known] at starts
    simp only [Option.map_none,Option.toList_none,List.nil_append] at starts
    rw [← starts] at among
    cases among
  | some tool =>
    rw [known] at starts
    simp only [Option.map_some,Option.toList_some,Option.map_none,Option.toList_none,List.nil_append] at starts
    rw [← starts] at among
    obtain ⟨_,rfl,rfl⟩ := (by simpa using List.mem_singleton.mp among : index = index ∧ call_id = tool.call_id ∧ name = tool.name)
    exact ⟨tool,rfl,rfl,rfl⟩
theorem arguments_of_known (leads : Leads {} events p) {index : Nat} {tool : Tool} (known : p.tools index = some tool) :
    tool.arguments = argumentsText events index := by
  have read := leads.arguments index
  rw [known] at read
  simpa [argumentsText] using read

theorem sameTools (tracks : Tracks output p) (leads : Leads {} events p) (yields : Yields p result) :
    List.Forall₂ (SameTool events) output.tools result.calls := by
  have related : ∀ {index : Nat} {tool : Tool} {call : ToolCall}, p.tools index = some tool →
      call = (openTool result.model_call_id index tool).call → SameTool events (index,toolOf tool) call := by
    rintro index tool call known rfl
    obtain ⟨isId,isText⟩ := openTool_call result.model_call_id index tool
    refine ⟨(openTool_index _ _ _).symm,isId.symm,?_,isText.symm,?_⟩
    · rw [openTool_index,isId]
      exact started_of_known leads known
    · rw [openTool_index]
      exact arguments_of_known leads known
  refine forall₂_ordered (fun entry : Nat × ToolOutput => entry.1) (fun call : ToolCall => call.index) (fun _ _ same => same.index)
    tracks.ordered yields.ordered ?_ ?_
  · rintro ⟨index,tool⟩ member
    obtain ⟨one,known,rfl⟩ := (tracks.known index tool).mp member
    have isIndex := openTool_index result.model_call_id index one
    exact ⟨_,(yields.calls _).mpr ⟨one,by rw [isIndex,known],by rw [isIndex]⟩,related known rfl⟩
  · intro call member
    obtain ⟨tool,known,isCall⟩ := (yields.calls call).mp member
    exact ⟨_,(tracks.known _ _).mpr ⟨tool,known,rfl⟩,related known isCall⟩

theorem valueOf_denotes {tool : ToolOutput} (objective : Objective tool) : Denotes tool.arguments (valueOf tool.arguments) := by
  unfold Denotes valueOf
  split_ifs with blank
  · rfl
  · obtain ⟨members,isObject⟩ := objective.resolve_left blank
    rw [inputOf,isObject]
theorem sameCall {entry : Nat × ToolOutput} {call : ToolCall} (same : SameTool events entry call) (objective : Objective entry.2)
    (index : Nat) : SameCall events ⟨index,entry.2.id,entry.2.name,valueOf entry.2.arguments⟩ call :=
  ⟨same.id,same.name,same.arguments ▸ valueOf_denotes objective⟩
theorem callsFrom_same {entries : List (Nat × ToolOutput)} {calls : List ToolCall}
    (same : List.Forall₂ (SameTool events) entries calls) (objective : ∀ entry ∈ entries, Objective entry.2) (index : Nat) :
    List.Forall₂ (SameCall events) (callsFrom index (entries.map (·.2))) calls := by
  induction same generalizing index with
  | nil => exact .nil
  | cons first _ ih =>
    exact .cons (sameCall first (objective _ List.mem_cons_self) index)
      (ih (fun entry member => objective entry (List.mem_cons_of_mem _ member)) _)
theorem callMessages_same {entries : List (Nat × ToolOutput)} {calls : List ToolCall}
    (same : List.Forall₂ (SameTool events) entries calls) (objective : ∀ entry ∈ entries, Objective entry.2) (index : Nat) :
    List.Forall₂ (SameCall events) ((callMessages index (entries.map (·.2))).flatMap saidCalls) calls := by
  induction same generalizing index with
  | nil => exact .nil
  | cons first _ ih =>
    exact .cons (sameCall first (objective _ List.mem_cons_self) 0)
      (ih (fun entry member => objective entry (List.mem_cons_of_mem _ member)) _)
theorem callMessages_silent (tools : List ToolOutput) (index : Nat) : (∀ message ∈ callMessages index tools, message.role = .Assistant) ∧
      String.join ((callMessages index tools).map saidText) = "" := by
  induction tools generalizing index with
  | nil => exact ⟨nofun,rfl⟩
  | cons tool rest ih =>
    obtain ⟨role,text⟩ := ih (index + 1)
    refine ⟨List.forall_mem_cons.mpr ⟨rfl,role⟩,?_⟩
    rw [callMessages,List.map_cons,String.join_cons,text]
    rfl
theorem turn_matches (tracks : Tracks output p) (leads : Leads {} events p) (yields : Yields p result)
    (objective : ∀ entry ∈ output.tools, Objective entry.2) (index : Nat) : Says events result (turn protocol index output) := by
  have same := sameTools tracks leads yields
  have isText : output.text = result.text := tracks.text.trans yields.text.symm
  unfold turn
  split_ifs with isResponses silent
  · obtain ⟨role,text⟩ := callMessages_silent (output.tools.map (·.2)) index
    exact ⟨role,by rw [text,← isText,silent],callMessages_same same objective _⟩
  · obtain ⟨role,text⟩ := callMessages_silent (output.tools.map (·.2)) (index + 1)
    refine ⟨List.forall_mem_cons.mpr ⟨rfl,role⟩,?_,callMessages_same same objective _⟩
    rw [List.map_cons,String.join_cons,text,← isText]
    simp [saidText,text_message,textOfPart]
  · refine ⟨by simp,by simpa [saidText] using isText,?_⟩
    simpa [saidCalls] using callsFrom_same same objective 0

theorem canReturn_iff (leads : Leads {} events p) (tracks : Tracks output p) :
    CanReturn protocol events ↔ ∀ entry ∈ output.tools, Sendable protocol entry.2 := by
  constructor
  · rintro ⟨named,argued⟩ ⟨index,tool⟩ member
    obtain ⟨one,known,rfl⟩ := (tracks.known index tool).mp member
    have started := started_of_known leads known
    obtain ⟨id,name⟩ := named _ _ _ started
    refine ⟨id,name,argued.imp_right fun argued => ?_⟩
    rw [toolOf,arguments_of_known leads known]
    exact argued _ _ _ started
  · intro sendable
    have known : ∀ {index call_id name}, .ToolCallStart index call_id name ∈ events →
        Sendable protocol ⟨call_id,name,argumentsText events index⟩ := by
      intro index call_id name started
      obtain ⟨tool,known,rfl,rfl⟩ := known_of_started leads started
      rw [← arguments_of_known leads known]
      exact sendable _ ((tracks.known index _).mpr ⟨tool,known,rfl⟩)
    refine ⟨fun _ _ _ started => ⟨(known started).1,(known started).2.1⟩,?_⟩
    by_cases isMessages : protocol = .Messages
    · exact .inl isMessages
    · exact .inr fun _ _ _ started => (known started).2.2.resolve_left isMessages

theorem parse_surrounded {body : Value} {before answer after : List Value} {messages : List ProjectedMessage}
    (surrounds : Surrounds protocol body before answer after messages) :
    ∃ instructions earlier, each (readMessage protocol) 0 before (instructionsOf protocol body,[]) = .ok (instructions,earlier) ∧
      (each (readMessage protocol) before.length answer (instructions,earlier) = .ok (instructions,earlier ++ messages) →
        ∃ parsed later, parse protocol body = .ok parsed ∧ parsed.request.history = earlier ++ messages ++ later) ∧
      ((∃ e, each (readMessage protocol) before.length answer (instructions,earlier) = .error e) →
        ∃ e, parse protocol body = .error e) := by
  obtain ⟨model,isModel⟩ := surrounds.model
  obtain ⟨tools,isTools⟩ := surrounds.tools
  obtain ⟨⟨instructions,earlier⟩,reading',isBefore,isAfter,filled⟩ := surrounds.readable
  have isRead := conversation_eq surrounds.placed
  rw [List.append_assoc,each_append,isBefore,Except.bind,each_append,Nat.zero_add] at isRead
  refine ⟨instructions,earlier,isBefore,fun isAnswer => ?_,fun refused => ?_⟩
  · rw [isAnswer,Except.bind] at isRead
    obtain ⟨later,isLater⟩ := each_keeps (fun reading : Reading => reading.2) (readMessage_keeps protocol) isAfter
    have isParsed : parse protocol body = .ok
        ⟨model,⟨⟨reading'.1,tools⟩,{ modelSpec model with max_output_tokens := outputLimit protocol body },reading'.2⟩,
          ((Json.get body "stream").bind Json.as_bool).getD false⟩ := by
      simp only [parse,bind,Except.bind,isModel,isRead,isAfter,isTools,filled,if_false]
    exact ⟨_,later,isParsed,isLater.symm⟩
  · obtain ⟨e,isError⟩ := refused
    rw [isError,Except.bind] at isRead
    refine ⟨e,?_⟩
    simp only [parse,bind,Except.bind,isModel,isRead]

/-- An answer can be sent back exactly if its calls have ids and names and, but for the
    protocol of messages, texts of arguments. -/
theorem answers_sent_back {items : List (ModelEvent × Nat)} (empty : EmptyFails)
    (accepted : (consume_model_cycle (items.map nextEvent) none).1 = .ok result)
    (objects : ∀ call ∈ result.calls, call.arguments_text = "" ∨
      ∃ members, ArgumentText.from_str call.arguments_text = .ok (.Object members)) (protocol : Protocol) (id model : String) :
    ∃ json answer, complete protocol ((items.map (·.1)).map .ok) id model = .ok json ∧ replyOf protocol json = some answer ∧
      ∀ body before after,
        Surrounds protocol body before answer after (turn protocol before.length (answered (items.map (·.1)))) →
        (Returned protocol body before (items.map (·.1)) result ↔ CanReturn protocol (items.map (·.1))) := by
  obtain ⟨p,leads,yields⟩ := (consume_ok_iff items result).mp accepted
  have tracks : Tracks (answered (items.map (·.1))) p := tracks_nothing.run leads
  have objective : ∀ entry ∈ (answered (items.map (·.1))).tools, Objective entry.2 := by
    intro entry member
    obtain ⟨call,isCall,same⟩ := partner (sameTools tracks leads yields) member
    rw [Objective,same.arguments]
    exact objects call isCall
  refine ⟨_,_,?_,replyOf_json protocol id model (answered (items.map (·.1))),fun body before after surrounds => ?_⟩
  · rw [complete,collect_events]
    have finished : (answered (items.map (·.1))).finish = some result.finish_reason := tracks.finish.trans yields.finish
    change (if (answered (items.map (·.1))).finish.isNone then _ else _) = _
    rw [finished]
    rfl
  obtain ⟨instructions,earlier,isBefore,accepts,refuses⟩ := parse_surrounded surrounds
  constructor
  · rintro ⟨parsed,_,_,_,_,isParsed,_⟩
    by_contra unreturned
    rw [canReturn_iff leads tracks] at unreturned
    push Not at unreturned
    obtain ⟨entry,member,unsendable⟩ := unreturned
    obtain ⟨e,isError⟩ := refuses (reply_refuses member unsendable id _ _)
    rw [isError] at isParsed
    cases isParsed
  · intro canReturn
    obtain ⟨parsed,later,isParsed,isHistory⟩ :=
      accepts (reply_ok empty ((canReturn_iff leads tracks).mp canReturn) objective id before.length (instructions,earlier))
    exact ⟨parsed,instructions,earlier,_,later,isParsed,isBefore,isHistory,turn_matches tracks leads yields objective _⟩

end Answers

end Turns

section Example
local instance exampleSerde : Serde := printing
local instance exampleTexts : ArgumentText where
  from_str text := if text = "{}" then .ok (.Object []) else .error "EOF while parsing a value at line 1 column 0"

def listing (arguments : List String) : List (ModelEvent × Nat) :=
  let events : List ModelEvent :=
    [.Start "m",.ToolCallStart 0 "c" "list"] ++ arguments.map (.ToolCallArgumentsDelta 0) ++ [.ToolCallEnd 0,.Done .ToolUse]
  events.map fun event => (event,0)
def listed (arguments_text : String) : ModelCycleResult :=
  ⟨"m","","",none,[⟨0,"c","m","list",arguments_text,.Object [],none⟩],none,.ToolUse⟩
def question : Value := object [("role",.String "user"),("content",.String "list")]
def results : Value := object [("role",.String "tool"),("tool_call_id",.String "c"),("content",.String "a")]
def nextBody (answer : List Value) : Value :=
  object [("model",.String "x"),("messages",.Array ([question] ++ answer ++ [results]))]

/-- The call has no arguments and is answered as such; sent back, it is refused. -/
theorem empty_arguments_refused : (consume_model_cycle ((listing []).map nextEvent) none).1 = .ok (listed "") ∧
      complete .Chat (((listing []).map (·.1)).map .ok) "r" "x" = .ok ((answered ((listing []).map (·.1))).json .Chat "r" "x") ∧
      replyOf .Chat ((answered ((listing []).map (·.1))).json .Chat "r" "x") = some [(answered ((listing []).map (·.1))).chatMessage] ∧
      Surrounds .Chat (nextBody [(answered ((listing []).map (·.1))).chatMessage]) [question]
        [(answered ((listing []).map (·.1))).chatMessage] [results] (turn .Chat 1 (answered ((listing []).map (·.1)))) ∧
      parse .Chat (nextBody [(answered ((listing []).map (·.1))).chatMessage]) = .error (.Protocol "arguments is required") := by
  refine ⟨by decide +kernel,by decide +kernel,by decide +kernel,?_,by decide +kernel⟩
  refine ⟨⟨"x",by decide +kernel⟩,⟨[],by decide +kernel⟩,by decide +kernel,?_⟩
  refine ⟨("",[⟨"external:0",.User,.Parts [.Text "list"]⟩]),("",[⟨"external:0",.User,.Parts [.Text "list"]⟩,
    ⟨"external:1",.Assistant,.Assistant "" "" none [⟨0,"c","list",.Object []⟩]⟩,
    ⟨"external:2",.Tool,.ToolResult { call_id := "c", name := "list", content := "a", is_error := false, image := none }⟩]),?_,?_,?_⟩
  · decide +kernel
  · decide +kernel
  · exact nofun
theorem answers_sent_back_listing : ∃ json answer,
    complete .Chat (((listing ["{}"]).map (·.1)).map .ok) "r" "x" = .ok json ∧ replyOf .Chat json = some answer ∧ ∀ body before after,
        Surrounds .Chat body before answer after (turn .Chat before.length (answered ((listing ["{}"]).map (·.1)))) →
        (Returned .Chat body before ((listing ["{}"]).map (·.1)) (listed "{}") ↔ CanReturn .Chat ((listing ["{}"]).map (·.1))) := by
  refine answers_sent_back ⟨_,rfl⟩ (by decide +kernel) ?_ .Chat "r" "x"
  intro call member
  obtain rfl := List.mem_singleton.mp member
  exact .inr ⟨[],rfl⟩

end Example

end MyCursor.ByokTurns

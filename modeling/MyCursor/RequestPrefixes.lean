import MyCursor.Requests
import MyCursor.CheckpointRoundTrip
import Mathlib.Data.List.Chain

/-!
# Stable prefixes of requests

What is sent for a history is the beginning of what is sent for a longer one, up
to the cache markers. The messages for Anthropic alternate between the roles, and
every use of a tool is answered in the next message.
-/
namespace MyCursor.Requests
open Message Projection Compaction
open ProviderEvents (stringOf)
open CheckpointCodec (Serde object)
open CheckpointRoundTrip (project_tool_round_some project_tool_round_none printed printing reading)
set_option linter.unusedSectionVars false

def unmarked : Value → Value
  | .Object members => .Object (members.filter (·.1 ≠ "cache_control"))
  | value => value
def AnthropicMessage.unmarked (message : AnthropicMessage) : AnthropicMessage := ⟨message.role,message.content.map Requests.unmarked⟩
/-- The blocks of a request with their roles, without markers. -/
def blocksOf (output : List AnthropicMessage) : List (String × Value) :=
  output.flatMap fun message => message.content.map fun block => (message.role,Requests.unmarked block)

/-- Neighbours are of different roles, and no message is empty. -/
structure Alternates (output : List AnthropicMessage) : Prop where
  neighbours : (output.map (·.role)).IsChain (· ≠ ·)
  roles : ∀ message ∈ output, message.role = "user" ∨ message.role = "assistant"
  filled : ∀ message ∈ output, message.content ≠ []

def IsUse (block : Value) : Prop := stringOf block "type" = some "tool_use"
instance (block : Value) : Decidable (IsUse block) := inferInstanceAs (Decidable (stringOf block "type" = some "tool_use"))
/-- All uses of tools in a message are answered in the next one. -/
def Answers (message : AnthropicMessage) (next : Option AnthropicMessage) : Prop :=
  ∀ block ∈ message.content, IsUse block → ∃ other, next = some other ∧ other.role = "user" ∧
    ∃ answer ∈ other.content, stringOf answer "type" = some "tool_result" ∧ Json.get answer "tool_use_id" = Json.get block "id"
/-- `next` follows the messages. -/
def AnsweredBy (next : Option AnthropicMessage) : List AnthropicMessage → Prop
  | [] => True
  | message :: rest => Answers message (rest.head?.or next) ∧ AnsweredBy next rest
def Answered (output : List AnthropicMessage) : Prop := AnsweredBy none output

/-- The calls of an assistant belong to a tool round, and what is replayed is not a
    use of a tool. -/
structure Rounded (messages : List CanonicalMessage) : Prop where
  calls : ∀ m ∈ messages, ∀ text thinking replay_state calls,
    m.content = .Assistant text thinking none replay_state calls → calls = []
  replays : ∀ m ∈ messages, ∀ text thinking round replay_state calls,
    m.content = .Assistant text thinking round replay_state calls → ∀ block ∈ replayBlocks replay_state, ¬ IsUse block

theorem changeLast_map {α β : Type} {condition : α → Bool} {change : α → α} (view : α → β)
    (same : ∀ item, condition item = true → view (change item) = view item) (items : List α) :
    (changeLast condition change items).map view = items.map view := by
  have go : ∀ items : List α, (changeLast.go condition change items).map view = items.map view := by
    intro items
    induction items with
    | nil => rfl
    | cons item rest ih =>
      rw [changeLast.go]
      split_ifs with holds
      · rw [List.map_cons,List.map_cons,same item holds]
      · rw [List.map_cons,List.map_cons,ih]
  rw [changeLast,List.map_reverse,go,List.map_reverse,List.reverse_reverse]
theorem filter_insertOrdered {σ : Type} (key : String) (value : σ) (entries : List (String × σ)) :
    (Keyed.insertOrdered key value entries).filter (·.1 ≠ key) = entries.filter (·.1 ≠ key) := by
  induction entries with
  | nil => simp [Keyed.insertOrdered]
  | cons first rest ih =>
    rw [Keyed.insertOrdered]
    split_ifs with before here
    · rw [List.filter_cons_of_neg (by simp)]
    · subst here
      rw [List.filter_cons_of_neg (by simp),List.filter_cons_of_neg (by simp)]
    · have other : first.1 ≠ key := fun same => here same.symm
      rw [List.filter_cons_of_pos (by simpa using other),List.filter_cons_of_pos (by simpa using other),ih]
theorem get_unmarked {name : String} (other : name ≠ "cache_control") (value : Value) :
    Json.get (unmarked value) name = Json.get value name := by
  cases value with
  | Object members =>
    simp only [unmarked,Json.get]
    rw [List.find?_filter]
    congr 2
    funext member
    by_cases here : member.1 = name
    · simp [here,other]
    · simp [here]
  | _ => rfl

section Marking
variable [Serde]

theorem unmarked_marker (block : Value) : unmarked (insertMarker block) = unmarked block := by
  cases block with
  | Object members => simp only [insertMarker,unmarked,filter_insertOrdered]
  | _ => rfl
theorem mark_unmarked (output : List AnthropicMessage) :
    (mark_cache_breakpoint output).map AnthropicMessage.unmarked = output.map AnthropicMessage.unmarked := by
  refine changeLast_map AnthropicMessage.unmarked (fun message _ => ?_) output
  unfold AnthropicMessage.unmarked
  rw [changeLast_map unmarked fun block _ => unmarked_marker block]

end Marking

theorem blocksOf_unmarked (output : List AnthropicMessage) :
    blocksOf output = (output.map AnthropicMessage.unmarked).flatMap fun message =>
      message.content.map fun block => (message.role,block) := by
  simp [blocksOf,AnthropicMessage.unmarked,List.flatMap_map,Function.comp_def]
theorem Alternates.of_unmarked {output other : List AnthropicMessage}
    (same : output.map AnthropicMessage.unmarked = other.map AnthropicMessage.unmarked) (alternates : Alternates other) :
    Alternates output := by
  have roles : output.map (·.role) = other.map (·.role) := by
    have mapped := congrArg (List.map AnthropicMessage.role) same
    simpa [Function.comp_def,AnthropicMessage.unmarked] using mapped
  have twin : ∀ message ∈ output, ∃ one ∈ other, one.role = message.role ∧ (one.content = [] ↔ message.content = []) := by
    intro message member
    have mapped : message.unmarked ∈ other.map AnthropicMessage.unmarked := by
      rw [← same]
      exact List.mem_map_of_mem member
    obtain ⟨one,isOne,sameOne⟩ := List.mem_map.mp mapped
    simp only [AnthropicMessage.unmarked,AnthropicMessage.mk.injEq] at sameOne
    refine ⟨one,isOne,sameOne.1,?_⟩
    rw [← List.map_eq_nil_iff,sameOne.2,List.map_eq_nil_iff]
  refine ⟨roles ▸ alternates.neighbours,fun message member => ?_,fun message member => ?_⟩
  · obtain ⟨one,isOne,sameRole,_⟩ := twin message member
    exact sameRole ▸ alternates.roles one isOne
  · obtain ⟨one,isOne,_,empty⟩ := twin message member
    exact fun none_ => alternates.filled one isOne (empty.mpr none_)

theorem answers_unmarked (message : AnthropicMessage) (next : Option AnthropicMessage) :
    Answers message.unmarked (next.map .unmarked) ↔ Answers message next := by
  have types : ∀ block, stringOf (unmarked block) "type" = stringOf block "type" := by
    intro block
    rw [stringOf,stringOf,get_unmarked (by decide)]
  have ids : ∀ block, Json.get (unmarked block) "id" = Json.get block "id" := get_unmarked (by decide)
  have uses : ∀ block, Json.get (unmarked block) "tool_use_id" = Json.get block "tool_use_id" := get_unmarked (by decide)
  cases next <;> simp [Answers,AnthropicMessage.unmarked,IsUse,types,ids,uses]
theorem answered_unmarked (output : List AnthropicMessage) : Answered (output.map .unmarked) ↔ Answered output := by
  unfold Answered
  induction output with
  | nil => exact Iff.rfl
  | cons message rest ih =>
    rw [List.map_cons,AnsweredBy,AnsweredBy,ih]
    have head : ((rest.map AnthropicMessage.unmarked).head?.or none) = (rest.head?.or none).map .unmarked := by
      cases rest <;> rfl
    rw [head,answers_unmarked]

theorem push_last (output : List AnthropicMessage) (role : String) (content : List Value) :
    (push_anthropic output role content = output ++ [⟨role,content⟩] ∧ ∀ last, output.getLast? = some last → last.role ≠ role) ∨
      ∃ front last, output = front ++ [last] ∧ last.role = role ∧
        push_anthropic output role content = front ++ [⟨role,last.content ++ content⟩] := by
  unfold push_anthropic
  cases isLast : output.getLast? with
  | none =>
    rw [List.getLast?_eq_none_iff] at isLast
    subst isLast
    exact .inl ⟨rfl,fun last same => by cases same⟩
  | some last =>
    by_cases same : last.role = role
    · refine .inr ⟨output.dropLast,last,?_,same,by simp [same]⟩
      exact (List.dropLast_append_getLast? last isLast).symm
    · refine .inl ⟨by simp [same],?_⟩
      rintro other isOther
      rwa [← Option.some.inj isOther]

theorem blocks_push (output : List AnthropicMessage) (role : String) (content : List Value) :
    blocksOf (push_anthropic output role content) = blocksOf output ++ content.map fun block => (role,unmarked block) := by
  rcases push_last output role content with ⟨pushed,_⟩ | ⟨front,last,rfl,rfl,pushed⟩
  · rw [pushed]
    simp [blocksOf]
  · rw [pushed]
    simp [blocksOf]
theorem alternates_nothing : Alternates [] := ⟨.nil,fun _ member => (by cases member),fun _ member => by cases member⟩
theorem Alternates.push {output : List AnthropicMessage} (alternates : Alternates output) {role : String} {content : List Value}
    (isRole : role = "user" ∨ role = "assistant") (filled : content ≠ []) : Alternates (push_anthropic output role content) := by
  rcases push_last output role content with ⟨pushed,other⟩ | ⟨front,last,rfl,rfl,pushed⟩
  · rw [pushed]
    refine ⟨?_,?_,?_⟩
    · rw [List.map_append,List.isChain_append]
      refine ⟨alternates.neighbours,by simp,?_⟩
      intro before isBefore after isAfter
      obtain rfl : role = after := by simpa using isAfter
      rw [List.getLast?_map] at isBefore
      obtain ⟨last,isLast,rfl⟩ := Option.map_eq_some_iff.mp isBefore
      exact other last isLast
    · intro message member
      rcases List.mem_append.mp member with earlier | new
      · exact alternates.roles message earlier
      · rw [List.mem_singleton.mp new]
        exact isRole
    · intro message member
      rcases List.mem_append.mp member with earlier | new
      · exact alternates.filled message earlier
      · rw [List.mem_singleton.mp new]
        exact filled
  · rw [pushed]
    refine ⟨?_,?_,?_⟩
    · have neighbours := alternates.neighbours
      rw [List.map_append] at neighbours ⊢
      exact neighbours
    · intro message member
      rcases List.mem_append.mp member with earlier | new
      · exact alternates.roles message (List.mem_append_left _ earlier)
      · rw [List.mem_singleton.mp new]
        exact isRole
    · intro message member
      rcases List.mem_append.mp member with earlier | new
      · exact alternates.filled message (List.mem_append_left _ earlier)
      · rw [List.mem_singleton.mp new]
        exact fun none_ => filled (List.append_eq_nil_iff.mp none_).2

section Histories
variable [Serde] [SerdeText]

variable {history : List ProjectedMessage} {out : List AnthropicMessage}

variable {later : List ProjectedMessage}

theorem anthropicFrom_append : ∀ {output : List AnthropicMessage}, anthropicFrom output (history ++ later) = .ok out ↔
      ∃ middle, anthropicFrom output history = .ok middle ∧ anthropicFrom middle later = .ok out := by
  induction history with
  | nil => simp [anthropicFrom]
  | cons message rest ih =>
    intro output
    rw [List.cons_append,anthropicFrom,anthropicFrom]
    rcases anthropic_message message with error | ⟨role,_ | ⟨block,blocks⟩⟩
    · simp
    · exact ih
    · exact ih
theorem anthropicFrom_keeps {P : List AnthropicMessage → Prop} {messages : List ProjectedMessage}
    (pushes : ∀ output message role blocks, message ∈ messages → anthropic_message message = .ok (role,blocks) → blocks ≠ [] →
      P output → P (push_anthropic output role blocks)) :
    ∀ {output out : List AnthropicMessage}, P output → anthropicFrom output messages = .ok out → P out := by
  induction messages with
  | nil =>
    intro output out holds built
    rwa [← Except.ok.inj built]
  | cons message rest ih =>
    have later : ∀ {output out : List AnthropicMessage}, P output → anthropicFrom output rest = .ok out → P out :=
      ih fun output other role blocks member => pushes output other role blocks (List.mem_cons_of_mem _ member)
    intro output out holds built
    rw [anthropicFrom] at built
    rcases isMessage : anthropic_message message with error | ⟨role,_ | ⟨block,blocks⟩⟩
    · rw [isMessage] at built
      cases built
    · rw [isMessage] at built
      exact later holds built
    · rw [isMessage] at built
      exact later (pushes output message role _ (by simp) isMessage (by simp) holds) built

variable {output : List AnthropicMessage}

theorem anthropicFrom_blocks {messages : List ProjectedMessage}
    (built : anthropicFrom output messages = .ok out) : blocksOf output <+: blocksOf out := by
  refine anthropicFrom_keeps (P := fun out => blocksOf output <+: blocksOf out) ?_ List.prefix_rfl built
  intro before message role blocks _ _ _ isPrefix
  rw [blocks_push]
  exact isPrefix.trans (List.prefix_append _ _)

variable {message : ProjectedMessage} {role : String} {blocks : List Value}

theorem anthropic_message_role (isMessage : anthropic_message message = .ok (role,blocks)) : role = "user" ∨ role = "assistant" := by
  unfold anthropic_message at isMessage
  cases content : message.content with
  | Parts parts =>
    rw [content] at isMessage
    obtain ⟨_,_,same⟩ := map_ok.mp isMessage
    rw [← (Prod.mk.inj same).1]
    cases message.role <;> simp [anthropic_role_name]
  | ToolResult result =>
    rw [content] at isMessage
    obtain ⟨_,_,same⟩ := map_ok.mp isMessage
    exact .inl (Prod.mk.inj same).1.symm
  | Assistant text thinking replay_state calls =>
    rw [content] at isMessage
    exact .inr (Prod.mk.inj (Except.ok.inj isMessage)).1.symm

theorem blocksOf_mark (output : List AnthropicMessage) : blocksOf (mark_cache_breakpoint output) = blocksOf output := by
  rw [blocksOf_unmarked,mark_unmarked,← blocksOf_unmarked]
theorem anthropicBody_append {longer : List AnthropicMessage} (built : anthropicBody (history ++ later) = .ok longer) :
    ∃ shorter, anthropicBody history = .ok shorter ∧ blocksOf shorter <+: blocksOf longer := by
  obtain ⟨out,isOut,rfl⟩ := map_ok.mp built
  obtain ⟨first,isFirst,isRest⟩ := anthropicFrom_append.mp isOut
  have isPrefix := anthropicFrom_blocks isRest
  refine ⟨mark_cache_breakpoint first,map_ok.mpr ⟨first,isFirst,rfl⟩,?_⟩
  rwa [blocksOf_mark,blocksOf_mark]
theorem anthropicBody_alternates (built : anthropicBody history = .ok out) : Alternates out := by
  obtain ⟨out,isOut,rfl⟩ := map_ok.mp built
  refine .of_unmarked (mark_unmarked out) (anthropicFrom_keeps ?_ alternates_nothing isOut)
  intro output message role blocks _ isMessage filled alternates
  exact alternates.push (anthropic_message_role isMessage) filled

theorem openai_chat_messages_append (instructions : String) (history later : List ProjectedMessage) :
    openai_chat_messages instructions history <+: openai_chat_messages instructions (history ++ later) := by
  rw [openai_chat_messages,openai_chat_messages,List.filterMap_append,← List.append_assoc]
  exact List.prefix_append _ _
theorem responses_input_append : ∀ {longer : List Value},
    responses_input (history ++ later) = .ok longer → ∃ shorter, responses_input history = .ok shorter ∧ shorter <+: longer := by
  induction history with
  | nil => exact fun _ => ⟨[],rfl,List.nil_prefix⟩
  | cons message rest ih =>
    intro longer built
    rw [List.cons_append,responses_input] at built
    cases isItems : responses_items message with
    | error error =>
      rw [isItems] at built
      cases built
    | ok items =>
      rw [isItems] at built
      obtain ⟨more,isMore,rfl⟩ := map_ok.mp built
      obtain ⟨shorter,isShorter,isPrefix⟩ := ih isMore
      refine ⟨items ++ shorter,?_,(List.prefix_append_right_inj items).mpr isPrefix⟩
      rw [responses_input,isItems]
      exact map_ok.mpr ⟨shorter,isShorter,rfl⟩

theorem answeredBy_append (next : Option AnthropicMessage) (front : List AnthropicMessage) : ∀ later : List AnthropicMessage,
    AnsweredBy next (front ++ later) ↔ AnsweredBy (later.head?.or next) front ∧ AnsweredBy next later := by
  induction front with
  | nil => exact fun later => ⟨fun answered => ⟨trivial,answered⟩,fun both => both.2⟩
  | cons message rest ih =>
    intro later
    have head : ((rest ++ later).head?.or next) = rest.head?.or (later.head?.or next) := by
      cases rest <;> simp
    rw [List.cons_append,AnsweredBy,AnsweredBy,ih,head,and_assoc]
theorem AnsweredBy.mono {next other : Option AnthropicMessage} (more : ∀ message, Answers message next → Answers message other) :
    AnsweredBy next output → AnsweredBy other output := by
  induction output with
  | nil => exact id
  | cons message rest ih =>
    rintro ⟨first,later⟩
    refine ⟨?_,ih later⟩
    cases rest with
    | nil => exact more message first
    | cons _ _ => exact first
theorem Answers.any {message : AnthropicMessage} (answers : Answers message none) (next : Option AnthropicMessage) :
    Answers message next := by
  intro block member use
  obtain ⟨other,none_,_⟩ := answers block member use
  cases none_
theorem Answers.extended {message last : AnthropicMessage} (answers : Answers message (some last)) (content : List Value) :
    Answers message (some ⟨last.role,last.content ++ content⟩) := by
  intro block member use
  obtain ⟨other,isOther,isUser,answer,isAnswer,rest⟩ := answers block member use
  obtain rfl := Option.some.inj isOther
  exact ⟨_,rfl,isUser,answer,List.mem_append_left _ isAnswer,rest⟩

/-- What is pushed to an answered request stands in its last message; the rest is
    answered, and the only uses in that message are the pushed ones. -/
theorem push_answered (answered : Answered output) (role : String) (content : List Value) :
    ∃ front last, push_anthropic output role content = front ++ [last] ∧ last.role = role ∧ AnsweredBy (some last) front ∧
      ∀ block ∈ last.content, IsUse block → block ∈ content := by
  rcases push_last output role content with ⟨pushed,_⟩ | ⟨front,last,rfl,rfl,pushed⟩
  · exact ⟨output,⟨role,content⟩,pushed,rfl,AnsweredBy.mono (fun message answers => answers.any _) answered,
      fun block member _ => member⟩
  · obtain ⟨before,unused,_⟩ := (answeredBy_append none front [last]).mp answered
    refine ⟨front,_,pushed,rfl,AnsweredBy.mono (fun message answers => Answers.extended answers content) before,?_⟩
    intro block member use
    rcases List.mem_append.mp member with earlier | new
    · obtain ⟨_,none_,_⟩ := unused block earlier use
      cases none_
    · exact new
theorem Answered.push (answered : Answered output) (role : String) {content : List Value}
    (plain : ∀ block ∈ content, ¬ IsUse block) : Answered (push_anthropic output role content) := by
  obtain ⟨front,last,pushed,_,before,uses⟩ := push_answered answered role content
  rw [pushed]
  refine (answeredBy_append none front [last]).mpr ⟨before,fun block member use => ?_,trivial⟩
  exact absurd use (plain block (uses block member use))

theorem textBlock_plain (kind text : String) (other : kind ≠ "tool_use") : ¬ IsUse (textBlock kind text) := by
  simpa [IsUse,textBlock,stringOf,Json.as_str] using other
theorem toolResult_plain (call_id : String) (content : Value) : ¬ IsUse (toolResult call_id content) := by
  simp [IsUse,toolResult,stringOf,Json.as_str]
theorem anthropic_parts_plain {role : Role} {parts : List ContentPart} : ∀ {blocks : List Value},
    anthropic_parts role parts = .ok blocks → ∀ block ∈ blocks, ¬ IsUse block := by
  induction parts with
  | nil =>
    intro blocks isBlocks block member
    rw [← Except.ok.inj isBlocks] at member
    cases member
  | cons part rest ih =>
    intro blocks isBlocks
    cases part with
    | Text text =>
      rw [anthropic_parts] at isBlocks
      split_ifs at isBlocks
      · exact ih isBlocks
      · obtain ⟨more,isMore,rfl⟩ := map_ok.mp isBlocks
        intro block member
        rcases List.mem_cons.mp member with rfl | later
        · exact textBlock_plain "text" text (by decide)
        · exact ih isMore block later
    | Image mime_type data =>
      rw [anthropic_parts] at isBlocks
      split_ifs at isBlocks
      obtain ⟨more,isMore,rfl⟩ := map_ok.mp isBlocks
      intro block member
      rcases List.mem_cons.mp member with rfl | later
      · simp [IsUse,stringOf,Json.as_str]
      · exact ih isMore block later
theorem anthropic_message_uses (isMessage : anthropic_message message = .ok (role,blocks))
    (replays : ∀ text thinking replay_state calls, message.content = .Assistant text thinking replay_state calls →
      ∀ block ∈ replayBlocks replay_state, ¬ IsUse block) {block : Value} (member : block ∈ blocks) (use : IsUse block) :
    ∃ text thinking replay_state calls, message.content = .Assistant text thinking replay_state calls ∧
      ∃ call ∈ calls, block = toolUse call := by
  unfold anthropic_message at isMessage
  cases content : message.content with
  | Parts parts =>
    rw [content] at isMessage
    obtain ⟨_,isBlocks,same⟩ := map_ok.mp isMessage
    obtain ⟨_,rfl⟩ := Prod.mk.inj same
    exact absurd use (anthropic_parts_plain isBlocks block member)
  | ToolResult result =>
    rw [content] at isMessage
    obtain ⟨value,_,same⟩ := map_ok.mp isMessage
    obtain ⟨_,rfl⟩ := Prod.mk.inj same
    rw [List.mem_singleton.mp member] at use
    exact absurd use (toolResult_plain result.call_id value)
  | Assistant text thinking replay_state calls =>
    rw [content] at isMessage
    obtain ⟨_,rfl⟩ := Prod.mk.inj (Except.ok.inj isMessage)
    refine ⟨text,thinking,replay_state,calls,rfl,?_⟩
    rcases List.mem_append.mp member with earlier | called
    · rcases List.mem_append.mp earlier with replayed | said
      · exact absurd use (replays text thinking replay_state calls content block replayed)
      · split_ifs at said
        · cases said
        · rw [List.mem_singleton.mp said] at use
          exact absurd use (textBlock_plain "text" text (by decide))
    · obtain ⟨call,isCall,rfl⟩ := List.mem_map.mp called
      exact ⟨call,isCall,rfl⟩

def IsResult (message : ProjectedMessage) : Prop := ∃ result, message.content = .ToolResult result
def AnswerIn (blocks : List Value) (call_id : String) : Prop :=
  ∃ answer ∈ blocks, stringOf answer "type" = some "tool_result" ∧ Json.get answer "tool_use_id" = some (.String call_id)

theorem result_built {result : ProjectedToolResult} {rest : List ProjectedMessage}
    (content : message.content = .ToolResult result) (built : anthropicFrom output (message :: rest) = .ok out) :
    ∃ value, anthropicFrom (push_anthropic output "user" [toolResult result.call_id value]) rest = .ok out := by
  rw [anthropicFrom,anthropic_message,content] at built
  dsimp only at built
  generalize (if result.provider_parts.isEmpty then .ok (.String result.content)
    else (anthropic_parts .User result.provider_parts).map .Array : Except Error Value) = value at built
  cases value with
  | error error => cases built
  | ok value => exact ⟨value,built⟩
theorem answerIn_result (call_id : String) (value : Value) : AnswerIn [toolResult call_id value] call_id :=
  ⟨_,List.mem_singleton_self _,by simp [toolResult,stringOf,Json.as_str],by simp [toolResult]⟩
theorem AnswerIn.mono {more : List Value} {call_id : String} (subset : blocks ⊆ more) (answer : AnswerIn blocks call_id) :
    AnswerIn more call_id := by
  obtain ⟨block,member,same⟩ := answer
  exact ⟨block,subset member,same⟩
theorem push_other {last : AnthropicMessage} (other : last.role ≠ role)
    (content : List Value) : push_anthropic (output ++ [last]) role content = output ++ [last] ++ [⟨role,content⟩] := by
  simp [push_anthropic,other]
theorem push_same (output : List AnthropicMessage) (role : String) (old content : List Value) :
    push_anthropic (output ++ [⟨role,old⟩]) role content = output ++ [⟨role,old ++ content⟩] := by
  simp [push_anthropic]

theorem results_pushed {front : List AnthropicMessage} {results : List ProjectedMessage} : ∀ {old : List Value}
    {out : List AnthropicMessage}, (∀ message ∈ results, IsResult message) →
    anthropicFrom (front ++ [⟨"user",old⟩]) results = .ok out →
    ∃ blocks, out = front ++ [⟨"user",old ++ blocks⟩] ∧ (∀ block ∈ blocks, ¬ IsUse block) ∧
      ∀ message ∈ results, ∀ result, message.content = .ToolResult result → AnswerIn blocks result.call_id := by
  induction results with
  | nil =>
    intro old out _ built
    obtain rfl := Except.ok.inj built
    exact ⟨[],by simp,fun block member => (by cases member),fun message member => by cases member⟩
  | cons message rest ih =>
    intro old out results built
    obtain ⟨result,content⟩ := results message (by simp)
    obtain ⟨value,built⟩ := result_built content built
    rw [push_same] at built
    obtain ⟨more,isOut,plain,answers⟩ := ih (fun other member => results other (List.mem_cons_of_mem _ member)) built
    refine ⟨[toolResult result.call_id value] ++ more,by simpa using isOut,?_,?_⟩
    · intro block member
      rcases List.mem_append.mp member with here | later
      · rw [List.mem_singleton.mp here]
        exact toolResult_plain result.call_id value
      · exact plain block later
    · intro other member one isOne
      rcases List.mem_cons.mp member with rfl | later
      · obtain rfl : result = one := ProjectedContent.ToolResult.inj (content.symm.trans isOne)
        exact (answerIn_result result.call_id value).mono (List.subset_append_left _ _)
      · exact (answers other later one isOne).mono (List.subset_append_right _ _)

theorem round_answered {message_id text thinking : String}
    {replay_state : Option ProviderReplayState} {calls : List ToolCallContent} {results : List ProjectedMessage}
    (answered : Answered output) (replays : ∀ block ∈ replayBlocks replay_state, ¬ IsUse block)
    (areResults : ∀ message ∈ results, IsResult message)
    (complete : ∀ call ∈ calls, ∃ message ∈ results, ∃ result, message.content = .ToolResult result ∧ result.call_id = call.call_id)
    (built : anthropicFrom output (⟨message_id,.Assistant,.Assistant text thinking replay_state calls⟩ :: results) = .ok out) :
    Answered out := by
  have own : ∀ {role blocks}, anthropic_message ⟨message_id,.Assistant,.Assistant text thinking replay_state calls⟩ =
      .ok (role,blocks) → ∀ block ∈ blocks, IsUse block → ∃ call ∈ calls, block = toolUse call := by
    intro role blocks isMessage block member use
    obtain ⟨_,_,_,_,content,call,isCall,rfl⟩ := anthropic_message_uses isMessage
      (fun _ _ _ _ content => by rw [← (ProjectedContent.Assistant.inj content).2.2.1]; exact replays) member use
    exact ⟨call,(ProjectedContent.Assistant.inj content).2.2.2 ▸ isCall,rfl⟩
  cases results with
  | nil =>
    refine anthropicFrom_keeps (fun output message role blocks member isMessage _ answered => answered.push role ?_) answered built
    rw [List.mem_singleton.mp member] at isMessage
    intro block isBlock use
    obtain ⟨call,isCall,_⟩ := own isMessage block isBlock use
    obtain ⟨_,none_,_⟩ := complete call isCall
    cases none_
  | cons first rest =>
    obtain ⟨blocks,isMessage⟩ : ∃ blocks, anthropic_message ⟨message_id,.Assistant,.Assistant text thinking replay_state calls⟩ =
        .ok ("assistant",blocks) := ⟨_,rfl⟩
    rw [anthropicFrom,isMessage] at built
    cases blocks with
    | nil =>
      refine anthropicFrom_keeps (fun output message role blocks member isMessage _ answered => answered.push role ?_) answered
        built
      obtain ⟨result,content⟩ := areResults message member
      intro block isBlock use
      obtain ⟨_,_,_,_,other,_⟩ := anthropic_message_uses isMessage
        (fun _ _ _ _ other => by rw [content] at other; cases other) isBlock use
      rw [content] at other
      cases other
    | cons block blocks =>
      dsimp only at built
      obtain ⟨front,last,pushed,isAssistant,before,uses⟩ := push_answered answered "assistant" (block :: blocks)
      obtain ⟨result,content⟩ := areResults first (by simp)
      obtain ⟨value,built⟩ := result_built content built
      have other : last.role ≠ "user" := by
        rw [isAssistant]
        decide
      rw [pushed,push_other other] at built
      obtain ⟨more,rfl,plain,answers⟩ :=
        results_pushed (fun message member => areResults message (List.mem_cons_of_mem _ member)) built
      have answer : ∀ call ∈ calls, AnswerIn ([toolResult result.call_id value] ++ more) call.call_id := by
        intro call isCall
        obtain ⟨message,member,one,isOne,sameId⟩ := complete call isCall
        rw [← sameId]
        rcases List.mem_cons.mp member with rfl | later
        · obtain rfl : result = one := ProjectedContent.ToolResult.inj (content.symm.trans isOne)
          exact (answerIn_result result.call_id value).mono (List.subset_append_left _ _)
        · exact (answers message later one isOne).mono (List.subset_append_right _ _)
      rw [Answered,answeredBy_append,answeredBy_append]
      refine ⟨⟨before,?_,trivial⟩,?_,trivial⟩
      · intro use member used
        obtain ⟨call,isCall,rfl⟩ := own isMessage use (uses use member used) used
        obtain ⟨found,isFound,kind,sameId⟩ := answer call isCall
        exact ⟨_,rfl,rfl,found,isFound,kind,by rw [sameId]; simp [toolUse]⟩
      · intro use member used
        rcases List.mem_append.mp member with here | later
        · rw [List.mem_singleton.mp here] at used
          exact absurd used (toolResult_plain result.call_id value)
        · exact absurd used (plain use later)

variable {messages : List CanonicalMessage}

theorem single_answered (rounded : Rounded messages) {m : CanonicalMessage} (member : m ∈ messages)
    (single : roundStart m = none) (answered : Answered output)
    (built : anthropicFrom output [project_message m] = .ok out) : Answered out := by
  refine anthropicFrom_keeps (fun output message role blocks isOne isMessage _ answered => answered.push role ?_) answered built
  rw [List.mem_singleton.mp isOne] at isMessage
  intro block isBlock use
  have replays : ∀ text thinking replay_state calls, (project_message m).content = .Assistant text thinking replay_state calls →
      ∀ block ∈ replayBlocks replay_state, ¬ IsUse block := by
    intro text thinking replay_state calls content
    unfold project_message at content
    cases isContent : m.content with
    | Assistant text' thinking' round replay_state' tool_calls =>
      simp only [isContent,ProjectedContent.Assistant.injEq] at content
      rw [← content.2.2.1]
      exact rounded.replays m member _ _ _ _ _ isContent
    | _ => simp [isContent] at content
  obtain ⟨text,thinking,replay_state,calls,content,call,isCall,_⟩ := anthropic_message_uses isMessage replays isBlock use
  unfold project_message at content
  cases isContent : m.content with
  | Assistant text' thinking' round replay_state' tool_calls =>
    simp only [isContent,ProjectedContent.Assistant.injEq] at content
    rw [← content.2.2.2] at isCall
    have none_ : tool_calls = [] := by
      cases round with
      | none => exact rounded.calls m member _ _ _ _ isContent
      | some id =>
        rw [roundStart,isContent] at single
        simpa using single
    rw [none_] at isCall
    cases isCall
  | _ => simp [isContent] at content

theorem collect_replays (rounded : Rounded messages) {group_id : ToolRoundId} :
    ∀ {rest left : List CanonicalMessage} {group after : Group}, rest ⊆ messages →
    (∀ block ∈ replayBlocks group.replay_state, ¬ IsUse block) → collect group_id group rest = .ok (after,left) →
    ∀ block ∈ replayBlocks after.replay_state, ¬ IsUse block := by
  intro rest
  have stops : ∀ {group after : Group} {here left : List CanonicalMessage},
      (∀ block ∈ replayBlocks group.replay_state, ¬ IsUse block) →
      (.ok (group,here) : Except Error (Group × List CanonicalMessage)) = .ok (after,left) →
      ∀ block ∈ replayBlocks after.replay_state, ¬ IsUse block := by
    intro group after here left plain same
    rwa [← (Prod.mk.inj (Except.ok.inj same)).1]
  induction rest with
  | nil =>
    intro left group after _ plain collected
    exact stops plain collected
  | cons m rest ih =>
    intro left group after within plain collected
    have later : rest ⊆ messages := fun other member => within (List.mem_cons_of_mem _ member)
    unfold collect at collected
    split at collected
    · rename_i text thinking candidate replay_state tool_calls content
      split_ifs at collected
      · exact stops plain collected
      · refine ih later ?_ collected
        have own := rounded.replays m (within (by simp)) _ _ _ _ _ content
        unfold Group.addAssistant
        dsimp only
        cases isReplay : group.replay_state with
        | none => exact own
        | some state =>
          rw [isReplay] at plain
          exact plain
    · split_ifs at collected
      · exact stops plain collected
      · refine ih later ?_ collected
        exact plain
    · exact stops plain collected
    · exact stops plain collected
theorem closeGroup_complete {message_id : String} {group : Group} {projected : List ProjectedMessage}
    (closed : closeGroup message_id group = .ok projected) :
    ∃ results, projected = ⟨message_id,.Assistant,.Assistant group.text group.thinking group.replay_state (sortCalls group.calls)⟩ ::
        results ∧ (∀ message ∈ results, IsResult message) ∧
      ∀ call ∈ sortCalls group.calls, ∃ message ∈ results, ∃ result, message.content = .ToolResult result ∧
        result.call_id = call.call_id := by
  unfold closeGroup at closed
  dsimp only at closed
  cases missing : (sortCalls group.calls).find? (fun call => !group.hasResult call.call_id) with
  | some call =>
    rw [missing] at closed
    cases closed
  | none =>
    rw [missing] at closed
    refine ⟨_,(Except.ok.inj closed).symm,?_,?_⟩
    · intro message member
      obtain ⟨⟨id,result⟩,_,rfl⟩ := List.mem_map.mp member
      exact ⟨_,rfl⟩
    · intro call isCall
      have has := List.find?_eq_none.mp missing call isCall
      simp only [Bool.not_eq_true,Bool.not_eq_false',Group.hasResult,List.any_eq_true,decide_eq_true_eq] at has
      obtain ⟨⟨id,result⟩,member,sameId⟩ := has
      exact ⟨_,List.mem_map_of_mem member,_,rfl,sameId⟩

theorem projected_answered (rounded : Rounded messages) :
    ∀ {rest : List CanonicalMessage} {projected : List ProjectedMessage} {output out : List AnthropicMessage}, rest ⊆ messages →
    project_messages rest = .ok projected → Answered output → anthropicFrom output projected = .ok out → Answered out := by
  intro rest
  induction h : rest.length using Nat.strongRecOn generalizing rest with
  | ind n ih =>
    intro projected output out within done answered built
    subst h
    cases rest with
    | nil =>
      obtain rfl : [] = projected := Except.ok.inj done
      rwa [← Except.ok.inj built]
    | cons m rest =>
      rw [project_messages_cons] at done
      cases found : project_tool_round m rest with
      | error error => simp [found,bind,Except.bind] at done
      | ok round =>
        simp only [found,bind,Except.bind] at done
        cases round with
        | none =>
          obtain ⟨later,isLater,rfl⟩ : ∃ later, project_messages rest = .ok later ∧ project_message m :: later = projected := by
            cases isLater : project_messages rest with
            | error error => simp [isLater] at done
            | ok later => exact ⟨later,rfl,by simpa [isLater] using done⟩
          rw [← List.singleton_append] at built
          obtain ⟨middle,isMiddle,isRest⟩ := anthropicFrom_append.mp built
          have first := single_answered rounded (within (by simp)) (project_tool_round_none found) answered isMiddle
          exact ih rest.length (by simp) rfl (fun other member => within (List.mem_cons_of_mem _ member)) isLater first isRest
        | some pair =>
          obtain ⟨round,left⟩ := pair
          obtain ⟨group_id,group,_,collected,closed⟩ := project_tool_round_some found
          have suffix := project_tool_round_left found
          obtain ⟨later,isLater,rfl⟩ : ∃ later, project_messages left = .ok later ∧ round ++ later = projected := by
            cases isLater : project_messages left with
            | error error => simp [isLater] at done
            | ok later => exact ⟨later,rfl,by simpa [isLater] using done⟩
          obtain ⟨middle,isMiddle,isRest⟩ := anthropicFrom_append.mp built
          obtain ⟨results,rfl,areResults,complete⟩ := closeGroup_complete closed
          have plain := collect_replays rounded within (fun block member => by cases member) collected
          have first := round_answered answered plain areResults complete isMiddle
          refine ih left.length ?_ rfl (fun other member => within (List.mem_cons_of_mem _ (suffix.subset member))) isLater first isRest
          rw [List.length_cons]
          have := suffix.length_le
          omega

/-- What is sent for a history is the beginning of what is sent for a longer one;
    the messages for Anthropic alternate, and the uses of tools are answered. -/
theorem requests_stable : (∀ history later longer, anthropicBody (history ++ later) = .ok longer →
      ∃ shorter, anthropicBody history = .ok shorter ∧ blocksOf shorter <+: blocksOf longer) ∧
    (∀ instructions history later,
      openai_chat_messages instructions history <+: openai_chat_messages instructions (history ++ later)) ∧
    (∀ history later longer, responses_input (history ++ later) = .ok longer →
      ∃ shorter, responses_input history = .ok shorter ∧ shorter <+: longer) ∧
    (∀ history out, anthropicBody history = .ok out → Alternates out) ∧
    ∀ messages history out, Rounded messages → project_messages messages = .ok history → anthropicBody history = .ok out →
      Answered out := by
  refine ⟨fun _ _ _ => anthropicBody_append,openai_chat_messages_append,fun _ _ _ => responses_input_append,
    fun _ _ => anthropicBody_alternates,?_⟩
  intro messages history out rounded projected built
  obtain ⟨unmarked,isUnmarked,rfl⟩ := map_ok.mp built
  rw [← answered_unmarked,mark_unmarked,answered_unmarked]
  exact projected_answered rounded (List.Subset.refl messages) projected (show Answered [] from trivial) isUnmarked

end Histories

def loose : List CanonicalMessage :=
  [⟨"a",.Assistant,.Assistant,.Assistant "" "" none none [⟨0,"c","Read",.Object []⟩],none⟩]
def replayed : List CanonicalMessage :=
  [⟨"a",.Assistant,.Assistant,.Assistant "" "" none (some ⟨"anthropic",.Object [("blocks",.Array
    [.Object [("id",.String "c"),("type",.String "tool_use")]])]⟩) [],none⟩]

section Example
local instance : Serde := printing
local instance : SerdeText := ⟨fun value => String.ofList (printed value),fun _ => "",fun _ => ""⟩

/-- The last message uses a tool, and nothing answers. -/
theorem unanswered_use : (∃ history out, project_messages loose = .ok history ∧ anthropicBody history = .ok out ∧ ¬ Answered out) ∧
      ∃ history out, project_messages replayed = .ok history ∧ anthropicBody history = .ok out ∧ ¬ Answered out := by
  refine ⟨⟨_,_,rfl,rfl,?_⟩,_,_,rfl,rfl,?_⟩
  · rintro ⟨answers,_⟩
    obtain ⟨_,none_,_⟩ := answers _ (List.mem_singleton_self _) (by decide +kernel)
    cases none_
  · rintro ⟨answers,_⟩
    obtain ⟨_,none_,_⟩ := answers _ (List.mem_singleton_self _) (by decide +kernel)
    cases none_

/-- A round, and the request for it. -/
theorem requests_stable_reading : Rounded reading ∧
    ∃ history out, project_messages reading = .ok history ∧ anthropicBody history = .ok out ∧ Answered out := by
  have rounded : Rounded reading := by
    refine ⟨?_,?_⟩
    · intro m member text thinking replay_state calls content
      simp only [reading,List.mem_cons,List.not_mem_nil,or_false] at member
      rcases member with rfl | rfl | rfl <;> cases content
    · intro m member text thinking round replay_state calls content block isBlock
      simp only [reading,List.mem_cons,List.not_mem_nil,or_false] at member
      rcases member with rfl | rfl | rfl
      · cases content
      · cases content
        cases isBlock
      · cases content
  obtain ⟨history,projected⟩ : ∃ history, project_messages reading = .ok history := ⟨_,rfl⟩
  obtain ⟨out,built⟩ : ∃ out, anthropicBody history = .ok out := by
    obtain rfl := Except.ok.inj (projected.symm.trans rfl)
    exact ⟨_,rfl⟩
  exact ⟨rounded,history,out,projected,built,requests_stable.2.2.2.2 reading history out rounded projected built⟩

end Example

end MyCursor.Requests

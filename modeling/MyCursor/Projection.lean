import MyCursor.Error
import MyCursor.Message
import MyCursor.Text
import Mathlib.Data.List.Sort
import Mathlib.Data.String.Basic

/-!
# What the provider sees of a history

`model/projection.rs`: the messages of one tool round are stored call by call
and are projected as one assistant message with all its calls and then their
results in the order of their completion.
-/
namespace MyCursor.Projection
open Message Text

/-- A tool result with what `hydrate_tool_images` adds for the provider. -/
structure ProjectedToolResult extends ToolResultContent where
  provider_parts : List ContentPart := []
deriving DecidableEq

inductive ProjectedContent where
  | Parts (parts : List ContentPart)
  | Assistant (text thinking : String) (replay_state : Option ProviderReplayState) (calls : List ToolCallContent)
  | ToolResult (result : ProjectedToolResult)
deriving DecidableEq

structure ProjectedMessage where
  message_id : String
  role : Role
  content : ProjectedContent
deriving DecidableEq

/-- `model/tool.rs`. -/
def normalize_tool_name (name : String) : String :=
  let normalized := name.toList.map fun c => if is_ascii_alphanumeric c || c = '_' || c = '-' then c else '_'
  if normalized.isEmpty then "_" else String.ofList normalized

def normalized_tool_call (call : ToolCallContent) : ToolCallContent := { call with name := normalize_tool_name call.name }
def normalized_tool_result (result : ToolResultContent) : ProjectedToolResult :=
  { result with name := normalize_tool_name result.name }

def project_message (message : CanonicalMessage) : ProjectedMessage :=
  { message_id := message.message_id, role := message.role,
    content := match message.content with
      | .Parts parts => .Parts parts
      | .Assistant text thinking _ replay_state tool_calls =>
        .Assistant text thinking replay_state (tool_calls.map normalized_tool_call)
      | .ToolResult result => .ToolResult (normalized_tool_result result) }

structure Group where
  text : String := ""
  thinking : String := ""
  replay_state : Option ProviderReplayState := none
  calls : List ToolCallContent := []
  results : List (String × ToolResultContent) := []
deriving DecidableEq

def Group.addAssistant (group : Group) (text thinking : String) (replay_state : Option ProviderReplayState)
    (tool_calls : List ToolCallContent) : Group :=
  { group with
    text := group.text ++ text, thinking := group.thinking ++ thinking,
    replay_state := group.replay_state.or replay_state, calls := group.calls ++ tool_calls.map normalized_tool_call }
def Group.addResult (group : Group) (message_id : String) (result : ToolResultContent) : Group :=
  { group with results := group.results ++ [(message_id,result)] }

def Group.hasCall (group : Group) (call_id : String) : Bool := group.calls.any (·.call_id = call_id)
def Group.hasResult (group : Group) (call_id : String) : Bool := group.results.any (·.2.call_id = call_id)

/-- The two nested loops of `project_tool_round`, one message at a time: the
    round goes on with an assistant message of the same id or with the result
    of one of its calls. What is left begins with the first other message. -/
def collect (group_id : ToolRoundId) (group : Group) : List CanonicalMessage → Except Error (Group × List CanonicalMessage)
  | [] => .ok (group,[])
  | m :: rest =>
    match m.content with
    | .Assistant text thinking (some candidate) replay_state tool_calls =>
      if candidate ≠ group_id ∨ tool_calls.isEmpty then .ok (group,m :: rest)
      else if group.replay_state.isSome && replay_state.isSome then
        .error (.Protocol "tool round repeats provider replay state")
      else collect group_id (group.addAssistant text thinking replay_state tool_calls) rest
    | .ToolResult result =>
      if !group.hasCall result.call_id then .ok (group,m :: rest)
      else if group.hasResult result.call_id then
        .error (.Protocol s!"duplicate tool result call_id: {result.call_id}")
      else collect group_id (group.addResult m.message_id result) rest
    | .Assistant _ _ none _ _ | .Parts _ => .ok (group,m :: rest)

def sortCalls (calls : List ToolCallContent) : List ToolCallContent := calls.insertionSort fun a b => a.index ≤ b.index

def closeGroup (message_id : String) (group : Group) : Except Error (List ProjectedMessage) :=
  let calls := sortCalls group.calls
  match calls.find? (fun call => !group.hasResult call.call_id) with
  | some call => .error (.Protocol s!"assistant tool call has no result call_id: {call.call_id}")
  | none =>
    .ok (⟨message_id,.Assistant,.Assistant group.text group.thinking group.replay_state calls⟩ ::
      group.results.map fun (message_id,result) => ⟨message_id,.Tool,.ToolResult (normalized_tool_result result)⟩)

def roundStart (m : CanonicalMessage) : Option ToolRoundId :=
  match m.content with
  | .Assistant _ _ (some group_id) _ tool_calls => if tool_calls.isEmpty then none else some group_id
  | _ => none

/-- The round at the head of the messages and what is left after it. -/
def project_tool_round (m : CanonicalMessage) (rest : List CanonicalMessage) :
    Except Error (Option (List ProjectedMessage × List CanonicalMessage)) :=
  match roundStart m with
  | none => .ok none
  | some group_id => do
    let (group,left) ← collect group_id {} (m :: rest)
    let projected ← closeGroup m.message_id group
    .ok (some (projected,left))

/-- The loop of `project_messages`; each turn takes at least one message. -/
def projectLoop : Nat → List CanonicalMessage → Except Error (List ProjectedMessage)
  | _, [] => .ok []
  | 0, _ :: _ => .ok []
  | fuel + 1, m :: rest => do
    match ← project_tool_round m rest with
    | some (projected,left) =>
      let later ← projectLoop fuel left
      .ok (projected ++ later)
    | none =>
      let later ← projectLoop fuel rest
      .ok (project_message m :: later)
def project_messages (messages : List CanonicalMessage) : Except Error (List ProjectedMessage) :=
  projectLoop messages.length messages

/-- The message does not go on with a tool round of the history before it. -/
def Unabsorbed (history : List CanonicalMessage) (m : CanonicalMessage) : Prop :=
  (∀ result, m.content ≠ .ToolResult result) ∧
    ∀ group_id, roundStart m = some group_id → ∀ earlier ∈ history, roundStart earlier ≠ some group_id

theorem collect_suffix {group_id : ToolRoundId} {group after : Group} {messages left : List CanonicalMessage}
    (collected : collect group_id group messages = .ok (after,left)) : left <:+ messages := by
  have whole : ∀ {l : List CanonicalMessage} {group : Group},
      (.ok (group,l) : Except Error (Group × List CanonicalMessage)) = .ok (after,left) → left <:+ l := by
    intro l group same
    simp only [Except.ok.injEq,Prod.mk.injEq] at same
    rw [same.2]
  induction messages generalizing group with
  | nil => exact whole collected
  | cons m rest ih =>
    unfold collect at collected
    split at collected
    · split_ifs at collected
      · exact whole collected
      · exact (ih collected).trans (List.suffix_cons m rest)
    · split_ifs at collected
      · exact whole collected
      · exact (ih collected).trans (List.suffix_cons m rest)
    · exact whole collected
    · exact whole collected

variable {m : CanonicalMessage}

theorem collect_stops {group_id : ToolRoundId} (group : Group) (rest : List CanonicalMessage)
    (noResult : ∀ result, m.content ≠ .ToolResult result) (other : roundStart m ≠ some group_id) :
    collect group_id group (m :: rest) = .ok (group,m :: rest) := by
  unfold collect
  split
  · rename_i text thinking candidate replay_state tool_calls content
    rw [if_pos]
    by_cases empty : tool_calls.isEmpty
    · exact .inr empty
    · left
      rintro rfl
      exact other (by simp [roundStart,content,empty])
  · rename_i result content
    exact absurd content (noResult result)
  all_goals rfl

/-- A round that ends before the end of the messages, or is followed by a
    message that is not a part of it, ends there whatever comes later. -/
theorem collect_append {group_id : ToolRoundId} {group after : Group} {messages left later : List CanonicalMessage}
    (collected : collect group_id group messages = .ok (after,left))
    (ends : left = [] → ∀ m, later.head? = some m → (∀ result, m.content ≠ .ToolResult result) ∧ roundStart m ≠ some group_id) :
    collect group_id group (messages ++ later) = .ok (after,left ++ later) := by
  induction messages generalizing group with
  | nil =>
    simp only [collect,Except.ok.injEq,Prod.mk.injEq] at collected
    obtain ⟨rfl,rfl⟩ := collected
    cases later with
    | nil => rfl
    | cons m rest =>
      obtain ⟨noResult,other⟩ := ends rfl m rfl
      exact collect_stops group rest noResult other
  | cons m rest ih =>
    have same : ∀ {group : Group}, (.ok (group,m :: rest) : Except Error (Group × List CanonicalMessage)) = .ok (after,left) →
        (.ok (group,m :: (rest ++ later)) : Except Error (Group × List CanonicalMessage)) = .ok (after,left ++ later) := by
      intro group same
      simp only [Except.ok.injEq,Prod.mk.injEq] at same ⊢
      exact ⟨same.1,by rw [← same.2]; rfl⟩
    rw [List.cons_append]
    cases content : m.content with
    | Parts parts =>
      simp only [collect,content] at collected ⊢
      exact same collected
    | ToolResult result =>
      simp only [collect,content] at collected ⊢
      split_ifs at collected ⊢
      · exact same collected
      · exact ih collected
    | Assistant text thinking tool_round_id replay_state tool_calls =>
      cases tool_round_id with
      | none =>
        simp only [collect,content] at collected ⊢
        exact same collected
      | some candidate =>
        simp only [collect,content] at collected ⊢
        split_ifs at collected ⊢
        · exact same collected
        · exact ih collected

theorem project_tool_round_left {rest left : List CanonicalMessage}
    {projected : List ProjectedMessage} (found : project_tool_round m rest = .ok (some (projected,left))) :
    left <:+ rest := by
  unfold project_tool_round at found
  cases start : roundStart m with
  | none => simp [start] at found
  | some group_id =>
    simp only [start] at found
    cases collected : collect group_id {} (m :: rest) with
    | error e => simp [collected,bind,Except.bind] at found
    | ok pair =>
      obtain ⟨group,left'⟩ := pair
      simp only [collected,bind,Except.bind] at found
      cases closed : closeGroup m.message_id group with
      | error e => simp [closed] at found
      | ok messages =>
        simp only [closed,Except.ok.injEq,Option.some.injEq,Prod.mk.injEq] at found
        obtain ⟨_,rfl⟩ := found
        -- The first message is a part of the round, so what is left is the end of the others.
        unfold collect at collected
        unfold roundStart at start
        split at start
        · rename_i text thinking group_id' replay_state tool_calls content
          split_ifs at start with empty
          obtain rfl : group_id' = group_id := by simpa using start
          simp only [content,ne_eq,not_true_eq_false,empty,Bool.false_eq_true,or_self,if_false] at collected
          split_ifs at collected
          exact collect_suffix collected
        · cases start

theorem projectLoop_fuel {messages : List CanonicalMessage} : ∀ {fuel : Nat}, messages.length ≤ fuel →
    projectLoop fuel messages = project_messages messages := by
  unfold project_messages
  induction h : messages.length using Nat.strongRecOn generalizing messages with
  | ind n ih =>
    intro fuel enough
    subst h
    cases messages with
    | nil => cases fuel <;> rfl
    | cons m rest =>
      obtain ⟨fuel,rfl⟩ : ∃ k, fuel = k + 1 := ⟨fuel - 1,by simp at enough; omega⟩
      simp only [List.length_cons] at enough
      rw [List.length_cons,projectLoop,projectLoop]
      cases found : project_tool_round m rest with
      | error e => rfl
      | ok round =>
        simp only [bind,Except.bind]
        cases round with
        | none =>
          simp only
          rw [ih rest.length (by simp) rfl (show rest.length ≤ fuel by omega)]
        | some pair =>
          obtain ⟨projected,left⟩ := pair
          have shorter := (project_tool_round_left found).length_le
          simp only
          rw [ih left.length (by simp; omega) rfl (show left.length ≤ fuel by omega),ih left.length (by simp; omega) rfl shorter]

theorem project_messages_cons (m : CanonicalMessage) (rest : List CanonicalMessage) : project_messages (m :: rest) = (do
      match ← project_tool_round m rest with
      | some (projected,left) =>
        let later ← project_messages left
        .ok (projected ++ later)
      | none =>
        let later ← project_messages rest
        .ok (project_message m :: later)) := by
  rw [project_messages,List.length_cons,projectLoop]
  cases found : project_tool_round m rest with
  | error e => rfl
  | ok round =>
    cases round with
    | none => rfl
    | some pair =>
      obtain ⟨projected,left⟩ := pair
      simp only [bind,Except.bind]
      rw [projectLoop_fuel (project_tool_round_left found).length_le]

theorem project_tool_round_append {rest later : List CanonicalMessage}
    {round : Option (List ProjectedMessage × List CanonicalMessage)} (found : project_tool_round m rest = .ok round)
    (unabsorbed : ∀ next, later.head? = some next → Unabsorbed (m :: rest) next) :
    project_tool_round m (rest ++ later) = .ok (round.map fun (projected,left) => (projected,left ++ later)) := by
  unfold project_tool_round at found ⊢
  cases start : roundStart m with
  | none =>
    simp only [start,Except.ok.injEq] at found ⊢
    rw [← found]
    rfl
  | some group_id =>
    simp only [start] at found ⊢
    cases collected : collect group_id {} (m :: rest) with
    | error e => simp [collected,bind,Except.bind] at found
    | ok pair =>
      obtain ⟨group,left⟩ := pair
      simp only [collected,bind,Except.bind] at found
      have longer := @collect_append _ _ _ _ _ later collected fun _ next isNext =>
        ⟨(unabsorbed next isNext).1,fun same => (unabsorbed next isNext).2 group_id same m (by simp) start⟩
      rw [List.cons_append] at longer
      simp only [longer,bind,Except.bind]
      cases closed : closeGroup m.message_id group with
      | error e => simp [closed] at found
      | ok messages =>
        simp only [closed,Except.ok.injEq] at found ⊢
        rw [← found]
        rfl

/-- A history that is not continued inside a tool round keeps its projection
    as a prefix. -/
theorem project_append {history later : List CanonicalMessage} : ∀ {projected : List ProjectedMessage},
    project_messages history = .ok projected → (∀ m, later.head? = some m → Unabsorbed history m) →
    project_messages (history ++ later) = (project_messages later).map (projected ++ ·) := by
  induction h : history.length using Nat.strongRecOn generalizing history with
  | ind n ih =>
    intro projected done unabsorbed
    subst h
    cases history with
    | nil =>
      have empty : projected = [] := by simpa [project_messages,projectLoop] using done.symm
      rw [List.nil_append,empty]
      cases project_messages later <;> rfl
    | cons m rest =>
      rw [project_messages_cons] at done
      rw [List.cons_append,project_messages_cons]
      cases found : project_tool_round m rest with
      | error e => simp [found,bind,Except.bind] at done
      | ok round =>
        rw [project_tool_round_append found unabsorbed]
        simp only [found,bind,Except.bind] at done
        have shorter : ∀ {l}, l <:+ rest → ∀ next, later.head? = some next → Unabsorbed l next := by
          intro l suffix next isNext
          obtain ⟨noResult,other⟩ := unabsorbed next isNext
          exact ⟨noResult,fun group_id start earlier member =>
            other group_id start earlier (List.mem_cons_of_mem _ (suffix.subset member))⟩
        cases round with
        | none =>
          cases tail : project_messages rest with
          | error e => simp [tail] at done
          | ok others =>
            simp only [tail,Except.ok.injEq] at done
            have joined := ih rest.length (by simp) rfl tail (shorter List.suffix_rfl)
            simp only [bind,Except.bind,Option.map_none,joined,← done]
            cases project_messages later <;> rfl
        | some pair =>
          obtain ⟨messages,left⟩ := pair
          have suffix := project_tool_round_left found
          cases tail : project_messages left with
          | error e => simp [tail] at done
          | ok others =>
            simp only [tail,Except.ok.injEq] at done
            have joined := ih left.length (by simp; have := suffix.length_le; omega) rfl tail (shorter suffix)
            simp only [bind,Except.bind,Option.map_some,joined,← done]
            cases project_messages later <;> simp [Except.map]

end MyCursor.Projection

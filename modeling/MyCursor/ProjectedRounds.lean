import MyCursor.Fallible
import MyCursor.Projection

/-!
# The tool rounds of a history

A history falls into tool rounds and other messages. What `project_messages` makes
of it is made of these parts, one after the other.
-/
namespace MyCursor.ProjectedRounds
open Message Projection

def callsOf (m : CanonicalMessage) : List ToolCallContent :=
  match m.content with
  | .Assistant _ _ _ _ tool_calls => tool_calls
  | _ => []
def resultOf (m : CanonicalMessage) : Option (String × ToolResultContent) :=
  match m.content with
  | .ToolResult result => some (m.message_id,result)
  | _ => none
def replayOf (m : CanonicalMessage) : Option ProviderReplayState :=
  match m.content with
  | .Assistant _ _ _ replay_state _ => replay_state
  | _ => none
def textOf (m : CanonicalMessage) : String :=
  match m.content with
  | .Assistant text _ _ _ _ => text
  | _ => ""
def thinkingOf (m : CanonicalMessage) : String :=
  match m.content with
  | .Assistant _ thinking _ _ _ => thinking
  | _ => ""

def callIds (members : List CanonicalMessage) : List String := (members.flatMap callsOf).map (·.call_id)
def resultIds (members : List CanonicalMessage) : List String := (members.filterMap resultOf).map (·.2.call_id)

/-- The message goes on with the round: it has calls of its id, or is the result of
    one of its calls. -/
def GoesOn (id : ToolRoundId) (members : List CanonicalMessage) (m : CanonicalMessage) : Prop :=
  roundStart m = some id ∨ ∃ result, m.content = .ToolResult result ∧ result.call_id ∈ callIds members
instance (id : ToolRoundId) (members : List CanonicalMessage) (m : CanonicalMessage) : Decidable (GoesOn id members m) :=
  match content : m.content with
  | .ToolResult result => decidable_of_iff (roundStart m = some id ∨ result.call_id ∈ callIds members) (by simp [GoesOn,content])
  | .Parts _ | .Assistant _ _ _ _ _ => decidable_of_iff (roundStart m = some id) (by simp [GoesOn,content])

/-- The members of a round as far as they go, and what is left. -/
def run (id : ToolRoundId) (members : List CanonicalMessage) : List CanonicalMessage → List CanonicalMessage × List CanonicalMessage
  | [] => (members,[])
  | m :: rest => if GoesOn id members m then run id (members ++ [m]) rest else (members,m :: rest)

inductive Part where
  | Message (m : CanonicalMessage)
  | Round (members : List CanonicalMessage)
def Part.messages : Part → List CanonicalMessage
  | .Message m => [m]
  | .Round members => members

/-- The parts of the messages, where a round may be open. -/
def partsFrom : Option (ToolRoundId × List CanonicalMessage) → List CanonicalMessage → List Part
  | none, [] => []
  | some (_,members), [] => [.Round members]
  | none, m :: rest =>
    match roundStart m with
    | some id => partsFrom (some (id,[m])) rest
    | none => .Message m :: partsFrom none rest
  | some (id,members), m :: rest =>
    if GoesOn id members m then partsFrom (some (id,members ++ [m])) rest
    else .Round members :: match roundStart m with
      | some other => partsFrom (some (other,[m])) rest
      | none => .Message m :: partsFrom none rest
def parts (messages : List CanonicalMessage) : List Part := partsFrom none messages

/-- No replay state and no result comes twice, and no result is missing. -/
structure Sound (members : List CanonicalMessage) : Prop where
  replay : (members.filterMap replayOf).length ≤ 1
  results : (resultIds members).Nodup
structure Settled (members : List CanonicalMessage) : Prop extends Sound members where
  answered : ∀ id ∈ callIds members, id ∈ resultIds members
def Part.Valid : Part → Prop
  | .Message _ => True
  | .Round members => Settled members

def groupOf (members : List CanonicalMessage) : Group where
  text := members.foldl (fun text m => text ++ textOf m) ""
  thinking := members.foldl (fun thinking m => thinking ++ thinkingOf m) ""
  replay_state := (members.filterMap replayOf).head?
  calls := (members.flatMap callsOf).map normalized_tool_call
  results := members.filterMap resultOf

/-- One assistant message with the calls of the round in the order of their indices,
    and then the results in their order. -/
def projectedRound (members : List CanonicalMessage) : List ProjectedMessage :=
  ⟨(members.head?.map (·.message_id)).getD "",.Assistant,.Assistant (groupOf members).text (groupOf members).thinking
    (groupOf members).replay_state (sortCalls (groupOf members).calls)⟩ ::
    (members.filterMap resultOf).map fun (message_id,result) => ⟨message_id,.Tool,.ToolResult (normalized_tool_result result)⟩
def Part.projected : Part → List ProjectedMessage
  | .Message m => [project_message m]
  | .Round members => projectedRound members

section Runs
variable {id : ToolRoundId} {members messages : List CanonicalMessage} {m : CanonicalMessage}

theorem run_extends (id : ToolRoundId) (members messages : List CanonicalMessage) :
    ∃ more, (run id members messages).1 = members ++ more ∧ messages = more ++ (run id members messages).2 := by
  induction messages generalizing members with
  | nil => exact ⟨[],(List.append_nil _).symm,rfl⟩
  | cons m rest ih =>
    rw [run]
    split_ifs with goes
    · obtain ⟨more,isMembers,isRest⟩ := ih (members ++ [m])
      exact ⟨m :: more,by rw [isMembers,List.append_assoc]; rfl,congrArg _ isRest⟩
    · exact ⟨[],(List.append_nil _).symm,rfl⟩

theorem Sound.earlier {more : List CanonicalMessage} (sound : Sound (members ++ more)) : Sound members := by
  obtain ⟨replay,results⟩ := sound
  rw [List.filterMap_append,List.length_append] at replay
  rw [resultIds,List.filterMap_append,List.map_append] at results
  exact ⟨by omega,(List.nodup_append.mp results).1⟩

theorem groupOf_assistant {text thinking : String} {candidate : ToolRoundId} {replay_state : Option ProviderReplayState}
    {tool_calls : List ToolCallContent} (content : m.content = .Assistant text thinking (some candidate) replay_state tool_calls) :
    (groupOf members).addAssistant text thinking replay_state tool_calls = groupOf (members ++ [m]) := by
  simp [groupOf,Group.addAssistant,textOf,thinkingOf,replayOf,callsOf,resultOf,content,List.head?_append]
theorem groupOf_result {result : ToolResultContent} (content : m.content = .ToolResult result) :
    (groupOf members).addResult m.message_id result = groupOf (members ++ [m]) := by
  simp [groupOf,Group.addResult,textOf,thinkingOf,replayOf,callsOf,resultOf,content]

theorem hasCall_iff (call_id : String) : (groupOf members).hasCall call_id = true ↔ call_id ∈ callIds members := by
  simp only [Group.hasCall,groupOf,callIds,List.any_eq_true,List.mem_map,decide_eq_true_eq]
  constructor
  · rintro ⟨call,⟨original,member,rfl⟩,same⟩
    exact ⟨original,member,same⟩
  · rintro ⟨call,member,same⟩
    exact ⟨_,⟨call,member,rfl⟩,same⟩
theorem hasResult_iff (call_id : String) : (groupOf members).hasResult call_id = true ↔ call_id ∈ resultIds members := by
  simp only [Group.hasResult,groupOf,resultIds,List.any_eq_true,List.mem_map,decide_eq_true_eq]

theorem collect_run (sound : Sound members) (result : Group × List CanonicalMessage) :
    collect id (groupOf members) messages = .ok result ↔
      Sound (run id members messages).1 ∧ result = (groupOf (run id members messages).1,(run id members messages).2) := by
  induction messages generalizing members with
  | nil => exact ⟨fun same => ⟨sound,(Except.ok.inj same).symm⟩,fun same => congrArg _ same.2.symm⟩
  | cons m rest ih =>
    have stops : ¬ GoesOn id members m → ((.ok (groupOf members,m :: rest) : Except Error _) = .ok result ↔
        Sound (run id members (m :: rest)).1 ∧ result = (groupOf (run id members (m :: rest)).1,(run id members (m :: rest)).2)) := by
      intro other
      rw [run,if_neg other]
      exact ⟨fun same => ⟨sound,(Except.ok.inj same).symm⟩,fun same => congrArg _ same.2.symm⟩
    have twice : GoesOn id members m → ¬ Sound (members ++ [m]) → ∀ e : Error, ((.error e : Except Error _) = .ok result ↔
        Sound (run id members (m :: rest)).1 ∧ result = (groupOf (run id members (m :: rest)).1,(run id members (m :: rest)).2)) := by
      intro goes unsound e
      rw [run,if_pos goes]
      refine iff_of_false nofun fun both => unsound ?_
      obtain ⟨more,isMembers,-⟩ := run_extends id (members ++ [m]) rest
      exact Sound.earlier (isMembers ▸ both.1)
    cases content : m.content with
    | Parts parts =>
      rw [collect,content]
      exact stops (by simp [GoesOn,roundStart,content])
    | ToolResult answer =>
      simp only [collect,content]
      by_cases known : (groupOf members).hasCall answer.call_id = true
      · have goes : GoesOn id members m := .inr ⟨answer,content,(hasCall_iff _).mp known⟩
        have ids : resultIds (members ++ [m]) = resultIds members ++ [answer.call_id] := by simp [resultIds,resultOf,content]
        rw [if_neg (by rw [known]; decide)]
        by_cases present : (groupOf members).hasResult answer.call_id = true
        · rw [if_pos present]
          refine twice goes (fun sound => ?_) _
          have nodup := sound.results
          rw [ids] at nodup
          exact (List.nodup_append.mp nodup).2.2 _ ((hasResult_iff _).mp present) _ List.mem_cons_self rfl
        · have replays : (members ++ [m]).filterMap replayOf = members.filterMap replayOf := by simp [replayOf,content]
          have sound' : Sound (members ++ [m]) := by
            refine ⟨replays ▸ sound.replay,?_⟩
            rw [ids]
            refine List.nodup_append.mpr ⟨sound.results,List.nodup_singleton _,fun a isA b isB same => present ?_⟩
            rw [List.mem_singleton.mp isB] at same
            exact (hasResult_iff _).mpr (same ▸ isA)
          rw [if_neg present,groupOf_result content,ih sound',run,if_pos goes]
      · rw [if_pos (by simpa using known)]
        refine stops ?_
        rintro (starts | ⟨other,isOther,inCalls⟩)
        · rw [roundStart,content] at starts
          cases starts
        · rw [content] at isOther
          cases isOther
          exact known ((hasCall_iff _).mpr inCalls)
    | Assistant text thinking tool_round_id replay_state tool_calls =>
      cases tool_round_id with
      | none =>
        simp only [collect,content]
        exact stops (by simp [GoesOn,roundStart,content])
      | some candidate =>
        simp only [collect,content]
        by_cases other : candidate ≠ id ∨ tool_calls.isEmpty = true
        · rw [if_pos other]
          refine stops ?_
          rcases other with other | empty
          · simp [GoesOn,roundStart,content,other]
          · simp [GoesOn,roundStart,content,empty]
        · obtain ⟨same,filled⟩ := not_or.mp other
          obtain rfl := not_not.mp same
          have goes : GoesOn candidate members m := .inl (by rw [roundStart,content]; exact if_neg filled)
          have replays : (members ++ [m]).filterMap replayOf = members.filterMap replayOf ++ replay_state.toList := by
            rw [List.filterMap_append]
            cases replay_state <;> simp [replayOf,content]
          have ids : resultIds (members ++ [m]) = resultIds members := by simp [resultIds,resultOf,content]
          have has : (groupOf members).replay_state.isSome = true ↔ members.filterMap replayOf ≠ [] := by
            rw [groupOf,List.isSome_head?]
          rw [if_neg other]
          by_cases repeats : ((groupOf members).replay_state.isSome && replay_state.isSome) = true
          · rw [if_pos repeats]
            refine twice goes (fun sound => ?_) _
            obtain ⟨first,second⟩ := Bool.and_eq_true_iff.mp repeats
            have length := sound.replay
            have one := List.length_pos_of_ne_nil (has.mp first)
            obtain ⟨state,rfl⟩ := Option.isSome_iff_exists.mp second
            rw [replays,List.length_append,Option.toList_some,List.length_singleton] at length
            omega
          · have sound' : Sound (members ++ [m]) := by
              refine ⟨?_,ids ▸ sound.results⟩
              rw [replays]
              cases replay_state with
              | none => simpa using sound.replay
              | some state =>
                have none_ : members.filterMap replayOf = [] := by
                  by_contra filled
                  exact repeats (by rw [has.mpr filled]; rfl)
                rw [none_]
                exact le_rfl
            rw [if_neg repeats,groupOf_assistant content,ih sound',run,if_pos goes]

end Runs

section Parts
variable {m : CanonicalMessage} {rest : List CanonicalMessage}

theorem partsFrom_run (id : ToolRoundId) (members messages : List CanonicalMessage) :
    partsFrom (some (id,members)) messages = .Round (run id members messages).1 :: parts (run id members messages).2 := by
  induction messages generalizing members with
  | nil => rfl
  | cons m rest ih =>
    rw [partsFrom,run]
    split_ifs with goes
    · exact ih (members ++ [m])
    · rfl
theorem parts_message (plain : roundStart m = none) : parts (m :: rest) = .Message m :: parts rest := by
  rw [parts,partsFrom,plain]
  rfl
theorem parts_round {id : ToolRoundId} (starts : roundStart m = some id) :
    parts (m :: rest) = .Round (run id [m] rest).1 :: parts (run id [m] rest).2 := by
  rw [parts,partsFrom,starts]
  exact partsFrom_run id [m] rest

theorem parts_messages (messages : List CanonicalMessage) : (parts messages).flatMap Part.messages = messages := by
  induction h : messages.length using Nat.strongRecOn generalizing messages with
  | ind n ih =>
    subst h
    cases messages with
    | nil => rfl
    | cons m rest =>
      cases starts : roundStart m with
      | none => rw [parts_message starts,List.flatMap_cons,ih _ (Nat.lt_succ_self _) rest rfl]; rfl
      | some id =>
        obtain ⟨more,isMembers,isRest⟩ := run_extends id [m] rest
        have shorter : (run id [m] rest).2.length < (m :: rest).length := by
          rw [List.length_cons,congrArg List.length isRest,List.length_append]
          omega
        rw [parts_round starts,List.flatMap_cons,ih _ shorter _ rfl,Part.messages,isMembers,List.append_assoc,← isRest]
        rfl

theorem project_plain (plain : roundStart m = none) :
    project_messages (m :: rest) = (project_messages rest).map (project_message m :: ·) := by
  rw [project_messages_cons,project_tool_round,plain]
  cases project_messages rest <;> rfl
theorem project_round {id : ToolRoundId} (starts : roundStart m = some id) {projected : List ProjectedMessage} :
    project_messages (m :: rest) = .ok projected ↔ ∃ group left closed later, collect id {} (m :: rest) = .ok (group,left) ∧
      closeGroup m.message_id group = .ok closed ∧ project_messages left = .ok later ∧ closed ++ later = projected := by
  rw [project_messages_cons,project_tool_round,starts]
  constructor
  · intro projects
    obtain ⟨round,isRound,projects⟩ := Fallible.bind_ok.mp projects
    obtain ⟨⟨group,left⟩,collected,closes⟩ := Fallible.bind_ok.mp isRound
    obtain ⟨closed,isClosed,same⟩ := Fallible.bind_ok.mp closes
    cases same
    obtain ⟨later,isLater,same⟩ := Fallible.bind_ok.mp projects
    exact ⟨group,left,closed,later,collected,isClosed,isLater,Except.ok.inj same⟩
  · rintro ⟨group,left,closed,later,collected,isClosed,isLater,rfl⟩
    simp only [collected,isClosed,isLater,bind,Except.bind]

theorem closeGroup_ok (message_id : String) (members : List CanonicalMessage) (output : List ProjectedMessage) :
    closeGroup message_id (groupOf members) = .ok output ↔ (∀ id ∈ callIds members, id ∈ resultIds members) ∧
      output = ⟨message_id,.Assistant,.Assistant (groupOf members).text (groupOf members).thinking (groupOf members).replay_state
        (sortCalls (groupOf members).calls)⟩ :: (members.filterMap resultOf).map fun (message_id,result) =>
          ⟨message_id,.Tool,.ToolResult (normalized_tool_result result)⟩ := by
  have missing : (sortCalls (groupOf members).calls).find? (fun call => ! (groupOf members).hasResult call.call_id) = none ↔
      ∀ id ∈ callIds members, id ∈ resultIds members := by
    have inSorted : ∀ call, call ∈ sortCalls (groupOf members).calls ↔ call ∈ (groupOf members).calls := fun call =>
      (List.perm_insertionSort _ _).mem_iff
    have ids : callIds members = (groupOf members).calls.map (·.call_id) := by simp [callIds,groupOf,normalized_tool_call,Function.comp_def]
    rw [List.find?_eq_none,ids]
    simp [inSorted,hasResult_iff]
  rw [closeGroup]
  cases found : (sortCalls (groupOf members).calls).find? (fun call => ! (groupOf members).hasResult call.call_id) with
  | none =>
    dsimp only
    exact ⟨fun same => ⟨missing.mp found,(Except.ok.inj same).symm⟩,fun both => congrArg Except.ok both.2.symm⟩
  | some call =>
    refine iff_of_false nofun fun both => ?_
    rw [missing.mpr both.1] at found
    cases found

theorem project_parts (messages : List CanonicalMessage) (projected : List ProjectedMessage) : project_messages messages = .ok projected ↔
      (∀ part ∈ parts messages, part.Valid) ∧ projected = (parts messages).flatMap Part.projected := by
  induction h : messages.length using Nat.strongRecOn generalizing messages projected with
  | ind n ih =>
    subst h
    cases messages with
    | nil =>
      rw [project_messages]
      simp [projectLoop,parts,partsFrom,eq_comm]
    | cons m rest =>
      cases starts : roundStart m with
      | none =>
        rw [project_plain starts,parts_message starts,List.forall_mem_cons,List.flatMap_cons,Fallible.map_ok]
        constructor
        · rintro ⟨others,isOthers,rfl⟩
          obtain ⟨valid,rfl⟩ := (ih _ (Nat.lt_succ_self _) rest others rfl).mp isOthers
          exact ⟨⟨trivial,valid⟩,rfl⟩
        · rintro ⟨⟨-,valid⟩,rfl⟩
          exact ⟨_,(ih _ (Nat.lt_succ_self _) rest _ rfl).mpr ⟨valid,rfl⟩,rfl⟩
      | some id =>
        obtain ⟨more,isMembers,isRest⟩ := run_extends id [m] rest
        have shorter : (run id [m] rest).2.length < (m :: rest).length := by
          rw [List.length_cons,congrArg List.length isRest,List.length_append]
          omega
        have first : run id [] (m :: rest) = run id [m] rest := if_pos (.inl starts)
        have head : (run id [m] rest).1.head? = some m := by rw [isMembers]; rfl
        have collects := fun result => @collect_run id [] (m :: rest) ⟨Nat.zero_le _,List.nodup_nil⟩ result
        rw [first] at collects
        rw [parts_round starts,List.forall_mem_cons,List.flatMap_cons,project_round starts]
        constructor
        · rintro ⟨group,left,closed,later,collected,isClosed,isLater,rfl⟩
          obtain ⟨sound,same⟩ := (collects _).mp collected
          obtain ⟨rfl,rfl⟩ := Prod.mk.inj same
          obtain ⟨answered,rfl⟩ := (closeGroup_ok _ _ _).mp isClosed
          obtain ⟨valid,rfl⟩ := (ih _ shorter _ later rfl).mp isLater
          refine ⟨⟨⟨sound,answered⟩,valid⟩,?_⟩
          rw [Part.projected,projectedRound,head]
          rfl
        · rintro ⟨⟨settled,valid⟩,rfl⟩
          refine ⟨_,_,_,_,(collects _).mpr ⟨settled.toSound,rfl⟩,(closeGroup_ok _ _ _).mpr ⟨settled.answered,rfl⟩,
            (ih _ shorter _ _ rfl).mpr ⟨valid,rfl⟩,?_⟩
          rw [Part.projected,projectedRound,head]
          rfl

end Parts

/-! ## Messages that do not go on with a round -/

/-- The message goes on with a tool round of the history: with calls of its id, or as a
    result of one of its calls. -/
def Continues (history : List CanonicalMessage) (m : CanonicalMessage) : Prop :=
  (∃ id, roundStart m = some id ∧ ∃ earlier ∈ history, roundStart earlier = some id) ∨ ∃ result, m.content = .ToolResult result ∧
      ∃ earlier ∈ history, roundStart earlier ≠ none ∧ ∃ call ∈ callsOf earlier, call.call_id = result.call_id

/-- The members of a round that is open. -/
structure Open (id : ToolRoundId) (members : List CanonicalMessage) : Prop where
  started : ∃ m ∈ members, roundStart m = some id
  calls : ∀ m ∈ members, callsOf m ≠ [] → roundStart m = some id

section Append
variable {id : ToolRoundId} {members history later : List CanonicalMessage} {m : CanonicalMessage}

theorem Continues.mono (more : ∀ earlier ∈ history, earlier ∈ later) (goes : Continues history m) : Continues later m := by
  rcases goes with ⟨id,starts,earlier,member,same⟩ | ⟨result,content,earlier,member,rest⟩
  · exact .inl ⟨id,starts,earlier,more _ member,same⟩
  · exact .inr ⟨result,content,earlier,more _ member,rest⟩

theorem Open.continues (isOpen : Open id members) (goes : GoesOn id members m) : Continues members m := by
  rcases goes with starts | ⟨result,content,inCalls⟩
  · exact .inl ⟨id,starts,isOpen.started⟩
  · obtain ⟨call,inCalls,same⟩ := List.mem_map.mp inCalls
    obtain ⟨earlier,member,isCall⟩ := List.mem_flatMap.mp inCalls
    have starts := isOpen.calls earlier member (List.ne_nil_of_mem isCall)
    exact .inr ⟨result,content,earlier,member,by simp [starts],call,isCall,same⟩

theorem Open.start (starts : roundStart m = some id) : Open id [m] :=
  ⟨⟨m,List.mem_singleton_self m,starts⟩,fun _ member _ => List.mem_singleton.mp member ▸ starts⟩

theorem Open.goesOn (isOpen : Open id members) (goes : GoesOn id members m) : Open id (members ++ [m]) := by
  obtain ⟨first,member,starts⟩ := isOpen.started
  refine ⟨⟨first,List.mem_append_left _ member,starts⟩,fun other isOther calls => ?_⟩
  rcases List.mem_append.mp isOther with isOther | isOther
  · exact isOpen.calls other isOther calls
  · obtain rfl := List.mem_singleton.mp isOther
    rcases goes with starts | ⟨result,content,-⟩
    · exact starts
    · exact absurd (by rw [callsOf,content]) calls

theorem partsFrom_append (messages : List CanonicalMessage) : ∀ {round : Option (ToolRoundId × List CanonicalMessage)},
    (∀ id members, round = some (id,members) → Open id members) →
    (∀ m, later.head? = some m → ¬ Continues ((round.map (·.2)).getD [] ++ messages) m) →
    partsFrom round (messages ++ later) = partsFrom round messages ++ parts later := by
  induction messages with
  | nil =>
    intro round isOpen apart
    cases round with
    | none => rfl
    | some pair =>
      obtain ⟨id,members⟩ := pair
      cases later with
      | nil => rfl
      | cons d rest =>
        have other : ¬ GoesOn id members d := fun goes => apart d rfl
          (((isOpen id members rfl).continues goes).mono fun earlier member => List.mem_append_left _ member)
        rw [List.nil_append,partsFrom_run,run,if_neg other]
        rfl
  | cons m rest ih =>
    intro round isOpen apart
    have alone : ∀ {earlier : List CanonicalMessage}, (∀ d, later.head? = some d → ¬ Continues (earlier ++ m :: rest) d) →
        partsFrom none (m :: rest ++ later) = partsFrom none (m :: rest) ++ parts later := by
      intro earlier apart
      rw [List.cons_append,partsFrom,partsFrom]
      cases starts : roundStart m with
      | none =>
        simp only [List.cons_append]
        refine congrArg _ (ih nofun fun d isHead goes => apart d isHead (goes.mono fun other member => ?_))
        exact List.mem_append_right _ (List.mem_cons_of_mem _ member)
      | some id =>
        refine ih (fun _ _ same => ?_) fun d isHead goes => apart d isHead (goes.mono fun other member => ?_)
        · cases same
          exact Open.start starts
        · exact List.mem_append_right _ member
    cases round with
    | none => exact @alone [] apart
    | some pair =>
      obtain ⟨id,members⟩ := pair
      rw [List.cons_append,partsFrom,partsFrom]
      by_cases goes : GoesOn id members m
      · rw [if_pos goes,if_pos goes]
        refine ih (fun _ _ same => ?_) fun d isHead goes => apart d isHead (goes.mono fun other member => ?_)
        · cases same
          exact (isOpen id members rfl).goesOn goes
        · rw [Option.map_some,Option.getD_some,List.append_assoc] at member
          exact member
      · rw [if_neg goes,if_neg goes,List.cons_append]
        exact congrArg _ (alone apart)

theorem parts_append (apart : ∀ m, later.head? = some m → ¬ Continues history m) :
    parts (history ++ later) = parts history ++ parts later :=
  partsFrom_append history nofun apart

theorem sortCalls_perm (calls : List ToolCallContent) : (sortCalls calls).Perm calls := List.perm_insertionSort _ _
theorem sortCalls_sorted (calls : List ToolCallContent) : (sortCalls calls).Pairwise (·.index ≤ ·.index) := by
  have total : Std.Total fun a b : ToolCallContent => a.index ≤ b.index := ⟨fun a b => le_total a.index b.index⟩
  have trans : IsTrans ToolCallContent fun a b => a.index ≤ b.index := ⟨fun _ _ _ => le_trans⟩
  exact List.pairwise_insertionSort _ calls

end Append

def oneCall (index : Nat) (call_id : String) : CanonicalMessage :=
  ⟨call_id,.Assistant,.Assistant,.Assistant "" "" (some "r") none [⟨index,call_id,"Read",.Null⟩],none⟩
def oneResult (call_id : String) : CanonicalMessage :=
  ⟨call_id ++ ":result",.Tool,.Tool,.ToolResult ⟨call_id,"Read","",false,none⟩,none⟩

/-- A history is projected exactly where in each of its rounds no result is missing and no
    result and no replay state comes twice: each message that stands alone as itself, each
    round as one message with all its calls by their indices and then its results. The parts
    hold every message once. A history whose head does not go on with an earlier
    round is projected apart from it. -/
theorem projection_homomorphic : (∀ history later, (∀ m, later.head? = some m → ¬ Continues history m) → ∀ projected,
      project_messages (history ++ later) = .ok projected ↔ ∃ before after,
        project_messages history = .ok before ∧ project_messages later = .ok after ∧ projected = before ++ after) ∧
    (∀ messages projected, project_messages messages = .ok projected ↔
      (∀ part ∈ parts messages, part.Valid) ∧ projected = (parts messages).flatMap Part.projected) ∧
    (∀ messages, (parts messages).flatMap Part.messages = messages) ∧
    ∀ calls, (sortCalls calls).Perm calls ∧ (sortCalls calls).Pairwise (·.index ≤ ·.index) := by
  refine ⟨fun history later apart projected => ?_,project_parts,parts_messages,fun calls => ⟨sortCalls_perm calls,sortCalls_sorted calls⟩⟩
  simp only [project_parts,parts_append apart,List.forall_mem_append,List.flatMap_append]
  constructor
  · rintro ⟨⟨before,after⟩,rfl⟩
    exact ⟨_,_,⟨before,rfl⟩,⟨after,rfl⟩,rfl⟩
  · rintro ⟨_,_,⟨before,rfl⟩,⟨after,rfl⟩,rfl⟩
    exact ⟨⟨before,after⟩,rfl⟩

/-- A question behind a settled round is projected apart from it. -/
theorem question_projected_apart : ∃ before after, project_messages [oneCall 0 "c",oneResult "c"] = .ok before ∧
    project_messages [text "u" .User .User ""] = .ok after ∧
    project_messages ([oneCall 0 "c",oneResult "c"] ++ [text "u" .User .User ""]) = .ok (before ++ after) := by
  have apart : ∀ m, [text "u" .User .User ""].head? = some m → ¬ Continues [oneCall 0 "c",oneResult "c"] m := by
    rintro _ ⟨⟩ (⟨_,⟨⟩,_⟩ | ⟨_,⟨⟩,_⟩)
  obtain ⟨before,isBefore⟩ : ∃ before, project_messages [oneCall 0 "c",oneResult "c"] = .ok before := ⟨_,rfl⟩
  obtain ⟨after,isAfter⟩ : ∃ after, project_messages [text "u" .User .User ""] = .ok after := ⟨_,rfl⟩
  exact ⟨before,after,isBefore,isAfter,(projection_homomorphic.1 _ _ apart _).mpr ⟨before,after,isBefore,isAfter,rfl⟩⟩

def roundCalls (id : ToolRoundId) (messages : List CanonicalMessage) : List ToolCallContent :=
  (messages.filter (roundStart · = some id)).flatMap callsOf

def interrupted : List CanonicalMessage :=
  [oneCall 0 "c",oneResult "c",text "u" .User .User "",oneCall 1 "d",oneResult "d"]

def projectedCalls (m : ProjectedMessage) : List ToolCallContent :=
  match m.content with
  | .Assistant _ _ _ calls => calls
  | _ => []

/-- Two assistant messages show the calls of one round id where another message stands in between. -/
theorem interrupted_round_split : ¬ ∀ messages projected, project_messages messages = .ok projected → ∀ id, roundCalls id messages ≠ [] →
      ∃ m ∈ projected, projectedCalls m = sortCalls ((roundCalls id messages).map normalized_tool_call) := by
  intro projects
  obtain ⟨m,member,same⟩ := projects interrupted _ rfl "r" (by decide +kernel)
  have single := List.all_eq_true.mp (show ((project_messages interrupted).toOption.getD []).all (fun m =>
    (projectedCalls m).length ≤ 1) by decide)
  have few := of_decide_eq_true (single m member)
  rw [same,sortCalls,List.length_insertionSort] at few
  exact absurd few (by decide +kernel)

end MyCursor.ProjectedRounds

import MyCursor.JsonStream
import MyCursor.ToolRequests

/-!
# The preview of an edit

`ToolCallStream` of `cursor/tools/stream.rs` for the tools that edit: the content that
streams in is shown with its line breaks normalized, piece by piece, where
`normalize_newlines` of `cursor/tools/edit.rs` does it in one go.
-/
namespace MyCursor.EditPreview
open JsonStream JsonGrammar

/-- The loop of `NewlineStream::push`. -/
def pushText : Bool → List Char → List Char × Bool
  | pending_cr, [] => ([],pending_cr)
  | pending_cr, character :: rest =>
    if pending_cr ∧ character = '\n' then
      let tail := pushText false rest
      ('\n' :: tail.1,tail.2)
    else
      let output := if pending_cr then ['\n'] else []
      if character = '\r' then
        let tail := pushText true rest
        (output ++ tail.1,tail.2)
      else
        let tail := pushText false rest
        (output ++ character :: tail.1,tail.2)
def NewlineStream.push (pending_cr : Bool) (text : List Char) (finished : Bool) : List Char × Bool :=
  let pushed := pushText pending_cr text
  if finished ∧ pushed.2 then (pushed.1 ++ ['\n'],false) else pushed

/-- `replace("\r\n","\n")`. -/
def replaceCrLf : List Char → List Char
  | '\r' :: '\n' :: rest => '\n' :: replaceCrLf rest
  | character :: rest => character :: replaceCrLf rest
  | [] => []
def normalize_newlines (value : List Char) : List Char := (replaceCrLf value).map fun c => if c = '\r' then '\n' else c

theorem normalize_pair (rest : List Char) : normalize_newlines ('\r' :: '\n' :: rest) = '\n' :: normalize_newlines rest := by
  rw [normalize_newlines,replaceCrLf,List.map_cons]
  rfl
theorem replace_cons {c : Char} {rest : List Char} (single : c ≠ '\r' ∨ rest.head? ≠ some '\n') :
    replaceCrLf (c :: rest) = c :: replaceCrLf rest := by
  rw [replaceCrLf]
  rintro next rfl rfl
  rcases single with noReturn | noFeed
  · exact noReturn rfl
  · exact noFeed rfl
theorem normalize_plain {c : Char} (plain : c ≠ '\r') (rest : List Char) :
    normalize_newlines (c :: rest) = c :: normalize_newlines rest := by
  rw [normalize_newlines,replace_cons (.inl plain),List.map_cons,if_neg plain]
  rfl
theorem normalize_return {rest : List Char} (alone : rest.head? ≠ some '\n') :
    normalize_newlines ('\r' :: rest) = '\n' :: normalize_newlines rest := by
  rw [normalize_newlines,replace_cons (.inr alone),List.map_cons,if_pos rfl]
  rfl

theorem pushText_append (text more : List Char) : ∀ pending, pushText pending (text ++ more) =
    ((pushText pending text).1 ++ (pushText (pushText pending text).2 more).1,(pushText (pushText pending text).2 more).2) := by
  induction text with
  | nil => exact fun _ => rfl
  | cons c rest ih =>
    intro pending
    rw [List.cons_append,pushText,pushText]
    split_ifs <;> simp only [ih,List.append_assoc,List.cons_append]
theorem pushText_whole (text : List Char) : ∀ pending, (pushText pending text).1 ++ (if (pushText pending text).2 then ['\n'] else []) =
    normalize_newlines (if pending then '\r' :: text else text) := by
  induction text with
  | nil => rintro (_ | _) <;> rfl
  | cons c rest ih =>
    intro pending
    rw [pushText]
    by_cases feed : c = '\n'
    · subst feed
      have plain := ih false
      cases pending with
      | false =>
        simp only [Bool.false_eq_true,false_and,if_false,List.nil_append,if_neg (show '\n' ≠ '\r' by decide),List.cons_append] at plain ⊢
        rw [plain,normalize_plain (by decide)]
      | true =>
        simp only [Bool.false_eq_true,and_self,if_false,if_true,List.cons_append] at plain ⊢
        rw [plain,normalize_pair]
    · rw [if_neg fun both => feed both.2]
      have alone (more : List Char) : (c :: more).head? ≠ some '\n' := fun same => feed (Option.some.inj same)
      by_cases isReturn : c = '\r'
      · subst isReturn
        have tail := ih true
        simp only [if_true,List.append_assoc] at tail ⊢
        rw [tail]
        cases pending with
        | false => rfl
        | true => exact (normalize_return (alone rest)).symm
      · have tail := ih false
        simp only [if_neg isReturn,Bool.false_eq_true,if_false,List.append_assoc,List.cons_append] at tail ⊢
        rw [tail]
        cases pending with
        | false => exact (normalize_plain isReturn rest).symm
        | true => exact (congrArg ('\n' :: ·) (normalize_plain isReturn rest).symm).trans (normalize_return (alone rest)).symm

structure EditProjection where
  fields : JsonStringFields
  path_field : List Char
  content_field : List Char
  path : List Char
  pending_cr : Bool

def EditProjection.new (path_field content_field : List Char) : EditProjection := ⟨{},path_field,content_field,[],false⟩

/-- What is sent to the client: the path as far as it goes, or more of the content. -/
inductive Update where
  | partial_edit_path (path : List Char)
  | edit_content_delta (content : List Char)
deriving DecidableEq

/-- The path field and the content field of a tool that edits. -/
def edits (name : String) : Option (List Char × List Char) :=
  let name := MyCursor.ToolRequests.normalized name
  if name = "write" then some ("path".toList,"contents".toList)
  else if name = "strreplace" then some ("path".toList,"new_string".toList)
  else if name = "editnotebook" then some ("target_notebook".toList,"new_string".toList)
  else none

def contentUpdate (content : List Char) : List Update := if content = [] then [] else [.edit_content_delta content]
def EditProjection.event (edit : EditProjection) : StringFieldEvent → EditProjection × List Update
  | .Delta name text =>
    if name = edit.path_field then ({ edit with path := edit.path ++ text },[])
    else if name = edit.content_field then
      let pushed := NewlineStream.push edit.pending_cr text false
      ({ edit with pending_cr := pushed.2 },contentUpdate pushed.1)
    else (edit,[])
  | .End name =>
    if name = edit.path_field then (edit,[.partial_edit_path edit.path])
    else if name = edit.content_field then
      let pushed := NewlineStream.push edit.pending_cr [] true
      ({ edit with pending_cr := pushed.2 },contentUpdate pushed.1)
    else (edit,[])
def EditProjection.events (edit : EditProjection) : List StringFieldEvent → EditProjection × List Update
  | [] => (edit,[])
  | event :: rest =>
    let tail := (edit.event event).1.events rest
    (tail.1,(edit.event event).2 ++ tail.2)
def EditProjection.project (from_str : List Char → Except String (List Char)) (edit : EditProjection) (raw_delta : List Char) :
    Except Error (EditProjection × List Update) :=
  match JsonStream.push from_str edit.fields raw_delta with
  | .error error => .error error
  | .ok (fields,events) => .ok ({ edit with fields }.events events)
def EditProjection.projectAll (from_str : List Char → Except String (List Char)) :
    EditProjection → List (List Char) → Except Error (List Update)
  | _, [] => .ok []
  | edit, raw_delta :: rest =>
    match edit.project from_str raw_delta with
    | .error error => .error error
    | .ok (edit,updates) =>
      match edit.projectAll from_str rest with
      | .error error => .error error
      | .ok later => .ok (updates ++ later)

def Update.content : Update → List Char
  | .partial_edit_path _ => []
  | .edit_content_delta content => content
def preview (updates : List Update) : List Char := updates.flatMap Update.content

/-- What the reports show of a field, character by character. -/
def shown (field : List Char) : Bool → List Token → List Char × Bool
  | pending, [] => ([],pending)
  | pending, .Char name c :: rest =>
    let pushed := if name = field then pushText pending [c] else ([],pending)
    let tail := shown field pushed.2 rest
    (pushed.1 ++ tail.1,tail.2)
  | pending, .End name :: rest =>
    let pushed := if name = field then NewlineStream.push pending [] true else ([],pending)
    let tail := shown field pushed.2 rest
    (pushed.1 ++ tail.1,tail.2)

theorem shown_append (field : List Char) (reports more : List Token) : ∀ pending, shown field pending (reports ++ more) =
    ((shown field pending reports).1 ++ (shown field (shown field pending reports).2 more).1,
      (shown field (shown field pending reports).2 more).2) := by
  induction reports with
  | nil => exact fun _ => rfl
  | cons report rest ih =>
    intro pending
    cases report with
    | Char name c => simp only [List.cons_append,shown,ih,List.append_assoc]
    | End name => simp only [List.cons_append,shown,ih,List.append_assoc]
theorem shown_silent {field name : List Char} (other : name ≠ field) (text : List Char) (pending : Bool) :
    shown field pending (text.map (Token.Char name)) = ([],pending) := by
  induction text with
  | nil => rfl
  | cons c rest ih =>
    rw [List.map_cons,shown,if_neg other,ih]
    rfl
theorem shown_other {field : List Char} {member : List Char × Option (List Char)} (other : member.1 ≠ field) (pending : Bool) :
    shown field pending (memberTokens member) = ([],pending) := by
  rcases member with ⟨name,_ | text⟩
  · rfl
  · rw [memberTokens,shown_append,shown_silent other,shown,if_neg other]
    rfl
theorem shown_others {field : List Char} {members : List (List Char × Option (List Char))} (others : ∀ member ∈ members, member.1 ≠ field)
    (pending : Bool) : shown field pending (members.flatMap memberTokens) = ([],pending) := by
  induction members with
  | nil => rfl
  | cons member rest ih =>
    obtain ⟨head,tail⟩ := List.forall_mem_cons.mp others
    rw [List.flatMap_cons,shown_append,shown_other head,ih tail]
    rfl
theorem shown_text (field text : List Char) : ∀ pending, shown field pending (text.map (Token.Char field)) = pushText pending text := by
  induction text with
  | nil => exact fun _ => rfl
  | cons c rest ih =>
    intro pending
    rw [List.map_cons,shown,if_pos rfl,ih]
    exact (pushText_append [c] rest pending).symm
theorem shown_member (field text : List Char) : shown field false (memberTokens (field,some text)) = (normalize_newlines text,false) := by
  have whole := pushText_whole text false
  rw [memberTokens,shown_append,shown_text,shown,if_pos rfl,shown]
  simp only [NewlineStream.push,pushText,List.append_nil]
  cases pending : (pushText false text).2 with
  | false =>
    rw [pending] at whole
    simpa using whole
  | true =>
    rw [pending] at whole
    simpa using whole

section Projecting
variable {edit : EditProjection}

theorem preview_append (updates more : List Update) : preview (updates ++ more) = preview updates ++ preview more := List.flatMap_append
theorem preview_update (content : List Char) : preview (contentUpdate content) = content := by
  rw [contentUpdate]
  split_ifs with none_
  · exact none_.symm
  · exact List.append_nil content
theorem event_shown (differ : edit.path_field ≠ edit.content_field) (event : StringFieldEvent) :
    (preview (edit.event event).2,(edit.event event).1.pending_cr) = shown edit.content_field edit.pending_cr (tokens [event]) ∧
      (edit.event event).1.path_field = edit.path_field ∧ (edit.event event).1.content_field = edit.content_field := by
  cases event with
  | Delta name text =>
    have reports : tokens [.Delta name text] = text.map (Token.Char name) := List.append_nil _
    rw [EditProjection.event,reports]
    by_cases isPath : name = edit.path_field
    · rw [if_pos isPath,shown_silent (isPath ▸ differ)]
      exact ⟨rfl,rfl,rfl⟩
    · by_cases isContent : name = edit.content_field
      · rw [if_neg isPath,if_pos isContent,isContent,shown_text]
        refine ⟨?_,rfl,rfl⟩
        simp [NewlineStream.push,preview_update]
      · rw [if_neg isPath,if_neg isContent,shown_silent isContent]
        exact ⟨rfl,rfl,rfl⟩
  | End name =>
    have reports : tokens [.End name] = [.End name] := rfl
    rw [EditProjection.event,reports,shown,shown]
    by_cases isPath : name = edit.path_field
    · rw [if_pos isPath,if_neg (isPath ▸ differ)]
      exact ⟨rfl,rfl,rfl⟩
    · by_cases isContent : name = edit.content_field
      · rw [if_neg isPath,if_pos isContent,if_pos isContent]
        exact ⟨by simp [preview_update],rfl,rfl⟩
      · rw [if_neg isPath,if_neg isContent,if_neg isContent]
        exact ⟨rfl,rfl,rfl⟩
theorem events_shown (events : List StringFieldEvent) : ∀ {edit : EditProjection}, edit.path_field ≠ edit.content_field →
    (preview (edit.events events).2,(edit.events events).1.pending_cr) = shown edit.content_field edit.pending_cr (tokens events) ∧
      (edit.events events).1.path_field = edit.path_field ∧ (edit.events events).1.content_field = edit.content_field ∧
      (edit.events events).1.fields = edit.fields := by
  induction events with
  | nil => exact fun _ => ⟨rfl,rfl,rfl,rfl⟩
  | cons event rest ih =>
    intro edit differ
    obtain ⟨head,path,content⟩ := event_shown differ event
    have differ' : (edit.event event).1.path_field ≠ (edit.event event).1.content_field := by rwa [path,content]
    obtain ⟨tail,path',content',fields'⟩ := ih differ'
    have fields : (edit.event event).1.fields = edit.fields := by
      cases event <;> rw [EditProjection.event] <;> split_ifs <;> rfl
    have split : tokens (event :: rest) = tokens [event] ++ tokens rest := tokens_append [event] rest
    rw [split,shown_append,← head,EditProjection.events,preview_append]
    refine ⟨?_,path'.trans path,content'.trans content,fields'.trans fields⟩
    rw [content] at tail
    rw [← tail]
theorem projectAll_shown (from_str : List Char → Except String (List Char)) : ∀ {chunks : List (List Char)} {edit : EditProjection}
    {batches : List (List StringFieldEvent)}, edit.path_field ≠ edit.content_field → pushAll from_str edit.fields chunks = .ok batches →
    ∃ updates, edit.projectAll from_str chunks = .ok updates ∧
      preview updates = (shown edit.content_field edit.pending_cr (tokens batches.flatten)).1 := by
  intro chunks
  induction chunks with
  | nil =>
    rintro edit batches - pushed
    cases pushed
    exact ⟨[],rfl,rfl⟩
  | cons chunk rest ih =>
    intro edit batches differ pushed
    rw [pushAll] at pushed
    cases first : JsonStream.push from_str edit.fields chunk with
    | error error =>
      rw [first] at pushed
      cases pushed
    | ok result =>
      obtain ⟨fields,events⟩ := result
      rw [first] at pushed
      cases others : pushAll from_str fields rest with
      | error error =>
        simp only [others] at pushed
        cases pushed
      | ok later =>
        simp only [others] at pushed
        cases pushed
        obtain ⟨now,path,content,same⟩ := @events_shown events { edit with fields } differ
        have differ' : (EditProjection.events { edit with fields } events).1.path_field ≠
            (EditProjection.events { edit with fields } events).1.content_field := by rwa [path,content]
        obtain ⟨updates,projected,after⟩ := ih differ' ((congrArg (pushAll from_str · rest) same).trans others)
        refine ⟨(EditProjection.events { edit with fields } events).2 ++ updates,?_,?_⟩
        · rw [EditProjection.projectAll,EditProjection.project,first]
          simp only [projected]
        · rw [List.flatten_cons,tokens_append,shown_append,preview_append,after,content]
          rw [← now]

end Projecting

theorem edits_differ {name : String} {path content : List Char} (isEdit : edits name = some (path,content)) : path ≠ content := by
  rw [edits] at isEdit
  split_ifs at isEdit
  all_goals
    cases isEdit
    decide

/-- What is shown while the arguments stream in is, in the end, the content that the edit has. -/
theorem preview_is_edit (from_str : List Char → Except String (List Char)) (decodes : Decodes from_str) {name : String}
    {path content : List Char} (isEdit : edits name = some (path,content)) {text value : List Char}
    {front back : List (List Char × Option (List Char))} (given : ObjectText text (front ++ (content,some value) :: back))
    (once : ∀ member ∈ front ++ back, member.1 ≠ content) {chunks : List (List Char)} (cut : chunks.flatten = text) :
    ∃ updates, (EditProjection.new path content).projectAll from_str chunks = .ok updates ∧
      preview updates = normalize_newlines value := by
  subst cut
  obtain ⟨last,runs⟩ := object_runs from_str decodes given
  obtain ⟨batches,pushed,reported⟩ := Runs.pushAll from_str runs
  obtain ⟨updates,projected,shows⟩ := @projectAll_shown from_str chunks (.new path content) batches (edits_differ isEdit) pushed
  refine ⟨updates,projected,?_⟩
  have frontOnce : ∀ member ∈ front, member.1 ≠ content := fun member isIn => once member (List.mem_append_left _ isIn)
  have backOnce : ∀ member ∈ back, member.1 ≠ content := fun member isIn => once member (List.mem_append_right _ isIn)
  rw [shows,reported,List.flatMap_append,List.flatMap_cons]
  simp only [EditProjection.new,shown_append,shown_others frontOnce,shown_member,shown_others backOnce,List.nil_append,List.append_nil]

def brokenText : List Char := ['{','"','c','o','n','t','e','n','t','s','"',':','"','\\','r','\\','n','"','}']
theorem preview_broken : ∃ updates, (EditProjection.new "path".toList "contents".toList).projectAll decodeString
    [brokenText.take 15,brokenText.drop 15] = .ok updates ∧ preview updates = normalize_newlines ['\r','\n'] := by
  have noBlank : Blank [] := by simp [Blank]
  have plain {c : Char} {rest text : List Char} (isPlain : c ≠ '"' ∧ c ≠ '\\' ∧ 0x20 ≤ c.toNat) (more : StringBody rest text) :
      StringBody (c :: rest) (c :: text) := StringBody.cons (.plain isPlain.1 isPlain.2.1 isPlain.2.2) more
  have key : StringBody "contents".toList "contents".toList :=
    plain (by decide) (plain (by decide) (plain (by decide) (plain (by decide) (plain (by decide) (plain (by decide) (plain (by decide)
      (plain (by decide) .nil)))))))
  have value : StringBody ['\\','r','\\','n'] ['\r','\n'] := .cons (.simple rfl) (.cons (.simple rfl) .nil)
  have given : ObjectText brokenText [("contents".toList,some ['\r','\n'])] :=
    ObjectText.members noBlank (JsonText.oneMember noBlank key noBlank noBlank (.string value) noBlank) noBlank
  have isEdit : edits "Write" = some ("path".toList,"contents".toList) := by decide
  exact @preview_is_edit decodeString (fun _ _ => decodeString_quoted) "Write" _ _ isEdit brokenText ['\r','\n'] [] [] given
    (fun _ isIn => absurd isIn List.not_mem_nil) _ (by decide)

end MyCursor.EditPreview

import MyCursor.Error
import MyCursor.JsonGrammar
import MyCursor.Text
import Mathlib.Tactic.Common

/-!
# String fields of a streamed JSON object

`cursor/protocol/json_stream.rs`: the arguments of a tool call arrive in
chunks, and `JsonStringFields` reports the text of each top-level string field
as it comes. Strings are lists of characters; `from_str` is what `serde_json`
reads a quoted string as.
-/
namespace MyCursor.JsonStream
open JsonGrammar Text

inductive StringFieldEvent where
  | Delta (name text : List Char)
  | End (name : List Char)
deriving DecidableEq

inductive State where
  | Object
  | Key
  | KeyString
  | Colon
  | Value
  | ValueString
  | SkipValue
  | AfterValue
  | Done
deriving DecidableEq

structure JsonString where
  escape : List Char := []
deriving DecidableEq

inductive StringStep where
  | Text (text : List Char)
  | End
  | Pending
deriving DecidableEq

structure SkippedValue where
  depth : Nat := 0
  string : Bool := false
  escaped : Bool := false
deriving DecidableEq

structure JsonStringFields where
  state : State := .Object
  key : List Char := []
  string : JsonString := {}
  skipped : SkippedValue := {}
deriving DecidableEq

def protocol (message : String) : Error := .Protocol message

def is_ascii_hexdigit (c : Char) : Bool := ('0' ≤ c && c ≤ '9') || ('a' ≤ c && c ≤ 'f') || ('A' ≤ c && c ≤ 'F')

/-- The UTF-8 bytes of a string, each as the character `b'_'` of its value. -/
def as_bytes (text : List Char) : List Char :=
  (text.flatMap String.utf8EncodeChar).map fun byte => Char.ofNat byte.toNat

def startsUnicode (bytes : List Char) : Bool := bytes.take 2 = ['\\','u']

/-- The arms of `JsonString::push` over the bytes of a non-empty escape:
    whether it is complete, or `none` when it is invalid. -/
def escapeComplete (bytes : List Char) : Option Bool :=
  if bytes.length = 6 && startsUnicode bytes && (bytes.drop 2).all is_ascii_hexdigit then
    (hexCode (bytes.drop 2)).map fun code => !isHighSurrogate code
  else if startsUnicode bytes && bytes.length < 6 then some false
  else if bytes.length = 12 && startsUnicode bytes && ((bytes.drop 2).take 4).all is_ascii_hexdigit &&
      startsUnicode (bytes.drop 6) && (bytes.drop 8).all is_ascii_hexdigit then some true
  else if startsUnicode bytes && bytes.length < 12 then some false
  else if bytes.length = 2 && bytes.take 1 = ['\\'] && (bytes.drop 1).all (['"','\\','/','b','f','n','r','t'].contains ·) then
    some true
  else if bytes = ['\\'] then some false
  else none

def JsonString.push (from_str : List Char → Except String (List Char)) (string : JsonString) (character : Char) :
    Except Error (StringStep × JsonString) :=
  if string.escape.isEmpty then
    if character = '"' then .ok (.End,string)
    else if character = '\\' then .ok (.Pending,⟨[character]⟩)
    else if character.toNat < 0x20 then .error (protocol "control character in JSON string")
    else .ok (.Text [character],string)
  else
    let escape := string.escape ++ [character]
    match escapeComplete (as_bytes escape) with
    | none => .error (protocol "invalid JSON string escape")
    | some false => .ok (.Pending,⟨escape⟩)
    | some true =>
      match from_str (quoted escape) with
      | .error error => .error (protocol s!"invalid JSON string escape: {error}")
      | .ok decoded => .ok (.Text decoded,⟨[]⟩)

def SkippedValue.observe (skipped : SkippedValue) (character : Char) : SkippedValue :=
  if skipped.string then
    if skipped.escaped then { skipped with escaped := false }
    else if character = '\\' then { skipped with escaped := true }
    else if character = '"' then { skipped with string := false }
    else skipped
  else if character = '"' then { skipped with string := true }
  else if character = '{' || character = '[' then { skipped with depth := skipped.depth + 1 }
  else if character = '}' || character = ']' then { skipped with depth := skipped.depth - 1 }
  else skipped

def SkippedValue.start (first : Char) : SkippedValue := ({} : SkippedValue).observe first

def SkippedValue.push (skipped : SkippedValue) (character : Char) : Option Char × SkippedValue :=
  if !skipped.string && skipped.depth = 0 && (character = ',' || character = '}') then (some character,skipped)
  else (none,skipped.observe character)

/-- A delta is joined to the last event when that is a delta of the same field. -/
def push_delta (events : List StringFieldEvent) (name text : List Char) : List StringFieldEvent :=
  match events.getLast? with
  | some (.Delta previous_name previous_text) =>
    if previous_name = name then events.dropLast ++ [.Delta previous_name (previous_text ++ text)]
    else events ++ [.Delta name text]
  | _ => events ++ [.Delta name text]

def consume (from_str : List Char → Except String (List Char)) (self : JsonStringFields) (character : Char)
    (events : List StringFieldEvent) : Except Error (JsonStringFields × List StringFieldEvent) :=
  match self.state with
  | .Object =>
    if character = '{' then .ok ({ self with state := .Key },events)
    else if is_whitespace character then .ok (self,events)
    else .error (protocol "tool arguments must start with an object")
  | .Key =>
    if character = '"' then .ok ({ self with key := [], string := ⟨[]⟩, state := .KeyString },events)
    else if character = '}' then .ok ({ self with state := .Done },events)
    else if is_whitespace character then .ok (self,events)
    else .error (protocol "expected a tool argument name")
  | .KeyString =>
    match self.string.push from_str character with
    | .error e => .error e
    | .ok (.Text text,string) => .ok ({ self with key := self.key ++ text, string },events)
    | .ok (.End,string) => .ok ({ self with state := .Colon, string },events)
    | .ok (.Pending,string) => .ok ({ self with string },events)
  | .Colon =>
    if character = ':' then .ok ({ self with state := .Value },events)
    else if is_whitespace character then .ok (self,events)
    else .error (protocol "expected ':' after tool argument name")
  | .Value =>
    if character = '"' then .ok ({ self with string := ⟨[]⟩, state := .ValueString },events)
    else if is_whitespace character then .ok (self,events)
    else .ok ({ self with skipped := SkippedValue.start character, state := .SkipValue },events)
  | .ValueString =>
    match self.string.push from_str character with
    | .error e => .error e
    | .ok (.Text text,string) => .ok ({ self with string },push_delta events self.key text)
    | .ok (.End,string) => .ok ({ self with state := .AfterValue, string },events ++ [.End self.key])
    | .ok (.Pending,string) => .ok ({ self with string },events)
  | .SkipValue =>
    match self.skipped.push character with
    | (none,skipped) => .ok ({ self with skipped },events)
    | (some terminal,skipped) =>
      if terminal = ',' then .ok ({ self with state := .Key, skipped },events)
      else if terminal = '}' then .ok ({ self with state := .Done, skipped },events)
      else .error (protocol "invalid skipped JSON value terminator")
  | .AfterValue =>
    if character = ',' then .ok ({ self with state := .Key },events)
    else if character = '}' then .ok ({ self with state := .Done },events)
    else if is_whitespace character then .ok (self,events)
    else .error (protocol "expected ',' after tool argument value")
  | .Done =>
    if is_whitespace character then .ok (self,events)
    else .error (protocol "data after tool arguments object")

def consumeAll (from_str : List Char → Except String (List Char)) :
    JsonStringFields → List StringFieldEvent → List Char → Except Error (JsonStringFields × List StringFieldEvent)
  | self, events, [] => .ok (self,events)
  | self, events, character :: rest =>
    match consume from_str self character events with
    | .error e => .error e
    | .ok (self,events) => consumeAll from_str self events rest

def push (from_str : List Char → Except String (List Char)) (self : JsonStringFields) (input : List Char) :
    Except Error (JsonStringFields × List StringFieldEvent) :=
  consumeAll from_str self [] input

def pushAll (from_str : List Char → Except String (List Char)) :
    JsonStringFields → List (List Char) → Except Error (List (List StringFieldEvent))
  | _, [] => .ok []
  | self, chunk :: rest =>
    match push from_str self chunk with
    | .error e => .error e
    | .ok (self,events) =>
      match pushAll from_str self rest with
      | .error e => .error e
      | .ok later => .ok (events :: later)

inductive Token where
  | Char (name : List Char) (c : Char)
  | End (name : List Char)
deriving DecidableEq

def tokens (events : List StringFieldEvent) : List Token :=
  events.flatMap fun
    | .Delta name text => text.map (Token.Char name)
    | .End name => [.End name]

/-- Joins the text of each field up to its end; `pending` is the field that
    has begun. There is no result when the text of a field is not ended, or is
    ended under another name. -/
def group : Option (List Char × List Char) → List Token → Option (List (List Char × List Char))
  | none, [] => some []
  | some _, [] => none
  | none, .Char name c :: rest => group (some (name,[c])) rest
  | some (open_,text), .Char name c :: rest => if name = open_ then group (some (open_,text ++ [c])) rest else none
  | none, .End name :: rest => (group none rest).map ((name,[]) :: ·)
  | some (open_,text), .End name :: rest => if name = open_ then (group none rest).map ((open_,text) :: ·) else none

/-- The fields that were reported, in order, each with its whole text. -/
def occurrences (events : List StringFieldEvent) : Option (List (List Char × List Char)) := group none (tokens events)

def endName : StringFieldEvent → Option (List Char)
  | .Delta _ _ => none
  | .End name => some name

theorem tokens_append (a b : List StringFieldEvent) : tokens (a ++ b) = tokens a ++ tokens b := by
  simp [tokens]

theorem tokens_push_delta (events : List StringFieldEvent) (name text : List Char) :
    tokens (push_delta events name text) = tokens events ++ text.map (Token.Char name) := by
  have added : tokens (events ++ [.Delta name text]) = tokens events ++ text.map (Token.Char name) := by
    simp [tokens]
  unfold push_delta
  cases last : events.getLast? with
  | none => exact added
  | some event =>
    cases event with
    | End other => exact added
    | Delta previous_name previous_text =>
      by_cases same : previous_name = name
      · have split := List.dropLast_append_getLast? _ last
        subst same
        simp only [if_true]
        conv_rhs => rw [← split]
        simp [tokens]
      · simp only [same,if_false]
        exact added

theorem filterMap_endName (events : List StringFieldEvent) : events.filterMap endName =
    (tokens events).filterMap fun | .Char _ _ => none | .End name => some name := by
  induction events with
  | nil => rfl
  | cons event rest ih =>
    cases event with
    | Delta name text =>
      have silent : (text.map (Token.Char name)).filterMap
          (fun | .Char _ _ => none | .End name => some name : Token → Option (List Char)) = [] := by
        simp
      simp only [tokens,List.flatMap_cons,List.filterMap_append,silent,List.nil_append]
      exact ih
    | End name =>
      simp only [tokens,List.flatMap_cons,List.singleton_append,List.filterMap_cons,endName]
      exact congrArg _ ih

def memberTokens : List Char × Option (List Char) → List Token
  | (_,none) => []
  | (name,some text) => text.map (Token.Char name) ++ [.End name]

theorem group_text (name text : List Char) : ∀ (pending : List Char) (rest : List Token),
    group (some (name,pending)) (text.map (Token.Char name) ++ .End name :: rest) =
      (group none rest).map ((name,pending ++ text) :: ·) := by
  induction text with
  | nil => intro pending rest; simp [group]
  | cons c more ih =>
    intro pending rest
    simp only [List.map_cons,List.cons_append,group,if_true,ih]
    simp

theorem group_members (members : List (List Char × Option (List Char))) :
    group none (members.flatMap memberTokens) = some (stringMembers members) := by
  induction members with
  | nil => rfl
  | cons member rest ih =>
    obtain ⟨name,string⟩ := member
    cases string with
    | none => simpa [memberTokens,stringMembers] using ih
    | some text =>
      rw [List.flatMap_cons,memberTokens,List.append_assoc,List.singleton_append]
      cases text with
      | nil => simp [group,ih,stringMembers]
      | cons c more => simp [group,group_text,ih,stringMembers]

theorem ends_members (members : List (List Char × Option (List Char))) :
    ((members.flatMap memberTokens).filterMap fun | .Char _ _ => none | .End name => some name) =
      (stringMembers members).map Prod.fst := by
  induction members with
  | nil => rfl
  | cons member rest ih =>
    obtain ⟨name,string⟩ := member
    cases string with
    | none => simpa [memberTokens,stringMembers] using ih
    | some text =>
      rw [List.flatMap_cons,List.filterMap_append,ih]
      simp [memberTokens,stringMembers]

section Reading
variable (from_str : List Char → Except String (List Char))

/-- The characters are read as a part of a string, and give the text. -/
inductive Reads : JsonString → List Char → JsonString → List Char → Prop where
  | nil (string : JsonString) : Reads string [] string []
  | pending {string next last : JsonString} {c : Char} {rest text : List Char}
      (first : string.push from_str c = .ok (.Pending,next)) (more : Reads next rest last text) :
    Reads string (c :: rest) last text
  | text {string next last : JsonString} {c : Char} {rest given text : List Char}
      (first : string.push from_str c = .ok (.Text given,next)) (more : Reads next rest last text) :
    Reads string (c :: rest) last (given ++ text)

theorem Reads.append {a b c : JsonString} {first second text more : List Char} (left : Reads from_str a first b text)
    (right : Reads from_str b second c more) : Reads from_str a (first ++ second) c (text ++ more) := by
  induction left with
  | nil => exact right
  | pending step _ ih => exact .pending step (ih right)
  | text step _ ih =>
    rw [List.append_assoc]
    exact .text step (ih right)

theorem as_bytes_ascii {text : List Char} (ascii : ∀ c ∈ text, c.toNat < 0x80) : as_bytes text = text := by
  induction text with
  | nil => rfl
  | cons c rest ih =>
    have small := ascii c (by simp)
    have encoded : String.utf8EncodeChar c = [c.toNat.toUInt8] := by
      have : c.toNat ≤ 0x7f := by omega
      simp [String.utf8EncodeChar,this]
    have back : Char.ofNat (c.toNat.toUInt8).toNat = c := by
      have : (c.toNat.toUInt8).toNat = c.toNat := by simp; omega
      rw [this,Char.ofNat_toNat]
    have later := ih fun c member => ascii c (List.mem_cons_of_mem _ member)
    simp only [as_bytes,List.flatMap_cons,List.map_append,encoded,List.map_cons,List.map_nil,back] at later ⊢
    rw [later]
    rfl

theorem reads_escape {rest : List Char} : ∀ {escape text : List Char}, escape ≠ [] → rest ≠ [] → (∀ c ∈ escape ++ rest, c.toNat < 0x80) →
    (∀ k, 0 < k → k < rest.length → escapeComplete (escape ++ rest.take k) = some false) →
    escapeComplete (escape ++ rest) = some true → from_str (quoted (escape ++ rest)) = .ok text →
    Reads from_str ⟨escape⟩ rest ⟨[]⟩ text := by
  induction rest with
  | nil => intro escape text _ nonempty; exact absurd rfl nonempty
  | cons c more ih =>
    intro escape text begun _ ascii incomplete complete decoded
    have open_ : escape.isEmpty = false := by simpa using begun
    have bytes : as_bytes (escape ++ [c]) = escape ++ [c] := by
      refine as_bytes_ascii fun d member => ascii d ?_
      rcases List.mem_append.mp member with old | new
      · exact List.mem_append_left _ old
      · exact List.mem_append_right _ (by simp [List.mem_singleton.mp new])
    cases more with
    | nil =>
      have done : JsonString.push from_str ⟨escape⟩ c = .ok (.Text text,⟨[]⟩) := by
        simp [JsonString.push,open_,bytes,complete,decoded]
      have whole := Reads.text done (.nil _)
      rwa [List.append_nil] at whole
    | cons d later =>
      have waiting := incomplete 1 (by omega) (by simp)
      simp only [List.take_succ_cons,List.take_zero] at waiting
      have pending : JsonString.push from_str ⟨escape⟩ c = .ok (.Pending,⟨escape ++ [c]⟩) := by
        simp [JsonString.push,open_,bytes,waiting]
      have joined : ∀ l, escape ++ [c] ++ l = escape ++ c :: l := by simp
      refine .pending pending (ih (by simp) (by simp) ?_ ?_ ?_ ?_)
      · rw [joined]; exact ascii
      · intro k positive within
        have := incomplete (k + 1) (by omega) (by simpa using within)
        rwa [List.take_succ_cons,← joined] at this
      · rw [joined]; exact complete
      · rw [joined]; exact decoded

theorem hexValue_some {c : Char} {n : Nat} (found : hexValue c = some n) : is_ascii_hexdigit c = true := by
  unfold hexValue at found
  unfold is_ascii_hexdigit
  split_ifs at found with digit lower upper
  · simp [digit]
  · simp [lower]
  · simp [upper]

theorem hexdigit_facts {c : Char} (hex : is_ascii_hexdigit c = true) : c.toNat < 0x80 ∧ c ≠ '"' ∧ c ≠ '\\' := by
  simp only [is_ascii_hexdigit,Bool.or_eq_true,Bool.and_eq_true,decide_eq_true_eq] at hex
  have below : c.toNat < 0x80 := by
    rcases hex with (⟨_,high⟩ | ⟨_,high⟩) | ⟨_,high⟩ <;> exact Nat.lt_of_le_of_lt high (by decide)
  refine ⟨below,?_,?_⟩ <;> (rintro rfl; revert hex; decide)

theorem hexCode_some {digits : List Char} {code : Nat} (found : hexCode digits = some code) :
    ∃ a b c d, digits = [a,b,c,d] ∧ is_ascii_hexdigit a = true ∧ is_ascii_hexdigit b = true ∧
      is_ascii_hexdigit c = true ∧ is_ascii_hexdigit d = true := by
  unfold hexCode at found
  split at found
  · rename_i a b c d
    simp only [Option.bind_eq_bind,Option.bind_eq_some_iff] at found
    obtain ⟨_,ha,_,hb,_,hc,_,hd,_⟩ := found
    exact ⟨a,b,c,d,rfl,hexValue_some ha,hexValue_some hb,hexValue_some hc,hexValue_some hd⟩
  · cases found

/-- `from_str` reads a quoted string as the grammar does. -/
def Decodes : Prop := ∀ body text, StringBody body text → from_str (quoted body) = .ok text

theorem unit_reads (decodes : Decodes from_str) {unit : List Char} {c : Char} (given : StringUnit unit c) :
    Reads from_str ⟨[]⟩ unit ⟨[]⟩ [c] := by
  have decoded : from_str (quoted unit) = .ok [c] := by
    have := decodes _ _ (StringBody.cons given .nil)
    rwa [List.append_nil] at this
  have begun : JsonString.push from_str ⟨[]⟩ '\\' = .ok (.Pending,⟨['\\']⟩) := rfl
  cases given with
  | plain noQuote noEscape noControl =>
    have read : JsonString.push from_str ⟨[]⟩ c = .ok (.Text [c],⟨[]⟩) := by
      simp [JsonString.push,noQuote,noEscape,Nat.not_lt.mpr noControl]
    exact Reads.text read (.nil _)
  | @simple e _ escape =>
    have known : e = '"' ∨ e = '\\' ∨ e = '/' ∨ e = 'b' ∨ e = 'f' ∨ e = 'n' ∨ e = 'r' ∨ e = 't' := by
      unfold simpleEscape at escape
      split at escape <;> simp_all
    refine .pending begun (reads_escape from_str (by simp) (by simp) ?_ ?_ ?_ decoded)
    · rcases known with rfl | rfl | rfl | rfl | rfl | rfl | rfl | rfl <;> simp
    · intro k positive within
      simp only [List.length_cons,List.length_nil] at within
      omega
    · rcases known with rfl | rfl | rfl | rfl | rfl | rfl | rfl | rfl <;> decide
  | @unicode digits code hex noHigh noLow =>
    obtain ⟨a,b,c,d,rfl,ha,hb,hc,hd⟩ := hexCode_some hex
    refine .pending begun (reads_escape from_str (by simp) (by simp) ?_ ?_ ?_ decoded)
    · simp [(hexdigit_facts ha).1,(hexdigit_facts hb).1,(hexdigit_facts hc).1,(hexdigit_facts hd).1]
    · intro k positive within
      simp only [List.length_cons,List.length_nil] at within
      have : k = 1 ∨ k = 2 ∨ k = 3 ∨ k = 4 := by omega
      rcases this with rfl | rfl | rfl | rfl <;> simp [escapeComplete,startsUnicode]
    · simp [escapeComplete,startsUnicode,ha,hb,hc,hd,hex,noHigh]
  | @pair first second high low firstHex secondHex isHigh isLow =>
    obtain ⟨a,b,c,d,rfl,ha,hb,hc,hd⟩ := hexCode_some firstHex
    obtain ⟨e,f,g,h,rfl,he,hf,hg,hh⟩ := hexCode_some secondHex
    refine .pending begun (reads_escape from_str (by simp) (by simp) ?_ ?_ ?_ decoded)
    · simp [(hexdigit_facts ha).1,(hexdigit_facts hb).1,(hexdigit_facts hc).1,(hexdigit_facts hd).1,
        (hexdigit_facts he).1,(hexdigit_facts hf).1,(hexdigit_facts hg).1,(hexdigit_facts hh).1]
    · intro k positive within
      have : k < 11 := within
      have : k = 1 ∨ k = 2 ∨ k = 3 ∨ k = 4 ∨ k = 5 ∨ k = 6 ∨ k = 7 ∨ k = 8 ∨ k = 9 ∨ k = 10 := by omega
      rcases this with rfl | rfl | rfl | rfl | rfl | rfl | rfl | rfl | rfl | rfl <;>
        simp [escapeComplete,startsUnicode,ha,hb,hc,hd,firstHex,isHigh]
    · simp [escapeComplete,startsUnicode,ha,hb,hc,hd,he,hf,hg,hh]

theorem body_reads (decodes : Decodes from_str) {body text : List Char} (given : StringBody body text) :
    Reads from_str ⟨[]⟩ body ⟨[]⟩ text := by
  induction given with
  | nil => exact .nil _
  | cons first _ ih => exact Reads.append from_str (unit_reads from_str decodes first) ih

end Reading

section Running
variable (from_str : List Char → Except String (List Char))

/-- Whatever was reported before, the character is accepted and adds the tokens. -/
def Step (self : JsonStringFields) (c : Char) (next : JsonStringFields) (added : List Token) : Prop :=
  ∀ events, ∃ after, consume from_str self c events = .ok (next,after) ∧ tokens after = tokens events ++ added

inductive Runs : JsonStringFields → List Char → JsonStringFields → List Token → Prop where
  | nil (self : JsonStringFields) : Runs self [] self []
  | cons {self next last : JsonStringFields} {c : Char} {rest : List Char} {added more : List Token}
      (first : Step from_str self c next added) (later : Runs next rest last more) :
    Runs self (c :: rest) last (added ++ more)

variable {self : JsonStringFields} {c : Char}

theorem step_silent {next : JsonStringFields}
    (consumed : ∀ events, consume from_str self c events = .ok (next,events)) : Step from_str self c next [] :=
  fun events => ⟨events,consumed events,by simp⟩

variable {last : JsonStringFields}

theorem Runs.silent {next : JsonStringFields} {rest : List Char} {more : List Token}
    (first : Step from_str self c next []) (later : Runs from_str next rest last more) :
    Runs from_str self (c :: rest) last more := Runs.cons first later
theorem Runs.one {next : JsonStringFields} {added : List Token} (first : Step from_str self c next added) :
    Runs from_str self [c] next added := by
  have := Runs.cons first (.nil next)
  rwa [List.append_nil] at this

variable {first second : List Char}

theorem Runs.append {a b c : JsonStringFields} {added more : List Token}
    (left : Runs from_str a first b added) (right : Runs from_str b second c more) :
    Runs from_str a (first ++ second) c (added ++ more) := by
  induction left with
  | nil => exact right
  | cons step _ ih =>
    rw [List.append_assoc]
    exact .cons step (ih right)
theorem Runs.before {a b c : JsonStringFields} {more : List Token}
    (left : Runs from_str a first b []) (right : Runs from_str b second c more) :
    Runs from_str a (first ++ second) c more := Runs.append from_str left right
theorem Runs.after {a b c : JsonStringFields} {added : List Token}
    (left : Runs from_str a first b added) (right : Runs from_str b second c []) :
    Runs from_str a (first ++ second) c added := by
  have := Runs.append from_str left right
  rwa [List.append_nil] at this

theorem Runs.split {all : List Token} (runs : Runs from_str self (first ++ second) last all) :
    ∃ middle added more, Runs from_str self first middle added ∧ Runs from_str middle second last more ∧ all = added ++ more := by
  induction first generalizing self all with
  | nil => exact ⟨self,[],all,.nil _,runs,rfl⟩
  | cons c rest ih =>
    cases runs with
    | cons step later =>
      obtain ⟨middle,added,more,left,right,rfl⟩ := ih later
      exact ⟨middle,_,more,.cons step left,right,by rw [List.append_assoc]⟩

variable {text : List Char}

theorem Runs.consumeAll {all : List Token} (runs : Runs from_str self text last all) : ∀ events, ∃ after,
      consumeAll from_str self events text = .ok (last,after) ∧ tokens after = tokens events ++ all := by
  induction runs with
  | nil => exact fun events => ⟨events,rfl,by simp⟩
  | cons step _ ih =>
    intro events
    obtain ⟨middle,consumed,first⟩ := step events
    obtain ⟨after,rest,second⟩ := ih middle
    refine ⟨after,?_,by rw [second,first,List.append_assoc]⟩
    simp only [JsonStream.consumeAll,consumed]
    exact rest

theorem Runs.pushAll {chunks : List (List Char)} {all : List Token} (runs : Runs from_str self chunks.flatten last all) :
    ∃ batches, pushAll from_str self chunks = .ok batches ∧ tokens batches.flatten = all := by
  induction chunks generalizing self all with
  | nil =>
    cases runs with
    | nil => exact ⟨[],rfl,rfl⟩
  | cons chunk rest ih =>
    rw [List.flatten_cons] at runs
    obtain ⟨middle,added,more,left,right,rfl⟩ := Runs.split from_str runs
    obtain ⟨events,pushed,first⟩ := Runs.consumeAll from_str left []
    obtain ⟨later,others,second⟩ := ih right
    refine ⟨events :: later,?_,?_⟩
    · simp only [JsonStream.pushAll,push,pushed,others]
    · rw [List.flatten_cons,tokens_append,first,second]
      rfl

variable {key : List Char} {string : JsonString} {skipped : SkippedValue}

theorem blank_cases (blank : isBlank c = true) : c = ' ' ∨ c = '\t' ∨ c = '\n' ∨ c = '\r' := by
  simpa [isBlank,or_assoc] using blank

def PassesBlanks (self : JsonStringFields) : Prop :=
  self.state = .Object ∨ self.state = .Key ∨ self.state = .Colon ∨ self.state = .Value ∨ self.state = .AfterValue ∨
    self.state = .Done ∨ (self.state = .SkipValue ∧ self.skipped.string = false)

theorem blank_step (passes : PassesBlanks self) (blank : isBlank c = true) : Step from_str self c self [] := by
  refine step_silent from_str fun events => ?_
  obtain ⟨state,key,string,skipped⟩ := self
  rcases passes with rfl | rfl | rfl | rfl | rfl | rfl | ⟨rfl,inString⟩
  case inr.inr.inr.inr.inr.inr =>
    obtain ⟨depth,inside,escaped⟩ := skipped
    obtain rfl : inside = false := inString
    rcases blank_cases blank with rfl | rfl | rfl | rfl <;> simp [consume,SkippedValue.push,SkippedValue.observe]
  all_goals rcases blank_cases blank with rfl | rfl | rfl | rfl <;> simp [consume,is_whitespace]

theorem blank_runs (passes : PassesBlanks self) (blank : Blank text) : Runs from_str self text self [] := by
  induction text with
  | nil => exact .nil self
  | cons c rest ih =>
    exact Runs.silent from_str (blank_step from_str passes (blank c (by simp)))
      (ih fun c member => blank c (List.mem_cons_of_mem _ member))

theorem key_runs {given : List Char} {last : JsonString} (reads : Reads from_str string given last text) :
    Runs from_str ⟨.KeyString,key,string,skipped⟩ given ⟨.KeyString,key ++ text,last,skipped⟩ [] := by
  induction reads generalizing key with
  | nil => rw [List.append_nil]; exact .nil _
  | pending first _ ih =>
    refine Runs.silent from_str (step_silent from_str fun events => ?_) ih
    simp only [consume,first]
  | @text string next last c rest given text first _ ih =>
    rw [← List.append_assoc]
    refine Runs.silent from_str (step_silent from_str fun events => ?_) ih
    simp only [consume,first]

theorem value_runs {given : List Char} {last : JsonString} (reads : Reads from_str string given last text) :
    Runs from_str ⟨.ValueString,key,string,skipped⟩ given ⟨.ValueString,key,last,skipped⟩ (text.map (Token.Char key)) := by
  induction reads with
  | nil => exact .nil _
  | pending first _ ih =>
    refine Runs.silent from_str (step_silent from_str fun events => ?_) ih
    simp only [consume,first]
  | @text string next last c rest given text first _ ih =>
    rw [List.map_append]
    refine .cons (fun events => ⟨push_delta events key given,?_,tokens_push_delta events key given⟩) ih
    simp only [consume,first]

/-! ## Values that are skipped -/

variable {depth : Nat}

def skipping (key : List Char) (string : JsonString) (skipped : SkippedValue) : JsonStringFields :=
  ⟨.SkipValue,key,string,skipped⟩

def isPlain (c : Char) : Bool := !(['"','{','[','}',']',','].contains c)

theorem plain_facts (plain : isPlain c = true) : c ≠ '"' ∧ c ≠ '{' ∧ c ≠ '[' ∧ c ≠ '}' ∧ c ≠ ']' ∧ c ≠ ',' := by
  simpa [isPlain] using plain

theorem observe_step (key : List Char) (string : JsonString) (skipped : SkippedValue) (c : Char)
    (goesOn : skipped.string = true ∨ 0 < skipped.depth ∨ (c ≠ ',' ∧ c ≠ '}')) :
    Step from_str (skipping key string skipped) c (skipping key string (skipped.observe c)) [] := by
  have continues : skipped.push c = (none,skipped.observe c) := by
    unfold SkippedValue.push
    rw [if_neg]
    rcases goesOn with inString | deep | ⟨noComma,noBrace⟩
    · simp [inString]
    · simp [Nat.pos_iff_ne_zero.mp deep]
    · simp [noComma,noBrace]
  refine step_silent from_str fun events => ?_
  simp only [consume,skipping,continues]

theorem plain_runs (plain : ∀ c ∈ text, isPlain c = true) :
    Runs from_str (skipping key string ⟨depth,false,false⟩) text (skipping key string ⟨depth,false,false⟩) [] := by
  induction text with
  | nil => exact .nil _
  | cons c rest ih =>
    obtain ⟨noQuote,noOpen,noBracket,noClose,noEnd,noComma⟩ := plain_facts (plain c (by simp))
    have step := observe_step from_str key string ⟨depth,false,false⟩ c
      (.inr (.inr ⟨noComma,noClose⟩))
    have unchanged : SkippedValue.observe ⟨depth,false,false⟩ c = ⟨depth,false,false⟩ := by
      simp [SkippedValue.observe,noQuote,noOpen,noBracket,noClose,noEnd]
    rw [unchanged] at step
    exact Runs.silent from_str step (ih fun c member => plain c (List.mem_cons_of_mem _ member))

theorem inside_runs (inside : ∀ c ∈ text, c ≠ '"' ∧ c ≠ '\\') :
    Runs from_str (skipping key string ⟨depth,true,false⟩) text (skipping key string ⟨depth,true,false⟩) [] := by
  induction text with
  | nil => exact .nil _
  | cons c rest ih =>
    obtain ⟨noQuote,noEscape⟩ := inside c (by simp)
    have step := observe_step from_str key string ⟨depth,true,false⟩ c (.inl rfl)
    have unchanged : SkippedValue.observe ⟨depth,true,false⟩ c = ⟨depth,true,false⟩ := by
      simp [SkippedValue.observe,noQuote,noEscape]
    rw [unchanged] at step
    exact Runs.silent from_str step (ih fun c member => inside c (List.mem_cons_of_mem _ member))

theorem escaped_runs {e : Char} {rest : List Char} (inside : ∀ c ∈ rest, c ≠ '"' ∧ c ≠ '\\') :
    Runs from_str (skipping key string ⟨depth,true,false⟩) ('\\' :: e :: rest) (skipping key string ⟨depth,true,false⟩) [] :=
  Runs.silent from_str (observe_step from_str _ _ _ _ (.inl rfl))
    (Runs.silent from_str (observe_step from_str _ _ _ _ (.inl rfl)) (inside_runs from_str inside))

theorem hexdigits_inside {digits : List Char} {code : Nat} (hex : hexCode digits = some code) : ∀ c ∈ digits, c ≠ '"' ∧ c ≠ '\\' := by
  obtain ⟨a,b,c,d,rfl,ha,hb,hc,hd⟩ := hexCode_some hex
  simp [hexdigit_facts ha,hexdigit_facts hb,hexdigit_facts hc,hexdigit_facts hd]

theorem unit_skipped {unit : List Char} (given : StringUnit unit c) :
    Runs from_str (skipping key string ⟨depth,true,false⟩) unit (skipping key string ⟨depth,true,false⟩) [] := by
  cases given with
  | plain noQuote noEscape _ => exact inside_runs from_str (by simp [noQuote,noEscape])
  | simple _ => exact escaped_runs from_str (by simp)
  | unicode hex _ _ => exact escaped_runs from_str (hexdigits_inside hex)
  | pair firstHex secondHex _ _ =>
    exact Runs.before from_str (escaped_runs from_str (hexdigits_inside firstHex))
      (escaped_runs from_str (hexdigits_inside secondHex))

theorem string_skipped {body : List Char} (given : StringBody body text) :
    Runs from_str (skipping key string ⟨depth,false,false⟩) (quoted body) (skipping key string ⟨depth,false,false⟩) [] := by
  have inner : Runs from_str (skipping key string ⟨depth,true,false⟩) body (skipping key string ⟨depth,true,false⟩) [] := by
    induction given with
    | nil => exact .nil _
    | cons first _ ih => exact Runs.before from_str (unit_skipped from_str first) ih
  exact Runs.silent from_str (observe_step from_str _ _ _ _ (.inr (.inr (by decide))))
    (Runs.before from_str inner (Runs.one from_str (observe_step from_str _ _ _ _ (.inl rfl))))

theorem blank_plain (blank : Blank text) : ∀ c ∈ text, isPlain c = true := by
  intro c member
  rcases blank_cases (blank c member) with rfl | rfl | rfl | rfl <;> decide

def isNumberChar (c : Char) : Bool := ('0' ≤ c && c ≤ '9') || ['-','+','.','e','E'].contains c

theorem numberChar_plain (given : isNumberChar c = true) : isPlain c = true := by
  cases plain : isPlain c with
  | true => rfl
  | false =>
    have special : c = '"' ∨ c = '{' ∨ c = '[' ∨ c = '}' ∨ c = ']' ∨ c = ',' := by
      simp [isPlain] at plain
      tauto
    rcases special with rfl | rfl | rfl | rfl | rfl | rfl <;> exact absurd given (by decide)

theorem number_chars {word : List Char} (given : NumberText word) : ∀ c ∈ word, isNumberChar c = true := by
  have digit : ∀ {c : Char}, '0' ≤ c ∧ c ≤ '9' → isNumberChar c = true := by
    intro c bounds
    simp [isNumberChar,bounds]
  obtain ⟨signed,integer,fraction,exponent⟩ := given
  rename_i sign int frac exp
  have signChars : ∀ c ∈ sign, isNumberChar c = true := by
    rcases signed with rfl | rfl <;> exact List.all_eq_true.mp (by decide)
  have intChars : ∀ c ∈ int, isNumberChar c = true := by
    cases integer with
    | zero => exact List.all_eq_true.mp (by decide)
    | @positive first rest nonzero digits =>
      intro c member
      rcases List.mem_cons.mp member with rfl | later
      · exact digit ⟨Char.le_trans (by decide) nonzero.1,nonzero.2⟩
      · exact digit (digits c later)
  have fracChars : ∀ c ∈ frac, isNumberChar c = true := by
    cases fraction with
    | absent => simp
    | present given =>
      intro c member
      rcases List.mem_cons.mp member with rfl | later
      · decide
      · exact digit (given.2 c later)
  have expChars : ∀ c ∈ exp, isNumberChar c = true := by
    cases exponent with
    | absent => simp
    | @present e sign digits letter signed given =>
      intro c member
      rcases List.mem_append.mp member with front | later
      · rcases List.mem_cons.mp front with rfl | inSign
        · rcases letter with rfl | rfl <;> decide
        · rcases signed with rfl | rfl | rfl
          · simp at inSign
          · rw [List.mem_singleton.mp inSign]; decide
          · rw [List.mem_singleton.mp inSign]; decide
      · exact digit (given.2 c later)
  intro c member
  simp only [List.mem_append] at member
  rcases member with ((inSign | inInt) | inFrac) | inExp
  · exact signChars c inSign
  · exact intChars c inInt
  · exact fracChars c inFrac
  · exact expChars c inExp

theorem number_ne_nil {word : List Char} (given : NumberText word) : word ≠ [] := by
  cases given with
  | intro _ integer _ _ => cases integer <;> simp

theorem literal_plain {word : List Char} (known : word = "null".toList ∨ word = "true".toList ∨ word = "false".toList) :
    ∀ c ∈ word, isPlain c = true := by
  rcases known with rfl | rfl | rfl <;> exact List.all_eq_true.mp (by decide)

theorem nested_skipped {part : Part} (given : JsonText part text) : ∀ {key : List Char} {string : JsonString} {depth : Nat},
      Runs from_str (skipping key string ⟨depth + 1,false,false⟩) text (skipping key string ⟨depth + 1,false,false⟩) [] := by
  -- An opening and a closing character around a text that keeps the depth.
  have enclosed : ∀ {open_ close : Char} {inner key : List Char} {string : JsonString} {depth : Nat},
      SkippedValue.observe ⟨depth + 1,false,false⟩ open_ = ⟨depth + 1 + 1,false,false⟩ →
      SkippedValue.observe ⟨depth + 1 + 1,false,false⟩ close = ⟨depth + 1,false,false⟩ →
      Runs from_str (skipping key string ⟨depth + 1 + 1,false,false⟩) inner
        (skipping key string ⟨depth + 1 + 1,false,false⟩) [] →
      Runs from_str (skipping key string ⟨depth + 1,false,false⟩) (open_ :: (inner ++ [close]))
        (skipping key string ⟨depth + 1,false,false⟩) [] := by
    intro open_ close inner key string depth opened closed runs
    have first := observe_step from_str key string ⟨depth + 1,false,false⟩ open_
      (.inr (.inl (by simp)))
    have last := observe_step from_str key string ⟨depth + 1 + 1,false,false⟩ close
      (.inr (.inl (by simp)))
    rw [opened] at first
    rw [closed] at last
    exact Runs.silent from_str first (Runs.before from_str runs (Runs.one from_str last))
  have comma : ∀ {key : List Char} {string : JsonString} {depth : Nat},
      Step from_str (skipping key string ⟨depth + 1,false,false⟩) ',' (skipping key string ⟨depth + 1,false,false⟩) [] := by
    intro key string depth
    exact observe_step from_str _ _ _ _ (.inr (.inl (by simp)))
  have head : ∀ {before keyText name middle key : List Char} {string : JsonString} {depth : Nat}, Blank before →
      StringBody keyText name → Blank middle →
      Runs from_str (skipping key string ⟨depth + 1,false,false⟩) (memberHead before keyText middle)
        (skipping key string ⟨depth + 1,false,false⟩) [] := by
    intro before keyText name middle key string depth blankBefore keyGiven blankMiddle
    exact Runs.before from_str (Runs.before from_str (Runs.before from_str (plain_runs from_str (blank_plain blankBefore))
      (string_skipped from_str keyGiven)) (plain_runs from_str (blank_plain blankMiddle)))
      (plain_runs from_str (List.all_eq_true.mp (by decide)))
  induction given with
  | literal known => exact plain_runs from_str (literal_plain known)
  | number given => exact plain_runs from_str fun c member => numberChar_plain (number_chars given c member)
  | string given => exact string_skipped from_str given
  | emptyArray blank => exact enclosed rfl rfl (plain_runs from_str (blank_plain blank))
  | array _ ih => exact enclosed rfl rfl ih
  | emptyObject blank => exact enclosed rfl rfl (plain_runs from_str (blank_plain blank))
  | object _ ih => exact enclosed rfl rfl ih
  | oneElement blankBefore _ blankAfter ih =>
    exact Runs.before from_str (plain_runs from_str (blank_plain blankBefore))
      (Runs.before from_str ih (plain_runs from_str (blank_plain blankAfter)))
  | elements blankBefore _ blankAfter _ ih laterIh =>
    exact Runs.before from_str (plain_runs from_str (blank_plain blankBefore))
      (Runs.before from_str ih (Runs.before from_str (plain_runs from_str (blank_plain blankAfter))
        (Runs.silent from_str comma laterIh)))
  | oneMember blankBefore keyGiven blankMiddle blankBetween _ blankAfter ih =>
    exact Runs.before from_str (head blankBefore keyGiven blankMiddle)
      (Runs.before from_str (plain_runs from_str (blank_plain blankBetween))
        (Runs.before from_str ih (plain_runs from_str (blank_plain blankAfter))))
  | members blankBefore keyGiven blankMiddle blankBetween _ blankAfter _ ih laterIh =>
    exact Runs.before from_str (head blankBefore keyGiven blankMiddle)
      (Runs.before from_str (plain_runs from_str (blank_plain blankBetween))
        (Runs.before from_str ih (Runs.before from_str (plain_runs from_str (blank_plain blankAfter))
          (Runs.silent from_str comma laterIh))))

/-! ## The members of the object -/

def AtEnd (self : JsonStringFields) : Prop :=
  self.state = .AfterValue ∨ (self.state = .SkipValue ∧ self.skipped = {})

theorem AtEnd.passesBlanks (ended : AtEnd self) : PassesBlanks self := by
  rcases ended with after | ⟨skip,clear⟩
  · exact .inr (.inr (.inr (.inr (.inl after))))
  · exact .inr (.inr (.inr (.inr (.inr (.inr ⟨skip,by rw [clear]⟩)))))

theorem AtEnd.comma (ended : AtEnd self) : Step from_str self ',' { self with state := .Key } [] := by
  obtain ⟨state,key,string,skipped⟩ := self
  refine step_silent from_str fun events => ?_
  rcases ended with rfl | ⟨rfl,rfl⟩ <;> rfl
theorem AtEnd.brace (ended : AtEnd self) : Step from_str self '}' { self with state := .Done } [] := by
  obtain ⟨state,key,string,skipped⟩ := self
  refine step_silent from_str fun events => ?_
  rcases ended with rfl | ⟨rfl,rfl⟩ <;> rfl

/-- A value that is not a string begins with a character other than a quote or
    a blank, and the rest of it is skipped. -/
theorem value_skipped {value : List Char} (given : JsonText (.Value none) value) :
    ∃ first rest, value = first :: rest ∧ first ≠ '"' ∧ is_whitespace first = false ∧ ∀ {key : List Char} {string : JsonString},
        Runs from_str (skipping key string (SkippedValue.start first)) rest (skipping key string {}) [] := by
  -- A word of plain characters, and a text in brackets.
  have word : ∀ {first : Char} {rest : List Char}, isPlain first = true → (∀ c ∈ rest, isPlain c = true) →
      ∀ {key : List Char} {string : JsonString},
        Runs from_str (skipping key string (SkippedValue.start first)) rest (skipping key string {}) [] := by
    intro first rest plain plainRest key string
    obtain ⟨noQuote,noOpen,noBracket,noClose,noEnd,_⟩ := plain_facts plain
    have started : SkippedValue.start first = ⟨0,false,false⟩ := by
      simp [SkippedValue.start,SkippedValue.observe,noQuote,noOpen,noBracket,noClose,noEnd]
    rw [started]
    exact plain_runs from_str plainRest
  have enclosed : ∀ {close : Char} {inner key : List Char} {string : JsonString},
      SkippedValue.observe ⟨1,false,false⟩ close = ⟨0,false,false⟩ →
      Runs from_str (skipping key string ⟨1,false,false⟩) inner (skipping key string ⟨1,false,false⟩) [] →
      Runs from_str (skipping key string ⟨1,false,false⟩) (inner ++ [close]) (skipping key string {}) [] := by
    intro close inner key string closed runs
    have last := observe_step from_str key string ⟨1,false,false⟩ close (.inr (.inl (by simp)))
    rw [closed] at last
    exact Runs.before from_str runs (Runs.one from_str last)
  cases given with
  | literal known =>
    have plain := literal_plain known
    rcases known with rfl | rfl | rfl
    all_goals exact ⟨_,_,rfl,by decide,by decide,word (plain _ (by decide)) fun c member =>
      plain c (List.mem_cons_of_mem _ member)⟩
  | number given =>
    have chars := number_chars given
    cases value with
    | nil => exact absurd rfl (number_ne_nil given)
    | cons first rest =>
      have plain := fun c member => numberChar_plain (chars c member)
      have digit := chars first (by simp)
      refine ⟨first,rest,rfl,(plain_facts (plain first (by simp))).1,?_,word (plain first (by simp)) fun c member =>
        plain c (List.mem_cons_of_mem _ member)⟩
      simp only [isNumberChar,Bool.or_eq_true,Bool.and_eq_true,decide_eq_true_eq] at digit
      rcases digit with ⟨low,high⟩ | sign
      · have low : 48 ≤ first.toNat := low
        have high : first.toNat ≤ 57 := high
        simp only [is_whitespace,Bool.or_eq_false_iff,Bool.and_eq_false_iff,decide_eq_false_iff_not]
        omega
      · have : first = '-' ∨ first = '+' ∨ first = '.' ∨ first = 'e' ∨ first = 'E' := by simpa using sign
        rcases this with rfl | rfl | rfl | rfl | rfl <;> decide
  | emptyArray blank => exact ⟨_,_,rfl,by decide,by decide,enclosed rfl (plain_runs from_str (blank_plain blank))⟩
  | array inner => exact ⟨_,_,rfl,by decide,by decide,enclosed rfl (nested_skipped from_str inner)⟩
  | emptyObject blank => exact ⟨_,_,rfl,by decide,by decide,enclosed rfl (plain_runs from_str (blank_plain blank))⟩
  | object inner => exact ⟨_,_,rfl,by decide,by decide,enclosed rfl (nested_skipped from_str inner)⟩

variable (decodes : Decodes from_str)
include decodes

theorem member_value {string : Option (List Char)} {value : List Char} (given : JsonText (.Value string) value)
    {name : List Char} {buffer : JsonString} :
    ∃ last, AtEnd last ∧ Runs from_str ⟨.Value,name,buffer,skipped⟩ value last (memberTokens (name,string)) := by
  cases string with
  | some text =>
    cases given with
    | @string body _ given =>
      refine ⟨⟨.AfterValue,name,⟨[]⟩,skipped⟩,.inl rfl,?_⟩
      have opened : Step from_str ⟨.Value,name,buffer,skipped⟩ '"' ⟨.ValueString,name,⟨[]⟩,skipped⟩ [] :=
        step_silent from_str fun events => rfl
      have closed : Step from_str ⟨.ValueString,name,⟨[]⟩,skipped⟩ '"' ⟨.AfterValue,name,⟨[]⟩,skipped⟩ [.End name] :=
        fun events => ⟨events ++ [.End name],rfl,tokens_append events [.End name]⟩
      exact Runs.silent from_str opened
        (Runs.append from_str (value_runs from_str (body_reads from_str decodes given)) (Runs.one from_str closed))
  | none =>
    obtain ⟨first,rest,rfl,noQuote,noBlank,runs⟩ := value_skipped from_str given
    refine ⟨skipping name buffer {},.inr ⟨rfl,rfl⟩,?_⟩
    have opened : Step from_str ⟨.Value,name,buffer,skipped⟩ first (skipping name buffer (SkippedValue.start first)) [] := by
      refine step_silent from_str fun events => ?_
      simp [consume,noQuote,noBlank,skipping]
    exact Runs.silent from_str opened runs

theorem member_head {before keyText name middle : List Char} (blankBefore : Blank before)
    (keyGiven : StringBody keyText name) (blankMiddle : Blank middle) :
    Runs from_str ⟨.Key,key,string,skipped⟩ (memberHead before keyText middle) ⟨.Value,name,⟨[]⟩,skipped⟩ [] := by
  have opened : Step from_str ⟨.Key,key,string,skipped⟩ '"' ⟨.KeyString,[],⟨[]⟩,skipped⟩ [] :=
    step_silent from_str fun events => rfl
  have closed : Step from_str ⟨.KeyString,name,⟨[]⟩,skipped⟩ '"' ⟨.Colon,name,⟨[]⟩,skipped⟩ [] :=
    step_silent from_str fun events => rfl
  have colon : Step from_str ⟨.Colon,name,⟨[]⟩,skipped⟩ ':' ⟨.Value,name,⟨[]⟩,skipped⟩ [] :=
    step_silent from_str fun events => rfl
  have quotedKey : Runs from_str ⟨.Key,key,string,skipped⟩ (quoted keyText) ⟨.Colon,name,⟨[]⟩,skipped⟩ [] :=
    Runs.silent from_str opened
      (Runs.before from_str (key_runs from_str (body_reads from_str decodes keyGiven)) (Runs.one from_str closed))
  exact Runs.before from_str (Runs.before from_str (Runs.before from_str
    (blank_runs from_str (.inr (.inl rfl)) blankBefore) quotedKey)
    (blank_runs from_str (.inr (.inr (.inl rfl))) blankMiddle)) (Runs.one from_str colon)

theorem members_run {part : Part} {inner : List Char} (given : JsonText part inner) : ∀ members, part = .Members members →
    ∀ {key : List Char} {string : JsonString} {skipped : SkippedValue},
      ∃ last, AtEnd last ∧ Runs from_str ⟨.Key,key,string,skipped⟩ inner last (members.flatMap memberTokens) := by
  have valueBlanks : ∀ {name : List Char} {string : JsonString} {skipped : SkippedValue},
      PassesBlanks ⟨.Value,name,string,skipped⟩ := .inr (.inr (.inr (.inl rfl)))
  induction given with
  | literal | number | string | emptyArray | array | emptyObject | object | oneElement | elements =>
    rintro members ⟨⟩
  | @oneMember _ _ name _ _ _ _ string blankBefore keyGiven blankMiddle blankBetween given blankAfter _ =>
    rintro members ⟨⟩ key buffer skipped
    obtain ⟨last,ended,runs⟩ := member_value from_str decodes given
    refine ⟨last,ended,?_⟩
    rw [List.flatMap_singleton]
    exact Runs.before from_str (member_head from_str decodes blankBefore keyGiven blankMiddle)
      (Runs.before from_str (blank_runs from_str valueBlanks blankBetween)
        (Runs.after from_str runs (blank_runs from_str ended.passesBlanks blankAfter)))
  | @members _ _ name _ _ _ _ _ string more blankBefore keyGiven blankMiddle blankBetween given blankAfter _ _ laterIh =>
    rintro members ⟨⟩ key buffer skipped
    obtain ⟨middle,ended,runs⟩ := member_value from_str decodes given
    obtain ⟨last,lastEnded,later⟩ := @laterIh more rfl middle.key middle.string middle.skipped
    refine ⟨last,lastEnded,?_⟩
    rw [List.flatMap_cons]
    exact Runs.before from_str (member_head from_str decodes blankBefore keyGiven blankMiddle)
      (Runs.before from_str (blank_runs from_str valueBlanks blankBetween)
        (Runs.append from_str runs (Runs.before from_str (blank_runs from_str ended.passesBlanks blankAfter)
          (Runs.silent from_str (ended.comma from_str) later))))

theorem object_runs {members : List (List Char × Option (List Char))} (given : ObjectText text members) :
    ∃ last, Runs from_str {} text last (members.flatMap memberTokens) := by
  have opened : Step from_str {} '{' ⟨.Key,[],{},{}⟩ [] := step_silent from_str fun events => rfl
  have doneBlanks : ∀ {key : List Char} {string : JsonString} {skipped : SkippedValue},
      PassesBlanks ⟨.Done,key,string,skipped⟩ := .inr (.inr (.inr (.inr (.inr (.inl rfl)))))
  cases given with
  | empty blankBefore blank blankAfter =>
    have closed : Step from_str ⟨.Key,[],{},{}⟩ '}' ⟨.Done,[],{},{}⟩ [] := step_silent from_str fun events => rfl
    exact ⟨_,Runs.before from_str (blank_runs from_str (.inl rfl) blankBefore) (Runs.silent from_str opened
      (Runs.before from_str (blank_runs from_str (.inr (.inl rfl)) blank)
        (Runs.silent from_str closed (blank_runs from_str doneBlanks blankAfter))))⟩
  | members blankBefore given blankAfter =>
    obtain ⟨last,ended,runs⟩ := @members_run from_str decodes _ _ given _ rfl [] {} {}
    exact ⟨_,Runs.before from_str (blank_runs from_str (.inl rfl) blankBefore) (Runs.silent from_str opened
      (Runs.after from_str runs (Runs.silent from_str (ended.brace from_str)
        (blank_runs from_str doneBlanks blankAfter))))⟩

end Running

/-- For every text that `serde_json` accepts as an object and every cutting
    into chunks, the stream reports the top-level string fields as the text
    has them, each with one end. -/
theorem string_fields_agree (from_str : List Char → Except String (List Char)) (decodes : Decodes from_str)
    (accepts : List Char → Bool) (conforms : ∀ text, accepts text = true → ∃ members, ObjectText text members)
    (text : List Char) (accepted : accepts text = true) :
    (∃ members, ObjectText text members) ∧ ∀ members, ObjectText text members → ∀ chunks : List (List Char), chunks.flatten = text →
        ∃ batches, pushAll from_str {} chunks = .ok batches ∧ occurrences batches.flatten = some (stringMembers members) ∧
          batches.flatten.filterMap endName = (stringMembers members).map Prod.fst := by
  refine ⟨conforms text accepted,?_⟩
  rintro members given chunks rfl
  obtain ⟨last,runs⟩ := object_runs from_str decodes given
  obtain ⟨batches,pushed,reported⟩ := Runs.pushAll from_str runs
  refine ⟨batches,pushed,?_,?_⟩
  · rw [occurrences,reported,group_members]
  · rw [filterMap_endName,reported,ends_members]

/-- An object with a smiley, a list and a second field of the same name. -/
def smileyFields : List (List Char × Option (List Char)) := [(['a'],some ['😀']),(['b'],none),(['a'],some [])]
def smileyText : List Char :=
  ['{','"','a','"',':','"','\\','u','d','8','3','d','\\','u','d','e','0','0','"',',',
   '"','b','"',':','[','1',']',',','"','a','"',':','"','"','}']

theorem smileyText_object : ObjectText smileyText smileyFields := by
  have noBlank : Blank [] := by simp [Blank]
  have letter : ∀ c ∈ ['a','b'], StringBody [c] [c] := by
    intro c member
    have known : c = 'a' ∨ c = 'b' := by simpa using member
    rcases known with rfl | rfl <;> exact .cons (.plain (by decide) (by decide) (by decide)) .nil
  have smiley : StringBody ['\\','u','d','8','3','d','\\','u','d','e','0','0'] ['😀'] :=
    .cons (@StringUnit.pair ['d','8','3','d'] ['d','e','0','0'] 0xd83d 0xde00 rfl rfl rfl rfl) .nil
  have one : JsonText (.Value none) ['1'] := .number (@NumberText.intro [] ['1'] [] [] (.inl rfl)
    (.positive (by decide) (by simp)) .absent .absent)
  have third := JsonText.oneMember noBlank (letter 'a' (by simp)) noBlank noBlank (.string .nil) noBlank
  have second := JsonText.members noBlank (letter 'b' (by simp)) noBlank noBlank
    (.array (.oneElement noBlank one noBlank)) noBlank third
  exact ObjectText.members noBlank (JsonText.members noBlank (letter 'a' (by simp)) noBlank noBlank
    (.string smiley) noBlank second) noBlank

/-- The text cut inside the surrogate pair. -/
theorem string_fields_agree_smiley : ∃ batches, pushAll decodeString {} [smileyText.take 13,smileyText.drop 13] = .ok batches ∧
      occurrences batches.flatten = some [(['a'],['😀']),(['a'],[])] ∧
      batches.flatten.filterMap endName = [['a'],['a']] :=
  (string_fields_agree decodeString (fun _ _ => decodeString_quoted) (· = smileyText)
    (fun text same => ⟨smileyFields,by rw [of_decide_eq_true same]; exact smileyText_object⟩) smileyText (by simp)).2
    smileyFields smileyText_object [smileyText.take 13,smileyText.drop 13] (by decide)

end MyCursor.JsonStream

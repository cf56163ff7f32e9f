import Mathlib.Data.List.Basic

/-!
# The grammar of JSON texts

RFC 8259 over lists of characters, with the value that a string stands for.
A text is derived as one of three parts: a value, the elements of an array, or
the members of an object. Of a value only the string is kept, because that is
all that readers of single fields need.
-/
namespace MyCursor.JsonGrammar

def hexValue (c : Char) : Option Nat :=
  if '0' ≤ c ∧ c ≤ '9' then some (c.toNat - '0'.toNat)
  else if 'a' ≤ c ∧ c ≤ 'f' then some (c.toNat - 'a'.toNat + 10)
  else if 'A' ≤ c ∧ c ≤ 'F' then some (c.toNat - 'A'.toNat + 10)
  else none

def hexCode : List Char → Option Nat
  | [a,b,c,d] => do
    let a ← hexValue a
    let b ← hexValue b
    let c ← hexValue c
    let d ← hexValue d
    some (a * 4096 + b * 256 + c * 16 + d)
  | _ => none

def isHighSurrogate (code : Nat) : Bool := 0xD800 ≤ code ∧ code ≤ 0xDBFF
def isLowSurrogate (code : Nat) : Bool := 0xDC00 ≤ code ∧ code ≤ 0xDFFF

def simpleEscape : Char → Option Char
  | '"' => some '"'
  | '\\' => some '\\'
  | '/' => some '/'
  | 'b' => some '\x08'
  | 'f' => some '\x0c'
  | 'n' => some '\n'
  | 'r' => some '\r'
  | 't' => some '\t'
  | _ => none

/-- One character of a string as it is written, and as it is meant. -/
inductive StringUnit : List Char → Char → Prop where
  | plain {c : Char} (noQuote : c ≠ '"') (noEscape : c ≠ '\\') (noControl : 0x20 ≤ c.toNat) : StringUnit [c] c
  | simple {e c : Char} (escape : simpleEscape e = some c) : StringUnit ['\\',e] c
  | unicode {digits : List Char} {code : Nat} (hex : hexCode digits = some code) (noHigh : ¬ isHighSurrogate code)
      (noLow : ¬ isLowSurrogate code) : StringUnit ('\\' :: 'u' :: digits) (Char.ofNat code)
  | pair {first second : List Char} {high low : Nat} (firstHex : hexCode first = some high)
      (secondHex : hexCode second = some low) (isHigh : isHighSurrogate high) (isLow : isLowSurrogate low) :
    StringUnit ('\\' :: 'u' :: first ++ '\\' :: 'u' :: second)
      (Char.ofNat (0x10000 + (high - 0xD800) * 0x400 + (low - 0xDC00)))

/-- What stands between the quotes, and the string it stands for. -/
inductive StringBody : List Char → List Char → Prop where
  | nil : StringBody [] []
  | cons {unit rest text : List Char} {c : Char} (first : StringUnit unit c) (more : StringBody rest text) :
    StringBody (unit ++ rest) (c :: text)

def quoted (body : List Char) : List Char := '"' :: (body ++ ['"'])

/-- The first character that the text of a string stands for, and what is left. -/
def decodeUnit : List Char → Option (Char × List Char)
  | '\\' :: 'u' :: rest =>
    match hexCode (rest.take 4) with
    | none => none
    | some code =>
      if isHighSurrogate code then
        match rest.drop 4 with
        | '\\' :: 'u' :: more =>
          match hexCode (more.take 4) with
          | none => none
          | some low =>
            if isLowSurrogate low then
              some (Char.ofNat (0x10000 + (code - 0xD800) * 0x400 + (low - 0xDC00)),more.drop 4)
            else none
        | _ => none
      else if isLowSurrogate code then none
      else some (Char.ofNat code,rest.drop 4)
  | '\\' :: e :: rest => (simpleEscape e).map fun c => (c,rest)
  | [] => none
  | c :: rest => if c = '"' ∨ c = '\\' ∨ c.toNat < 0x20 then none else some (c,rest)

def decodeBody : Nat → List Char → Option (List Char)
  | _, [] => some []
  | 0, _ :: _ => none
  | fuel + 1, c :: rest =>
    match decodeUnit (c :: rest) with
    | none => none
    | some (decoded,more) => (decodeBody fuel more).map (decoded :: ·)

def decodeString : List Char → Except String (List Char)
  | '"' :: rest =>
    match decodeBody rest.length rest.dropLast with
    | some text => if rest.getLast? = some '"' then .ok text else .error "EOF while parsing a string"
    | none => .error "invalid string"
  | _ => .error "expected a string"

theorem hexCode_length {digits : List Char} {code : Nat} (hex : hexCode digits = some code) : digits.length = 4 := by
  unfold hexCode at hex
  split at hex
  · rfl
  · cases hex

theorem decodeUnit_append {unit : List Char} {c : Char} (given : StringUnit unit c) (rest : List Char) :
    decodeUnit (unit ++ rest) = some (c,rest) := by
  cases given with
  | plain noQuote noEscape noControl =>
    have noControl := Nat.not_lt.mpr noControl
    unfold decodeUnit
    split
    · simp_all
    · simp_all
    · simp_all
    · rename_i d more _ _ same
      obtain ⟨rfl,rfl⟩ : c = d ∧ rest = more := by simpa using same
      simp [noQuote,noEscape,noControl]
  | @simple e _ escape =>
    have notU : e ≠ 'u' := by
      rintro rfl
      simp [simpleEscape] at escape
    unfold decodeUnit
    split
    · simp_all
    · rename_i d more _ same
      obtain ⟨rfl,rfl⟩ : e = d ∧ rest = more := by simpa using same
      simp [escape]
    · simp_all
    · rename_i d more _ different same
      obtain ⟨rfl,rfl⟩ : '\\' = d ∧ e :: rest = more := by simpa using same
      exact absurd rfl (different e rest rfl)
  | @unicode digits code hex noHigh noLow =>
    have four := hexCode_length hex
    have front : (digits ++ rest).take 4 = digits := by rw [← four]; simp
    have back : (digits ++ rest).drop 4 = rest := by rw [← four]; simp
    simp [decodeUnit,front,back,hex,noHigh,noLow]
  | @pair first second high low firstHex secondHex isHigh isLow =>
    have fourFirst := hexCode_length firstHex
    have fourSecond := hexCode_length secondHex
    have front : ∀ l, (first ++ l).take 4 = first := by intro l; rw [← fourFirst]; simp
    have back : ∀ l, (first ++ l).drop 4 = l := by intro l; rw [← fourFirst]; simp
    have frontSecond : (second ++ rest).take 4 = second := by rw [← fourSecond]; simp
    have backSecond : (second ++ rest).drop 4 = rest := by rw [← fourSecond]; simp
    simp [decodeUnit,List.append_assoc,front,back,firstHex,isHigh,frontSecond,backSecond,secondHex,isLow]

theorem unit_length {unit : List Char} {c : Char} (given : StringUnit unit c) : 0 < unit.length := by
  cases given <;> simp

theorem decodeBody_eq {body text : List Char} (given : StringBody body text) :
    ∀ fuel, body.length ≤ fuel → decodeBody fuel body = some text := by
  induction given with
  | nil => intro fuel _; cases fuel <;> rfl
  | @cons unit rest text c first _ ih =>
    intro fuel enough
    have long := unit_length first
    have decoded := decodeUnit_append first rest
    rw [List.length_append] at enough
    obtain ⟨fuel,rfl⟩ : ∃ n, fuel = n + 1 := ⟨fuel - 1,by omega⟩
    cases whole : unit ++ rest with
    | nil =>
      rw [List.append_eq_nil_iff] at whole
      simp [whole.1] at long
    | cons d more =>
      rw [whole] at decoded
      simp [decodeBody,decoded,ih fuel (by omega)]

theorem decodeString_quoted {body text : List Char} (given : StringBody body text) : decodeString (quoted body) = .ok text := by
  have decoded := decodeBody_eq given (body ++ ['"']).length (by simp)
  simp only [decodeString,quoted,List.dropLast_concat,decoded,List.getLast?_concat,if_true]

def isBlank (c : Char) : Bool := c = ' ' || c = '\t' || c = '\n' || c = '\r'
def Blank (text : List Char) : Prop := ∀ c ∈ text, isBlank c

def Digits (text : List Char) : Prop := text ≠ [] ∧ ∀ c ∈ text, '0' ≤ c ∧ c ≤ '9'
inductive Integer : List Char → Prop where
  | zero : Integer ['0']
  | positive {first : Char} {rest : List Char} (nonzero : '1' ≤ first ∧ first ≤ '9')
      (digits : ∀ c ∈ rest, '0' ≤ c ∧ c ≤ '9') : Integer (first :: rest)
inductive Fraction : List Char → Prop where
  | absent : Fraction []
  | present {digits : List Char} (given : Digits digits) : Fraction ('.' :: digits)
inductive Exponent : List Char → Prop where
  | absent : Exponent []
  | present {e : Char} {sign digits : List Char} (letter : e = 'e' ∨ e = 'E')
      (signed : sign = [] ∨ sign = ['+'] ∨ sign = ['-']) (given : Digits digits) : Exponent (e :: sign ++ digits)
inductive NumberText : List Char → Prop where
  | intro {sign int frac exp : List Char} (signed : sign = [] ∨ sign = ['-']) (integer : Integer int)
      (fraction : Fraction frac) (exponent : Exponent exp) : NumberText (sign ++ int ++ frac ++ exp)

inductive Part where
  /-- A value, with its string if it is one. -/
  | Value (string : Option (List Char))
  | Elements
  | Members (members : List (List Char × Option (List Char)))

/-- The name of a member, with the blanks around it and the colon. -/
def memberHead (before key middle : List Char) : List Char := before ++ quoted key ++ middle ++ [':']

inductive JsonText : Part → List Char → Prop where
  | literal {word : List Char} (known : word = "null".toList ∨ word = "true".toList ∨ word = "false".toList) : JsonText (.Value none) word
  | number {word : List Char} (given : NumberText word) : JsonText (.Value none) word
  | string {body text : List Char} (given : StringBody body text) : JsonText (.Value (some text)) (quoted body)
  | emptyArray {inner : List Char} (blank : Blank inner) : JsonText (.Value none) ('[' :: (inner ++ [']']))
  | array {inner : List Char} (elements : JsonText .Elements inner) : JsonText (.Value none) ('[' :: (inner ++ [']']))
  | emptyObject {inner : List Char} (blank : Blank inner) : JsonText (.Value none) ('{' :: (inner ++ ['}']))
  | object {inner : List Char} {members : List (List Char × Option (List Char))}
      (given : JsonText (.Members members) inner) : JsonText (.Value none) ('{' :: (inner ++ ['}']))
  | oneElement {before value after : List Char} {string : Option (List Char)} (blankBefore : Blank before)
      (given : JsonText (.Value string) value) (blankAfter : Blank after) :
    JsonText .Elements (before ++ (value ++ after))
  | elements {before value after rest : List Char} {string : Option (List Char)} (blankBefore : Blank before)
      (given : JsonText (.Value string) value) (blankAfter : Blank after) (more : JsonText .Elements rest) :
    JsonText .Elements (before ++ (value ++ (after ++ ',' :: rest)))
  | oneMember {before key name middle between value after : List Char} {string : Option (List Char)}
      (blankBefore : Blank before) (keyGiven : StringBody key name) (blankMiddle : Blank middle)
      (blankBetween : Blank between) (given : JsonText (.Value string) value) (blankAfter : Blank after) :
    JsonText (.Members [(name,string)]) (memberHead before key middle ++ (between ++ (value ++ after)))
  | members {before key name middle between value after rest : List Char} {string : Option (List Char)}
      {more : List (List Char × Option (List Char))} (blankBefore : Blank before) (keyGiven : StringBody key name)
      (blankMiddle : Blank middle) (blankBetween : Blank between) (given : JsonText (.Value string) value)
      (blankAfter : Blank after) (later : JsonText (.Members more) rest) :
    JsonText (.Members ((name,string) :: more))
      (memberHead before key middle ++ (between ++ (value ++ (after ++ ',' :: rest))))

/-- A text that is one object, with its members in the order of the text. -/
inductive ObjectText : List Char → List (List Char × Option (List Char)) → Prop where
  | empty {before inner after : List Char} (blankBefore : Blank before) (blank : Blank inner) (blankAfter : Blank after) :
    ObjectText (before ++ '{' :: (inner ++ '}' :: after)) []
  | members {before inner after : List Char} {members : List (List Char × Option (List Char))}
      (blankBefore : Blank before) (given : JsonText (.Members members) inner) (blankAfter : Blank after) :
    ObjectText (before ++ '{' :: (inner ++ '}' :: after)) members

/-- The members whose value is a string, with that string. -/
def stringMembers (members : List (List Char × Option (List Char))) : List (List Char × List Char) :=
  members.filterMap fun (name,string) => string.map fun text => (name,text)

end MyCursor.JsonGrammar

import MyCursor.Patterns
import MyCursor.Text
import Mathlib.Data.List.DropRight
import Mathlib.Data.Rat.Lemmas
import Mathlib.Tactic.Ring

/-!
# Field numbers

`extractor/field_number.go` of the protocol extractor: the two regular
expressions, the removal of separators and the reading of the digits. A text is the
list of its characters; integers and rationals are read as `math/big` does.
-/
namespace MyCursor.FieldNumbers
open Patterns
open Text (is_whitespace)

def DECIMAL : List Char := ['0','1','2','3','4','5','6','7','8','9']
def NONZERO : List Char := ['1','2','3','4','5','6','7','8','9']
def HEX : List Char := DECIMAL ++ ['a','b','c','d','e','f','A','B','C','D','E','F']
def OCTAL : List Char := ['0','1','2','3','4','5','6','7']
def BINARY : List Char := ['0','1']

/-- `[0-9]+(?:_[0-9]+)*` of a class of digits. -/
def runs (digits : List Char) : RegularExpression Char :=
  oneOrMore (oneOf digits) * (.char '_' * oneOrMore (oneOf digits)).star
/-- `(?:[eE][+-]?[0-9]+(?:_[0-9]+)*)?`. -/
def exponentPart : RegularExpression Char := optional (oneOf ['e','E'] * (optional (oneOf ['+','-']) * runs DECIMAL))
/-- `0|[1-9][0-9]*(?:_[0-9]+)*`. -/
def integerPart : RegularExpression Char :=
  .char '0' + oneOf NONZERO * ((oneOf DECIMAL).star * (.char '_' * oneOrMore (oneOf DECIMAL)).star)
def decimalNumber : RegularExpression Char :=
  integerPart * (optional (.char '.' * optional (runs DECIMAL)) * exponentPart) + .char '.' * (runs DECIMAL * exponentPart)
def radixNumber : RegularExpression Char :=
  .char '0' * (oneOf ['x','X'] * runs HEX) + .char '0' * (oneOf ['o','O'] * runs OCTAL) + .char '0' * (oneOf ['b','B'] * runs BINARY)

def TrimSpace (raw : List Char) : List Char := (raw.dropWhile is_whitespace).rdropWhile is_whitespace

def digitValue (c : Char) : Nat :=
  if c.toNat ≤ 57 then c.toNat - 48 else if c.toNat ≤ 70 then c.toNat - 55 else c.toNat - 87
def natOf (base : Nat) (digits : List Char) : Nat := digits.foldl (fun n c => n * base + digitValue c) 0

/-- `Int.SetString(s, 0)` of digits behind the prefix of a base. -/
def setRadix : List Char → Option Int
  | '0' :: letter :: digits =>
    if letter ∈ ['x','X'] then some (natOf 16 digits)
    else if letter ∈ ['o','O'] then some (natOf 8 digits)
    else if letter ∈ ['b','B'] then some (natOf 2 digits)
    else none
  | _ => none

def unsigned (digits : List Char) : Option Nat :=
  if digits ≠ [] ∧ digits.all (· ∈ DECIMAL) then some (natOf 10 digits) else none
/-- `Int.SetString(s, 10)`. -/
def setInt : List Char → Option Int
  | '-' :: digits => (unsigned digits).map fun n => -(n : Int)
  | '+' :: digits => (unsigned digits).map fun n => (n : Int)
  | digits => (unsigned digits).map fun n => (n : Int)

def isExponent (c : Char) : Bool := c = 'e' || c = 'E'
/-- `Rat.SetString` of digits with a point and an exponent of ten. -/
def setRat (number : List Char) : Option ℚ := do
  let mantissa := number.takeWhile (! isExponent ·)
  let exponent ← match number.dropWhile (! isExponent ·) with
    | [] => some 0
    | _ :: digits => setInt digits
  let whole := mantissa.takeWhile (· ≠ '.')
  let fraction := (mantissa.dropWhile (· ≠ '.')).drop 1
  let digits ← unsigned (whole ++ fraction)
  some (digits * 10 ^ (exponent - fraction.length : Int))

def isInt64 (n : Int) : Bool := -2 ^ 63 ≤ n ∧ n < 2 ^ 63
def TrimPlus : List Char → List Char
  | '+' :: digits => digits
  | digits => digits
def exponentOk (number : List Char) : Bool :=
  match number.dropWhile (! isExponent ·) with
  | [] => true
  | _ :: digits =>
    match setInt (TrimPlus digits) with
    | none => false
    | some exponent => isInt64 exponent && exponent ≤ 1000 && -1000 ≤ exponent

def integerOf (raw : List Char) : Option Int :=
  let number := raw.filter (· ≠ '_')
  if radixNumber.rmatch raw then setRadix number
  else if decimalNumber.rmatch raw && exponentOk number then
    (setRat number).bind fun r => if r.den = 1 then some r.num else none
  else none

def parseFieldNumber (raw : List Char) : Except String Nat :=
  let raw := TrimSpace raw
  let invalid := .error s!"invalid protobuf field number: {String.ofList raw}"
  match integerOf raw with
  | none => invalid
  | some integer =>
    if ¬ isInt64 integer then invalid
    else if integer < 1 ∨ 536870911 < integer ∨ (19000 ≤ integer ∧ integer ≤ 19999) then invalid
    else .ok integer.toNat

/-- Digits of a class with single separators between them, and the digits alone. -/
inductive Digits (known : List Char) : List Char → List Char → Prop where
  | single {d : Char} (isDigit : d ∈ known) : Digits known [d] [d]
  | next {d : Char} {text digits : List Char} (isDigit : d ∈ known) (rest : Digits known text digits) :
      Digits known (d :: text) (d :: digits)
  | separated {d : Char} {text digits : List Char} (isDigit : d ∈ known) (rest : Digits known text digits) :
      Digits known (d :: '_' :: text) (d :: digits)

/-- `0`, or digits that do not begin with `0`. -/
inductive IntegerPart : List Char → List Char → Prop where
  | zero : IntegerPart ['0'] ['0']
  | digits {text digits : List Char} (isDigits : Digits DECIMAL text digits) (first : text.head? ≠ some '0') : IntegerPart text digits
inductive Fraction : List Char → List Char → Prop where
  | absent : Fraction [] []
  | point : Fraction ['.'] []
  | digits {text digits : List Char} (isDigits : Digits DECIMAL text digits) : Fraction ('.' :: text) digits
inductive Exponent : List Char → Int → Prop where
  | absent : Exponent [] 0
  | unsigned {e : Char} {text digits : List Char} (mark : e ∈ ['e','E']) (isDigits : Digits DECIMAL text digits) :
      Exponent (e :: text) (natOf 10 digits)
  | positive {e : Char} {text digits : List Char} (mark : e ∈ ['e','E']) (isDigits : Digits DECIMAL text digits) :
      Exponent (e :: '+' :: text) (natOf 10 digits)
  | negative {e : Char} {text digits : List Char} (mark : e ∈ ['e','E']) (isDigits : Digits DECIMAL text digits) :
      Exponent (e :: '-' :: text) (-(natOf 10 digits : Int))

def BASES : List (List Char × List Char × Nat) := [(['x','X'],HEX,16),(['o','O'],OCTAL,8),(['b','B'],BINARY,2)]

/-- A numeric literal without a sign, a suffix and octal digits behind a mere zero, its
    exponent, and its exact value. -/
inductive NumericLiteral : List Char → Int → ℚ → Prop where
  | radix {letters known text digits : List Char} {base : Nat} {letter : Char} (isBase : (letters,known,base) ∈ BASES)
      (isLetter : letter ∈ letters) (isDigits : Digits known text digits) :
      NumericLiteral ('0' :: letter :: text) 0 (natOf base digits)
  | decimal {whole wholeDigits point fraction tail : List Char} {exponent : Int} (isWhole : IntegerPart whole wholeDigits)
      (isFraction : Fraction point fraction) (isExponent : Exponent tail exponent) :
      NumericLiteral (whole ++ (point ++ tail)) exponent (natOf 10 (wholeDigits ++ fraction) * 10 ^ (exponent - fraction.length))
  | fraction {point fraction tail : List Char} {exponent : Int} (isDigits : Digits DECIMAL point fraction)
      (isExponent : Exponent tail exponent) :
      NumericLiteral ('.' :: (point ++ tail)) exponent (natOf 10 fraction * 10 ^ (exponent - fraction.length))

/-- The text is a literal of a number that a field may have. -/
structure FieldNumber (text : List Char) (n : Nat) : Prop where
  literal : ∃ exponent, NumericLiteral text exponent n ∧ -1000 ≤ exponent ∧ exponent ≤ 1000
  bounds : 1 ≤ n ∧ n ≤ 2 ^ 29 - 1
  free : ¬ (19000 ≤ n ∧ n ≤ 19999)

section Digits
variable {known text digits run seps : List Char}

theorem Digits.all_known (isDigits : Digits known text digits) : ∀ c ∈ digits, c ∈ known := by
  induction isDigits with
  | single isDigit => simpa using isDigit
  | next isDigit _ ih => exact List.forall_mem_cons.mpr ⟨isDigit,ih⟩
  | separated isDigit _ ih => exact List.forall_mem_cons.mpr ⟨isDigit,ih⟩
theorem Digits.given (isDigits : Digits known text digits) : digits ≠ [] := by
  cases isDigits <;> exact List.cons_ne_nil _ _
theorem Digits.filtered (isDigits : Digits known text digits) (apart : '_' ∉ known) : text.filter (· ≠ '_') = digits := by
  have kept : ∀ {d : Char}, d ∈ known → d ≠ '_' := fun member same => apart (same ▸ member)
  induction isDigits with
  | single isDigit => rw [List.filter_cons_of_pos (by simpa using kept isDigit),List.filter_nil]
  | next isDigit _ ih => rw [List.filter_cons_of_pos (by simpa using kept isDigit),ih]
  | separated isDigit _ ih => rw [List.filter_cons_of_pos (by simpa using kept isDigit),List.filter_cons_of_neg (by simp),ih]

def Separated (known seps : List Char) : Prop := seps ∈ (RegularExpression.char '_' * oneOrMore (oneOf known)).star.matches'

theorem separated_cons (first : ∃ d run, text = '_' :: d :: run ∧ d ∈ known ∧ ∀ c ∈ run, c ∈ known) (rest : Separated known seps) :
    Separated known (text ++ seps) := by
  obtain ⟨d,run,rfl,isDigit,all⟩ := first
  exact star_append (mem_mul.mpr ⟨['_'],rfl,_,mem_oneOrMore.mpr ⟨d,run,rfl,isDigit,all⟩,rfl⟩) rest

variable {d : Char}

theorem Digits.behind (isDigits : Digits known text digits) (isDigit : d ∈ known) (all : ∀ c ∈ run, c ∈ known) :
    ∃ more, Digits known (d :: (run ++ '_' :: text)) more := by
  induction run generalizing d with
  | nil => exact ⟨_,.separated isDigit isDigits⟩
  | cons c rest ih =>
    obtain ⟨more,isMore⟩ := ih (all c List.mem_cons_self) fun b member => all b (List.mem_cons_of_mem _ member)
    exact ⟨_,.next isDigit isMore⟩
theorem digits_run (isDigit : d ∈ known) (all : ∀ c ∈ run, c ∈ known) : Digits known (d :: run) (d :: run) := by
  induction run generalizing d with
  | nil => exact .single isDigit
  | cons c rest ih => exact .next isDigit (ih (all c List.mem_cons_self) fun b member => all b (List.mem_cons_of_mem _ member))
theorem digits_of_run (isDigit : d ∈ known) (all : ∀ c ∈ run, c ∈ known) (isSeps : Separated known seps) :
    ∃ digits, Digits known (d :: (run ++ seps)) digits := by
  obtain ⟨parts,rfl,each⟩ := mem_star.mp isSeps
  clear isSeps
  induction parts generalizing d run with
  | nil => exact ⟨_,by simpa using digits_run isDigit all⟩
  | cons part rest ih =>
    obtain ⟨mark,isMark,digits,isRun,rfl⟩ := mem_mul.mp (each part List.mem_cons_self)
    obtain ⟨c,later,rfl,isFirst,others⟩ := mem_oneOrMore.mp isRun
    rw [mem_char.mp isMark]
    obtain ⟨more,isMore⟩ := ih isFirst others fun other member => each other (List.mem_cons_of_mem _ member)
    exact isMore.behind isDigit all
theorem run_of_digits (isDigits : Digits known text digits) : ∃ d run seps, text = d :: (run ++ seps) ∧ d ∈ known ∧
    (∀ c ∈ run, c ∈ known) ∧ Separated known seps := by
  induction isDigits with
  | single isDigit => exact ⟨_,[],[],rfl,isDigit,fun _ member => absurd member List.not_mem_nil,star_nil _⟩
  | @next d _ _ isDigit _ ih =>
    obtain ⟨c,run,seps,rfl,isFirst,all,isSeps⟩ := ih
    exact ⟨d,c :: run,seps,rfl,isDigit,List.forall_mem_cons.mpr ⟨isFirst,all⟩,isSeps⟩
  | @separated d _ _ isDigit _ ih =>
    obtain ⟨c,run,seps,rfl,isFirst,all,isSeps⟩ := ih
    exact ⟨d,[],'_' :: c :: run ++ seps,rfl,isDigit,fun _ member => absurd member List.not_mem_nil,
      separated_cons ⟨c,run,rfl,isFirst,all⟩ isSeps⟩

theorem mem_runs : text ∈ (runs known).matches' ↔ ∃ digits, Digits known text digits := by
  rw [runs,mem_mul]
  constructor
  · rintro ⟨first,isFirst,seps,isSeps,rfl⟩
    obtain ⟨d,run,rfl,isDigit,all⟩ := mem_oneOrMore.mp isFirst
    exact digits_of_run isDigit all isSeps
  · rintro ⟨digits,isDigits⟩
    obtain ⟨d,run,seps,rfl,isDigit,all,isSeps⟩ := run_of_digits isDigits
    exact ⟨d :: run,mem_oneOrMore.mpr ⟨d,run,rfl,isDigit,all⟩,seps,isSeps,rfl⟩

theorem nonzero_iff : d ∈ NONZERO ↔ d ∈ DECIMAL ∧ d ≠ '0' := by
  simp only [NONZERO,DECIMAL,List.mem_cons,List.not_mem_nil,or_false]
  constructor
  · rintro (rfl | rfl | rfl | rfl | rfl | rfl | rfl | rfl | rfl) <;> decide
  · rintro ⟨rfl | others,notZero⟩
    · exact absurd rfl notZero
    · exact others
theorem mem_integerPart : text ∈ integerPart.matches' ↔ ∃ digits, IntegerPart text digits := by
  rw [integerPart,mem_add,mem_char,mem_mul]
  constructor
  · rintro (rfl | ⟨first,isFirst,rest,isRest,rfl⟩)
    · exact ⟨_,.zero⟩
    · obtain ⟨d,isDigit,rfl⟩ := mem_oneOf.mp isFirst
      obtain ⟨run,isRun,seps,isSeps,rfl⟩ := mem_mul.mp isRest
      obtain ⟨decimal,notZero⟩ := nonzero_iff.mp isDigit
      obtain ⟨digits,isDigits⟩ := digits_of_run decimal (mem_star_oneOf.mp isRun) isSeps
      exact ⟨digits,.digits isDigits (by simpa using notZero)⟩
  · rintro ⟨digits,isPart⟩
    cases isPart with
    | zero => exact .inl rfl
    | digits isDigits first =>
      obtain ⟨d,run,seps,rfl,isDigit,all,isSeps⟩ := run_of_digits isDigits
      have notZero : d ≠ '0' := by simpa using first
      exact .inr ⟨[d],mem_oneOf.mpr ⟨d,nonzero_iff.mpr ⟨isDigit,notZero⟩,rfl⟩,run ++ seps,
        mem_mul.mpr ⟨run,mem_star_oneOf.mpr all,seps,isSeps,rfl⟩,rfl⟩

end Digits

section Grammar
variable {text : List Char}

theorem mem_fraction : text ∈ (optional (RegularExpression.char '.' * optional (runs DECIMAL))).matches' ↔ ∃ digits,
    Fraction text digits := by
  rw [mem_optional,mem_mul]
  constructor
  · rintro (rfl | ⟨point,isPoint,rest,isRest,rfl⟩)
    · exact ⟨_,.absent⟩
    · rw [mem_char.mp isPoint]
      rcases mem_optional.mp isRest with rfl | isRuns
      · exact ⟨_,.point⟩
      · obtain ⟨digits,isDigits⟩ := mem_runs.mp isRuns
        exact ⟨_,.digits isDigits⟩
  · rintro ⟨digits,isFraction⟩
    cases isFraction with
    | absent => exact .inl rfl
    | point => exact .inr ⟨['.'],rfl,[],mem_optional.mpr (.inl rfl),rfl⟩
    | digits isDigits => exact .inr ⟨['.'],rfl,_,mem_optional.mpr (.inr (mem_runs.mpr ⟨_,isDigits⟩)),rfl⟩
theorem mem_exponent : text ∈ exponentPart.matches' ↔ ∃ exponent, Exponent text exponent := by
  rw [exponentPart,mem_optional,mem_mul]
  constructor
  · rintro (rfl | ⟨mark,isMark,rest,isRest,rfl⟩)
    · exact ⟨_,.absent⟩
    · obtain ⟨e,known,rfl⟩ := mem_oneOf.mp isMark
      obtain ⟨sign,isSign,text,isRuns,rfl⟩ := mem_mul.mp isRest
      obtain ⟨digits,isDigits⟩ := mem_runs.mp isRuns
      rcases mem_optional.mp isSign with rfl | isSign
      · exact ⟨_,.unsigned known isDigits⟩
      · obtain ⟨s,shown,rfl⟩ := mem_oneOf.mp isSign
        rcases List.mem_cons.mp shown with rfl | minus
        · exact ⟨_,.positive known isDigits⟩
        · rw [List.mem_singleton.mp minus]
          exact ⟨_,.negative known isDigits⟩
  · rintro ⟨exponent,isExponent⟩
    have sign : ∀ s ∈ ['+','-'], [s] ∈ (optional (oneOf ['+','-'])).matches' := fun s member =>
      mem_optional.mpr (.inr (mem_oneOf.mpr ⟨s,member,rfl⟩))
    cases isExponent with
    | absent => exact .inl rfl
    | @unsigned e text _ mark isDigits =>
      exact .inr ⟨[e],mem_oneOf.mpr ⟨e,mark,rfl⟩,text,
        mem_mul.mpr ⟨[],mem_optional.mpr (.inl rfl),text,mem_runs.mpr ⟨_,isDigits⟩,rfl⟩,rfl⟩
    | @positive e text _ mark isDigits =>
      exact .inr ⟨[e],mem_oneOf.mpr ⟨e,mark,rfl⟩,'+' :: text,
        mem_mul.mpr ⟨['+'],sign '+' (by decide),text,mem_runs.mpr ⟨_,isDigits⟩,rfl⟩,rfl⟩
    | @negative e text _ mark isDigits =>
      exact .inr ⟨[e],mem_oneOf.mpr ⟨e,mark,rfl⟩,'-' :: text,
        mem_mul.mpr ⟨['-'],sign '-' (by decide),text,mem_runs.mpr ⟨_,isDigits⟩,rfl⟩,rfl⟩

theorem decimal_iff : decimalNumber.rmatch text = true ↔
    (∃ whole wholeDigits point fraction tail exponent, text = whole ++ (point ++ tail) ∧ IntegerPart whole wholeDigits ∧
      Fraction point fraction ∧ Exponent tail exponent) ∨
    (∃ point fraction tail exponent, text = '.' :: (point ++ tail) ∧ Digits DECIMAL point fraction ∧ Exponent tail exponent) := by
  rw [RegularExpression.rmatch_iff_matches',decimalNumber,mem_add,mem_mul,mem_mul]
  refine or_congr ⟨?_,?_⟩ ⟨?_,?_⟩
  · rintro ⟨whole,isWhole,rest,isRest,rfl⟩
    obtain ⟨point,isPoint,tail,isTail,rfl⟩ := mem_mul.mp isRest
    obtain ⟨wholeDigits,isWhole⟩ := mem_integerPart.mp isWhole
    obtain ⟨fraction,isFraction⟩ := mem_fraction.mp isPoint
    obtain ⟨exponent,isExponent⟩ := mem_exponent.mp isTail
    exact ⟨whole,wholeDigits,point,fraction,tail,exponent,rfl,isWhole,isFraction,isExponent⟩
  · rintro ⟨whole,wholeDigits,point,fraction,tail,exponent,rfl,isWhole,isFraction,isExponent⟩
    exact ⟨whole,mem_integerPart.mpr ⟨_,isWhole⟩,point ++ tail,
      mem_mul.mpr ⟨point,mem_fraction.mpr ⟨_,isFraction⟩,tail,mem_exponent.mpr ⟨_,isExponent⟩,rfl⟩,rfl⟩
  · rintro ⟨mark,isMark,rest,isRest,rfl⟩
    obtain ⟨point,isPoint,tail,isTail,rfl⟩ := mem_mul.mp isRest
    obtain ⟨fraction,isDigits⟩ := mem_runs.mp isPoint
    obtain ⟨exponent,isExponent⟩ := mem_exponent.mp isTail
    rw [mem_char.mp isMark]
    exact ⟨point,fraction,tail,exponent,rfl,isDigits,isExponent⟩
  · rintro ⟨point,fraction,tail,exponent,rfl,isDigits,isExponent⟩
    exact ⟨['.'],rfl,point ++ tail,mem_mul.mpr ⟨point,mem_runs.mpr ⟨_,isDigits⟩,tail,mem_exponent.mpr ⟨_,isExponent⟩,rfl⟩,rfl⟩

theorem radix_iff : radixNumber.rmatch text = true ↔ ∃ letters known base letter digitText digits,
    (letters,known,base) ∈ BASES ∧ letter ∈ letters ∧ text = '0' :: letter :: digitText ∧ Digits known digitText digits := by
  have one : ∀ letters known : List Char, text ∈ (RegularExpression.char '0' * (oneOf letters * runs known)).matches' ↔
      ∃ letter digitText digits, letter ∈ letters ∧ text = '0' :: letter :: digitText ∧ Digits known digitText digits := by
    intro letters known
    rw [mem_mul]
    constructor
    · rintro ⟨zero,isZero,rest,isRest,rfl⟩
      obtain ⟨mark,isMark,digitText,isRuns,rfl⟩ := mem_mul.mp isRest
      obtain ⟨letter,isLetter,rfl⟩ := mem_oneOf.mp isMark
      obtain ⟨digits,isDigits⟩ := mem_runs.mp isRuns
      rw [mem_char.mp isZero]
      exact ⟨letter,digitText,digits,isLetter,rfl,isDigits⟩
    · rintro ⟨letter,digitText,digits,isLetter,rfl,isDigits⟩
      exact ⟨['0'],rfl,letter :: digitText,
        mem_mul.mpr ⟨[letter],mem_oneOf.mpr ⟨letter,isLetter,rfl⟩,digitText,mem_runs.mpr ⟨digits,isDigits⟩,rfl⟩,rfl⟩
  rw [RegularExpression.rmatch_iff_matches',radixNumber,mem_add,mem_add,one,one,one]
  constructor
  · rintro ((⟨letter,digitText,digits,rest⟩ | ⟨letter,digitText,digits,rest⟩) | ⟨letter,digitText,digits,rest⟩)
    · exact ⟨['x','X'],HEX,16,letter,digitText,digits,by simp [BASES],rest⟩
    · exact ⟨['o','O'],OCTAL,8,letter,digitText,digits,by simp [BASES],rest⟩
    · exact ⟨['b','B'],BINARY,2,letter,digitText,digits,by simp [BASES],rest⟩
  · rintro ⟨letters,known,base,letter,digitText,digits,isBase,rest⟩
    simp only [BASES,List.mem_cons,Prod.mk.injEq,List.not_mem_nil,or_false] at isBase
    rcases isBase with ⟨rfl,rfl,-⟩ | ⟨rfl,rfl,-⟩ | ⟨rfl,rfl,-⟩
    · exact .inl (.inl ⟨letter,digitText,digits,rest⟩)
    · exact .inl (.inr ⟨letter,digitText,digits,rest⟩)
    · exact .inr ⟨letter,digitText,digits,rest⟩

end Grammar

section Reading
variable {digits tail point fraction whole wholeDigits : List Char} {exponent : Int}

theorem each {letters : List Char} {property : Char → Prop} [DecidablePred property]
    (all : (letters.all (property ·)) = true) : ∀ c ∈ letters, property c :=
  fun c member => of_decide_eq_true (List.all_eq_true.mp all c member)
theorem decimal_plain {c : Char} (known : c ∈ DECIMAL) : c ≠ '_' ∧ c ≠ '.' ∧ c ≠ '+' ∧ c ≠ '-' ∧ isExponent c = false := by
  have all : ∀ c ∈ DECIMAL, c ≠ '_' ∧ c ≠ '.' ∧ c ≠ '+' ∧ c ≠ '-' ∧ isExponent c = false := each (by decide)
  exact all c known
theorem unsigned_eq (given : digits ≠ []) (known : ∀ c ∈ digits, c ∈ DECIMAL) : unsigned digits = some (natOf 10 digits) :=
  if_pos ⟨given,List.all_eq_true.mpr fun c member => decide_eq_true (known c member)⟩
theorem setInt_digits (given : digits ≠ []) (known : ∀ c ∈ digits, c ∈ DECIMAL) : setInt digits = some (natOf 10 digits : Int) := by
  cases digits with
  | nil => exact absurd rfl given
  | cons d rest =>
    obtain ⟨-,-,notPlus,notMinus,-⟩ := decimal_plain (known d List.mem_cons_self)
    rw [setInt.eq_3,unsigned_eq given known]
    · rfl
    · exact fun _ same => notMinus (List.cons.inj same).1
    · exact fun _ same => notPlus (List.cons.inj same).1
theorem trimPlus_digits (given : digits ≠ []) (known : ∀ c ∈ digits, c ∈ DECIMAL) : TrimPlus digits = digits := by
  cases digits with
  | nil => rfl
  | cons d rest =>
    obtain ⟨-,-,notPlus,-,-⟩ := decimal_plain (known d List.mem_cons_self)
    exact TrimPlus.eq_2 _ fun _ same => notPlus (List.cons.inj same).1

/-- What an exponent is without separators: nothing, or a mark and an integer. -/
structure Reads (tail : List Char) (exponent : Int) : Prop where
  shape : (tail = [] ∧ exponent = 0) ∨ ∃ mark signed, tail = mark :: signed ∧ isExponent mark = true ∧
    setInt signed = some exponent ∧ setInt (TrimPlus signed) = some exponent

theorem isExponent_of {e : Char} (mark : e ∈ ['e','E']) : isExponent e = true ∧ e ≠ '_' := by
  have all : ∀ e ∈ ['e','E'], isExponent e = true ∧ e ≠ '_' := each (by decide)
  exact all e mark
theorem Exponent.reads (isTail : Exponent tail exponent) : Reads (tail.filter (· ≠ '_')) exponent := by
  have apart : '_' ∉ DECIMAL := by decide
  cases isTail with
  | absent => exact ⟨.inl ⟨rfl,rfl⟩⟩
  | @unsigned e text digits mark isDigits =>
    have whole := setInt_digits isDigits.given isDigits.all_known
    refine ⟨.inr ⟨e,digits,?_,(isExponent_of mark).1,whole,?_⟩⟩
    · rw [List.filter_cons_of_pos (by simpa using (isExponent_of mark).2),isDigits.filtered apart]
    · rw [trimPlus_digits isDigits.given isDigits.all_known]
      exact whole
  | @positive e text digits mark isDigits =>
    have whole := setInt_digits isDigits.given isDigits.all_known
    refine ⟨.inr ⟨e,'+' :: digits,?_,(isExponent_of mark).1,?_,whole⟩⟩
    · rw [List.filter_cons_of_pos (by simpa using (isExponent_of mark).2),List.filter_cons_of_pos (by decide),isDigits.filtered apart]
    · rw [setInt,unsigned_eq isDigits.given isDigits.all_known]
      rfl
  | @negative e text digits mark isDigits =>
    have signed : setInt ('-' :: digits) = some (-(natOf 10 digits : Int)) := by
      rw [setInt,unsigned_eq isDigits.given isDigits.all_known]
      rfl
    refine ⟨.inr ⟨e,'-' :: digits,?_,(isExponent_of mark).1,signed,signed⟩⟩
    rw [List.filter_cons_of_pos (by simpa using (isExponent_of mark).2),List.filter_cons_of_pos (by decide),isDigits.filtered apart]

theorem split_exponent {mantissa : List Char} (plain : ∀ c ∈ mantissa, isExponent c = false) (reads : Reads tail exponent) :
    (mantissa ++ tail).takeWhile (! isExponent ·) = mantissa ∧ (mantissa ++ tail).dropWhile (! isExponent ·) = tail := by
  have kept : ∀ c ∈ mantissa, (! isExponent c) = true := fun c member => by rw [plain c member]; rfl
  rw [List.takeWhile_append_of_pos kept,List.dropWhile_append_of_pos kept]
  rcases reads.shape with ⟨rfl,-⟩ | ⟨mark,signed,rfl,isMark,-⟩
  · exact ⟨List.append_nil _,rfl⟩
  · rw [List.takeWhile_cons_of_neg (by simp [isMark]),List.dropWhile_cons_of_neg (by simp [isMark])]
    exact ⟨List.append_nil _,rfl⟩

def Pointed (point fraction : List Char) : Prop := (point = [] ∧ fraction = []) ∨ point = '.' :: fraction

theorem exponentOk_eq {mantissa : List Char} (plain : ∀ c ∈ mantissa, isExponent c = false) (reads : Reads tail exponent) :
    exponentOk (mantissa ++ tail) = true ↔ -1000 ≤ exponent ∧ exponent ≤ 1000 := by
  rw [exponentOk,(split_exponent plain reads).2]
  rcases reads.shape with ⟨rfl,rfl⟩ | ⟨mark,signed,rfl,-,-,value⟩
  · simp
  · simp only [value,isInt64,Bool.and_eq_true,decide_eq_true_eq]
    omega

theorem setRat_eq (allWhole : ∀ c ∈ whole, c ∈ DECIMAL) (allFraction : ∀ c ∈ fraction, c ∈ DECIMAL) (given : whole ++ fraction ≠ [])
    (pointed : Pointed point fraction) (reads : Reads tail exponent) :
    setRat (whole ++ point ++ tail) = some ((natOf 10 (whole ++ fraction) : ℚ) * 10 ^ (exponent - fraction.length : Int)) := by
  have plain : ∀ c ∈ whole ++ point, isExponent c = false := by
    intro c member
    rcases List.mem_append.mp member with isWhole | isPoint
    · exact (decimal_plain (allWhole c isWhole)).2.2.2.2
    · rcases pointed with ⟨rfl,-⟩ | rfl
      · cases isPoint
      · rcases List.mem_cons.mp isPoint with rfl | isFraction
        · rfl
        · exact (decimal_plain (allFraction c isFraction)).2.2.2.2
  have kept : ∀ c ∈ whole, decide (c ≠ '.') = true := fun c member => decide_eq_true (decimal_plain (allWhole c member)).2.1
  have isWhole : (whole ++ point).takeWhile (· ≠ '.') = whole := by
    rw [List.takeWhile_append_of_pos kept]
    rcases pointed with ⟨rfl,-⟩ | rfl
    · exact List.append_nil _
    · rw [List.takeWhile_cons_of_neg (by decide),List.append_nil]
  have isFraction : ((whole ++ point).dropWhile (· ≠ '.')).drop 1 = fraction := by
    rw [List.dropWhile_append_of_pos kept]
    rcases pointed with ⟨rfl,rfl⟩ | rfl
    · rfl
    · rw [List.dropWhile_cons_of_neg (by decide)]
      rfl
  have all : ∀ c ∈ whole ++ fraction, c ∈ DECIMAL := fun c member => (List.mem_append.mp member).elim (allWhole c) (allFraction c)
  obtain ⟨isMantissa,isTail⟩ := split_exponent plain reads
  rw [setRat,isMantissa,isTail]
  dsimp only
  rw [isWhole,isFraction,unsigned_eq given all]
  rcases reads.shape with ⟨rfl,rfl⟩ | ⟨mark,signed,rfl,-,value,-⟩
  · rfl
  · dsimp only
    rw [value]
    rfl

end Reading

section Literals
variable {text : List Char} {exponent : Int} {value : ℚ}

theorem IntegerPart.digits_known {whole digits : List Char} (isWhole : IntegerPart whole digits) :
    whole.filter (· ≠ '_') = digits ∧ digits ≠ [] ∧ ∀ c ∈ digits, c ∈ DECIMAL := by
  cases isWhole with
  | zero => exact ⟨rfl,by decide,by simp [DECIMAL]⟩
  | digits isDigits _ => exact ⟨isDigits.filtered (by decide),isDigits.given,isDigits.all_known⟩

variable {point fraction : List Char}

theorem Fraction.digits_known (isFraction : Fraction point fraction) :
    Pointed (point.filter (· ≠ '_')) fraction ∧ ∀ c ∈ fraction, c ∈ DECIMAL := by
  cases isFraction with
  | absent => exact ⟨.inl ⟨rfl,rfl⟩,fun _ member => absurd member List.not_mem_nil⟩
  | point => exact ⟨.inr rfl,fun _ member => absurd member List.not_mem_nil⟩
  | digits isDigits =>
    refine ⟨.inr ?_,isDigits.all_known⟩
    rw [List.filter_cons_of_pos (by decide),isDigits.filtered (by decide)]

variable {tail : List Char}

theorem Exponent.first (isTail : Exponent tail exponent) : ∀ c ∈ tail.head?, c ∈ ['e','E'] := by
  intro c isFirst
  cases isTail with
  | absent => cases isFirst
  | unsigned mark _ => rwa [← Option.some.inj isFirst]
  | positive mark _ => rwa [← Option.some.inj isFirst]
  | negative mark _ => rwa [← Option.some.inj isFirst]
theorem Fraction.first (isFraction : Fraction point fraction) (isTail : Exponent tail exponent) :
    ∀ c ∈ (point ++ tail).head?, c ∈ ['.','e','E'] := by
  intro c isFirst
  cases isFraction with
  | absent => exact List.mem_cons_of_mem _ (isTail.first c isFirst)
  | point => rw [← Option.some.inj isFirst]; exact List.mem_cons_self
  | digits _ => rw [← Option.some.inj isFirst]; exact List.mem_cons_self

theorem base_letter {letters known : List Char} {base : Nat} {letter : Char} (isBase : (letters,known,base) ∈ BASES)
    (isLetter : letter ∈ letters) : letter ∉ ['.','e','E'] := by
  have all : ∀ entry ∈ BASES, (entry.1.all (· ∉ ['.','e','E'])) = true := by decide
  exact each (all _ isBase) letter isLetter

theorem not_radix {whole wholeDigits : List Char} (isWhole : IntegerPart whole wholeDigits)
    (isFraction : Fraction point fraction) (isTail : Exponent tail exponent) :
    radixNumber.rmatch (whole ++ (point ++ tail)) = false := by
  rw [Bool.eq_false_iff,Ne,radix_iff]
  rintro ⟨letters,known,base,letter,digitText,digits,isBase,isLetter,same,-⟩
  cases isWhole with
  | zero =>
    rw [List.singleton_append] at same
    exact base_letter isBase isLetter (isFraction.first isTail letter (by rw [(List.cons.inj same).2]; rfl))
  | digits isDigits first =>
    obtain ⟨d,run,seps,rfl,-,-,-⟩ := run_of_digits isDigits
    rw [List.cons_append] at same
    exact first (congrArg some (List.cons.inj same).1)
theorem point_not_radix (rest : List Char) : radixNumber.rmatch ('.' :: rest) = false := by
  rw [Bool.eq_false_iff,Ne,radix_iff]
  rintro ⟨_,_,_,_,_,_,-,-,same,-⟩
  exact absurd (List.cons.inj same).1 (by decide)

theorem integerOf_parts {raw whole point fraction tail : List Char} (noRadix : radixNumber.rmatch raw = false)
    (isDecimal : decimalNumber.rmatch raw = true) (parts : raw.filter (· ≠ '_') = whole ++ point ++ tail)
    (allWhole : ∀ c ∈ whole, c ∈ DECIMAL) (allFraction : ∀ c ∈ fraction, c ∈ DECIMAL) (given : whole ++ fraction ≠ [])
    (pointed : Pointed point fraction) (reads : Reads tail exponent)
    (isValue : value = natOf 10 (whole ++ fraction) * 10 ^ (exponent - fraction.length : Int)) :
    integerOf raw = if (-1000 ≤ exponent ∧ exponent ≤ 1000) ∧ value.den = 1 then some value.num else none := by
  have plain : ∀ c ∈ whole ++ point, isExponent c = false := by
    intro c member
    rcases List.mem_append.mp member with isWhole | isPoint
    · exact (decimal_plain (allWhole c isWhole)).2.2.2.2
    · rcases pointed with ⟨rfl,-⟩ | rfl
      · cases isPoint
      · rcases List.mem_cons.mp isPoint with rfl | isFraction
        · rfl
        · exact (decimal_plain (allFraction c isFraction)).2.2.2.2
  have bounded := exponentOk_eq plain reads
  rw [integerOf]
  rw [noRadix,isDecimal,parts,setRat_eq allWhole allFraction given pointed reads,← isValue,Bool.true_and]
  simp only [Bool.false_eq_true,if_false,bounded,Option.bind_some]
  split_ifs <;> simp_all

/-- What is read from a literal is its value, when this is an integer and the exponent
    is not too large. -/
theorem integerOf_literal (literal : NumericLiteral text exponent value) :
    integerOf text = if (-1000 ≤ exponent ∧ exponent ≤ 1000) ∧ value.den = 1 then some value.num else none := by
  cases literal with
  | @radix letters known digitText digits base letter isBase isLetter isDigits =>
    have matched : radixNumber.rmatch ('0' :: letter :: digitText) = true :=
      radix_iff.mpr ⟨letters,known,base,letter,digitText,digits,isBase,isLetter,rfl,isDigits⟩
    have plain : ∀ entry ∈ BASES, '_' ∉ entry.2.1 ∧ (entry.1.all (· ≠ '_')) = true := by decide
    obtain ⟨apart,notMark⟩ := plain _ isBase
    have number : ('0' :: letter :: digitText).filter (· ≠ '_') = '0' :: letter :: digits := by
      rw [List.filter_cons_of_pos (by decide),List.filter_cons_of_pos (by simpa using each notMark letter isLetter),isDigits.filtered apart]
    have value : setRadix ('0' :: letter :: digits) = some (natOf base digits : Int) := by
      simp only [BASES,List.mem_cons,Prod.mk.injEq,List.not_mem_nil,or_false] at isBase
      rcases isBase with ⟨rfl,-,rfl⟩ | ⟨rfl,-,rfl⟩ | ⟨rfl,-,rfl⟩
      · exact if_pos isLetter
      · have notHex : letter ∉ ['x','X'] := by
          have all : ∀ letter ∈ ['o','O'], letter ∉ ['x','X'] := each (by decide)
          exact all letter isLetter
        rw [setRadix,if_neg notHex,if_pos isLetter]
      · have others : letter ∉ ['x','X'] ∧ letter ∉ ['o','O'] := by
          have all : ∀ letter ∈ ['b','B'], letter ∉ ['x','X'] ∧ letter ∉ ['o','O'] := each (by decide)
          exact all letter isLetter
        rw [setRadix,if_neg others.1,if_neg others.2,if_pos isLetter]
    rw [integerOf]
    rw [if_pos matched,number,value,if_pos ⟨by decide,Rat.den_natCast _⟩,Rat.num_natCast]
  | @decimal whole wholeDigits point fraction tail exponent isWhole isFraction isTail =>
    obtain ⟨wholeFilter,given,allWhole⟩ := isWhole.digits_known
    obtain ⟨pointed,allFraction⟩ := isFraction.digits_known
    refine integerOf_parts (not_radix isWhole isFraction isTail)
      (decimal_iff.mpr (.inl ⟨whole,wholeDigits,point,fraction,tail,exponent,rfl,isWhole,isFraction,isTail⟩)) ?_ allWhole allFraction
      (List.append_ne_nil_of_left_ne_nil given _) pointed isTail.reads rfl
    rw [List.filter_append,List.filter_append,wholeFilter,List.append_assoc]
  | @fraction point fraction tail exponent isDigits isTail =>
    refine @integerOf_parts _ _ _ [] ('.' :: fraction) fraction _ (point_not_radix _)
      (decimal_iff.mpr (.inr ⟨point,fraction,tail,exponent,rfl,isDigits,isTail⟩)) ?_ (fun _ member => absurd member List.not_mem_nil)
      isDigits.all_known isDigits.given (.inr rfl) isTail.reads rfl
    rw [List.filter_cons_of_pos (by decide),List.filter_append,isDigits.filtered (by decide)]
    rfl

theorem integerOf_other (noLiteral : ∀ exponent value, ¬ NumericLiteral text exponent value) : integerOf text = none := by
  have noRadix : radixNumber.rmatch text = false := by
    rw [Bool.eq_false_iff,Ne,radix_iff]
    rintro ⟨letters,known,base,letter,digitText,digits,isBase,isLetter,rfl,isDigits⟩
    exact noLiteral _ _ (.radix isBase isLetter isDigits)
  have noDecimal : decimalNumber.rmatch text = false := by
    rw [Bool.eq_false_iff,Ne,decimal_iff]
    rintro (⟨whole,wholeDigits,point,fraction,tail,exponent,rfl,isWhole,isFraction,isTail⟩ |
      ⟨point,fraction,tail,exponent,rfl,isDigits,isTail⟩)
    · exact noLiteral _ _ (.decimal isWhole isFraction isTail)
    · exact noLiteral _ _ (.fraction isDigits isTail)
  rw [integerOf]
  rw [noRadix,noDecimal]
  rfl

end Literals

theorem integer_of_rat {value : ℚ} {n : Nat} : (value.den = 1 ∧ value.num = n) ↔ value = n := by
  constructor
  · rintro ⟨whole,num⟩
    rw [← Rat.coe_int_num_of_den_eq_one whole,num]
    rfl
  · rintro rfl
    exact ⟨Rat.den_natCast n,Rat.num_natCast n⟩

/-- A field number is parsed exactly from the literals of the numbers that a field may
    have. -/
theorem parseFieldNumber_iff (raw : List Char) (n : Nat) : parseFieldNumber raw = .ok n ↔ FieldNumber (TrimSpace raw) n := by
  have accepted : parseFieldNumber raw = .ok n ↔
      integerOf (TrimSpace raw) = some (n : Int) ∧ 1 ≤ n ∧ n ≤ 536870911 ∧ ¬ (19000 ≤ n ∧ n ≤ 19999) := by
    rw [parseFieldNumber]
    cases integerOf (TrimSpace raw) with
    | none => simp
    | some integer =>
      dsimp only
      rw [Option.some.injEq]
      have wide : 1 ≤ integer → integer ≤ 536870911 → isInt64 integer = true := by
        intro low high
        rw [isInt64,decide_eq_true_eq]
        omega
      by_cases fits : isInt64 integer = true
      · rw [if_neg (not_not_intro fits)]
        by_cases forbidden : integer < 1 ∨ 536870911 < integer ∨ (19000 ≤ integer ∧ integer ≤ 19999)
        · rw [if_pos forbidden]
          refine ⟨nofun,?_⟩
          rintro ⟨rfl,low,high,free⟩
          omega
        · rw [if_neg forbidden,Except.ok.injEq]
          constructor
          · intro isNat
            omega
          · rintro ⟨rfl,-⟩
            rfl
      · rw [if_pos fits]
        refine ⟨nofun,?_⟩
        rintro ⟨rfl,low,high,-⟩
        exact absurd (wide (by omega) (by omega)) fits
  rw [accepted]
  constructor
  · rintro ⟨isInteger,low,high,free⟩
    by_cases literal : ∃ exponent value, NumericLiteral (TrimSpace raw) exponent value
    · obtain ⟨exponent,value,literal⟩ := literal
      rw [integerOf_literal literal] at isInteger
      by_cases fits : (-1000 ≤ exponent ∧ exponent ≤ 1000) ∧ value.den = 1
      · rw [if_pos fits,Option.some.injEq] at isInteger
        have isValue : value = n := integer_of_rat.mp ⟨fits.2,isInteger⟩
        exact ⟨⟨exponent,isValue ▸ literal,fits.1⟩,⟨low,high⟩,free⟩
      · rw [if_neg fits] at isInteger
        cases isInteger
    · rw [integerOf_other fun exponent value isLiteral => literal ⟨exponent,value,isLiteral⟩] at isInteger
      cases isInteger
  · rintro ⟨⟨exponent,literal,bound⟩,⟨low,high⟩,free⟩
    obtain ⟨whole,num⟩ := integer_of_rat.mpr (rfl : (n : ℚ) = n)
    exact ⟨by rw [integerOf_literal literal,if_pos ⟨bound,whole⟩,num],low,high,free⟩

example : parseFieldNumber " 0x1_F ".toList = .ok 31 := by decide +kernel

end MyCursor.FieldNumbers

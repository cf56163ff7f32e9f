import MyCursor.Trimming
import Mathlib.Data.List.Basic
import Mathlib.Data.List.Infix
import Mathlib.Algebra.Order.Ring.Int

/-!
# Text and numbers of the standard library

The functions on `char`, `str` and `u64` that several parts of the server use.
-/
namespace MyCursor.Text

/-- `char::is_whitespace`. -/
def is_whitespace (c : Char) : Bool :=
  (0x09 ≤ c.toNat && c.toNat ≤ 0x0D) || c.toNat = 0x20 || c.toNat = 0x85 || c.toNat = 0xA0 || c.toNat = 0x1680 ||
    (0x2000 ≤ c.toNat && c.toNat ≤ 0x200A) || c.toNat = 0x2028 || c.toNat = 0x2029 || c.toNat = 0x202F ||
    c.toNat = 0x205F || c.toNat = 0x3000

def is_ascii_alphanumeric (c : Char) : Bool := ('0' ≤ c && c ≤ '9') || ('a' ≤ c && c ≤ 'z') || ('A' ≤ c && c ≤ 'Z')

theorem blank_plain {c : Char} (blank : is_whitespace c = true) : is_ascii_alphanumeric c = false := by
  have digits : '0' ≤ c ∧ c ≤ '9' ↔ 48 ≤ c.toNat ∧ c.toNat ≤ 57 := Iff.rfl
  have small : 'a' ≤ c ∧ c ≤ 'z' ↔ 97 ≤ c.toNat ∧ c.toNat ≤ 122 := Iff.rfl
  have capital : 'A' ≤ c ∧ c ≤ 'Z' ↔ 65 ≤ c.toNat ∧ c.toNat ≤ 90 := Iff.rfl
  simp only [is_whitespace,Bool.or_eq_true,Bool.and_eq_true,decide_eq_true_eq] at blank
  rw [Bool.eq_false_iff,Ne,is_ascii_alphanumeric]
  simp only [Bool.or_eq_true,Bool.and_eq_true,decide_eq_true_eq,digits,small,capital]
  omega

def trim (text : String) : String :=
  String.ofList ((text.toList.dropWhile is_whitespace).reverse.dropWhile is_whitespace).reverse
theorem trim_trim (text : String) : trim (trim text) = trim text := by
  have written : ∀ text : String, (trim text).toList = Trimming.trimmed is_whitespace text.toList := fun _ => String.toList_ofList
  rw [← String.toList_inj,written (trim text),written text,Trimming.trimmed_twice]

def to_ascii_lowercase (text : String) : String :=
  String.ofList (text.toList.map fun c => if 'A' ≤ c ∧ c ≤ 'Z' then Char.ofNat (c.toNat + 32) else c)

def contains (text part : String) : Bool := decide (part.toList <:+: text.toList)
def starts_with (text part : String) : Bool := decide (part.toList <+: text.toList)

def u64Max : Nat := 2 ^ 64 - 1
/-- `u64::saturating_add`. -/
def saturating_add (a b : Nat) : Nat := min (a + b) u64Max

theorem numbered_inj {c : Char} (separates : c.isDigit = false) {front other : List Char} {m n : Nat}
    (same : front ++ c :: Nat.toDigits 10 m = other ++ c :: Nat.toDigits 10 n) : m = n := by
  have last : ∀ (l : List Char) (n : Nat), (l ++ c :: Nat.toDigits 10 n).reverse.takeWhile (· ≠ c) = (Nat.toDigits 10 n).reverse := by
    intro l n
    rw [List.reverse_append,List.reverse_cons,List.append_assoc,List.takeWhile_append_of_pos]
    · simp
    · intro digit member
      have isDigit := Nat.isDigit_of_mem_toDigits (by decide) (by decide) (List.mem_reverse.mp member)
      simp only [decide_eq_true_eq,ne_eq]
      rintro rfl
      rw [separates] at isDigit
      cases isDigit
  have digits := congrArg (fun l => l.reverse.takeWhile (· ≠ c)) same
  simp only [last,List.reverse_inj] at digits
  rw [← @Nat.ofDigitChars_ten_toDigits m,digits,Nat.ofDigitChars_ten_toDigits]

end MyCursor.Text

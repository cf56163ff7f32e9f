import Mathlib.Data.List.Basic

/-!
# Base 64

The standard alphabet with canonical padding: three bytes are four characters,
and what is left at the end is filled up with `=`. A text is read back only if
the bits that no byte takes are zero.
-/
namespace Base64

def charOf (n : Nat) : Char :=
  if n < 26 then Char.ofNat (65 + n)
  else if n < 52 then Char.ofNat (71 + n)
  else if n < 62 then Char.ofNat (n - 4)
  else if n = 62 then '+'
  else '/'
def indexOf (c : Char) : Option Nat :=
  if 'A' ≤ c ∧ c ≤ 'Z' then some (c.toNat - 65)
  else if 'a' ≤ c ∧ c ≤ 'z' then some (c.toNat - 71)
  else if '0' ≤ c ∧ c ≤ '9' then some (c.toNat + 4)
  else if c = '+' then some 62
  else if c = '/' then some 63
  else none

theorem charOf_spec : ∀ n < 64, indexOf (charOf n) = some n ∧ charOf n ≠ '=' := by decide
theorem indexOf_charOf {n : Nat} (small : n < 64) : indexOf (charOf n) = some n := (charOf_spec n small).1
theorem charOf_ne_pad {n : Nat} (small : n < 64) : charOf n ≠ '=' := (charOf_spec n small).2

def encodeList : List UInt8 → List Char
  | [] => []
  | [a] => [charOf (a.toNat / 4),charOf (a.toNat % 4 * 16),'=','=']
  | [a,b] => [charOf (a.toNat / 4),charOf (a.toNat % 4 * 16 + b.toNat / 16),charOf (b.toNat % 16 * 4),'=']
  | a :: b :: c :: rest =>
    charOf (a.toNat / 4) :: charOf (a.toNat % 4 * 16 + b.toNat / 16) :: charOf (b.toNat % 16 * 4 + c.toNat / 64) ::
      charOf (c.toNat % 64) :: encodeList rest
def encode (bytes : List UInt8) : String := String.ofList (encodeList bytes)

def oneByte (w x : Nat) : Option (List UInt8) := if x % 16 = 0 then some [UInt8.ofNat (w * 4 + x / 16)] else none
def twoBytes (w x y : Nat) : Option (List UInt8) :=
  if y % 4 = 0 then some [UInt8.ofNat (w * 4 + x / 16),UInt8.ofNat (x % 16 * 16 + y / 4)] else none
def threeBytes (w x y z : Nat) : List UInt8 :=
  [UInt8.ofNat (w * 4 + x / 16),UInt8.ofNat (x % 16 * 16 + y / 4),UInt8.ofNat (y % 4 * 64 + z)]

def decodeList : List Char → Option (List UInt8)
  | [] => some []
  | w :: x :: y :: z :: rest => do
    let w ← indexOf w
    let x ← indexOf x
    if z = '=' ∧ rest = [] then
      if y = '=' then oneByte w x else do
        let y ← indexOf y
        twoBytes w x y
    else do
      let y ← indexOf y
      let z ← indexOf z
      let rest ← decodeList rest
      some (threeBytes w x y z ++ rest)
  | _ => none
def decode (text : String) : Option (List UInt8) := decodeList text.toList

theorem ofNat_of_toNat (byte : UInt8) {n : Nat} (same : n = byte.toNat) : UInt8.ofNat n = byte := by
  rw [same,UInt8.ofNat_toNat]

theorem decodeList_encodeList (bytes : List UInt8) : decodeList (encodeList bytes) = some bytes := by
  induction bytes using encodeList.induct with
  | case1 => rfl
  | case2 a =>
    have := a.toNat_lt
    simp only [encodeList,decodeList]
    rw [indexOf_charOf (by omega),indexOf_charOf (by omega)]
    simp only [Option.bind_eq_bind,Option.bind_some,and_self,if_true,oneByte]
    rw [if_pos (by omega),ofNat_of_toNat a (by omega)]
  | case3 a b =>
    have := a.toNat_lt
    have := b.toNat_lt
    simp only [encodeList,decodeList]
    rw [indexOf_charOf (by omega),indexOf_charOf (by omega),indexOf_charOf (by omega)]
    simp only [Option.bind_eq_bind,Option.bind_some,and_self,if_true,twoBytes]
    rw [if_neg (charOf_ne_pad (by omega)),if_pos (by omega),ofNat_of_toNat a (by omega),ofNat_of_toNat b (by omega)]
  | case4 a b c rest ih =>
    have := a.toNat_lt
    have := b.toNat_lt
    have := c.toNat_lt
    simp only [encodeList,decodeList]
    rw [indexOf_charOf (by omega),indexOf_charOf (by omega),indexOf_charOf (by omega),indexOf_charOf (by omega)]
    simp only [Option.bind_eq_bind,Option.bind_some]
    rw [if_neg (fun padded => charOf_ne_pad (by omega) padded.1),ih]
    simp only [Option.bind_some,threeBytes]
    rw [ofNat_of_toNat a (by omega),ofNat_of_toNat b (by omega),ofNat_of_toNat c (by omega)]
    rfl

theorem decode_encode (bytes : List UInt8) : decode (encode bytes) = some bytes := by
  rw [decode,encode,String.toList_ofList]
  exact decodeList_encodeList bytes

example : encode [77,97] = "TWE=" := by decide
example : decode "TWF=" = none := by decide

end Base64

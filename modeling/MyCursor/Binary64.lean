import Mathlib.Data.Nat.Log
import Mathlib.Tactic.Ring

/-!
# Integers as binary floats of 64 bits

The bits of the float next to an integer, ties to the even significand, and the
whole number that the bits of a float are. Below `2 ^ 53` an integer is a float
exactly and is read back from its bits.
-/
namespace Binary64

/-- The value in units of `2 ^ shift`, to the nearest, ties to even. -/
def roundEven (value shift : Nat) : Nat :=
  let quotient := value / 2 ^ shift
  let rest := value % 2 ^ shift
  if 2 * rest < 2 ^ shift ∨ (2 * rest = 2 ^ shift ∧ quotient % 2 = 0) then quotient else quotient + 1

def significand (value : Nat) : Nat :=
  if Nat.log2 value ≤ 52 then value * 2 ^ (52 - Nat.log2 value) else roundEven value (Nat.log2 value - 52)

/-- The bits below the sign. The leading bit of the significand is not stored: it
    adds one to the exponent. -/
def magnitudeBits (value : Nat) : Nat :=
  if value = 0 then 0 else (Nat.log2 value + 1022) * 2 ^ 52 + significand value

def ofInt (value : Int) : UInt64 :=
  UInt64.ofNat ((if value < 0 then 2 ^ 63 else 0) + magnitudeBits value.natAbs)

def isFinite (bits : UInt64) : Bool := bits.toNat / 2 ^ 52 % 2 ^ 11 ≠ 2047

/-- `mantissa * 2 ^ (shift - 1075)`, if this is whole. -/
def wholeScaled (mantissa shift : Nat) : Option Nat :=
  if shift = 2047 then none
  else if 1075 ≤ shift then some (mantissa * 2 ^ (shift - 1075))
  else if mantissa % 2 ^ (1075 - shift) = 0 then some (mantissa / 2 ^ (1075 - shift))
  else none
def wholeMagnitude (bits : Nat) : Option Nat :=
  let fraction := bits % 2 ^ 52
  let exponent := bits / 2 ^ 52 % 2 ^ 11
  if exponent = 0 then wholeScaled fraction 1 else wholeScaled (fraction + 2 ^ 52) exponent

def whole (bits : UInt64) : Option Int :=
  (wholeMagnitude bits.toNat).map fun magnitude : Nat => if 2 ^ 63 ≤ bits.toNat then -(magnitude : Int) else (magnitude : Int)

/-! ## Integers below `2 ^ 53` -/

theorem wholeScaled_zero {shift : Nat} (notLast : shift ≠ 2047) : wholeScaled 0 shift = some 0 := by
  rw [wholeScaled,if_neg notLast]
  split_ifs with large fits
  · rw [zero_mul]
  · rw [Nat.zero_div]
  · exact absurd (Nat.zero_mod _) fits

theorem wholeScaled_scaled (value : Nat) {shift : Nat} (bound : shift ≤ 1075) :
    wholeScaled (value * 2 ^ (1075 - shift)) shift = some value := by
  have notLast : shift ≠ 2047 := by omega
  rw [wholeScaled,if_neg notLast]
  by_cases full : 1075 ≤ shift
  · have none_ : 1075 - shift = 0 := by omega
    have units : shift - 1075 = 0 := by omega
    rw [if_pos full,none_,units,pow_zero,mul_one,mul_one]
  · rw [if_neg full,Nat.mul_mod_left,if_pos rfl,Nat.mul_div_cancel _ (Nat.two_pow_pos _)]

section Exact
variable {value : Nat} (positive : value ≠ 0) (small : value < 2 ^ 53)
include positive small

theorem log_small : Nat.log2 value ≤ 52 := by
  have bound := (Nat.log2_lt positive).mpr small
  omega

theorem significand_bounds : 2 ^ 52 ≤ significand value ∧ significand value < 2 ^ 53 := by
  have exponent := log_small positive small
  have lower := Nat.log2_self_le positive
  have upper := @Nat.lt_log2_self value
  rw [significand,if_pos exponent]
  have split : ∀ n : Nat, 2 ^ (Nat.log2 value + n) * 2 ^ (52 - Nat.log2 value) = 2 ^ (52 + n) := by
    intro n
    rw [← Nat.pow_add]
    congr 1
    omega
  constructor
  · calc 2 ^ 52 = 2 ^ Nat.log2 value * 2 ^ (52 - Nat.log2 value) := (split 0).symm
      _ ≤ value * 2 ^ (52 - Nat.log2 value) := Nat.mul_le_mul_right _ lower
  · calc value * 2 ^ (52 - Nat.log2 value) < 2 ^ (Nat.log2 value + 1) * 2 ^ (52 - Nat.log2 value) :=
          Nat.mul_lt_mul_of_pos_right upper (Nat.two_pow_pos _)
      _ = 2 ^ 53 := split 1

theorem fields (sign : Nat) : (sign * 2 ^ 63 + magnitudeBits value) % 2 ^ 52 = significand value - 2 ^ 52 ∧
    (sign * 2 ^ 63 + magnitudeBits value) / 2 ^ 52 % 2 ^ 11 = Nat.log2 value + 1023 := by
  obtain ⟨low,high⟩ := significand_bounds positive small
  have exponent := log_small positive small
  obtain ⟨rest,isRest⟩ := Nat.exists_eq_add_of_le low
  have below : rest < 2 ^ 52 := by omega
  have biased : Nat.log2 value + 1023 < 2 ^ 11 := by omega
  have layout : sign * 2 ^ 63 + magnitudeBits value = rest + 2 ^ 52 * (Nat.log2 value + 1023 + 2 ^ 11 * sign) := by
    rw [magnitudeBits,if_neg positive,isRest]
    ring
  rw [layout,isRest,Nat.add_mul_mod_self_left,Nat.mod_eq_of_lt below,Nat.add_mul_div_left _ _ (Nat.two_pow_pos 52),
    Nat.div_eq_of_lt below,zero_add,Nat.add_mul_mod_self_left,Nat.mod_eq_of_lt biased,Nat.add_sub_cancel_left]
  exact ⟨rfl,rfl⟩

theorem wholeMagnitude_signed (sign : Nat) : wholeMagnitude (sign * 2 ^ 63 + magnitudeBits value) = some value := by
  obtain ⟨low,high⟩ := significand_bounds positive small
  have exponent := log_small positive small
  obtain ⟨fraction,biased⟩ := fields positive small sign
  rw [wholeMagnitude,fraction,biased,if_neg (Nat.succ_ne_zero _),Nat.sub_add_cancel low]
  have bound : Nat.log2 value + 1023 ≤ 1075 := by omega
  have shift : 52 - Nat.log2 value = 1075 - (Nat.log2 value + 1023) := by omega
  rw [significand,if_pos exponent,shift]
  exact wholeScaled_scaled value bound

theorem magnitudeBits_lt : magnitudeBits value < 2 ^ 63 := by
  obtain ⟨low,high⟩ := significand_bounds positive small
  have exponent := log_small positive small
  rw [magnitudeBits,if_neg positive]
  omega

end Exact

theorem whole_ofInt {value : Int} (small : value.natAbs < 2 ^ 53) : whole (ofInt value) = some value := by
  by_cases zero : value = 0
  · have magnitude : wholeMagnitude 0 = some 0 := by
      rw [wholeMagnitude,Nat.zero_mod,Nat.zero_div,Nat.zero_mod,if_pos rfl]
      exact wholeScaled_zero (by decide)
    have bits : (ofInt 0).toNat = 0 := rfl
    have unsigned : ¬ 2 ^ 63 ≤ 0 := by decide
    rw [zero,whole,bits,magnitude,Option.map_some,if_neg unsigned]
    rfl
  · have positive : value.natAbs ≠ 0 := Int.natAbs_ne_zero.mpr zero
    have below := magnitudeBits_lt positive small
    have bits : (ofInt value).toNat = (if value < 0 then 2 ^ 63 else 0) + magnitudeBits value.natAbs := by
      rw [ofInt,UInt64.toNat_ofNat']
      apply Nat.mod_eq_of_lt
      split_ifs <;> omega
    by_cases negative : value < 0
    · have magnitude := wholeMagnitude_signed positive small 1
      rw [if_pos negative] at bits
      rw [one_mul] at magnitude
      rw [whole,bits,magnitude,Option.map_some,if_pos (by omega)]
      congr 1
      omega
    · have magnitude := wholeMagnitude_signed positive small 0
      rw [if_neg negative,zero_add] at bits
      rw [zero_mul,zero_add] at magnitude
      rw [whole,bits,magnitude,Option.map_some,if_neg (by omega)]
      congr 1
      omega

end Binary64

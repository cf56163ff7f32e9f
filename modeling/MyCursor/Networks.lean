import Mathlib.Data.Nat.Notation

/-!
# Networks of addresses

An address is in a network if it has the first bits of the network. Shifting the other
bits away compares just these.
-/
namespace Networks

variable {w : Nat}

/-- The address has the first `length` bits of the network. -/
def InNetwork (network : BitVec w) (length : Nat) (address : BitVec w) : Prop :=
  ∀ i < length, address.getMsbD i = network.getMsbD i
instance (network : BitVec w) (length : Nat) (address : BitVec w) : Decidable (InNetwork network length address) :=
  inferInstanceAs (Decidable (∀ i < length, _))

variable {network address : BitVec w} {length : Nat}

theorem ushiftRight_eq_iff (short : length ≤ w) :
    address >>> (w - length) = network >>> (w - length) ↔ InNetwork network length address := by
  constructor
  · intro same i inside
    have bit := congrArg (·.getMsbD (i + (w - length))) same
    simp only [BitVec.getMsbD_ushiftRight] at bit
    have late : ¬ i + (w - length) < w - length := by omega
    have place : i + (w - length) < w := by omega
    simpa [late,place] using bit
  · intro same
    refine BitVec.eq_of_getMsbD_eq fun i inside => ?_
    simp only [BitVec.getMsbD_ushiftRight]
    by_cases early : i < w - length
    · simp [early]
    · have among : i - (w - length) < length := by omega
      simp [early,same _ among]
theorem and_mask_iff {mask : BitVec w} (short : length ≤ w)
    (isMask : ∀ i < w, mask.getMsbD i = decide (i < length)) (clear : ∀ i < w, length ≤ i → network.getMsbD i = false) :
    address &&& mask = network ↔ InNetwork network length address := by
  constructor
  · intro same i inside
    have bit := congrArg (·.getMsbD i) same
    simp only [BitVec.getMsbD_and,isMask i (by omega)] at bit
    simpa [inside] using bit
  · intro within
    refine BitVec.eq_of_getMsbD_eq fun i inside => ?_
    rw [BitVec.getMsbD_and,isMask i inside]
    by_cases early : i < length
    · simp [early,within i early]
    · simp [early,clear i inside (by omega)]
theorem eq_iff : address = network ↔ InNetwork network w address :=
  ⟨fun same _ _ => by rw [same],fun within => BitVec.eq_of_getMsbD_eq within⟩
theorem inNetwork_split (first more : Nat) : InNetwork network (first + more) address ↔
      InNetwork network first address ∧ ∀ i < more, address.getMsbD (first + i) = network.getMsbD (first + i) := by
  constructor
  · exact fun within => ⟨fun i inside => within i (by omega),fun i inside => within _ (by omega)⟩
  · rintro ⟨front,rest⟩ i inside
    by_cases early : i < first
    · exact front i early
    · have bit := rest (i - first) (by omega)
      rwa [show first + (i - first) = i by omega] at bit
theorem disjoint {other : BitVec w} {length' i : Nat} (within : InNetwork network length address)
    (within' : InNetwork other length' address) (inside : i < length) (inside' : i < length')
    (different : network.getMsbD i ≠ other.getMsbD i) : False :=
  different ((within i inside).symm.trans (within' i inside'))

end Networks

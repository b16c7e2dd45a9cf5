/-
Integers that doubles keep.

Up to two to the power of 53 every integer is a double.  Comparing such integers
as doubles is comparing them exactly.
-/
import AccessPolicy.Comparison

namespace AccessPolicy
namespace Binary64

/-- The greatest magnitude up to which every integer is a double. -/
def exactLimit : Nat := 9007199254740992

theorem roundQuotient_of_dvd {num : Nat} (h : spacing num ∣ num) : roundQuotient num 1 = num := by
  have hpos : 0 < spacing num := Nat.two_pow_pos _
  rw [roundQuotient]
  simp only [Nat.div_one, Nat.mul_one, Nat.mod_eq_zero_of_dvd h, Nat.mul_zero]
  rw [if_neg (by omega), Nat.div_mul_cancel h]

theorem log2_mul_two_pow {m : Nat} (hm : m ≠ 0) (k : Nat) :
    (m * Nat.pow 2 k).log2 = m.log2 + k := by
  change (m * 2 ^ k).log2 = m.log2 + k
  have hne : m * 2 ^ k ≠ 0 := Nat.mul_ne_zero hm (Nat.ne_of_gt (Nat.two_pow_pos k))
  obtain ⟨hlow, hhigh⟩ := (Nat.log2_eq_iff hm).mp rfl
  rw [Nat.log2_eq_iff hne]
  constructor
  · rw [Nat.pow_add]
    exact Nat.mul_le_mul_right _ hlow
  · rw [Nat.add_right_comm, Nat.pow_add]
    exact Nat.mul_lt_mul_of_pos_right hhigh (Nat.two_pow_pos k)

/-- An integer of at most 53 bits shifted to the left is spaced like a double. -/
theorem spacing_dvd_shifted {m k : Nat} (hm : m ≤ exactLimit) (hk : 52 ≤ k) :
    spacing (m * Nat.pow 2 k) ∣ m * Nat.pow 2 k := by
  have hm : m ≤ 2 ^ 53 := hm
  by_cases hzero : m = 0
  · rw [hzero, Nat.zero_mul]
    exact Nat.dvd_zero _
  · have hspacing : spacing (m * Nat.pow 2 k) = 2 ^ (m.log2 + k - 52) := by
      rw [spacing, log2_mul_two_pow hzero]
      rfl
    rw [hspacing]
    change 2 ^ (m.log2 + k - 52) ∣ m * 2 ^ k
    by_cases hlast : m = 2 ^ 53
    · rw [hlast, Nat.log2_two_pow, ← Nat.pow_add]
      exact Nat.pow_dvd_pow 2 (by omega)
    · have hlog : m.log2 < 53 := (Nat.log2_lt hzero).mpr (by omega)
      exact Nat.dvd_mul_left_of_dvd (Nat.pow_dvd_pow 2 (by omega)) m

theorem spacing_dvd_units {m : Nat} (hm : m ≤ exactLimit) :
    spacing (m * unitsPerOne) ∣ m * unitsPerOne := by
  have hshifted : ∀ k, 52 ≤ k → spacing (m * Nat.pow 2 k) ∣ m * Nat.pow 2 k := fun k hk =>
    spacing_dvd_shifted hm hk
  delta unitsPerOne
  apply hshifted
  decide

theorem value_ofInt {n : Int} (h : n.natAbs ≤ exactLimit) :
    (ofInt n).value = n * (unitsPerOne : Int) := by
  have hunits : roundQuotient (n.natAbs * unitsPerOne) 1 = n.natAbs * unitsPerOne :=
    roundQuotient_of_dvd (spacing_dvd_units h)
  rw [ofInt, value]
  simp only [hunits]
  by_cases hneg : n < 0
  · rw [if_pos (by simpa using hneg), Int.natCast_mul, Int.ofNat_natAbs_of_nonpos (by omega)]
    rw [Int.neg_mul, Int.neg_neg]
  · rw [if_neg (by simpa using hneg), Int.natCast_mul, Int.natAbs_of_nonneg (by omega)]

end Binary64
end AccessPolicy

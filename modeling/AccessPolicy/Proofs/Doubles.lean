/-
How far rounding moves a number, and how far reading a decimal does.

A quotient is rounded to a multiple of the local spacing, so it never passes a
double, and it moves by at most one part in two to the power of 53.  A decimal is read
with three such steps.  What lies three spacings below the largest double therefore
stays finite when it is read, and so does every decimal that stands for such a double.
-/
import AccessPolicy.Binary64
import Mathlib.Algebra.Ring.Nat

namespace AccessPolicy
namespace Binary64

/-! ## Rounding -/

theorem spacing_pos (u : Nat) : 0 < spacing u := Nat.two_pow_pos _

theorem spacing_le {u : Nat} (h : u ≠ 0) : spacing u ≤ u :=
  Nat.le_trans (Nat.pow_le_pow_right (by decide) (Nat.sub_le _ _)) (Nat.log2_self_le h)

/-- Rounding never passes a multiple of the spacing. -/
theorem roundQuotient_le {num den bound : Nat} (hden : 0 < den)
    (hbound : spacing (num / den) ∣ bound) (h : num ≤ bound * den) :
    roundQuotient num den ≤ bound := by
  obtain ⟨k, rfl⟩ := hbound
  have hstep : 0 < spacing (num / den) * den := Nat.mul_pos (spacing_pos _) hden
  have hk : num ≤ k * (spacing (num / den) * den) := by
    rw [← Nat.mul_assoc, Nat.mul_comm k]
    exact h
  have hlow : num / (spacing (num / den) * den) ≤ k :=
    Nat.div_le_of_le_mul (by rw [Nat.mul_comm]; exact hk)
  rw [roundQuotient, Nat.mul_comm (spacing (num / den)) k]
  rcases Nat.lt_or_eq_of_le hlow with hlow | hlow
  · split
    · exact Nat.mul_le_mul_right _ hlow
    · exact Nat.mul_le_mul_right _ (Nat.le_of_lt hlow)
  · -- The quotient is the bound itself, so nothing is left to round.
    have hrest : num % (spacing (num / den) * den) = 0 := by
      have hsum := Nat.div_add_mod num (spacing (num / den) * den)
      rw [hlow, Nat.mul_comm _ k] at hsum
      omega
    exact Nat.le_of_eq (by rw [hrest, if_neg (by omega), hlow])

theorem roundQuotient_half (num den : Nat) :
    2 * (roundQuotient num den * den) ≤ 2 * num + spacing (num / den) * den := by
  rw [roundQuotient]
  have hsum := Nat.div_add_mod num (spacing (num / den) * den)
  generalize hq : num / (spacing (num / den) * den) = low at hsum ⊢
  generalize num % (spacing (num / den) * den) = left at hsum ⊢
  have hlow : low * spacing (num / den) * den = spacing (num / den) * den * low := by
    rw [Nat.mul_assoc, Nat.mul_comm]
  split
  · rw [Nat.add_mul, Nat.add_mul, Nat.one_mul, hlow]
    omega
  · rw [hlow]
    omega

/-- Rounding moves a quotient of at least 53 bits by at most one part in two to the
power of 53. -/
theorem roundQuotient_relative {num den : Nat} (h : 4503599627370496 ≤ num / den) :
    roundQuotient num den * den * 9007199254740992 ≤ num * 9007199254740993 := by
  have hne : num / den ≠ 0 := by omega
  have hlog : 52 ≤ (num / den).log2 := (Nat.le_log2 hne).mpr h
  have hspacing : spacing (num / den) * 4503599627370496 ≤ num / den := by
    have hpower : (4503599627370496 : Nat) = 2 ^ 52 := by decide
    refine Nat.le_trans (Nat.le_of_eq ?_) (Nat.log2_self_le hne)
    rw [spacing, hpower, Nat.pow_eq, ← Nat.pow_add, Nat.sub_add_cancel hlog]
  have hstep : spacing (num / den) * den * 4503599627370496 ≤ num := by
    rw [Nat.mul_right_comm]
    refine Nat.le_trans (Nat.mul_le_mul_right den hspacing) (Nat.div_mul_le_self num den)
  have hhalf : ∀ rounded step : Nat, 2 * rounded ≤ 2 * num + step →
      step * 4503599627370496 ≤ num → rounded * 9007199254740992 ≤ num * 9007199254740993 := by
    omega
  exact hhalf _ _ (roundQuotient_half num den) hstep

/-! ## Reading decimals -/

/-- The spacing of the largest doubles. -/
def widestSpacing : Nat := Nat.pow 2 2045

/-- The units of the largest double. -/
def largest : Nat := 9007199254740991 * widestSpacing

/-- Three and a half spacings below two to the power of 1024.  A decimal up to here
does not leave the doubles while it is read. -/
def decimalLimit : Nat := 18014398509481977 * Nat.pow 2 970

theorem largest_lt : largest < unitsLimit := by decide +kernel

theorem spacing_dvd_power {u k : Nat} (h : u < Nat.pow 2 (k + 53)) : spacing u ∣ Nat.pow 2 k := by
  refine Nat.pow_dvd_pow 2 ?_
  by_cases hu : u = 0
  · rw [hu, Nat.log2_zero]
    omega
  · have hlog : u.log2 < k + 53 := (Nat.log2_lt hu).mpr h
    omega

/-- The powers of two behind the constants, kept as a variable so that nothing computes
them. -/
theorem exists_widestSpacing_eq :
    ∃ k, widestSpacing = Nat.pow 2 k ∧ unitsLimit = Nat.pow 2 (k + 53) :=
  ⟨2045, by decide +kernel, by decide +kernel⟩

theorem spacing_dvd_widest {u : Nat} (h : u < unitsLimit) : spacing u ∣ widestSpacing := by
  obtain ⟨k, hwidest, hlimit⟩ := exists_widestSpacing_eq
  rw [hlimit] at h
  rw [hwidest]
  exact spacing_dvd_power h

theorem spacing_dvd_largest {u : Nat} (h : u ≤ largest) : spacing u ∣ largest :=
  Nat.dvd_mul_left_of_dvd (spacing_dvd_widest (Nat.lt_of_le_of_lt h largest_lt)) _

theorem roundQuotient_le_largest {num den : Nat} (hden : 0 < den) (h : num ≤ largest * den) :
    roundQuotient num den ≤ largest := by
  refine roundQuotient_le hden (spacing_dvd_largest (Nat.div_le_of_le_mul ?_)) h
  rw [Nat.mul_comm]
  exact h

/-- Rounding an integer moves it by at most one part in two to the power of 53. -/
theorem roundQuotient_units (n : Nat) :
    roundQuotient (n * unitsPerOne) 1 * 9007199254740992 ≤
      n * unitsPerOne * 9007199254740993 := by
  by_cases hn : n = 0
  · have hzero : roundQuotient 0 1 = 0 := by decide +kernel
    have hleft : roundQuotient (n * unitsPerOne) 1 * 9007199254740992 = 0 := by
      rw [hn, Nat.zero_mul, hzero, Nat.zero_mul]
    exact Nat.le_trans (Nat.le_of_eq hleft) (Nat.zero_le _)
  · have hwide : 4503599627370496 ≤ n * unitsPerOne / 1 := by
      rw [Nat.div_one]
      have hunits : 4503599627370496 ≤ unitsPerOne := by decide +kernel
      exact Nat.le_trans hunits (Nat.le_mul_of_pos_left _ (Nat.pos_of_ne_zero hn))
    have hrelative := roundQuotient_relative hwide
    rw [Nat.mul_one] at hrelative
    exact hrelative

theorem unitsPerOne_pos : 0 < unitsPerOne := by decide +kernel

theorem nearest?_isSome {num den : Nat} (h : roundQuotient num den < unitsLimit) :
    (nearest? num den).isSome = true := by
  rw [nearest?]
  simp only [if_pos h]
  rfl

/-- Three roundings up do not lead from the limit past the largest double. -/
theorem decimalLimit_rounded :
    decimalLimit * (unitsPerOne * 9007199254740993 * (unitsPerOne * 9007199254740993)) ≤
      largest * unitsPerOne * (9007199254740992 * 9007199254740992) := by decide +kernel

/-- A product is a double when its exact value is within the limit. -/
theorem mul?_isSome {significand power : Nat} (h : significand * power ≤ decimalLimit) :
    (mul? (roundQuotient (significand * unitsPerOne) 1)
      (roundQuotient (power * unitsPerOne) 1)).isSome = true := by
  have hproduct : roundQuotient (significand * unitsPerOne) 1 *
      roundQuotient (power * unitsPerOne) 1 ≤ largest * unitsPerOne := by
    have hboth := Nat.mul_le_mul (roundQuotient_units significand) (roundQuotient_units power)
    generalize roundQuotient (significand * unitsPerOne) 1 = u at hboth ⊢
    generalize roundQuotient (power * unitsPerOne) 1 = p at hboth ⊢
    refine Nat.le_of_mul_le_mul_right (c := 9007199254740992 * 9007199254740992) ?_ (by decide)
    calc u * p * (9007199254740992 * 9007199254740992)
        = u * 9007199254740992 * (p * 9007199254740992) := Nat.mul_mul_mul_comm _ _ _ _
      _ ≤ significand * unitsPerOne * 9007199254740993 *
            (power * unitsPerOne * 9007199254740993) := hboth
      _ = significand * power *
            (unitsPerOne * 9007199254740993 * (unitsPerOne * 9007199254740993)) := by
          rw [Nat.mul_assoc significand, Nat.mul_assoc power, Nat.mul_mul_mul_comm]
      _ ≤ decimalLimit *
            (unitsPerOne * 9007199254740993 * (unitsPerOne * 9007199254740993)) :=
          Nat.mul_le_mul_right _ h
      _ ≤ largest * unitsPerOne * (9007199254740992 * 9007199254740992) :=
          decimalLimit_rounded
  have hrounded := roundQuotient_le_largest unitsPerOne_pos hproduct
  exact nearest?_isSome (Nat.lt_of_le_of_lt hrounded largest_lt)

theorem decimalLimit_lt : decimalLimit < 10 ^ 309 := by decide +kernel

/-- A decimal is read as some double when its exact value is within the limit. -/
theorem ofDecimal?_isSome {negative : Bool} {significand : Nat} {exponent : Int}
    (h : ∀ e : Nat, exponent = e → significand * 10 ^ e ≤ decimalLimit) :
    (ofDecimal? negative significand exponent).isSome = true := by
  cases exponent with
  | negSucc e => rfl
  | ofNat e =>
    have hlimit := h e rfl
    rw [ofDecimal?]
    by_cases he : e ≤ maxPower
    · rw [if_pos he, Option.isSome_map]
      exact mul?_isSome hlimit
    · -- Beyond the largest power only zero is within the limit.
      have hzero : significand = 0 := by
        refine (Nat.eq_zero_or_pos significand).resolve_right fun hpos => ?_
        have hpower : ∀ k, k ≤ e → 10 ^ k ≤ 10 ^ e := fun k hk =>
          Nat.pow_le_pow_right (by decide) hk
        have hle : 10 ^ e ≤ significand * 10 ^ e := Nat.le_mul_of_pos_left _ hpos
        have hfar : 10 ^ 309 ≤ decimalLimit :=
          Nat.le_trans (hpower 309 (Nat.lt_of_not_le he)) (Nat.le_trans hle hlimit)
        exact absurd decimalLimit_lt (Nat.not_lt.mpr hfar)
      rw [if_neg he, hzero, Nat.zero_mul, show roundQuotient 0 1 = 0 from by decide +kernel,
        if_pos rfl]
      rfl

/-! ## Decimals that read back -/

section

variable {u : Nat} {d : Decimal}

/-- A decimal that reads back lies within half a spacing above the double and at most
one below it. -/
theorem of_readsBack (h : readsBack u d = true) :
    (4 * u - 2 * spacing u) * (shifted (d.digits * unitsPerOne) 1 d.exponent).2 ≤
        4 * (shifted (d.digits * unitsPerOne) 1 d.exponent).1 ∧
      4 * (shifted (d.digits * unitsPerOne) 1 d.exponent).1 ≤
        (4 * u + 2 * spacing u) * (shifted (d.digits * unitsPerOne) 1 d.exponent).2 := by
  have hbelow : (if u / spacing u = Nat.pow 2 52 ∧ 1 < spacing u then spacing u
      else 2 * spacing u) ≤ 2 * spacing u := by
    split
    · omega
    · exact Nat.le_refl _
  rw [readsBack] at h
  generalize shifted (d.digits * unitsPerOne) 1 d.exponent = fraction at h ⊢
  obtain ⟨num, den⟩ := fraction
  have hlow := Nat.mul_le_mul_right den (Nat.sub_le_sub_left hbelow (4 * u))
  simp only at h ⊢
  split at h
  · obtain ⟨hfrom, hto⟩ := Bool.and_eq_true_iff.mp h
    exact ⟨Nat.le_trans hlow (of_decide_eq_true hfrom), of_decide_eq_true hto⟩
  · obtain ⟨hfrom, hto⟩ := Bool.and_eq_true_iff.mp h
    exact ⟨Nat.le_trans hlow (Nat.le_of_lt (of_decide_eq_true hfrom)),
      Nat.le_of_lt (of_decide_eq_true hto)⟩

theorem shifted_snd_pos (num : Nat) (e : Int) : 0 < (shifted num 1 e).2 := by
  cases e with
  | ofNat k => exact Nat.one_pos
  | negSucc k =>
    rw [shifted, Nat.one_mul]
    exact Nat.pow_pos (by decide)

/-- Only zero reads back from no digits. -/
theorem digits_pos_of_readsBack (hu : u ≠ 0) (h : readsBack u d = true) : 0 < d.digits := by
  refine Nat.pos_of_ne_zero fun hzero => ?_
  obtain ⟨hlow, -⟩ := of_readsBack h
  have hden := shifted_snd_pos (d.digits * unitsPerOne) d.exponent
  have hnum : (shifted (d.digits * unitsPerOne) 1 d.exponent).1 = 0 := by
    rw [hzero, Nat.zero_mul]
    cases d.exponent <;> simp only [shifted, Nat.zero_mul]
  rw [hnum, Nat.mul_zero, Nat.le_zero, Nat.mul_eq_zero] at hlow
  have hspacing := spacing_le hu
  have hpos : 0 < 4 * u - 2 * spacing u := by omega
  omega

/-- Decimals that read back as a double below the limit are within the limit. -/
theorem readsBack_le (hu : 2 * u + spacing u ≤ 2 * (decimalLimit * unitsPerOne))
    (h : readsBack u d = true) {up down : Nat} (hexponent : d.exponent = up - down) :
    d.digits * 10 ^ up ≤ decimalLimit * 10 ^ down := by
  obtain ⟨-, hhigh⟩ := of_readsBack h
  have hbound : (shifted (d.digits * unitsPerOne) 1 d.exponent).1 ≤
      decimalLimit * unitsPerOne * (shifted (d.digits * unitsPerOne) 1 d.exponent).2 := by
    have hmul := Nat.mul_le_mul_right (shifted (d.digits * unitsPerOne) 1 d.exponent).2 hu
    generalize (shifted (d.digits * unitsPerOne) 1 d.exponent).2 = den at hhigh hmul ⊢
    generalize decimalLimit * unitsPerOne = limit at hmul ⊢
    rw [show 4 * u + 2 * spacing u = 2 * (2 * u + spacing u) by omega, Nat.mul_assoc] at hhigh
    rw [Nat.mul_assoc] at hmul
    omega
  have hcancel : ∀ {a b : Nat}, a * unitsPerOne ≤ b * unitsPerOne → a ≤ b :=
    fun h => Nat.le_of_mul_le_mul_right h unitsPerOne_pos
  cases he : d.exponent with
  | ofNat k =>
    rw [he, shifted, Nat.mul_one] at hbound
    have hbound : d.digits * 10 ^ k ≤ decimalLimit :=
      hcancel (by rw [Nat.mul_right_comm]; exact hbound)
    have hup : up = k + down := by
      rw [he] at hexponent
      have : (k : Int) = up - down := hexponent
      omega
    rw [hup, Nat.pow_add, ← Nat.mul_assoc]
    exact Nat.mul_le_mul_right _ hbound
  | negSucc k =>
    rw [he, shifted, Nat.one_mul] at hbound
    have hbound : d.digits ≤ decimalLimit * 10 ^ (k + 1) :=
      hcancel (by rw [Nat.mul_right_comm decimalLimit]; exact hbound)
    have hdown : down = k + 1 + up := by
      rw [he] at hexponent
      omega
    rw [hdown, Nat.pow_add, ← Nat.mul_assoc]
    exact Nat.mul_le_mul_right _ hbound

theorem readsBack_of_bestOfLength {n : Nat} (h : bestOfLength? u n = some d) :
    readsBack u d = true := by
  unfold bestOfLength? at h
  extract_lets exponent at h
  generalize shifted u unitsPerOne (-exponent) = fraction at h
  clear_value exponent
  obtain ⟨num, den⟩ := fraction
  simp only at h
  split at h
  · rename_i hlow hhigh
    split at h
    · obtain rfl := Option.some.inj h
      exact hlow
    · split at h
      · obtain rfl := Option.some.inj h
        exact hhigh
      · split at h
        · obtain rfl := Option.some.inj h
          exact hlow
        · obtain rfl := Option.some.inj h
          exact hhigh
  · rename_i hlow _
    obtain rfl := Option.some.inj h
    exact hlow
  · rename_i hhigh
    obtain rfl := Option.some.inj h
    exact hhigh
  · cases h

/-- The decimal under which a double is written reads back, or it is zero for want of a
better one. -/
theorem shortest_readsBack (u : Nat) : shortest u = ⟨0, 0⟩ ∨ readsBack u (shortest u) = true := by
  rw [shortest]
  split
  · exact .inl rfl
  · cases hfound : (List.range 17).findSome? fun n => bestOfLength? u (n + 1) with
    | none => exact .inl rfl
    | some d =>
      obtain ⟨n, -, hn⟩ := List.exists_of_findSome?_eq_some hfound
      exact .inr (readsBack_of_bestOfLength hn)

end

/-! ## Finite doubles -/

/-- The magnitude is that of a finite double: it has at most 53 bits at its place and
lies below two to the power of 1024. -/
structure IsFinite (x : Binary64) : Prop where
  lt : x.units < unitsLimit
  spaced : spacing x.units ∣ x.units

theorem widestSpacing_pos : 0 < widestSpacing := by decide +kernel

theorem unitsLimit_eq : unitsLimit = 9007199254740992 * widestSpacing := by decide +kernel

theorem decimalLimit_eq :
    2 * (decimalLimit * unitsPerOne) = 18014398509481977 * widestSpacing := by decide +kernel

/-- The largest doubles have the widest spacing. -/
theorem spacing_eq_widest {u : Nat} (hlow : 4503599627370496 * widestSpacing ≤ u)
    (h : u < unitsLimit) : spacing u = widestSpacing := by
  obtain ⟨k, hwidest, hlimit⟩ := exists_widestSpacing_eq
  have hpower : 4503599627370496 * Nat.pow 2 k = 2 ^ (k + 52) := by
    rw [Nat.pow_add, Nat.mul_comm]
    rfl
  rw [hwidest, hpower] at hlow
  rw [hlimit] at h
  have hu : u ≠ 0 := Nat.ne_of_gt (Nat.lt_of_lt_of_le (Nat.two_pow_pos _) hlow)
  have hlog : u.log2 = k + 52 := (Nat.log2_eq_iff hu).mpr ⟨hlow, h⟩
  rw [spacing, hlog, hwidest, Nat.add_sub_cancel]

/-- All but the three largest doubles lie below the limit by half a spacing. -/
theorem IsFinite.below_or_top {x : Binary64} (h : x.IsFinite) :
    2 * x.units + spacing x.units ≤ 2 * (decimalLimit * unitsPerOne) ∨
      ∃ k < 3, x.units = (9007199254740991 - k) * widestSpacing := by
  have hwidest := spacing_dvd_widest h.lt
  have hspacing := Nat.le_of_dvd widestSpacing_pos hwidest
  have hlt := h.lt
  have htop := spacing_eq_widest (u := x.units)
  rw [unitsLimit_eq] at hlt htop
  rw [decimalLimit_eq]
  by_cases hle : x.units ≤ 9007199254740988 * widestSpacing
  · exact .inl (by omega)
  · -- What is left is a multiple of the widest spacing next to the limit.
    obtain ⟨m, hm⟩ := h.spaced
    rw [htop (by omega) hlt, Nat.mul_comm] at hm
    rw [hm] at hle hlt
    have hmlow : 9007199254740988 < m := by
      refine Nat.lt_of_not_le fun hm => hle ?_
      exact Nat.mul_le_mul_right _ hm
    have hmhigh : m < 9007199254740992 := Nat.lt_of_mul_lt_mul_right hlt
    refine .inr ⟨9007199254740991 - m, by omega, ?_⟩
    rw [hm, show 9007199254740991 - (9007199254740991 - m) = m by omega]

end Binary64
end AccessPolicy

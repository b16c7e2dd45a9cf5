/-
Numbers that come back from their text.

A number of the engine is an integer of 64 bits or a finite double.  It is written as a
literal that the reader turns into a number again: integers come back unchanged, and no
finite double is written so that its text leads past the doubles.
-/
import AccessPolicy.Database.Entities
import AccessPolicy.Proofs.Json.Literals

namespace AccessPolicy

namespace Json

namespace Literal

/-! ## Doubles as literals -/

/-- The literal of digits with the point after the first `point` of them. -/
def positional (cs : List Char) : Int → Literal
  | .ofNat k =>
    if cs.length ≤ k then ⟨cs ++ List.replicate (k - cs.length) '0', some ['0'], none⟩
    else if k = 0 then ⟨['0'], some cs, none⟩
    else ⟨cs.take k, some (cs.drop k), none⟩
  | .negSucc k => ⟨['0'], some (List.replicate (k + 1) '0' ++ cs), none⟩

/-- The literal of digits with the point after the first and an exponent. -/
def scientific (c : Char) (rest : List Char) (exponent : Int) : Literal :=
  ⟨[c], if rest = [] then none else some rest,
    some (decide (exponent < 0), Nat.toDigits 10 exponent.natAbs)⟩

def zero : Literal := ⟨['0'], some ['0'], none⟩

/-- The exponent of a decimal with one digit before the point. -/
def scientificExponent (d : Binary64.Decimal) : Int :=
  d.exponent + (Nat.toDigits 10 d.digits).length - 1

/-- The literal under which a decimal is written. -/
def ofDecimal (d : Binary64.Decimal) : Literal :=
  match Binary64.dropTrailingZeros (Nat.toDigits 10 d.digits) with
  | [] => zero
  | c :: rest =>
    if Binary64.style.leastPositional ≤ scientificExponent d ∧
        scientificExponent d ≤ Binary64.style.mostPositional
    then positional (c :: rest) (scientificExponent d + 1)
    else scientific c rest (scientificExponent d)

/-- The literal under which a magnitude is written. -/
def ofUnits (u : Nat) : Literal := if u = 0 then zero else ofDecimal (Binary64.shortest u)

section

variable {c : Char} {rest : List Char} {negative : Bool}

theorem text_positional (cs : List Char) (point : Int) :
    (positional cs point).text = Binary64.positional cs point := by
  cases point with
  | ofNat k =>
    rw [positional, Binary64.positional]
    split
    · simp [text, fractionText, exponentText]
    · split <;> simp [text, fractionText, exponentText]
  | negSucc k => simp [positional, Binary64.positional, text, fractionText, exponentText]

theorem text_scientific (exponent : Int) :
    (scientific c rest exponent).text = Binary64.scientific (c :: rest) exponent := by
  cases rest with
  | nil => by_cases hneg : exponent < 0 <;>
      simp [scientific, Binary64.scientific, text, fractionText, exponentText, hneg]
  | cons d rest => by_cases hneg : exponent < 0 <;>
      simp [scientific, Binary64.scientific, text, fractionText, exponentText, hneg]

theorem isDigit_zeros (k : Nat) : ∀ c ∈ List.replicate k '0', c.isDigit = true := by
  intro c hc
  rw [List.eq_of_mem_replicate hc]
  rfl

theorem isWritten_positional (hdigits : ∀ d ∈ c :: rest, d.isDigit = true) (hc : c ≠ '0')
    (point : Int) : (positional (c :: rest) point).IsWritten := by
  have hzero : ∀ d ∈ ['0'], d.isDigit = true := isDigit_zeros 1
  cases point with
  | ofNat k =>
    rw [positional]
    split
    · refine ⟨fun d hd => ?_, .inr ⟨c, _, rfl, hc⟩, ?_, nofun⟩
      · exact (List.mem_append.mp hd).elim (hdigits d) (isDigit_zeros _ d)
      · rintro ds ⟨⟩
        exact ⟨nofun, hzero⟩
    · rename_i hlong
      split
      · refine ⟨hzero, .inl rfl, ?_, nofun⟩
        rintro ds ⟨⟩
        exact ⟨nofun, hdigits⟩
      · rename_i hk
        refine ⟨fun d hd => hdigits d (List.mem_of_mem_take hd), .inr ?_, ?_, nofun⟩
        · obtain ⟨k, rfl⟩ := Nat.exists_eq_succ_of_ne_zero hk
          exact ⟨c, _, rfl, hc⟩
        · rintro ds ⟨⟩
          refine ⟨fun hnil => hlong (List.drop_eq_nil_iff.mp hnil), fun d hd => ?_⟩
          exact hdigits d (List.mem_of_mem_drop hd)
  | negSucc k =>
    refine ⟨hzero, .inl rfl, ?_, nofun⟩
    rintro ds ⟨⟩
    refine ⟨by simp, fun d hd => ?_⟩
    exact (List.mem_append.mp hd).elim (isDigit_zeros _ d) (hdigits d)

theorem isWritten_scientific (hdigits : ∀ d ∈ c :: rest, d.isDigit = true) (hc : c ≠ '0')
    (exponent : Int) : (scientific c rest exponent).IsWritten := by
  refine ⟨fun d hd => ?_, .inr ⟨c, [], rfl, hc⟩, fun ds hds => ?_, ?_⟩
  · rw [List.mem_singleton.mp hd]
    exact hdigits c List.mem_cons_self
  · rw [scientific] at hds
    by_cases hrest : rest = []
    · rw [if_pos hrest] at hds
      cases hds
    · rw [if_neg hrest] at hds
      cases hds
      exact ⟨hrest, fun d hd => hdigits d (List.mem_cons_of_mem c hd)⟩
  · rintro negative ds ⟨⟩
    exact ⟨Nat.toDigits_ne_nil, Digits.isDigit_toDigits⟩

/-- A short number that is written out in positions is read. -/
theorem number?_positional_isSome (hdigits : ∀ d ∈ c :: rest, d.isDigit = true) (hc : c ≠ '0')
    {point : Int} (hpoint : point ≤ 16) :
    ((positional (c :: rest) point).number? negative).isSome = true := by
  have hwritten := isWritten_positional hdigits hc point
  have hparts : (positional (c :: rest) point).whole.length ≤ 16 ∧
      (positional (c :: rest) point).fraction.isSome = true ∧
      (positional (c :: rest) point).exponent = none := by
    cases point with
    | ofNat k =>
      have hk : k ≤ 16 := Int.ofNat_le.mp hpoint
      rw [positional]
      split
      · refine ⟨?_, rfl, rfl⟩
        rw [List.length_append, List.length_replicate]
        omega
      · split
        · exact ⟨(by decide : 1 ≤ 16), rfl, rfl⟩
        · refine ⟨?_, rfl, rfl⟩
          rw [List.length_take]
          omega
    | negSucc k => exact ⟨(by decide : 1 ≤ 16), rfl, rfl⟩
  generalize positional (c :: rest) point = l at hwritten hparts
  obtain ⟨hlength, hfraction, hexponent⟩ := hparts
  have hwhole := Nat.lt_of_lt_of_le (Digits.decimal_map_lt hwritten.whole)
    (Nat.pow_le_pow_right (by decide) hlength)
  refine number?_isSome (.inl hfraction) (Nat.lt_trans hwhole (by decide)) fun e he => ?_
  rw [hexponent] at he
  obtain rfl : e = 0 := by
    have : (0 : Int) = e := he
    omega
  have hall : ∀ d ∈ l.whole ++ l.fraction.getD [], d.isDigit = true := by
    intro d hd
    refine (List.mem_append.mp hd).elim (hwritten.whole d) fun hd => ?_
    cases hds : l.fraction with
    | none => rw [hds] at hd; cases hd
    | some ds => rw [hds] at hd; exact (hwritten.fraction ds hds).2 d hd
  have hle := Nat.le_of_lt (Digits.decimal_map_lt hall)
  rw [List.length_append, Nat.pow_add] at hle
  rw [Nat.pow_zero, Nat.mul_one]
  refine Nat.le_trans hle (Nat.mul_le_mul_right _ ?_)
  exact Nat.le_trans (Nat.pow_le_pow_right (by decide) hlength) (by decide +kernel)

theorem exponentValue_toDigits (exponent : Int) :
    exponentValue (decide (exponent < 0), Nat.toDigits 10 exponent.natAbs) = exponent := by
  rw [exponentValue, Digits.decimal_toDigits]
  split
  · rename_i hneg
    have := of_decide_eq_true hneg
    omega
  · rename_i hneg
    have := of_decide_eq_false (Bool.eq_false_iff.mpr hneg)
    omega

theorem number?_scientific_isSome (hdigits : ∀ d ∈ c :: rest, d.isDigit = true) {exponent : Int}
    (h : ∀ e : Nat, exponent = e →
      Digits.decimal ((c :: rest).map Digits.value) * 10 ^ e ≤
        Binary64.decimalLimit * 10 ^ rest.length) :
    ((scientific c rest exponent).number? negative).isSome = true := by
  have hlead : ∀ d ∈ [c], d.isDigit = true := by
    intro d hd
    rw [List.mem_singleton.mp hd]
    exact hdigits c List.mem_cons_self
  have hlimit : 10 < Number.unsignedLimit := by decide
  refine number?_isSome (.inr rfl) (Nat.lt_trans (Digits.decimal_map_lt hlead) hlimit)
    fun e he => ?_
  have he : exponent = e := (exponentValue_toDigits exponent).symm.trans he
  have hfraction : (scientific c rest exponent).fraction.getD [] = rest := by
    rw [scientific]
    by_cases hrest : rest = []
    · rw [if_pos hrest, hrest]
      rfl
    · rw [if_neg hrest]
      rfl
  rw [hfraction]
  exact h e he

end

section

variable {u : Nat} {negative : Bool}

theorem exists_replicate_zero (cs : List Char) :
    ∃ z, cs = Binary64.dropTrailingZeros cs ++ List.replicate z '0' := by
  refine ⟨(cs.reverse.takeWhile (· = '0')).length, ?_⟩
  have hzeros : cs.reverse.takeWhile (· = '0') =
      List.replicate (cs.reverse.takeWhile (· = '0')).length '0' :=
    List.eq_replicate_of_mem fun c hc =>
      of_decide_eq_true (List.all_eq_true.mp List.all_takeWhile c hc)
  rw [← List.reverse_replicate, ← hzeros, Binary64.dropTrailingZeros, ← List.reverse_append,
    List.takeWhile_append_dropWhile, List.reverse_reverse]

/-- The digits of a decimal that reads back, with the zeros at their end apart. -/
theorem exists_digits (hu : u ≠ 0) {d : Binary64.Decimal} (h : Binary64.readsBack u d = true) :
    ∃ c rest z, Binary64.dropTrailingZeros (Nat.toDigits 10 d.digits) = c :: rest ∧ c ≠ '0' ∧
      Nat.toDigits 10 d.digits = c :: rest ++ List.replicate z '0' := by
  obtain ⟨c, rest, hall, hc⟩ := Digits.exists_toDigits (Binary64.digits_pos_of_readsBack hu h)
  obtain ⟨z, hz⟩ := exists_replicate_zero (Nat.toDigits 10 d.digits)
  cases hcs : Binary64.dropTrailingZeros (Nat.toDigits 10 d.digits) with
  | nil =>
    rw [hcs, hall, List.nil_append] at hz
    refine absurd (List.eq_of_mem_replicate (n := z) ?_) hc
    rw [← hz]
    exact List.mem_cons_self
  | cons c' rest' =>
    rw [hcs] at hz
    refine ⟨c', rest', z, rfl, ?_, hz⟩
    rw [hall] at hz
    cases hz
    exact hc

theorem ofDecimal_of_cons {d : Binary64.Decimal} {c : Char} {rest : List Char}
    (hcs : Binary64.dropTrailingZeros (Nat.toDigits 10 d.digits) = c :: rest) :
    ofDecimal d =
      if Binary64.style.leastPositional ≤ scientificExponent d ∧
          scientificExponent d ≤ Binary64.style.mostPositional
      then positional (c :: rest) (scientificExponent d + 1)
      else scientific c rest (scientificExponent d) := by
  rw [ofDecimal, hcs]

theorem ofDecimal_zero : ofDecimal ⟨0, 0⟩ = zero := rfl

theorem isWritten_zero : zero.IsWritten where
  whole := isDigit_zeros 1
  lead := .inl rfl
  fraction := by
    rintro ds ⟨⟩
    exact ⟨nofun, isDigit_zeros 1⟩
  exponent := nofun

theorem isWritten_ofUnits (u : Nat) : (ofUnits u).IsWritten := by
  rw [ofUnits]
  split
  · exact isWritten_zero
  · rename_i hu
    rcases Binary64.shortest_readsBack u with hzero | hback
    · rw [hzero, ofDecimal_zero]
      exact isWritten_zero
    · obtain ⟨c, rest, z, hcs, hc, hall⟩ := exists_digits hu hback
      have hdigits : ∀ d ∈ c :: rest, d.isDigit = true := fun d hd =>
        Digits.isDigit_toDigits d (hall ▸ List.mem_append_left _ hd)
      rw [ofDecimal_of_cons hcs]
      split
      · exact isWritten_positional hdigits hc _
      · exact isWritten_scientific hdigits hc _

theorem IsWritten.exists_text_cons {l : Literal} (h : l.IsWritten) :
    ∃ c more, l.text = c :: more ∧ c.isDigit = true := by
  obtain hzero | ⟨c, cs, hwhole, -⟩ := h.lead
  · exact ⟨'0', _, by rw [text, hzero]; rfl, rfl⟩
  · exact ⟨c, _, by rw [text, hwhole]; rfl, h.whole c (hwhole ▸ List.mem_cons_self)⟩

/-- The sign of a number as it is written. -/
def signText (negative : Bool) : List Char := if negative then ['-'] else []

theorem toList_text (x : Binary64) :
    x.text.toList = signText x.negative ++ (ofUnits x.units).text := by
  have hsign : (if x.negative then "-" else "").toList = signText x.negative := by
    cases x.negative <;> rfl
  rw [Binary64.text, ofUnits]
  by_cases hu : x.units = 0
  · simp only [if_pos hu, String.toList_append, hsign]
    rfl
  · simp only [if_neg hu, String.toList_append, hsign, String.toList_ofList]
    congr 1
    rcases Binary64.shortest_readsBack x.units with hzero | hback
    · rw [hzero, ofDecimal_zero]
      decide
    · obtain ⟨c, rest, z, hcs, -, -⟩ := exists_digits hu hback
      rw [ofDecimal_of_cons hcs, hcs]
      by_cases hstyle : Binary64.style.leastPositional ≤
            scientificExponent (Binary64.shortest x.units) ∧
          scientificExponent (Binary64.shortest x.units) ≤ Binary64.style.mostPositional
      · rw [if_pos hstyle, text_positional]
        exact if_pos hstyle
      · rw [if_neg hstyle, text_scientific]
        exact if_neg hstyle

/-- The largest doubles, which are written as decimals above the limit, are read. -/
theorem number?_ofUnits_top : ∀ negative, ∀ k < 3,
    ((ofUnits ((9007199254740991 - k) * Binary64.widestSpacing)).number? negative).isSome =
      true := by
  decide +kernel

/-- The text of a finite double is read as some double. -/
theorem number?_ofUnits_isSome {x : Binary64} (h : x.IsFinite) :
    ((ofUnits x.units).number? negative).isSome = true := by
  rcases h.below_or_top with hbelow | ⟨k, hk, htop⟩
  · by_cases hu : x.units = 0
    · rw [ofUnits, if_pos hu]
      cases negative <;> decide +kernel
    · rw [ofUnits, if_neg hu]
      rcases Binary64.shortest_readsBack x.units with hzero | hback
      · rw [hzero, ofDecimal_zero]
        cases negative <;> decide +kernel
      · obtain ⟨c, rest, z, hcs, hc, hall⟩ := exists_digits hu hback
        have hdigits : ∀ d ∈ c :: rest, d.isDigit = true := fun d hd =>
          Digits.isDigit_toDigits d (hall ▸ List.mem_append_left _ hd)
        rw [ofDecimal_of_cons hcs]
        split
        · rename_i hstyle
          refine number?_positional_isSome hdigits hc ?_
          have : scientificExponent (Binary64.shortest x.units) ≤ 15 := hstyle.2
          omega
        · -- Moving the point past the digits does not change what they stand for, so the
          -- bound on the decimal is one on the literal.
          refine number?_scientific_isSome hdigits fun e he => ?_
          have hlength := congrArg List.length hall
          rw [List.length_append, List.length_replicate, List.length_cons] at hlength
          have hexponent : (Binary64.shortest x.units).exponent =
              (e : Int) - (rest.length + z : Nat) := by
            rw [scientificExponent] at he
            omega
          have hle := Binary64.readsBack_le hbelow hback hexponent
          have hvalue : (Binary64.shortest x.units).digits =
              Digits.decimal ((c :: rest).map Digits.value) * 10 ^ z := by
            rw [← Digits.decimal_toDigits (Binary64.shortest x.units).digits, hall,
              Digits.decimal_map, Digits.decimal_map, Nat.ofDigitChars_append,
              Nat.ofDigitChars_replicate_zero, Nat.mul_comm]
          rw [hvalue, Nat.pow_add, ← Nat.mul_assoc, Nat.mul_right_comm] at hle
          exact Nat.le_of_mul_le_mul_right hle (Nat.pow_pos (by decide))
  · rw [htop]
    exact number?_ofUnits_top negative k hk

end

end Literal

/-! ## Numbers in a text -/

namespace Reader

theorem skipBlanks_cons {c : Char} {cs : List Char} (hc : isBlank c = false) :
    skipBlanks (c :: cs) = c :: cs := by
  rw [skipBlanks, List.dropWhile_cons, if_neg (by rw [hc]; exact Bool.false_ne_true)]

theorem isBlank_of_isDigit {c : Char} (hc : c.isDigit = true) : isBlank c = false := by
  rw [isBlank]
  simp only [Bool.or_eq_false_iff, decide_eq_false_iff_not]
  refine ⟨⟨⟨?_, ?_⟩, ?_⟩, ?_⟩ <;> (rintro rfl; exact absurd hc (by decide))

theorem value_literal {l : Literal} (h : l.IsWritten) (negative : Bool) {rest : List Char}
    (hrest : Follows rest) (fuel depth : Nat) :
    value (fuel + 1) depth (Literal.signText negative ++ l.text ++ rest) =
      (.number (l.number? negative), some rest) := by
  cases negative with
  | true =>
    show value (fuel + 1) depth ('-' :: (l.text ++ rest)) = _
    rw [value, skipBlanks_cons (by decide)]
    exact number_text h hrest true
  | false =>
    show value (fuel + 1) depth (l.text ++ rest) = _
    obtain ⟨c, more, htext, hc⟩ := h.exists_text_cons
    have hnumber := number_text h hrest false
    rw [htext, List.cons_append] at hnumber ⊢
    rw [value, skipBlanks_cons (isBlank_of_isDigit hc)]
    split
    case h_8 => exact hnumber
    all_goals
      rename_i heq
      obtain ⟨rfl, -⟩ := List.cons.inj heq
      exact absurd hc (by decide)

end Reader
end Json

namespace Number

/-- The numbers of the engine: integers of 64 bits, with a sign or without, and finite
doubles. -/
def IsValid : Number → Prop
  | .integer n => -9223372036854775808 ≤ n ∧ n < 18446744073709551616
  | .double x => x.IsFinite

/-- The sign and the literal under which a number is written. -/
def literal : Number → Bool × Json.Literal
  | .integer n => (decide (n < 0), ⟨Nat.toDigits 10 n.natAbs, none, none⟩)
  | .double x => (x.negative, .ofUnits x.units)

open Json (Literal Follows Reader.value Reader.value_literal)

theorem toList_text (n : Number) :
    n.text.toList = Literal.signText n.literal.1 ++ n.literal.2.text := by
  cases n with
  | double x => exact Literal.toList_text x
  | integer n =>
    cases n with
    | ofNat n =>
      show (Nat.repr n).toList = _
      rw [Nat.repr_eq_ofList_toDigits, String.toList_ofList]
      simp [literal, Literal.signText, Literal.text, Literal.fractionText, Literal.exponentText]
    | negSucc n =>
      show ("-" ++ Nat.repr (n + 1)).toList = _
      rw [Nat.repr_eq_ofList_toDigits, String.toList_append, String.toList_ofList]
      simp [literal, Literal.signText, Literal.text, Literal.fractionText, Literal.exponentText]

theorem isWritten_literal (n : Number) : n.literal.2.IsWritten := by
  cases n with
  | double x => exact Literal.isWritten_ofUnits x.units
  | integer n =>
    refine ⟨Digits.isDigit_toDigits, ?_, nofun, nofun⟩
    rcases Nat.eq_zero_or_pos n.natAbs with hzero | hpos
    · left
      rw [literal, hzero]
      rfl
    · exact .inr (Digits.exists_toDigits hpos)

/-- A number is read off a text whole. -/
theorem value_text (n : Number) {rest : List Char} (hrest : Follows rest) (fuel depth : Nat) :
    Reader.value (fuel + 1) depth (n.text.toList ++ rest) =
      (.number (n.literal.2.number? n.literal.1), some rest) := by
  rw [toList_text]
  exact Reader.value_literal n.isWritten_literal _ hrest fuel depth

theorem ofText?_text (x : Binary64) :
    Json.ofText? x.text =
      ((Literal.ofUnits x.units).number? x.negative).map Json.number := by
  have hvalue : Json.Draft.ofText x.text =
      (.number ((Literal.ofUnits x.units).number? x.negative), some []) := by
    have hread := value_text (.double x) (show Follows [] from nofun)
      (2 * x.text.toList.length + 1) 0
    rw [List.append_nil] at hread
    exact hread
  have hdocument : Json.Draft.ofDocument? x.text =
      some (.number ((Literal.ofUnits x.units).number? x.negative)) := by
    rw [Json.Draft.ofDocument?, hvalue]
    rfl
  rw [Json.ofText?, hdocument]
  rfl

/-- A valid number is read as the number that comes back from its text. -/
theorem number?_literal {n : Number} (h : n.IsValid) :
    n.literal.2.number? n.literal.1 = some n.reread := by
  cases n with
  | double x =>
    have hread : ((Literal.ofUnits x.units).number? x.negative).isSome = true :=
      Literal.number?_ofUnits_isSome h
    obtain ⟨m, hm⟩ := Option.isSome_iff_exists.mp hread
    have htext := ofText?_text x
    rw [hm] at htext
    rw [reread, htext]
    exact hm
  | integer n =>
    obtain ⟨hlow, hhigh⟩ := h
    rw [literal, Literal.number?, reread]
    simp only [Option.map_none, Json.Reader.number?, Digits.decimal_toDigits]
    by_cases hneg : n < 0
    · have habs : -(n.natAbs : Int) = n := by omega
      have hsigned : isSigned n = true := by
        simp only [isSigned, Bool.and_eq_true, decide_eq_true_eq]
        omega
      rw [if_pos (decide_eq_true hneg), habs, if_pos ⟨by omega, hsigned⟩]
    · have habs : (n.natAbs : Int) = n := by omega
      rw [decide_eq_false hneg, if_neg Bool.false_ne_true, if_pos ?_, habs]
      rw [unsignedLimit]
      omega

end Number
end AccessPolicy

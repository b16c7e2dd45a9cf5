/-
Numbers as they are written.

A number is written as digits without a leading zero, optionally with digits after a
point and with an exponent.  The reader takes such a literal off a text whole, up to
the comma or bracket that follows it.
-/
import AccessPolicy.Json.Reader
import AccessPolicy.Proofs.Doubles

namespace AccessPolicy

namespace Digits

theorem leading_append {ds rest : List Char} (hds : ∀ c ∈ ds, c.isDigit = true)
    (hrest : ∀ c ∈ rest.head?, c.isDigit = false) :
    leading (ds ++ rest) = ds.map value ∧ after (ds ++ rest) = rest := by
  rw [leading, after, List.takeWhile_append_of_pos hds, List.dropWhile_append_of_pos hds]
  cases rest with
  | nil => simp
  | cons c cs =>
    have hc : c.isDigit = false := hrest c rfl
    simp [hc]

theorem decimal_map (ds : List Char) : decimal (ds.map value) = Nat.ofDigitChars 10 ds 0 := by
  have hfold : ∀ n, (ds.map value).foldl (fun n d => n * 10 + d) n = Nat.ofDigitChars 10 ds n := by
    induction ds with
    | nil => intro n; rfl
    | cons c rest ih =>
      intro n
      rw [List.map_cons, List.foldl_cons, ih, Nat.ofDigitChars_cons, Nat.mul_comm]
      rfl
  exact hfold 0

theorem eq_zero_of_value {c : Char} (hc : c.isDigit = true) (h : value c = 0) : c = '0' := by
  have hzero : 48 ≤ c.toNat := by
    have := (Bool.and_eq_true_iff.mp hc).1
    exact of_decide_eq_true this
  have htoNat : c.toNat = 48 := by
    rw [value] at h
    have : '0'.toNat = 48 := rfl
    omega
  exact Char.ext (UInt32.toNat_inj.mp htoNat)

theorem decimal_append (as bs : List Nat) :
    decimal (as ++ bs) = bs.foldl (fun n d => n * 10 + d) (decimal as) := by
  rw [decimal, decimal, List.foldl_append]

theorem mul_pow_le_foldl (ds : List Nat) (n : Nat) :
    n * 10 ^ ds.length ≤ ds.foldl (fun n d => n * 10 + d) n := by
  induction ds generalizing n with
  | nil => exact Nat.le_of_eq (Nat.mul_one n)
  | cons d rest ih =>
    rw [List.length_cons, Nat.pow_succ', ← Nat.mul_assoc, List.foldl_cons]
    exact Nat.le_trans (Nat.mul_le_mul_right _ (Nat.le_add_right _ d)) (ih _)

theorem decimal_map_lt {ds : List Char} (h : ∀ c ∈ ds, c.isDigit = true) :
    decimal (ds.map value) < 10 ^ ds.length := by
  have hfold : ∀ n, (ds.map value).foldl (fun n d => n * 10 + d) n < (n + 1) * 10 ^ ds.length := by
    induction ds with
    | nil => intro n; simp
    | cons c rest ih =>
      intro n
      have hvalue : value c < 10 := by
        have := Char.isDigit_iff_toNat.mp (h c List.mem_cons_self)
        rw [value]
        have hnine : '9'.toNat = 57 := rfl
        have hzero : '0'.toNat = 48 := rfl
        omega
      rw [List.map_cons, List.foldl_cons, List.length_cons, Nat.pow_succ', ← Nat.mul_assoc]
      refine Nat.lt_of_lt_of_le (ih (fun d hd => h d (List.mem_cons_of_mem _ hd)) _) ?_
      exact Nat.mul_le_mul_right _ (by omega)
  have hzero := hfold 0
  rw [Nat.zero_add, Nat.one_mul] at hzero
  exact hzero

theorem exists_toDigits {n : Nat} (h : 0 < n) : ∃ c rest, Nat.toDigits 10 n = c :: rest ∧ c ≠ '0' := by
  induction n using Nat.strongRecOn with
  | _ n ih =>
    rw [Nat.toDigits_eq_if (by decide)]
    split
    · rename_i hlt
      have hdigit : ∀ n < 10, 0 < n → Nat.digitChar n ≠ '0' := by decide
      exact ⟨_, [], rfl, hdigit n hlt h⟩
    · obtain ⟨c, rest, hdigits, hc⟩ := ih (n / 10) (by omega) (by omega)
      exact ⟨c, rest ++ [(n % 10).digitChar], by rw [hdigits]; rfl, hc⟩

theorem isDigit_toDigits {n : Nat} : ∀ c ∈ Nat.toDigits 10 n, c.isDigit = true :=
  fun _ h => Nat.isDigit_of_mem_toDigits (by decide) (by decide) h

theorem decimal_toDigits (n : Nat) : decimal ((Nat.toDigits 10 n).map value) = n := by
  rw [decimal_map, Nat.ofDigitChars_toDigits (by decide) (by decide)]

end Digits

namespace Json

/-- What may follow a value inside a text. -/
def Follows (rest : List Char) : Prop := ∀ c ∈ rest.head?, c = ',' ∨ c = ']' ∨ c = '\x7d'

/-- A number as it is written, without its sign. -/
structure Literal where
  whole : List Char
  fraction : Option (List Char)
  exponent : Option (Bool × List Char)

namespace Literal

def fractionText : Option (List Char) → List Char
  | none => []
  | some ds => '.' :: ds

def exponentText : Option (Bool × List Char) → List Char
  | none => []
  | some (negative, ds) => 'e' :: (if negative then '-' else '+') :: ds

def text (l : Literal) : List Char :=
  l.whole ++ (fractionText l.fraction ++ exponentText l.exponent)

def exponentValue (e : Bool × List Char) : Int :=
  if e.1 then -(Digits.decimal (e.2.map Digits.value) : Int)
  else Digits.decimal (e.2.map Digits.value)

/-- The number that the literal stands for, if there is one. -/
def number? (negative : Bool) (l : Literal) : Option Number :=
  Reader.number? negative (l.whole.map Digits.value)
    (l.fraction.map fun ds => ds.map Digits.value) (l.exponent.map exponentValue)

/-- The literal has digits wherever they belong, and no needless zero in front. -/
structure IsWritten (l : Literal) : Prop where
  whole : ∀ c ∈ l.whole, c.isDigit = true
  lead : l.whole = ['0'] ∨ ∃ c rest, l.whole = c :: rest ∧ c ≠ '0'
  fraction : ∀ ds, l.fraction = some ds → ds ≠ [] ∧ ∀ c ∈ ds, c.isDigit = true
  exponent : ∀ negative ds, l.exponent = some (negative, ds) →
    ds ≠ [] ∧ ∀ c ∈ ds, c.isDigit = true

end Literal

namespace Reader

open Literal (fractionText exponentText exponentValue)

theorem follows_head {rest : List Char} (h : Follows rest) :
    ∀ c ∈ rest.head?, c.isDigit = false ∧ c ≠ '.' ∧ c ≠ 'e' ∧ c ≠ 'E' := by
  intro c hc
  rcases h c hc with rfl | rfl | rfl <;> decide

theorem fractionPart_text {fraction : Option (List Char)} {rest : List Char}
    (h : ∀ ds, fraction = some ds → ds ≠ [] ∧ ∀ c ∈ ds, c.isDigit = true)
    (hrest : ∀ c ∈ rest.head?, c.isDigit = false ∧ c ≠ '.') :
    fractionPart (fractionText fraction ++ rest) =
      some (fraction.map fun ds => ds.map Digits.value, rest) := by
  cases fraction with
  | none =>
    rw [fractionText, List.nil_append, fractionPart]
    · rfl
    · rintro more rfl
      exact (hrest '.' rfl).2 rfl
  | some ds =>
    obtain ⟨hne, hdigits⟩ := h ds rfl
    obtain ⟨hleading, hafter⟩ := Digits.leading_append hdigits fun c hc => (hrest c hc).1
    rw [fractionText, List.cons_append, fractionPart]
    simp only [hleading, hafter]
    rw [if_neg (by simpa using hne)]
    rfl

theorem exponentPart_text {exponent : Option (Bool × List Char)} {rest : List Char}
    (h : ∀ negative ds, exponent = some (negative, ds) → ds ≠ [] ∧ ∀ c ∈ ds, c.isDigit = true)
    (hrest : Follows rest) :
    exponentPart (exponentText exponent ++ rest) = some (exponent.map exponentValue, rest) := by
  cases exponent with
  | none =>
    rw [exponentText, List.nil_append]
    cases rest with
    | nil => rfl
    | cons c cs =>
      obtain ⟨_, _, he, hE⟩ := follows_head hrest c rfl
      simp [exponentPart, he, hE]
  | some e =>
    obtain ⟨negative, ds⟩ := e
    obtain ⟨hne, hdigits⟩ := h negative ds rfl
    obtain ⟨hleading, hafter⟩ :=
      Digits.leading_append hdigits fun c hc => (follows_head hrest c hc).1
    cases negative with
    | true => simp [exponentText, exponentPart, hleading, hafter, hne, exponentValue]
    | false => simp [exponentText, exponentPart, hleading, hafter, hne, exponentValue]

/-- A literal is read whole. -/
theorem number_text {l : Literal} (h : l.IsWritten) {rest : List Char} (hrest : Follows rest)
    (negative : Bool) :
    number negative (l.text ++ rest) = (.number (l.number? negative), some rest) := by
  have htail : ∀ c ∈ (exponentText l.exponent ++ rest).head?, c.isDigit = false ∧ c ≠ '.' := by
    intro c hc
    cases hexponent : l.exponent with
    | none =>
      rw [hexponent] at hc
      exact ⟨(follows_head hrest c hc).1, (follows_head hrest c hc).2.1⟩
    | some e =>
      rw [hexponent] at hc
      cases hc
      decide
  have hpoint : ∀ c ∈ (fractionText l.fraction ++ (exponentText l.exponent ++ rest)).head?,
      c.isDigit = false := by
    intro c hc
    cases hfraction : l.fraction with
    | none =>
      rw [hfraction] at hc
      exact (htail c hc).1
    | some ds =>
      rw [hfraction] at hc
      cases hc
      decide
  obtain ⟨hleading, hafter⟩ := Digits.leading_append h.whole hpoint
  have hparts : fractionPart (fractionText l.fraction ++ (exponentText l.exponent ++ rest)) =
      some (l.fraction.map fun ds => ds.map Digits.value, exponentText l.exponent ++ rest) :=
    fractionPart_text h.fraction htail
  rw [number, Literal.text, List.append_assoc, List.append_assoc, hleading, hafter]
  simp only [hparts, exponentPart_text h.exponent hrest]
  obtain hzero | ⟨c, cs, hwhole, hc⟩ := h.lead
  · rw [Literal.number?, hzero]
    rfl
  · have hvalue : Digits.value c ≠ 0 := fun hvalue =>
      hc (Digits.eq_zero_of_value (h.whole c (hwhole ▸ List.mem_cons_self)) hvalue)
    rw [Literal.number?, hwhole, List.map_cons]
    cases hd : Digits.value c with
    | zero => exact absurd hd hvalue
    | succ d => rfl

end Reader

/-! ## Significands -/

namespace Reader

theorem absorb_of_lt {n : Nat} {ds : List Nat}
    (h : ds.foldl (fun n d => n * 10 + d) n < Number.unsignedLimit) :
    absorb n ds = (ds.foldl (fun n d => n * 10 + d) n, []) := by
  induction ds generalizing n with
  | nil => rfl
  | cons d rest ih =>
    have hlt : n * 10 + d < Number.unsignedLimit :=
      Nat.lt_of_le_of_lt (Nat.le_trans (Nat.le_mul_of_pos_right _ (Nat.pow_pos (by decide)))
        (Digits.mul_pow_le_foldl rest _)) h
    rw [absorb, if_pos hlt, List.foldl_cons]
    exact ih h

/-- Digits that a significand does not take only make it smaller. -/
theorem absorb_le (n : Nat) (ds : List Nat) :
    (absorb n ds).1 * 10 ^ (absorb n ds).2.length ≤ ds.foldl (fun n d => n * 10 + d) n ∧
      (absorb n ds).2.length ≤ ds.length := by
  induction ds generalizing n with
  | nil => exact ⟨Nat.le_of_eq (Nat.mul_one n), Nat.le_refl _⟩
  | cons d rest ih =>
    rw [absorb]
    split
    · exact ⟨(ih _).1, Nat.le_succ_of_le (ih _).2⟩
    · exact ⟨Digits.mul_pow_le_foldl (d :: rest) n, Nat.le_refl _⟩

/-- A literal is a double when what it says is within the limit. -/
theorem double?_isSome {negative : Bool} {whole fraction : List Nat} {exponent : Int}
    (hwhole : Digits.decimal whole < Number.unsignedLimit)
    (h : ∀ e : Nat, exponent = e →
      Digits.decimal (whole ++ fraction) * 10 ^ e ≤
        Binary64.decimalLimit * 10 ^ fraction.length) :
    (double? negative whole fraction exponent).isSome = true := by
  rw [double?, show absorb 0 whole = (Digits.decimal whole, []) from absorb_of_lt hwhole]
  simp only
  obtain ⟨hle, hlength⟩ := absorb_le (Digits.decimal whole) fraction
  rw [← Digits.decimal_append] at hle
  generalize absorb (Digits.decimal whole) fraction = taken at hle hlength ⊢
  obtain ⟨significand, dropped⟩ := taken
  simp only [List.length_nil] at hle hlength ⊢
  refine Binary64.ofDecimal?_isSome fun e he => ?_
  have hlimit := h (e + (fraction.length - dropped.length)) (by omega)
  refine Nat.le_of_mul_le_mul_right (c := 10 ^ fraction.length) ?_ (Nat.pow_pos (by decide))
  calc significand * 10 ^ e * 10 ^ fraction.length
      = significand * 10 ^ dropped.length * 10 ^ (e + (fraction.length - dropped.length)) := by
        rw [Nat.mul_assoc, Nat.mul_assoc, ← Nat.pow_add, ← Nat.pow_add]
        congr 2
        omega
    _ ≤ Digits.decimal (whole ++ fraction) * 10 ^ (e + (fraction.length - dropped.length)) :=
        Nat.mul_le_mul_right _ hle
    _ ≤ Binary64.decimalLimit * 10 ^ fraction.length := hlimit

end Reader

namespace Literal

/-- A literal with a point or an exponent is a double when what it says is within the
limit. -/
theorem number?_isSome {l : Literal} {negative : Bool}
    (hpoint : l.fraction.isSome = true ∨ l.exponent.isSome = true)
    (hwhole : Digits.decimal (l.whole.map Digits.value) < Number.unsignedLimit)
    (h : ∀ e : Nat, (l.exponent.map exponentValue).getD 0 = e →
      Digits.decimal ((l.whole ++ l.fraction.getD []).map Digits.value) * 10 ^ e ≤
        Binary64.decimalLimit * 10 ^ (l.fraction.getD []).length) :
    (l.number? negative).isSome = true := by
  have hdouble : l.number? negative =
      (Reader.double? negative (l.whole.map Digits.value)
        ((l.fraction.getD []).map Digits.value)
        ((l.exponent.map exponentValue).getD 0)).map .double := by
    obtain ⟨whole, fraction, exponent⟩ := l
    cases fraction with
    | some ds => rfl
    | none =>
      cases exponent with
      | some e => rfl
      | none => simp at hpoint
  rw [hdouble, Option.isSome_map]
  refine Reader.double?_isSome hwhole fun e he => ?_
  rw [← List.map_append, List.length_map]
  exact h e he

end Literal
end Json
end AccessPolicy

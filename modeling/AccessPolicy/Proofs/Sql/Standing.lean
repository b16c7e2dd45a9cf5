/-
Stored values that stand for attributes.

A column holds what an entity shows as an attribute: texts as texts, booleans
and integers as integers, and null for what is null or missing.  As long as the
integers are ones that doubles keep, comparing the stored value is comparing the
attribute.
-/
import AccessPolicy.Proofs.Integers
import AccessPolicy.Proofs.Sql.Site

namespace AccessPolicy

namespace Json

/-- Null, a text, a boolean, or an integer that doubles keep. -/
def isPlain : Json → Bool
  | .null => true
  | .bool _ => true
  | .string _ => true
  | .number (.integer n) => n.natAbs ≤ Binary64.exactLimit
  | _ => false

/-- A plain number, a boolean counting as zero or one. -/
inductive Counts : Json → Int → Prop where
  | bool (b : Bool) : Counts (.bool b) (if b then 1 else 0)
  | integer {n : Int} (h : n.natAbs ≤ Binary64.exactLimit) : Counts (.number (.integer n)) n

theorem Counts.numeric? {v : Json} {n : Int} (h : v.Counts n) :
    v.numeric? = some (n * (Binary64.unitsPerOne : Int)) := by
  cases h with
  | bool b =>
    cases b with
    | false => exact congrArg some (Int.zero_mul _).symm
    | true => exact congrArg some (Int.one_mul _).symm
  | integer h => rw [Json.numeric?, Number.approximate, Binary64.value_ofInt h]

theorem isSigned_of_exact {n : Int} (h : n.natAbs ≤ Binary64.exactLimit) :
    Number.isSigned n = true := by
  rw [Binary64.exactLimit] at h
  simp only [Number.isSigned, Bool.and_eq_true, decide_eq_true_eq]
  omega

theorem Counts.ofJson {v : Json} {n : Int} (h : v.Counts n) :
    Sql.Value.ofJson v = .integer n := by
  cases h with
  | bool b => rfl
  | integer h => rw [Sql.Value.ofJson, if_pos (isSigned_of_exact h)]

/-- A plain value that is not null is a text or a number. -/
theorem cases_of_isPlain {v : Json} (hplain : v.isPlain = true) (hnull : v.isNull = false) :
    (∃ s, v = .string s) ∨ ∃ n, v.Counts n := by
  cases v with
  | null => cases hnull
  | bool b => exact .inr ⟨_, .bool b⟩
  | string s => exact .inl ⟨s, rfl⟩
  | number n =>
    cases n with
    | integer n => exact .inr ⟨n, .integer (of_decide_eq_true hplain)⟩
    | double x => cases hplain
  | array items => cases hplain
  | object members => cases hplain

end Json

namespace Sql

/-- A stored value stands for an attribute. -/
inductive Stands (affinity : Affinity) : Value → Option Json → Prop where
  | absent : Stands affinity .null none
  | null : Stands affinity .null (some .null)
  | text (s : String) (h : affinity ≠ .integer) : Stands affinity (.text s) (some (.string s))
  | number {v : Json} {n : Int} (hv : v.Counts n) (h : affinity ≠ .text) :
      Stands affinity (.integer n) (some v)

namespace Stands

/-- Whether two attributes have an order and a comparison admits it. -/
def ordered (c : Comparison) (a b : Json) : Bool := ((a.order? b).map c.admitsOrder).getD false

theorem ordered_strings (c : Comparison) (s t : String) :
    ordered c (.string s) (.string t) =
      c.admitsOrder (if s < t then .lt else if s = t then .eq else .gt) := rfl

theorem ordered_numbers {a b : Json} {m n : Int} (c : Comparison) (ha : a.Counts m)
    (hb : b.Counts n) : ordered c a b = c.admitsOrder (Ord.compare m n) := by
  have horder : a.order? b = some (Ord.compare m n) := by
    rw [Json.order?, ha.numeric?, hb.numeric?, ← Value.compare_units]
    intro s t hs
    rw [hs] at ha
    cases ha
  rw [ordered, horder]
  rfl

theorem ordered_text_number {s : String} {v : Json} {n : Int} (c : Comparison) (hv : v.Counts n) :
    ordered c (.string s) v = false ∧ ordered c v (.string s) = false := by
  cases hv with
  | bool b => exact ⟨rfl, rfl⟩
  | integer h => exact ⟨rfl, rfl⟩

theorem string_order_eq (s t : String) :
    ((if s < t then Ordering.lt else if s = t then .eq else .gt) == .eq) = (s == t) := by
  by_cases h : s = t
  · subst h
    rw [if_neg (String.lt_irrefl s), if_pos rfl, beq_self_eq_true, beq_self_eq_true]
  · by_cases hlt : s < t
    · simp [h, hlt]
    · simp [h, hlt]

/-- Plain attributes are equal when their order says so. -/
theorem agrees_eq_ordered {a b : Json} (ha : a.isPlain = true) (hb : b.isPlain = true)
    (hnull : a.isNull = false) (hnull' : b.isNull = false) :
    a.agrees b = ordered .equal a b := by
  obtain ⟨s, rfl⟩ | ⟨m, ha⟩ := Json.cases_of_isPlain ha hnull
  · obtain ⟨t, rfl⟩ | ⟨n, hb⟩ := Json.cases_of_isPlain hb hnull'
    · rw [ordered_strings, Comparison.admitsOrder, string_order_eq]
      rfl
    · rw [(ordered_text_number .equal hb).1]
      cases hb with
      | bool b => rfl
      | integer h => rfl
  · obtain ⟨t, rfl⟩ | ⟨n, hb⟩ := Json.cases_of_isPlain hb hnull'
    · rw [(ordered_text_number .equal ha).2]
      cases ha with
      | bool b => rfl
      | integer h => rfl
    · rw [ordered_numbers .equal ha hb, Json.agrees, ha.numeric?, hb.numeric?,
        Comparison.admitsOrder, ← Value.compare_units, Bool.eq_iff_iff, beq_iff_eq, beq_iff_eq,
        Std.compare_eq_iff_eq]

theorem isNumeric_of_counts {v : Json} {n : Int} (h : v.Counts n) :
    Fragment.isNumeric v = true := by
  cases h with
  | bool b => rfl
  | integer h => rfl

theorem comparesKind_eq_ordered {affinity : Affinity} {stored : Value} {shown value : Json}
    (h : Stands affinity stored (some shown)) (hnull : shown.isNull = false)
    (hvalue : value.isPlain = true) (hnull' : value.isNull = false) (c : Comparison) :
    stored.comparesKind affinity c value = ordered c shown value := by
  cases h with
  | null => cases hnull
  | text s haffinity =>
    obtain ⟨t, rfl⟩ | ⟨n, hn⟩ := Json.cases_of_isPlain hvalue hnull'
    · have htest : (Value.text s).test c affinity (.ofJson (.string t)) .none =
          some (c.admitsOrder (if s < t then .lt else if s = t then .eq else .gt)) := by
        cases affinity with
        | none => rfl
        | text => rfl
        | integer => exact absurd rfl haffinity
      rw [ordered_strings, Value.comparesKind, htest]
      simp [Value.isOfKind, Fragment.isNumeric, Value.typeName]
    · have hkind : (Value.text s).isOfKind (Fragment.isNumeric value) = false := by
        rw [isNumeric_of_counts hn]
        rfl
      rw [(ordered_text_number c hn).1, Value.comparesKind, hkind, Bool.false_and]
  | @number v m hv haffinity =>
    obtain ⟨t, rfl⟩ | ⟨n, hn⟩ := Json.cases_of_isPlain hvalue hnull'
    · rw [(ordered_text_number c hv).2]
      rfl
    · have htest : (Value.integer m).test c affinity (.ofJson value) .none =
          some (c.admitsOrder (Ord.compare m n)) := by
        rw [hn.ofJson, ← Value.test_integer]
        cases affinity with
        | none => rfl
        | integer => rfl
        | text => exact absurd rfl haffinity
      have hkind : (Value.integer m).isOfKind (Fragment.isNumeric value) = true := by
        rw [isNumeric_of_counts hn]
        rfl
      rw [ordered_numbers c hv hn, Value.comparesKind, hkind, htest]
      simp

/-- The stored value is null where the attribute is null or missing, and only
there. -/
theorem present_cases {affinity : Affinity} {stored : Value} {shown : Option Json}
    (h : Stands affinity stored shown) :
    (stored = .null ∧ Comparison.present shown = none) ∨
      ∃ v, stored ≠ .null ∧ shown = some v ∧ Comparison.present shown = some v ∧
        v.isPlain = true ∧ v.isNull = false := by
  cases h with
  | absent => exact .inl ⟨rfl, rfl⟩
  | null => exact .inl ⟨rfl, rfl⟩
  | text s _ =>
    refine .inr ⟨_, ?_, rfl, rfl, rfl, rfl⟩
    intro h
    cases h
  | number hv _ =>
    refine .inr ⟨_, ?_, rfl, ?_⟩
    · intro h
      cases h
    · cases hv with
      | bool b => exact ⟨rfl, rfl, rfl⟩
      | integer h => exact ⟨rfl, decide_eq_true h, rfl⟩

theorem test_of_isNull {c : Comparison} {shown : Option Json} {value : Json}
    (h : value.isNull = true) :
    c.test shown value = match c with
      | .equal => (Comparison.present shown).isNone
      | .notEqual => (Comparison.present shown).isSome
      | _ => false := by
  cases c <;> simp [Comparison.test, h]

theorem test_of_present {c : Comparison} {shown : Option Json} {v value : Json}
    (hvalue : value.isNull = false) (hshown : Comparison.present shown = some v)
    (hagrees : v.agrees value = ordered .equal v value) :
    c.test shown value =
      if c = .notEqual then !ordered .equal v value else ordered c v value := by
  cases c with
  | equal => simp [Comparison.test, hvalue, hshown, hagrees]
  | notEqual => simp [Comparison.test, hvalue, hshown, hagrees]
  | _ =>
    simp only [Comparison.test, hvalue, hshown, ordered]
    cases v.order? value <;> simp

/-- Null is not of the kind of any value. -/
theorem comparesKind_null (affinity : Affinity) (c : Comparison) (value : Json) :
    Value.null.comparesKind affinity c value = false := by
  have hkind : Value.null.isOfKind (Fragment.isNumeric value) = false := by
    cases Fragment.isNumeric value <;> rfl
  rw [Value.comparesKind, hkind, Bool.false_and]

/-- A stored value satisfies the comparisons that the attribute satisfies. -/
theorem compares_eq_test {affinity : Affinity} {stored : Value} {shown : Option Json}
    {value : Json} (h : Stands affinity stored shown) (hvalue : value.isPlain = true)
    (c : Comparison) :
    stored.compares affinity c value = c.test shown value := by
  rw [Value.compares]
  cases hnull : value.isNull with
  | true =>
    rw [if_pos rfl, test_of_isNull hnull]
    obtain ⟨rfl, hpresent⟩ | ⟨v, hne, _, hpresent, _, _⟩ := h.present_cases
    · rw [hpresent]
      cases c <;> rfl
    · rw [hpresent]
      cases c <;> simp [Value.comparesNull, hne]
  | false =>
    rw [if_neg (by decide)]
    obtain ⟨rfl, hpresent⟩ | ⟨v, hne, rfl, hpresent, hplain, hnull'⟩ := h.present_cases
    · have htest : c.test shown value = false := by
        simp [Comparison.test, hnull, hpresent]
      rw [htest, comparesKind_null, comparesKind_null]
      cases c <;> rfl
    · rw [test_of_present hnull hpresent (agrees_eq_ordered hplain hvalue hnull' hnull),
        h.comparesKind_eq_ordered hnull' hvalue hnull, h.comparesKind_eq_ordered hnull' hvalue hnull]
      have hpresent' : (stored != Value.null) = true := bne_iff_ne.mpr hne
      rw [hpresent', Bool.true_and]

theorem isMember_eq_member {affinity : Affinity} {stored : Value} {shown : Option Json}
    {values : List Json} (h : Stands affinity stored shown)
    (hvalues : ∀ v ∈ values, v.isPlain = true) :
    stored.isMember affinity values = Comparison.member shown values := by
  rw [Value.isMember, Comparison.member]
  obtain ⟨rfl, hpresent⟩ | ⟨v, hne, rfl, hpresent, hplain, hnull⟩ := h.present_cases
  · rw [hpresent, List.any_eq_false]
    intro v _
    rw [comparesKind_null, Bool.and_false]
    exact Bool.false_ne_true
  · rw [hpresent]
    refine Predicate.any_eq_any fun value hvalue => ?_
    cases hnull' : value.isNull with
    | true => rfl
    | false =>
      rw [h.comparesKind_eq_ordered hnull (hvalues value hvalue) hnull',
        agrees_eq_ordered hplain (hvalues value hvalue) hnull hnull']

end Stands

end Sql
end AccessPolicy

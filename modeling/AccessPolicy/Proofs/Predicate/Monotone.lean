/-
Rows that are missing.

Predicates ask for the presence of related rows and never for their absence.  A row
that holds fewer related rows, at any depth, therefore satisfies no more predicates:
whatever was not loaded can deny, and it can grant nothing.
-/
import AccessPolicy.Proofs.Predicate.Loading
import AccessPolicy.Specification
import AccessPolicy.Workflow

namespace AccessPolicy

namespace Row

/-! ## Rows within rows -/

theorem sizeOf_lt_of_mem_joined {row r : Row} {key : RelationKey} (h : r ∈ row.joined key) :
    sizeOf r < sizeOf row := by
  obtain ⟨attributes, related⟩ := row
  rw [joined] at h
  cases hfind : related.find? fun entry => entry.1 == key with
  | none =>
    simp only [Row.related, hfind, Option.map_none, Option.getD_none, List.not_mem_nil] at h
  | some entry =>
    simp only [Row.related, hfind, Option.map_some, Option.getD_some] at h
    have hentry := List.sizeOf_lt_of_mem (List.mem_of_find?_eq_some hfind)
    have hr := List.sizeOf_lt_of_mem h
    obtain ⟨k, rows⟩ := entry
    simp only [Prod.mk.sizeOf_spec] at hentry hr
    rw [Row.mk.sizeOf_spec]
    omega

/-- Induction over a row, with all rows that are joined to it taken together. -/
@[elab_as_elim]
theorem induct {motive : Row → Prop}
    (joined : ∀ row : Row, (∀ key, ∀ r ∈ row.joined key, motive r) → motive row) (row : Row) :
    motive row :=
  joined row fun _ r _ => induct joined r
termination_by sizeOf row
decreasing_by exact sizeOf_lt_of_mem_joined ‹_›

/-- The rows have the same attributes, and each row joined to the first is below some row
joined to the second by the same relation. -/
def Below (row row' : Row) : Prop :=
  row.attributes = row'.attributes ∧
    ∀ key, ∀ r ∈ row.joined key, ∃ r' ∈ row'.joined key, r.Below r'
termination_by sizeOf row
decreasing_by exact sizeOf_lt_of_mem_joined ‹_›

theorem below_iff {row row' : Row} :
    row.Below row' ↔ row.attributes = row'.attributes ∧
      ∀ key, ∀ r ∈ row.joined key, ∃ r' ∈ row'.joined key, r.Below r' := by
  rw [Below]

theorem Below.attributes_eq {row row' : Row} (h : row.Below row') :
    row.attributes = row'.attributes :=
  (below_iff.mp h).1

theorem Below.exists_joined {row row' r : Row} (h : row.Below row') {key : RelationKey}
    (hr : r ∈ row.joined key) : ∃ r' ∈ row'.joined key, r.Below r' :=
  (below_iff.mp h).2 key r hr

theorem Below.refl (row : Row) : row.Below row := by
  induction row using Row.induct with
  | joined row ih => exact below_iff.mpr ⟨rfl, fun key r hr => ⟨r, hr, ih key r hr⟩⟩

theorem Below.trans {a b c : Row} (hab : a.Below b) (hbc : b.Below c) : a.Below c := by
  induction a using Row.induct generalizing b c with
  | joined a ih =>
    refine below_iff.mpr ⟨hab.attributes_eq.trans hbc.attributes_eq, fun key r hr => ?_⟩
    obtain ⟨r', hr', hbelow⟩ := hab.exists_joined hr
    obtain ⟨r'', hr'', hbelow'⟩ := hbc.exists_joined hr'
    exact ⟨r'', hr'', ih key r hr hbelow hbelow'⟩

end Row

/-! ## Evaluation -/

/-- A predicate that holds of a row holds of every row above it. -/
theorem Predicate.holds_of_below {p : Predicate} :
    ∀ {row row' : Row}, row.Below row' → p.holds row = true → p.holds row' = true := by
  induction p with
  | literal value =>
    intro row row' _ h
    rw [holds] at h ⊢
    exact h
  | compare field comparison value =>
    intro row row' hbelow h
    rw [holds] at h ⊢
    rw [← hbelow.attributes_eq]
    exact h
  | oneOf field values =>
    intro row row' hbelow h
    rw [holds] at h ⊢
    rw [← hbelow.attributes_eq]
    exact h
  | and parts ih =>
    intro row row' hbelow h
    rw [holds, allHold_eq_all, List.all_eq_true] at h ⊢
    exact fun q hq => ih q hq hbelow (h q hq)
  | or parts ih =>
    intro row row' hbelow h
    rw [holds, anyHolds_eq_any, List.any_eq_true] at h ⊢
    obtain ⟨q, hq, hholds⟩ := h
    exact ⟨q, hq, ih q hq hbelow hholds⟩
  | related relation filter ih =>
    intro row row' hbelow h
    rw [holds, List.any_eq_true] at h ⊢
    -- The row that shows the filter on the left has one above it on the right.
    obtain ⟨r, hr, hholds⟩ := h
    obtain ⟨r', hr', hbelow⟩ := hbelow.exists_joined hr
    exact ⟨r', hr', ih hbelow hholds⟩

/-! ## Rows and relations left out -/

namespace Row

/-- The row as it is when nothing was loaded for a relation key. -/
def without (row : Row) (key : RelationKey) : Row :=
  .mk row.attributes (row.related.filter fun entry => entry.1 != key)

theorem joined_without (row : Row) (key key' : RelationKey) :
    (row.without key).joined key' = if key' = key then [] else row.joined key' := by
  rw [joined, without, related, List.find?_filter]
  by_cases hkey : key' = key
  · rw [if_pos hkey, List.find?_eq_none.mpr fun entry _ => by simp [hkey]]
    rfl
  · have hsame : (fun entry : RelationKey × List Row => decide (entry.1 != key ∧ entry.1 == key')) =
        fun entry => entry.1 == key' := by
      funext entry
      rw [Bool.eq_iff_iff, decide_eq_true_eq, bne_iff_ne, beq_iff_eq]
      exact ⟨fun h => h.2, fun h => ⟨h ▸ hkey, h⟩⟩
    rw [if_neg hkey, hsame, joined]

theorem joined_withRelated (row : Row) (key key' : RelationKey) (rows : List Row) :
    (row.withRelated key rows).joined key' = if key' = key then rows else row.joined key' := by
  split
  · rename_i hkey
    subst hkey
    simp only [joined, withRelated, related, List.find?_cons, beq_self_eq_true, Option.map_some,
      Option.getD_some]
  · rename_i hkey
    have hother : (key == key') = false := beq_eq_false_iff_ne.mpr (Ne.symm hkey)
    rw [← (joined_without row key key').trans (if_neg hkey)]
    simp only [joined, withRelated, without, related, List.find?_cons, hother]

/-- Putting rows in place of larger ones makes a row no larger. -/
theorem withRelated_below {row : Row} {key : RelationKey} {rows : List Row}
    (h : ∀ r ∈ rows, ∃ r' ∈ row.joined key, r.Below r') : (row.withRelated key rows).Below row := by
  refine below_iff.mpr ⟨rfl, fun key' r hr => ?_⟩
  rw [joined_withRelated] at hr
  split at hr
  · rename_i hkey
    exact hkey ▸ h r hr
  · exact ⟨r, hr, .refl r⟩

theorem without_below (row : Row) (key : RelationKey) : (row.without key).Below row := by
  refine below_iff.mpr ⟨rfl, fun key' r hr => ?_⟩
  rw [joined_without] at hr
  split at hr
  · cases hr
  · exact ⟨r, hr, .refl r⟩

end Row

/-- Evaluation is monotone in the related rows.  What holds of a row with some of the rows
of a relation, or with parts of them, or without the relation, holds of the whole row. -/
theorem Predicate.holds_mono (p : Predicate) :
    (∀ row row' : Row, row.Below row' → p.holds row = true → p.holds row' = true) ∧
    (∀ (row : Row) (key : RelationKey) (rows : List Row),
      (∀ r ∈ rows, ∃ r' ∈ row.joined key, r.Below r') →
      p.holds (row.withRelated key rows) = true → p.holds row = true) ∧
    (∀ (row : Row) (key : RelationKey), p.holds (row.without key) = true → p.holds row = true) :=
  ⟨fun _ _ hbelow => holds_of_below hbelow,
    fun _ _ _ hrows => holds_of_below (Row.withRelated_below hrows),
    fun row key => holds_of_below (row.without_below key)⟩

namespace Dossier

open WorkflowKind (tasksOfDocument)

def paymentTask : Row := .ofAttributes (.object [("name", .string "payment")])

def reviewTask : Row := .ofAttributes (.object [("name", .string "review")])

/-- A document with a payment and a review. -/
def document : Row :=
  .mk (.object [("id", .string "d0")]) [(tasksOfDocument.key, [paymentTask, reviewTask])]

/-- The document, of whose tasks only the review was found. -/
def found : Row := document.withRelated tasksOfDocument.key [reviewTask]

/-- Some task of the document is a review. -/
def underReview : Predicate :=
  .related tasksOfDocument (.compare ⟨"name", [], rfl⟩ .equal (.string "review"))

end Dossier

open Dossier WorkflowKind in
/-- The review is enough, and without it nothing is allowed. -/
theorem Predicate.holds_mono_dossier :
    found.Below document ∧ underReview.holds found = true ∧ underReview.holds document = true ∧
      underReview.holds (document.withRelated tasksOfDocument.key [paymentTask]) = false ∧
      underReview.holds (document.without tasksOfDocument.key) = false := by
  have hbelow : found.Below document := by
    refine Row.withRelated_below fun r hr => ⟨reviewTask, ?_, ?_⟩
    · exact List.mem_cons_of_mem _ List.mem_cons_self
    · rw [List.mem_singleton.mp hr]
      exact .refl reviewTask
  exact ⟨hbelow, rfl, underReview.holds_mono.1 found document hbelow rfl, rfl, rfl⟩

/-! ## Rows that were not found -/

namespace Row

theorem below_of_related {row row' : Row} (hattributes : row.attributes = row'.attributes)
    (h : List.Forall₂ (fun entry entry' : RelationKey × List Row => entry'.1 = entry.1 ∧
      ∀ r ∈ entry.2, ∃ r' ∈ entry'.2, r.Below r') row.related row'.related) : row.Below row' := by
  refine below_iff.mpr ⟨hattributes, fun key r hr => ?_⟩
  obtain ⟨hnone, _⟩ | ⟨entry, entry', ⟨_, hrows⟩, hentry, hentry'⟩ :=
    Outcome.find_forall₂ (p := fun entry => entry.1 == key) (q := fun entry => entry.1 == key)
      (fun entry entry' hpair => by rw [hpair.1]) h
  · simp only [joined, hnone, Option.map_none, Option.getD_none, List.not_mem_nil] at hr
  · simp only [joined, hentry, hentry', Option.map_some, Option.getD_some] at hr ⊢
    exact hrows r hr

variable {registry registry' : Registry} {ambient ambient' : Ambient}

/-- Where loaders find fewer entities, or fewer levels are loaded, the rows are smaller. -/
theorem below_of_loadLevels
    (hfewer : ∀ relation entity, relatedEntities registry ambient relation entity ⊆
      relatedEntities registry' ambient' relation entity) {levels : Nat} :
    ∀ {levels' : Nat} {attributes : Json} {scope : Predicate} {row row' : Row},
      levels ≤ levels' → loadLevels registry ambient levels attributes scope = .ok row →
      loadLevels registry' ambient' levels' attributes scope = .ok row' → row.Below row' := by
  induction levels with
  | zero =>
    intro levels' attributes scope row row' _ h h'
    refine below_iff.mpr ⟨?_, fun key r hr => ?_⟩
    · rw [attributes_of_loadLevels h, attributes_of_loadLevels h']
    · rw [loadLevels] at h
      cases h
      cases hr
  | succ levels ih =>
    intro levels' attributes scope row row' hlevels h h'
    obtain ⟨levels', rfl⟩ := Nat.exists_eq_add_of_lt hlevels
    refine below_of_related ?_ ?_
    · rw [attributes_of_loadLevels h, attributes_of_loadLevels h']
    · refine (Outcome.forall₂_comp (loadedFor_of_loadLevels h).flip
        (loadedFor_of_loadLevels h')).imp ?_
      rintro entry entry' ⟨part, hloaded, hloaded'⟩
      refine ⟨by rw [hloaded.key, hloaded'.key], fun r hr => ?_⟩
      -- The entity behind the row is found by the other loaders too, and loaded there.
      obtain ⟨entity, hentity, hr⟩ := Outcome.exists_of_forall₂ hloaded.rows r hr
      obtain ⟨r', hr', hload⟩ :=
        Outcome.exists_of_forall₂ hloaded'.rows.flip entity (hfewer _ _ hentity)
      exact ⟨r', hr', ih (by omega) hr hload⟩

end Row

/-- What is allowed on a part of the entities is allowed on all of them, unless they cannot
be loaded. -/
theorem Specification.decideOn_mono {registry registry' : Registry} {ambient ambient' : Ambient}
    (hfewer : ∀ relation entity, Row.relatedEntities registry ambient relation entity ⊆
      Row.relatedEntities registry' ambient' relation entity)
    {attributes : Json} {p : Predicate} {decision : Bool}
    (h : decideOn registry ambient attributes p = .ok true)
    (h' : decideOn registry' ambient' attributes p = .ok decision) : decision = true := by
  rw [decideOn] at h h'
  split at h
  · rename_i hliteral
    rw [if_pos hliteral] at h'
    exact Except.ok.inj (h'.symm.trans h)
  · rename_i hliteral
    rw [if_neg hliteral] at h'
    obtain ⟨row, hrow, hholds⟩ := Outcome.map_eq_ok.mp h
    obtain ⟨row', hrow', rfl⟩ := Outcome.map_eq_ok.mp h'
    have hbelow := Row.below_of_loadLevels hfewer (Nat.le_refl _) hrow hrow'
    exact Predicate.holds_of_below hbelow hholds

end AccessPolicy

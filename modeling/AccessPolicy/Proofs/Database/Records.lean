/-
Records as rows.

A record that was read under the fields of a kind has a value of the right shape
for every field, whether it was written as an object or as an array.  The row
that stores it is therefore well typed.
-/
import AccessPolicy.Proofs.Database.Stored

namespace AccessPolicy

open Sql (Fits)

namespace Json.Shape

/-- Attributes of the shape are held in a column by themselves. -/
def isColumn : Shape → Bool
  | .text => true
  | .optionalText => true
  | .integer => true
  | .document => true
  | _ => false

/-- Only a text may be left out, and an absent one is null. -/
def isField : String × Presence × Shape → Bool
  | (_, .required, shape) => shape.isColumn
  | (_, .optional, .optionalText) => true
  | _ => false

theorem isField_of_mem (k : WorkflowKind) : ∀ f ∈ k.fields, isField f = true := by
  cases k <;> decide

theorem isColumn_of_isField {f : String × Presence × Shape} (h : isField f = true) :
    f.2.2.isColumn = true := by
  obtain ⟨name, presence, shape⟩ := f
  cases presence with
  | required => exact h
  | optional =>
    cases shape with
    | optionalText => rfl
    | _ => cases h
  | defaulted v => cases h

theorem read_of_isColumn {shape : Shape} (h : shape.isColumn = true) (d : Draft) :
    read d shape = readSingle d shape := by
  cases shape with
  | list item => cases h
  | record fields => cases h
  | _ => cases d <;> rfl

/-- The member is one that the field has in a record. -/
def Holds (f : String × Presence × Shape) (m : String × Json) : Prop :=
  m.1 = f.1 ∧ Fits f.2.2 (Database.cellOf f.2.2 m.2)

theorem fits_of_read {shape : Shape} (hshape : shape.isColumn = true) {d : Draft} {v : Json}
    (h : read d shape = .ok v) : Fits shape (Database.cellOf shape v) := by
  rw [read_of_isColumn hshape] at h
  cases shape with
  | text =>
    cases d with
    | string s =>
      cases s with
      | none => cases h
      | some s =>
        cases h
        exact .text s
    | number n => cases n <;> cases h
    | _ => cases h
  | optionalText =>
    cases d with
    | null =>
      cases h
      exact .null (by intro h; cases h)
    | string s =>
      cases s with
      | none => cases h
      | some s =>
        cases h
        exact .optionalText s
    | number n => cases n <;> cases h
    | _ => cases h
  | integer =>
    cases d with
    | string s => cases s <;> cases h
    | number n =>
      cases n with
      | none => cases h
      | some n =>
        cases n with
        | double x => cases h
        | integer n =>
          change (if Number.isSigned n then Except.ok (Json.int n)
            else .error Fault.mismatched) = .ok v at h
          split at h
          · rename_i hsigned
            cases h
            have hcell : Database.cellOf .integer (.int n) = .value (.integer n) :=
              congrArg Sql.Cell.value (if_pos hsigned)
            rw [hcell]
            exact .integer n
          · cases h
    | _ => cases h
  | document =>
    cases hd : d.toJson? with
    | none =>
      simp only [readSingle, hd] at h
      cases h
    | some w =>
      simp only [readSingle, hd] at h
      cases h
      exact .document (distinctKeys_canonical w)
  | _ => cases hshape

/-! ## Arrays -/

theorem holds_of_readPlaces {closed : Bool} {items : List Draft} :
    ∀ {fields : List (String × Presence × Shape)} {members : List (String × Json)},
      (∀ f ∈ fields, isField f = true) → readPlaces closed items fields = .ok members →
      List.Forall₂ Holds fields members := by
  induction items with
  | nil =>
    intro fields members hfields h
    rw [readPlaces] at h
    split at h
    · cases fields with
      | nil =>
        rw [defaults] at h
        cases h
        exact .nil
      | cons f rest =>
        obtain ⟨name, presence, shape⟩ := f
        cases presence with
        | defaulted v => exact absurd (hfields _ List.mem_cons_self) Bool.false_ne_true
        | _ => cases h
    · cases h
  | cons d rest ih =>
    intro fields members hfields h
    cases fields with
    | nil => cases h
    | cons f others =>
      obtain ⟨name, presence, shape⟩ := f
      rw [readPlaces] at h
      split at h
      · cases h
      · rename_i v hv
        obtain ⟨tail, htail, rfl⟩ := Outcome.map_eq_ok.mp h
        have hcolumn := isColumn_of_isField (hfields _ List.mem_cons_self)
        exact .cons ⟨rfl, fits_of_read hcolumn hv⟩
          (ih (fun g hg => hfields g (List.mem_cons_of_mem _ hg)) htail)

/-! ## Objects -/

theorem fits_of_gives {members : List (String × Json)} {f : String × Presence × Shape}
    (hfield : isField f = true) {v : Json} (h : Gives members f v) :
    Fits f.2.2 (Database.cellOf f.2.2 v) := by
  rw [Gives] at h
  split at h
  · exact fits_of_read (isColumn_of_isField hfield) h
  · obtain ⟨name, presence, shape⟩ := f
    cases presence with
    | required => cases h
    | optional =>
      cases h
      cases shape with
      | optionalText => exact .null (by intro h; cases h)
      | _ => cases hfield
    | defaulted w => cases hfield

/-! ## Rows -/

theorem holds_of_record {k : WorkflowKind} {v record : Json} (h : k.record? v = some record) :
    ∃ members, record = .object members ∧ List.Forall₂ Holds k.fields members := by
  have hfields := isField_of_mem k
  rw [WorkflowKind.record?] at h
  split at h
  · rename_i found hread
    cases h
    cases v with
    | array items =>
      rw [Draft.ofJson, read, if_neg Bool.false_ne_true] at hread
      obtain ⟨members, hmembers, rfl⟩ := Outcome.map_eq_ok.mp hread
      exact ⟨members, rfl, holds_of_readPlaces hfields hmembers⟩
    | object inner =>
      obtain ⟨members, rfl, hgives⟩ := gives_of_read (Stored.nodup_fields k) hread
      exact ⟨members, rfl, Outcome.forall₂_of_mem hgives fun f hf m hm =>
        ⟨hm.1, fits_of_gives (hfields f hf) hm.2⟩⟩
    | _ => cases hread
  · cases h

end Json.Shape

namespace Stored

open Json.Shape (Holds holds_of_record)

theorem get?_of_holds {fields : List (String × Json.Presence × Json.Shape)}
    {members : List (String × Json)} (h : List.Forall₂ Holds fields members)
    (hnodup : (fields.map (·.1)).Nodup) {f : String × Json.Presence × Json.Shape}
    (hf : f ∈ fields) :
    ∃ v, (Json.object members).get? f.1 = some v ∧ Sql.Fits f.2.2 (Database.cellOf f.2.2 v) := by
  induction h with
  | nil => cases hf
  | @cons g m _ _ hm _ ih =>
    rw [List.map_cons, List.nodup_cons] at hnodup
    rw [Json.get?_cons, hm.1]
    rcases List.mem_cons.mp hf with rfl | hf
    · exact ⟨m.2, if_pos rfl, hm.2⟩
    · have hne : g.1 ≠ f.1 := fun e => hnodup.1 (List.mem_map.mpr ⟨f, hf, e.symm⟩)
      rw [if_neg hne]
      exact ih hnodup.2 hf

/-- The row that stores a record is well typed. -/
theorem wellTyped_rowOf {k : WorkflowKind} {v record : Json} (h : k.record? v = some record) :
    (Stored.mk k (Database.rowOf k record)).WellTyped := by
  obtain ⟨members, rfl, hholds⟩ := holds_of_record h
  intro f hf
  obtain ⟨w, hw, hfits⟩ := get?_of_holds hholds (nodup_fields k) hf
  refine ⟨_, Json.lookup_of_mem ?_ (List.mem_map.mpr ⟨f, hf, rfl⟩), ?_⟩
  · rw [Database.rowOf, List.map_map]
    exact nodup_fields k
  · rw [hw]
    exact hfits

end Stored
end AccessPolicy

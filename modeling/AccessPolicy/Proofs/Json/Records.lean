/-
Records read from objects.

An object gives each field of a record by its only member of that name, or leaves it to
what the absence of the field means.  Members of other names have no part in it, and
neither has the order of the members.
-/
import AccessPolicy.Json.Shape
import AccessPolicy.Proofs.Outcome

namespace AccessPolicy
namespace Json

/-! ## Lists of entries -/

section

variable {α : Type} {name : String} {a : α} {l : List (String × α)}

theorem lookup_of_mem (hnodup : (l.map (·.1)).Nodup) (h : (name, a) ∈ l) :
    l.lookup name = some a := by
  induction l with
  | nil => cases h
  | cons entry rest ih =>
    rw [List.map_cons, List.nodup_cons] at hnodup
    rcases List.mem_cons.mp h with rfl | h
    · rw [List.lookup_cons_self]
    · have hne : (name == entry.1) = false := by
        rw [beq_eq_false_iff_ne]
        rintro rfl
        exact hnodup.1 (List.mem_map.mpr ⟨_, h, rfl⟩)
      rw [List.lookup_cons, hne]
      exact ih hnodup.2 h

theorem mem_of_lookup (h : l.lookup name = some a) : (name, a) ∈ l := by
  obtain ⟨before, rest, rfl, _⟩ := List.lookup_eq_some_iff.mp h
  exact List.mem_append_right _ List.mem_cons_self

end

/-! ## Drafts of values -/

namespace Draft

mutual

theorem wellFormed_ofJson (v : Json) : (ofJson v).wellFormed = true := by
  cases v with
  | array items => rw [ofJson, wellFormed, wellFormedItems_ofItems items, Bool.true_and]
  | object members => rw [ofJson, wellFormed, wellFormedMembers_ofMembers members, Bool.true_and]
  | _ => rfl

theorem wellFormedItems_ofItems (items : List Json) : wellFormedItems (ofItems items) = true := by
  cases items with
  | nil => rfl
  | cons v rest =>
    rw [ofItems, wellFormedItems, wellFormed_ofJson v, wellFormedItems_ofItems rest, Bool.true_and]

theorem wellFormedMembers_ofMembers (members : List (String × Json)) :
    wellFormedMembers (ofMembers members) = true := by
  match members with
  | [] => rfl
  | (key, v) :: rest =>
    rw [ofMembers, wellFormedMembers, wellFormed_ofJson v, wellFormedMembers_ofMembers rest,
      Bool.true_and]

end

end Draft

/-- What a field is when it is left out of an object, if it may be left out. -/
def Presence.absent? : Presence → Option Json
  | .required => none
  | .optional => some .null
  | .defaulted v => some v

namespace Shape

/-! ## What members give -/

/-- The members give the field a value. -/
def Gives (members : List (String × Json)) (f : String × Presence × Shape) (v : Json) : Prop :=
  match members.lookup f.1 with
  | some w => read (.ofJson w) f.2.2 = .ok v
  | none => f.2.1.absent? = some v

/-- The members give the fields the values that they have in the record. -/
def GivesRecord (members : List (String × Json)) (fields : List (String × Presence × Shape))
    (record : List (String × Json)) : Prop :=
  List.Forall₂ (fun f m => m.1 = f.1 ∧ Gives members f m.2) fields record

section

variable {members : List (String × Json)} {name : String} {shape : Shape} {v : Json}

theorem gives_required_iff :
    Gives members (name, .required, shape) v ↔
      ∃ w, members.lookup name = some w ∧ read (.ofJson w) shape = .ok v := by
  rw [Gives]
  cases members.lookup name with
  | none => exact ⟨(fun h => nomatch h), fun ⟨_, h, _⟩ => nomatch h⟩
  | some w => exact ⟨fun h => ⟨w, rfl, h⟩, fun ⟨_, hw, h⟩ => by cases hw; exact h⟩

/-- A default that reads as itself may as well have been given. -/
theorem gives_defaulted_iff {fallback : Json} (h : read (.ofJson fallback) shape = .ok fallback) :
    Gives members (name, .defaulted fallback, shape) v ↔
      read (.ofJson ((members.lookup name).getD fallback)) shape = .ok v := by
  rw [Gives]
  cases members.lookup name with
  | none =>
    dsimp only [Presence.absent?, Option.getD_none]
    rw [h, Except.ok.injEq, Option.some_inj]
  | some w => exact Iff.rfl

/-- The first field of a record, and the fields after it. -/
theorem GivesRecord.uncons {f : String × Presence × Shape}
    {fields : List (String × Presence × Shape)} {record : List (String × Json)}
    (h : GivesRecord members (f :: fields) record) :
    ∃ v rest, Gives members f v ∧ GivesRecord members fields rest ∧
      record = (f.1, v) :: rest := by
  cases h with
  | @cons _ m _ rest hm hrest => exact ⟨m.2, rest, hm.2, hrest, by rw [← hm.1]⟩

end

/-! ## Values taken as they are -/

section

variable {v w : Json}

theorem read_text_eq_ok_iff : read (.ofJson v) .text = .ok w ↔ w = v ∧ ∃ s, v = .string s := by
  cases v with
  | string s =>
    have hread : read (.ofJson (.string s)) .text = .ok (.string s) := rfl
    rw [hread, Except.ok.injEq]
    exact ⟨fun h => ⟨h.symm, s, rfl⟩, fun h => h.1.symm⟩
  | _ => exact ⟨(fun h => nomatch h), fun ⟨_, _, h⟩ => nomatch h⟩

theorem read_optionalText_eq_ok_iff :
    read (.ofJson v) .optionalText = .ok w ↔ w = v ∧ (v = .null ∨ ∃ s, v = .string s) := by
  cases v with
  | null =>
    have hread : read (.ofJson .null) .optionalText = .ok .null := rfl
    rw [hread, Except.ok.injEq]
    exact ⟨fun h => ⟨h.symm, .inl rfl⟩, fun h => h.1.symm⟩
  | string s =>
    have hread : read (.ofJson (.string s)) .optionalText = .ok (.string s) := rfl
    rw [hread, Except.ok.injEq]
    exact ⟨fun h => ⟨h.symm, .inr ⟨s, rfl⟩⟩, fun h => h.1.symm⟩
  | _ => exact ⟨(fun h => nomatch h), fun ⟨_, h⟩ => h.elim (fun h => nomatch h) nofun⟩

theorem read_verbatim (v : Json) : read (.ofJson v) .verbatim = .ok v := by
  have hsingle : readSingle (.ofJson v) .verbatim = .ok v := by
    rw [readSingle, Draft.toJson?_ofJson]
  cases v <;> exact hsingle

theorem readItems_verbatim (items : List Json) :
    readItems true (Draft.ofItems items) .verbatim = .ok items := by
  induction items with
  | nil => rfl
  | cons v rest ih =>
    rw [Draft.ofItems, readItems, read_verbatim, ih]
    rfl

theorem read_list_verbatim (items : List Json) :
    read (.ofJson (.array items)) (.list .verbatim) = .ok (.array items) := by
  rw [Draft.ofJson, read, readItems_verbatim]
  rfl

theorem read_list_verbatim_eq_ok_iff :
    read (.ofJson v) (.list .verbatim) = .ok w ↔ w = v ∧ ∃ items, v = .array items := by
  cases v with
  | array items =>
    rw [read_list_verbatim, Except.ok.injEq]
    exact ⟨fun h => ⟨h.symm, items, rfl⟩, fun h => h.1.symm⟩
  | _ => exact ⟨(fun h => nomatch h), fun ⟨_, _, h⟩ => nomatch h⟩

end

/-! ## Members seen -/

/-- A known member is seen once, under its shape. -/
theorem lookup_of_readMembers {fields : List (String × Presence × Shape)} {key : String}
    {presence : Presence} {shape : Shape} (hfield : fields.lookup key = some (presence, shape))
    {members : List (String × Json)} :
    ∀ {seen seen' : List (String × Json)},
      readMembers fields (Draft.ofMembers members) seen = .ok seen' →
      match members.lookup key with
      | some w => seen.lookup key = none ∧
        ∃ v, read (.ofJson w) shape = .ok v ∧ seen'.lookup key = some v
      | none => seen'.lookup key = seen.lookup key := by
  induction members with
  | nil =>
    intro seen seen' h
    rw [Draft.ofMembers, readMembers] at h
    cases h
    rfl
  | cons m rest ih =>
    obtain ⟨name, w⟩ := m
    intro seen seen' h
    rw [Draft.ofMembers, readMembers] at h
    rw [List.lookup_cons]
    split at h
    · rename_i hunknown
      have hne : (key == name) = false := by
        rw [beq_eq_false_iff_ne]
        rintro rfl
        rw [hunknown] at hfield
        cases hfield
      rw [Draft.wellFormed_ofJson, if_pos rfl] at h
      rw [hne]
      exact ih h
    · rename_i presence' shape' hknown
      split at h
      · cases h
      · rename_i hfresh
        split at h
        · cases h
        · rename_i v hv
          have hrest := ih h
          rw [List.lookup_cons] at hrest
          by_cases hkey : key = name
          · subst hkey
            rw [hknown] at hfield
            cases hfield
            rw [beq_self_eq_true] at hrest ⊢
            refine ⟨Option.not_isSome_iff_eq_none.mp hfresh, v, hv, ?_⟩
            -- A second member of the name would have been refused.
            cases hsecond : rest.lookup key with
            | none => rw [hsecond] at hrest; exact hrest
            | some u => rw [hsecond] at hrest; cases hrest.1
          · rw [beq_eq_false_iff_ne.mpr hkey] at hrest ⊢
            exact hrest

/-- Members of other names are skipped. -/
theorem readMembers_filter {fields : List (String × Presence × Shape)}
    {keep : String × Json → Bool} {members : List (String × Json)}
    (h : ∀ m ∈ members, (fields.lookup m.1).isSome = true → keep m = true) :
    ∀ {seen : List (String × Json)},
      readMembers fields (Draft.ofMembers (members.filter keep)) seen =
        readMembers fields (Draft.ofMembers members) seen := by
  induction members with
  | nil => exact rfl
  | cons m rest ih =>
    obtain ⟨name, w⟩ := m
    obtain ⟨hfirst, hrest⟩ := List.forall_mem_cons.mp h
    intro seen
    rw [List.filter_cons]
    by_cases hkeep : keep (name, w) = true
    · rw [if_pos hkeep, Draft.ofMembers, Draft.ofMembers, readMembers, readMembers]
      simp only [ih hrest]
    · have hunknown : fields.lookup name = none :=
        Option.not_isSome_iff_eq_none.mp fun hknown => hkeep (hfirst hknown)
      rw [if_neg hkeep, ih hrest, Draft.ofMembers, readMembers, hunknown]
      dsimp only
      rw [Draft.wellFormed_ofJson, if_pos rfl]

/-- Members of different names are read when each of them is. -/
theorem exists_readMembers {fields : List (String × Presence × Shape)}
    {members : List (String × Json)} :
    ∀ {seen : List (String × Json)}, (members.map (·.1)).Nodup →
      (∀ m ∈ members, seen.lookup m.1 = none ∧
        ∀ presence shape, fields.lookup m.1 = some (presence, shape) →
          ∃ v, read (.ofJson m.2) shape = .ok v) →
      ∃ seen', readMembers fields (Draft.ofMembers members) seen = .ok seen' := by
  induction members with
  | nil => exact fun _ _ => ⟨_, rfl⟩
  | cons m rest ih =>
    obtain ⟨name, w⟩ := m
    intro seen hnodup h
    rw [List.map_cons, List.nodup_cons] at hnodup
    obtain ⟨⟨hfresh, hread⟩, hrest⟩ := List.forall_mem_cons.mp h
    rw [Draft.ofMembers, readMembers]
    cases hknown : fields.lookup name with
    | none =>
      dsimp only
      rw [Draft.wellFormed_ofJson, if_pos rfl]
      exact ih hnodup.2 hrest
    | some field =>
      obtain ⟨presence, shape⟩ := field
      obtain ⟨v, hv⟩ := hread presence shape hknown
      have hseen : (seen.lookup name).isSome = false := by rw [hfresh]; rfl
      dsimp only at hseen ⊢
      rw [hseen, if_neg Bool.false_ne_true, hv]
      refine ih hnodup.2 fun m hm => ⟨?_, (hrest m hm).2⟩
      have hne : (m.1 == name) = false := by
        rw [beq_eq_false_iff_ne]
        rintro rfl
        exact hnodup.1 (List.mem_map.mpr ⟨m, hm, rfl⟩)
      rw [List.lookup_cons, hne]
      exact (hrest m hm).1

/-! ## Fields completed -/

theorem complete_eq_ok_iff {seen : List (String × Json)}
    {fields : List (String × Presence × Shape)} :
    ∀ {record : List (String × Json)}, complete seen fields = .ok record ↔
      List.Forall₂ (fun f m => m.1 = f.1 ∧ (seen.lookup f.1).or f.2.1.absent? = some m.2)
        fields record := by
  induction fields with
  | nil =>
    intro record
    rw [complete, List.forall₂_nil_left_iff, Except.ok.injEq]
    exact eq_comm
  | cons f rest ih =>
    intro record
    obtain ⟨name, presence, shape⟩ := f
    -- One value for the field, then the rest.
    have hvalue : complete seen ((name, presence, shape) :: rest) =
        match (seen.lookup name).or presence.absent? with
        | some v => (complete seen rest).map ((name, v) :: ·)
        | none => .error .mismatched := by
      conv_lhs => unfold complete
      cases seen.lookup name with
      | some v => rfl
      | none => cases presence <;> rfl
    rw [hvalue, List.forall₂_cons_left_iff]
    cases (seen.lookup name).or presence.absent? with
    | none =>
      constructor
      · exact fun h => nomatch h
      · rintro ⟨m, tail, ⟨_, hm⟩, _, _⟩
        cases hm
    | some v =>
      dsimp only
      rw [Outcome.map_eq_ok]
      constructor
      · rintro ⟨tail, htail, rfl⟩
        exact ⟨(name, v), tail, ⟨rfl, rfl⟩, ih.mp htail, rfl⟩
      · rintro ⟨⟨key, w⟩, tail, ⟨hkey, hw⟩, htail, rfl⟩
        cases hkey
        cases hw
        exact ⟨tail, ih.mpr htail, rfl⟩

/-! ## Objects -/

variable {fields : List (String × Presence × Shape)} {members : List (String × Json)}

theorem read_object :
    read (.ofJson (.object members)) (.record fields) =
      (readMembers fields (Draft.ofMembers members) []).bind fun seen =>
        (complete seen fields).map .object := by
  rw [Draft.ofJson, read, if_neg Bool.false_ne_true]
  cases readMembers fields (Draft.ofMembers members) [] <;> rfl

/-- Members of other names have no part in a record. -/
theorem read_object_filter {keep : String × Json → Bool}
    (h : ∀ m ∈ members, (fields.lookup m.1).isSome = true → keep m = true) :
    read (.ofJson (.object (members.filter keep))) (.record fields) =
      read (.ofJson (.object members)) (.record fields) := by
  rw [read_object, read_object, readMembers_filter h]

/-- What was seen of an object, completed, is what the object gives. -/
theorem gives_iff (hfields : (fields.map (·.1)).Nodup) {seen : List (String × Json)}
    (h : readMembers fields (Draft.ofMembers members) [] = .ok seen)
    {f : String × Presence × Shape} (hf : f ∈ fields) (v : Json) :
    (seen.lookup f.1).or f.2.1.absent? = some v ↔ Gives members f v := by
  have hseen := lookup_of_readMembers (lookup_of_mem hfields hf) h
  rw [Gives]
  cases hmember : members.lookup f.1 with
  | none =>
    rw [hmember] at hseen
    rw [show seen.lookup f.1 = none from hseen, Option.none_or]
  | some w =>
    rw [hmember] at hseen
    obtain ⟨-, u, hu, hlookup⟩ := hseen
    dsimp only
    rw [hlookup, Option.some_or, hu, Option.some_inj, Except.ok.injEq]

/-- The record that completes what was seen has for each field what the object gives it. -/
theorem complete_iff (hfields : (fields.map (·.1)).Nodup) {seen : List (String × Json)}
    (h : readMembers fields (Draft.ofMembers members) [] = .ok seen)
    (record : List (String × Json)) :
    complete seen fields = .ok record ↔ GivesRecord members fields record := by
  rw [complete_eq_ok_iff]
  constructor
  · exact fun hrecord => Outcome.forall₂_of_mem hrecord fun f hf m hm =>
      ⟨hm.1, (gives_iff hfields h hf m.2).mp hm.2⟩
  · exact fun hrecord => Outcome.forall₂_of_mem hrecord fun f hf m hm =>
      ⟨hm.1, (gives_iff hfields h hf m.2).mpr hm.2⟩

/-- A record read from an object has for each field what the object gives it. -/
theorem gives_of_read (hfields : (fields.map (·.1)).Nodup) {v : Json}
    (h : read (.ofJson (.object members)) (.record fields) = .ok v) :
    ∃ record, v = .object record ∧ GivesRecord members fields record := by
  rw [read_object] at h
  obtain ⟨seen, hseen, h⟩ := Outcome.bind_eq_ok.mp h
  obtain ⟨record, hrecord, rfl⟩ := Outcome.map_eq_ok.mp h
  exact ⟨record, rfl, (complete_iff hfields hseen record).mp hrecord⟩

/-- An object of different members is read when it gives each field a value. -/
theorem read_of_gives (hfields : (fields.map (·.1)).Nodup) (hmembers : (members.map (·.1)).Nodup)
    {record : List (String × Json)} (h : GivesRecord members fields record) :
    read (.ofJson (.object members)) (.record fields) = .ok (.object record) := by
  have hread : ∀ m ∈ members, ([] : List (String × Json)).lookup m.1 = none ∧
      ∀ presence shape, fields.lookup m.1 = some (presence, shape) →
        ∃ v, read (.ofJson m.2) shape = .ok v := by
    refine fun m hm => ⟨rfl, fun presence shape hfield => ?_⟩
    obtain ⟨given, _, _, hv⟩ :=
      Outcome.exists_of_forall₂ (List.Forall₂.flip h) (m.1, presence, shape) (mem_of_lookup hfield)
    rw [Gives, lookup_of_mem hmembers hm] at hv
    exact ⟨given.2, hv⟩
  obtain ⟨seen, hseen⟩ := exists_readMembers hmembers hread
  rw [read_object, hseen]
  exact congrArg (Except.map Json.object) ((complete_iff hfields hseen record).mpr h)

end Shape
end Json
end AccessPolicy

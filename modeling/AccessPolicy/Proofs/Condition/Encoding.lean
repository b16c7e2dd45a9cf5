/-
The JSON form of conditions, written and read.

A condition is written as the object of its parts.  An object states a condition when it
gives each part of the condition by its only member of that name, in whatever form of the
part the reader takes, and the object that is written states the condition that it was
written from.  Values are read in canonical form, so what was read once comes back
unchanged.
-/
import AccessPolicy.Condition.Format
import AccessPolicy.Proofs.Condition.Meaning
import AccessPolicy.Proofs.Json.Members
import AccessPolicy.Proofs.Outcome

namespace AccessPolicy

theorem Operator.key_inj {o p : Operator} : o.key = p.key ↔ o = p := by
  constructor
  · intro h
    exact Option.some.inj ((ofKey?_key o).symm.trans (h ▸ ofKey?_key p))
  · exact congrArg key

namespace Condition

mutual

/-- A condition with its values in canonical form, as the engine holds them. -/
def canonical : Condition → Condition
  | .field text operator value => .field text operator value.canonical
  | .container type conditions => .container type (canonicalAll conditions)

def canonicalAll : List Condition → List Condition
  | [] => []
  | c :: rest => canonical c :: canonicalAll rest

end

theorem canonicalAll_eq_map (conditions : List Condition) :
    canonicalAll conditions = conditions.map canonical := by
  induction conditions with
  | nil => rfl
  | cons c rest ih => rw [canonicalAll, ih, List.map_cons]

theorem toItems_eq_map (conditions : List Condition) :
    toItems conditions = conditions.map toJson := by
  induction conditions with
  | nil => rfl
  | cons c rest ih => rw [toItems, ih, List.map_cons]

/-- The names of the members under which a condition is written. -/
def names : Condition → List String
  | .field _ _ _ => ["type", "field", "operator", "value"]
  | .container _ _ => ["type", "resourceType", "conditions"]

/-! ## Only members -/

section

variable {key : String} {members : List (String × Json)}

theorem onlyMember?_cons (key : String) (m : String × Json) (rest : List (String × Json)) :
    onlyMember? key (m :: rest) =
      if m.1 = key then if key ∈ rest.map (·.1) then none else some m.2
      else onlyMember? key rest := by
  rw [onlyMember?, List.filter_cons]
  by_cases hm : m.1 = key
  · rw [if_pos (beq_iff_eq.mpr hm), if_pos hm]
    cases hrest : rest.filter fun n => n.1 == key with
    | nil =>
      rw [if_neg]
      intro h
      obtain ⟨n, hn, rfl⟩ := List.mem_map.mp h
      exact List.filter_eq_nil_iff.mp hrest n hn (beq_self_eq_true _)
    | cons n others =>
      obtain ⟨hn, hkey⟩ := List.mem_filter.mp (hrest ▸ List.mem_cons_self : n ∈ rest.filter _)
      rw [if_pos (List.mem_map.mpr ⟨n, hn, eq_of_beq hkey⟩)]
  · rw [if_neg (by rwa [beq_iff_eq]), if_neg hm, onlyMember?]

theorem onlyMember?_filter {keep : String × Json → Bool}
    (h : ∀ m ∈ members, m.1 = key → keep m = true) :
    onlyMember? key (members.filter keep) = onlyMember? key members := by
  rw [onlyMember?, onlyMember?, List.filter_filter]
  rw [List.filter_congr (q := fun m => m.1 == key)]
  intro m hm
  by_cases hkey : m.1 = key
  · rw [h m hm hkey, Bool.and_true]
  · rw [beq_eq_false_iff_ne.mpr hkey, Bool.false_and]

theorem ofNested?_of_onlyMember? {v : Json} (h : onlyMember? "conditions" members = some v)
    (conditions : List Condition) :
    ofNested? members = some conditions ↔
      ∃ items, v = .array items ∧ ofItems? true items = some conditions := by
  induction members with
  | nil => cases h
  | cons m rest ih =>
    obtain ⟨key, w⟩ := m
    rw [onlyMember?_cons] at h
    by_cases hkey : key = "conditions"
    · rw [if_pos hkey] at h
      split at h
      · cases h
      · cases h
        cases w with
        | array items =>
          rw [ofNested?, if_pos hkey]
          exact ⟨fun h => ⟨items, rfl, h⟩, fun ⟨_, hitems, h⟩ => by cases hitems; exact h⟩
        | _ => simp [ofNested?, hkey]
    · rw [if_neg hkey] at h
      rw [← ih h]
      cases w <;> rw [ofNested?] <;> simp [hkey]

end

/-! ## What an object states -/

theorem ofItems?_eq_some_iff {nested : Bool} {items : List Json} :
    ∀ {conditions : List Condition}, ofItems? nested items = some conditions ↔
      List.Forall₂ (fun v c => ofJson? nested v = some c) items conditions := by
  induction items with
  | nil =>
    intro conditions
    rw [ofItems?, List.forall₂_nil_left_iff, Option.some_inj]
    exact eq_comm
  | cons v rest ih =>
    intro conditions
    rw [ofItems?, List.forall₂_cons_left_iff]
    constructor
    · intro h
      obtain ⟨c, hc, h⟩ := Option.bind_eq_some_iff.mp h
      obtain ⟨cs, hcs, h⟩ := Option.bind_eq_some_iff.mp h
      cases h
      exact ⟨c, cs, hc, ih.mp hcs, rfl⟩
    · rintro ⟨c, cs, hc, hcs, rfl⟩
      rw [hc, ih.mpr hcs]
      rfl

theorem ofFieldParts?_eq_some_iff {name operator value : Json} {c : Condition} :
    ofFieldParts? name operator value = some c ↔
      ∃ text op, name = .string text ∧ Operator.ofJson? operator = some op ∧
        c = .field text op value.canonical := by
  rw [ofFieldParts?]
  constructor
  · intro h
    obtain ⟨text, htext, h⟩ := Option.bind_eq_some_iff.mp h
    obtain ⟨op, hop, h⟩ := Option.bind_eq_some_iff.mp h
    cases h
    cases name with
    | string s =>
      cases htext
      exact ⟨_, op, rfl, hop, rfl⟩
    | _ => cases htext
  · rintro ⟨text, op, rfl, hop, rfl⟩
    rw [hop]
    rfl

section

variable {nested : Bool} {members : List (String × Json)}

/-- The kind of condition that the members are of. -/
def kindOf? (nested : Bool) (members : List (String × Json)) : Option Kind :=
  (onlyMember? "type" members).bind (Kind.ofTag? nested)

theorem ofJson?_of_field (hkind : kindOf? nested members = some .field) (c : Condition) :
    ofJson? nested (.object members) = some c ↔
      ∃ text o op v, onlyMember? "field" members = some (.string text) ∧
        onlyMember? "operator" members = some o ∧ Operator.ofJson? o = some op ∧
        onlyMember? "value" members = some v ∧ c = .field text op v.canonical := by
  rw [kindOf?] at hkind
  rw [ofJson?, hkind]
  constructor
  · intro h
    obtain ⟨name, hname, h⟩ := Option.bind_eq_some_iff.mp h
    obtain ⟨o, ho, h⟩ := Option.bind_eq_some_iff.mp h
    obtain ⟨v, hv, h⟩ := Option.bind_eq_some_iff.mp h
    obtain ⟨text, op, rfl, hop, rfl⟩ := ofFieldParts?_eq_some_iff.mp h
    exact ⟨text, o, op, v, hname, ho, hop, hv, rfl⟩
  · rintro ⟨text, o, op, v, hname, ho, hop, hv, rfl⟩
    rw [hname, ho, hv]
    exact ofFieldParts?_eq_some_iff.mpr ⟨text, op, rfl, hop, rfl⟩

theorem ofJson?_of_container (hkind : kindOf? nested members = some .container)
    (c : Condition) :
    ofJson? nested (.object members) = some c ↔
      ∃ type items conditions, onlyMember? "resourceType" members = some (.string type) ∧
        onlyMember? "conditions" members = some (.array items) ∧
        ofItems? true items = some conditions ∧ c = .container type conditions := by
  rw [kindOf?] at hkind
  rw [ofJson?, hkind]
  constructor
  · intro h
    obtain ⟨type, htype, h⟩ := Option.bind_eq_some_iff.mp h
    obtain ⟨v, hv, h⟩ := Option.bind_eq_some_iff.mp h
    obtain ⟨conditions, hconditions, h⟩ := Option.bind_eq_some_iff.mp h
    cases h
    obtain ⟨items, rfl, hitems⟩ := (ofNested?_of_onlyMember? hv _).mp hconditions
    obtain ⟨w, hw, hstring⟩ := Option.bind_eq_some_iff.mp htype
    cases w with
    | string s =>
      cases hstring
      exact ⟨_, items, conditions, hw, hv, hitems, rfl⟩
    | _ => cases hstring
  · rintro ⟨type, items, conditions, htype, hv, hitems, rfl⟩
    have hnested := (ofNested?_of_onlyMember? hv conditions).mpr ⟨items, rfl, hitems⟩
    rw [htype, hv, hnested]
    rfl

/-- The object of the members states the condition. -/
def StatedBy (nested : Bool) (members : List (String × Json)) : Condition → Prop
  | .field text operator value =>
    kindOf? nested members = some .field ∧
      onlyMember? "field" members = some (.string text) ∧
      (onlyMember? "operator" members).bind Operator.ofJson? = some operator ∧
      (onlyMember? "value" members).map Json.canonical = some value
  | .container type conditions =>
    kindOf? nested members = some .container ∧
      onlyMember? "resourceType" members = some (.string type) ∧
      ∃ items, onlyMember? "conditions" members = some (.array items) ∧
        ofItems? true items = some conditions

theorem ofJson?_object_iff {c : Condition} :
    ofJson? nested (.object members) = some c ↔ c.StatedBy nested members := by
  cases hkind : kindOf? nested members with
  | none =>
    constructor
    · intro h
      rw [kindOf?] at hkind
      rw [ofJson?, hkind] at h
      cases h
    · intro h
      cases c <;> (rw [StatedBy, hkind] at h; cases h.1)
  | some kind =>
    cases kind with
    | field =>
      rw [ofJson?_of_field hkind]
      cases c with
      | field text operator value =>
        rw [StatedBy, hkind, Option.bind_eq_some_iff, Option.map_eq_some_iff]
        grind
      | container type conditions => simp [StatedBy, hkind]
    | container =>
      rw [ofJson?_of_container hkind]
      cases c with
      | field text operator value => simp [StatedBy, hkind]
      | container type conditions =>
        rw [StatedBy, hkind]
        grind

/-- Only the members under whose names the condition is written are read. -/
theorem ofJson?_filter {c : Condition} (h : ofJson? nested (.object members) = some c) :
    ofJson? nested (.object (members.filter fun m => c.names.contains m.1)) = some c := by
  have hkeep : ∀ key ∈ c.names,
      onlyMember? key (members.filter fun m => c.names.contains m.1) =
        onlyMember? key members := by
    intro key hkey
    refine onlyMember?_filter fun m _ hm => ?_
    rw [hm]
    exact List.contains_iff_mem.mpr hkey
  rw [ofJson?_object_iff] at h ⊢
  cases c with
  | field text operator value =>
    rw [StatedBy, kindOf?] at h ⊢
    rwa [hkeep "type" (by simp [names]), hkeep "field" (by simp [names]),
      hkeep "operator" (by simp [names]), hkeep "value" (by simp [names])]
  | container type conditions =>
    rw [StatedBy, kindOf?] at h ⊢
    rwa [hkeep "type" (by simp [names]), hkeep "resourceType" (by simp [names]),
      hkeep "conditions" (by simp [names])]

end

/-! ## What was written -/

/-- Conditions in a list are read when each is read. -/
theorem ofItems?_map {nested : Bool} {change : Json → Json} {result : Condition → Condition}
    {conditions : List Condition}
    (h : ∀ c ∈ conditions, ofJson? nested (change c.toJson) = some (result c)) :
    ofItems? nested ((toItems conditions).map change) = some (conditions.map result) := by
  rw [ofItems?_eq_some_iff, toItems_eq_map, List.map_map, List.forall₂_map_left_iff,
    List.forall₂_map_right_iff, List.forall₂_same]
  exact h

theorem exists_members (c : Condition) :
    ∃ written, c.toJson = .object written ∧ written.map (·.1) = c.names := by
  cases c <;> (rw [toJson]; exact ⟨_, rfl, rfl⟩)

theorem ofJson?_toJson (c : Condition) (nested : Bool) :
    ofJson? nested c.toJson = some c.canonical := by
  induction c generalizing nested with
  | field text operator value =>
    rw [toJson, ofJson?_object_iff, canonical]
    exact ⟨rfl, rfl, Operator.ofKey?_key operator, rfl⟩
  | container type conditions ih =>
    have hitems : ofItems? true ((toItems conditions).map id) = some (conditions.map canonical) :=
      ofItems?_map fun c hc => ih c hc true
    rw [List.map_id] at hitems
    rw [toJson, ofJson?_object_iff, canonical, canonicalAll_eq_map]
    exact ⟨rfl, rfl, _, rfl, hitems⟩

theorem canonical_toJson_field (text : String) (operator : Operator) (value : Json) :
    (toJson (.field text operator value)).canonical =
      .object [("field", .string text), ("operator", .string operator.key),
        ("type", .string "field"), ("value", value.canonical)] := by
  rw [toJson, Json.canonical]
  simp only [Json.canonicalMembers, Json.canonical, List.foldl_cons, List.foldl_nil]
  simp +decide [Json.insertMember]

theorem canonical_toJson_container (type : String) (conditions : List Condition) :
    (toJson (.container type conditions)).canonical =
      .object [("conditions", .array ((toItems conditions).map Json.canonical)),
        ("resourceType", .string type), ("type", .string "container")] := by
  rw [toJson, Json.canonical]
  simp only [Json.canonicalMembers, Json.canonical, Json.canonicalItems_eq_map, List.foldl_cons,
    List.foldl_nil]
  simp +decide [Json.insertMember]

/-- The order in which the members are written does not matter. -/
theorem ofJson?_canonical_toJson (c : Condition) (nested : Bool) :
    ofJson? nested c.toJson.canonical = some c.canonical := by
  induction c generalizing nested with
  | field text operator value =>
    rw [canonical_toJson_field, ofJson?_object_iff, canonical]
    exact ⟨rfl, rfl, Operator.ofKey?_key operator,
      congrArg some (Json.canonical_canonical value)⟩
  | container type conditions ih =>
    rw [canonical_toJson_container, ofJson?_object_iff, canonical, canonicalAll_eq_map]
    exact ⟨rfl, rfl, _, rfl, ofItems?_map fun c hc => ih c hc true⟩

/-! ## What was read -/

theorem canonicalAll_eq_self {conditions : List Condition}
    (h : ∀ c ∈ conditions, c.canonical = c) : canonicalAll conditions = conditions := by
  rw [canonicalAll_eq_map]
  exact (List.map_congr_left h).trans (List.map_id conditions)

/-- However a condition is given, it is read from its parts. -/
theorem parts_of_ofJson? {nested : Bool} {v : Json} {c : Condition}
    (h : ofJson? nested v = some c) :
    (∃ name operator value, ofFieldParts? name operator value = some c) ∨
      ∃ type items conditions, ofItems? true items = some conditions ∧
        c = .container type conditions := by
  cases v with
  | object members =>
    cases c with
    | field text operator value =>
      obtain ⟨-, -, hop, hvalue⟩ := ofJson?_object_iff.mp h
      obtain ⟨o, -, hop⟩ := Option.bind_eq_some_iff.mp hop
      obtain ⟨w, -, rfl⟩ := Option.map_eq_some_iff.mp hvalue
      exact .inl ⟨.string text, o, w, ofFieldParts?_eq_some_iff.mpr ⟨text, operator, rfl, hop, rfl⟩⟩
    | container type conditions =>
      obtain ⟨-, -, items, -, hitems⟩ := ofJson?_object_iff.mp h
      exact .inr ⟨type, items, conditions, hitems, rfl⟩
  | array items =>
    cases items with
    | nil => cases h
    | cons tag rest =>
      -- After the kind an array has the parts in order.
      unfold ofJson? at h
      split at h
      · exact .inl ⟨_, _, _, h⟩
      · obtain ⟨conditions, hconditions, rfl⟩ := Option.map_eq_some_iff.mp h
        exact .inr ⟨_, _, conditions, hconditions, rfl⟩
      · cases h
  | _ => cases h

/-- Values are read in canonical form. -/
theorem canonical_of_ofJson? {c : Condition} :
    ∀ {nested : Bool} {v : Json}, ofJson? nested v = some c → c.canonical = c := by
  induction c with
  | field text operator value =>
    intro nested v h
    obtain ⟨name, o, w, hparts⟩ | ⟨_, _, _, _, hc⟩ := parts_of_ofJson? h
    · obtain ⟨_, _, _, _, hc⟩ := ofFieldParts?_eq_some_iff.mp hparts
      cases hc
      rw [canonical, Json.canonical_canonical]
    · cases hc
  | container type conditions ih =>
    intro nested v h
    obtain ⟨name, o, w, hparts⟩ | ⟨_, items, _, hitems, hc⟩ := parts_of_ofJson? h
    · obtain ⟨_, _, _, _, hc⟩ := ofFieldParts?_eq_some_iff.mp hparts
      cases hc
    · cases hc
      rw [canonical, canonicalAll_eq_self]
      intro c hc
      obtain ⟨u, _, hu⟩ := Outcome.exists_of_forall₂ (ofItems?_eq_some_iff.mp hitems) c hc
      exact ih c hc hu

theorem canonicalAll_of_ofItems? {nested : Bool} {items : List Json}
    {conditions : List Condition} (h : ofItems? nested items = some conditions) :
    canonicalAll conditions = conditions := by
  refine canonicalAll_eq_self fun c hc => ?_
  obtain ⟨v, _, hv⟩ := Outcome.exists_of_forall₂ (ofItems?_eq_some_iff.mp h) c hc
  exact canonical_of_ofJson? hv

/-! ## Different conditions -/

mutual

/-- Structural equality of conditions, with values compared by `Json.same`. -/
def same : Condition → Condition → Bool
  | .field text operator value, .field text' operator' value' =>
    text == text' && decide (operator = operator') && value.same value'
  | .container type conditions, .container type' conditions' =>
    type == type' && sameAll conditions conditions'
  | _, _ => false

def sameAll : List Condition → List Condition → Bool
  | [], [] => true
  | c :: cs, d :: ds => same c d && sameAll cs ds
  | _, _ => false

end

theorem sameItems_map {write : Condition → Json} {result : Condition → Condition}
    {conditions : List Condition}
    (h : ∀ c ∈ conditions, ∀ d, (write c).same (write d) = (result c).same (result d)) :
    ∀ conditions' : List Condition, Json.sameItems (conditions.map write) (conditions'.map write) =
      sameAll (conditions.map result) (conditions'.map result) := by
  induction conditions with
  | nil =>
    intro conditions'
    cases conditions' <;> rfl
  | cons c rest ih =>
    intro conditions'
    rw [List.forall_mem_cons] at h
    cases conditions' with
    | nil => rfl
    | cons d others =>
      rw [List.map_cons, List.map_cons, List.map_cons, List.map_cons, Json.sameItems, sameAll,
        h.1, ih h.2]

theorem beq_key (o p : Operator) : (o.key == p.key) = decide (o = p) := by
  rw [Bool.eq_iff_iff, beq_iff_eq, decide_eq_true_iff, Operator.key_inj]

theorem same_toJson (c d : Condition) : c.toJson.same d.toJson = c.same d := by
  induction c generalizing d with
  | field text operator value =>
    cases d with
    | field text' operator' value' =>
      simp [toJson, Json.same, Json.sameMembers, same, beq_key, Bool.and_assoc]
    | container type' conditions' => simp [toJson, Json.same, Json.sameMembers, same]
  | container type conditions ih =>
    cases d with
    | field text' operator' value' => simp [toJson, Json.same, Json.sameMembers, same]
    | container type' conditions' =>
      have hitems : Json.sameItems (conditions.map toJson) (conditions'.map toJson) =
          sameAll (conditions.map id) (conditions'.map id) := sameItems_map ih conditions'
      rw [List.map_id, List.map_id] at hitems
      simp [toJson, Json.same, Json.sameMembers, same, toItems_eq_map, hitems]

theorem same_canonical_toJson (c d : Condition) :
    c.toJson.canonical.same d.toJson.canonical = c.canonical.same d.canonical := by
  induction c generalizing d with
  | field text operator value =>
    cases d with
    | field text' operator' value' =>
      simp [canonical_toJson_field, canonical, Json.same, Json.sameMembers, same, beq_key,
        Bool.and_assoc]
    | container type' conditions' =>
      simp [canonical_toJson_field, canonical_toJson_container, canonical, Json.same,
        Json.sameMembers, same]
  | container type conditions ih =>
    cases d with
    | field text' operator' value' =>
      simp [canonical_toJson_field, canonical_toJson_container, canonical, Json.same,
        Json.sameMembers, same]
    | container type' conditions' =>
      have hitems : Json.sameItems (conditions.map fun c => c.toJson.canonical)
            (conditions'.map fun c => c.toJson.canonical) =
          sameAll (conditions.map canonical) (conditions'.map canonical) :=
        sameItems_map ih conditions'
      simp [canonical_toJson_container, canonical, canonicalAll_eq_map, Json.same,
        Json.sameMembers, same, toItems_eq_map, Function.comp_def, hitems, Bool.and_comm]

end Condition
end AccessPolicy

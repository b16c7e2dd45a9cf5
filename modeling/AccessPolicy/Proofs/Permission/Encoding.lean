/-
The JSON form of permission definitions, written and read.

An object states a definition when it gives the three names and, where there are any, the
conditions and the context.  Members of other names have no part in it.  What is written
states the definition that it was written from: the conditions always, the context only
where there is something to write.
-/
import AccessPolicy.Permission.Definition
import AccessPolicy.Proofs.Condition.Encoding
import AccessPolicy.Proofs.FieldPaths
import AccessPolicy.Proofs.Json.Records

namespace AccessPolicy

namespace PermissionDefinition

open Json.Shape (Gives GivesRecord gives_required_iff gives_defaulted_iff)

/-- A definition with the values of its conditions in canonical form, as the engine holds
them. -/
def canonical (d : PermissionDefinition) : PermissionDefinition :=
  { d with
    conditions := Condition.canonicalAll d.conditions
    contextConditions := Condition.canonicalAll d.contextConditions }

/-- The names of the members that a definition may have. -/
def names : List String :=
  ["resourceType", "action", "roleKey", "conditions", "contextResourceType",
    "contextConditions"]

/-! ## What an object states -/

/-- The conditions under a name.  Without the name there are none. -/
def ListedUnder (given : List (String × Json)) (key : String) (conditions : List Condition) :
    Prop :=
  ∃ items, (given.lookup key).getD (.array []) = .array items ∧
    Condition.ofItems? false items = some conditions

/-- The object of the members states the definition.  A context type that is null is as good
as none. -/
structure StatedBy (given : List (String × Json)) (d : PermissionDefinition) : Prop where
  resourceType : given.lookup "resourceType" = some (.string d.resourceType)
  action : given.lookup "action" = some (.string d.action)
  roleKey : given.lookup "roleKey" = some (.string d.roleKey)
  conditions : ListedUnder given "conditions" d.conditions
  contextResourceType :
    ((given.lookup "contextResourceType").filter fun v => !v.isNull) =
      d.contextResourceType.map .string
  contextConditions : ListedUnder given "contextConditions" d.contextConditions

variable {given : List (String × Json)} {d : PermissionDefinition}

section

variable {name : String} {v : Json}

theorem gives_name_iff :
    Gives given (name, .required, .text) v ↔
      ∃ s, given.lookup name = some (.string s) ∧ v = .string s := by
  rw [gives_required_iff]
  constructor
  · rintro ⟨w, hw, hread⟩
    obtain ⟨rfl, s, rfl⟩ := Json.Shape.read_text_eq_ok_iff.mp hread
    exact ⟨s, hw, rfl⟩
  · rintro ⟨s, hs, rfl⟩
    exact ⟨_, hs, Json.Shape.read_text_eq_ok_iff.mpr ⟨rfl, s, rfl⟩⟩

theorem gives_conditions_iff :
    Gives given (name, .defaulted (.array []), .list .verbatim) v ↔
      ∃ items, (given.lookup name).getD (.array []) = .array items ∧ v = .array items := by
  rw [gives_defaulted_iff (Json.Shape.read_list_verbatim []),
    Json.Shape.read_list_verbatim_eq_ok_iff]
  constructor
  · rintro ⟨rfl, items, hitems⟩
    exact ⟨items, hitems, hitems⟩
  · rintro ⟨items, hitems, rfl⟩
    exact ⟨hitems.symm, items, hitems⟩

/-- A context type that was read is null or a name. -/
theorem gives_contextType_iff :
    Gives given (name, .defaulted .null, .optionalText) v ↔
      ∃ type : Option String, ((given.lookup name).filter fun w => !w.isNull) =
        type.map .string ∧ v = (type.map .string).getD .null := by
  rw [gives_defaulted_iff rfl, Json.Shape.read_optionalText_eq_ok_iff]
  constructor
  · rintro ⟨rfl, h⟩
    cases hlookup : given.lookup name with
    | none => exact ⟨none, rfl, rfl⟩
    | some w =>
      rw [hlookup] at h
      obtain rfl | ⟨s, rfl⟩ : w = .null ∨ ∃ s, w = .string s := h
      · exact ⟨none, rfl, rfl⟩
      · exact ⟨some s, rfl, rfl⟩
  · rintro ⟨type, htype, rfl⟩
    cases type with
    | none =>
      cases hlookup : given.lookup name with
      | none => exact ⟨rfl, .inl rfl⟩
      | some w =>
        rw [hlookup] at htype
        cases w with
        | null => exact ⟨rfl, .inl rfl⟩
        | _ => cases htype
    | some s =>
      rw [Option.map_some, Option.filter_eq_some_iff] at htype
      rw [htype.1]
      exact ⟨rfl, .inr ⟨s, rfl⟩⟩

end

theorem string?_of_contextType (type : Option String) :
    ((type.map Json.string).getD .null).string? = type := by
  cases type <;> rfl

/-- An object states what the record that is read from it holds. -/
theorem statedBy_iff :
    d.StatedBy given ↔ ∃ record, ofRecord? (.object record) = some d ∧
      GivesRecord given
        [("resourceType", .required, .text), ("action", .required, .text),
          ("roleKey", .required, .text),
          ("conditions", .defaulted (.array []), .list .verbatim),
          ("contextResourceType", .defaulted .null, .optionalText),
          ("contextConditions", .defaulted (.array []), .list .verbatim)] record := by
  constructor
  · intro h
    obtain ⟨items, hitems, hconditions⟩ := h.conditions
    obtain ⟨items', hitems', hconditions'⟩ := h.contextConditions
    refine ⟨[("resourceType", .string d.resourceType), ("action", .string d.action),
      ("roleKey", .string d.roleKey), ("conditions", .array items),
      ("contextResourceType", (d.contextResourceType.map .string).getD .null),
      ("contextConditions", .array items')], ?_, ?_⟩
    · rw [ofRecord?, hconditions, hconditions', string?_of_contextType]
      rfl
    · exact List.Forall₂.cons ⟨rfl, gives_name_iff.mpr ⟨_, h.resourceType, rfl⟩⟩
        (.cons ⟨rfl, gives_name_iff.mpr ⟨_, h.action, rfl⟩⟩
        (.cons ⟨rfl, gives_name_iff.mpr ⟨_, h.roleKey, rfl⟩⟩
        (.cons ⟨rfl, gives_conditions_iff.mpr ⟨_, hitems, rfl⟩⟩
        (.cons ⟨rfl, gives_contextType_iff.mpr ⟨_, h.contextResourceType, rfl⟩⟩
        (.cons ⟨rfl, gives_conditions_iff.mpr ⟨_, hitems', rfl⟩⟩ .nil)))))
  · rintro ⟨record, hd, hgives⟩
    obtain ⟨_, _, h₁, hgives₁, rfl⟩ := hgives.uncons
    obtain ⟨_, _, h₂, hgives₂, rfl⟩ := hgives₁.uncons
    obtain ⟨_, _, h₃, hgives₃, rfl⟩ := hgives₂.uncons
    obtain ⟨_, _, h₄, hgives₄, rfl⟩ := hgives₃.uncons
    obtain ⟨_, _, h₅, hgives₅, rfl⟩ := hgives₄.uncons
    obtain ⟨_, _, h₆, hgives₆, rfl⟩ := hgives₅.uncons
    cases hgives₆
    obtain ⟨type, htype, rfl⟩ := gives_name_iff.mp h₁
    obtain ⟨action, haction, rfl⟩ := gives_name_iff.mp h₂
    obtain ⟨role, hrole, rfl⟩ := gives_name_iff.mp h₃
    obtain ⟨items, hitems, rfl⟩ := gives_conditions_iff.mp h₄
    obtain ⟨contextType, hcontextType, rfl⟩ := gives_contextType_iff.mp h₅
    obtain ⟨items', hitems', rfl⟩ := gives_conditions_iff.mp h₆
    obtain ⟨conditions, hconditions, hd⟩ := Option.bind_eq_some_iff.mp hd
    obtain ⟨conditions', hconditions', hd⟩ := Option.bind_eq_some_iff.mp hd
    cases hd
    exact ⟨htype, haction, hrole, ⟨items, hitems, hconditions⟩,
      (string?_of_contextType contextType).symm ▸ hcontextType,
      ⟨items', hitems', hconditions'⟩⟩

theorem statedBy_of_ofJson? (h : ofJson? (.object given) = some d) : d.StatedBy given := by
  rw [ofJson?, ofDraft?] at h
  split at h
  · rename_i v hread
    obtain ⟨record, rfl, hgives⟩ := Json.Shape.gives_of_read (by decide) hread
    exact statedBy_iff.mpr ⟨record, h, hgives⟩
  · cases h

/-- Members of different names are all it takes to read the definition that they state. -/
theorem ofJson?_of_statedBy (hgiven : (given.map (·.1)).Nodup) (h : d.StatedBy given) :
    ofJson? (.object given) = some d := by
  obtain ⟨record, hrecord, hgives⟩ := statedBy_iff.mp h
  rw [ofJson?, ofDraft?, shape, Json.Shape.read_of_gives (by decide) hgiven hgives]
  exact hrecord

/-- Members of other names have no part in a definition. -/
theorem ofJson?_filter_names :
    ofJson? (.object (given.filter fun m => names.contains m.1)) = ofJson? (.object given) := by
  rw [ofJson?, ofDraft?, ofJson?, ofDraft?, shape, Json.Shape.read_object_filter]
  intro m _ hknown
  obtain ⟨f, hf, hkey⟩ := List.lookup_isSome_iff.mp hknown
  rw [eq_of_beq hkey]
  exact List.contains_iff_mem.mpr (List.mem_map.mpr ⟨f, hf, rfl⟩)

theorem canonical_of_ofRecord? {v : Json} (h : ofRecord? v = some d) : d.canonical = d := by
  unfold ofRecord? at h
  split at h
  · obtain ⟨conditions, hconditions, h⟩ := Option.bind_eq_some_iff.mp h
    obtain ⟨conditions', hconditions', h⟩ := Option.bind_eq_some_iff.mp h
    cases h
    rw [canonical]
    dsimp only
    rw [Condition.canonicalAll_of_ofItems? hconditions,
      Condition.canonicalAll_of_ofItems? hconditions']
  · cases h

/-- The values in a definition are read in canonical form. -/
theorem canonical_of_ofJson? {v : Json} (h : ofJson? v = some d) : d.canonical = d := by
  rw [ofJson?, ofDraft?] at h
  split at h
  · exact canonical_of_ofRecord? h
  · cases h

/-! ## What is written -/

/-- The member of a name, if there is a value for it. -/
def memberIf (name : String) (v : Option Json) : List (String × Json) :=
  (v.map fun w => (name, w)).toList

/-- The members under which a definition is written. -/
def members (d : PermissionDefinition) : List (String × Json) :=
  [("resourceType", .string d.resourceType), ("action", .string d.action),
    ("roleKey", .string d.roleKey), ("conditions", .array (Condition.toItems d.conditions))] ++
  memberIf "contextResourceType" (d.contextResourceType.map .string) ++
  memberIf "contextConditions"
    (if d.contextConditions.isEmpty then none
      else some (.array (Condition.toItems d.contextConditions)))

theorem toJson_eq_object (d : PermissionDefinition) : d.toJson = .object d.members := by
  rw [toJson, members]
  cases d.contextResourceType <;> cases d.contextConditions.isEmpty <;> rfl

section

variable (name key : String) (v : Option Json)

theorem sublist_memberIf : ((memberIf name v).map (·.1)).Sublist [name] := by
  cases v with
  | none => exact List.nil_sublist _
  | some w => exact List.Sublist.refl _

theorem lookup_memberIf : (memberIf name v).lookup key = if key = name then v else none := by
  cases v with
  | none => rw [ite_self]; rfl
  | some w =>
    rw [memberIf, Option.map_some, Option.toList_some, List.lookup_cons]
    by_cases h : key = name
    · rw [if_pos h, beq_iff_eq.mpr h]
    · rw [if_neg h, beq_eq_false_iff_ne.mpr h]
      rfl

end

theorem sublist_names (d : PermissionDefinition) : (d.members.map (·.1)).Sublist names := by
  rw [members, List.map_append, List.map_append]
  exact ((List.Sublist.refl _).append (sublist_memberIf _ _)).append (sublist_memberIf _ _)

/-- What each name of a definition is written with. -/
theorem lookup_members (d : PermissionDefinition) :
    d.members.lookup "resourceType" = some (.string d.resourceType) ∧
    d.members.lookup "action" = some (.string d.action) ∧
    d.members.lookup "roleKey" = some (.string d.roleKey) ∧
    d.members.lookup "conditions" = some (.array (Condition.toItems d.conditions)) ∧
    d.members.lookup "contextResourceType" = d.contextResourceType.map .string ∧
    d.members.lookup "contextConditions" =
      if d.contextConditions.isEmpty then none
      else some (.array (Condition.toItems d.contextConditions)) := by
  simp [members, List.lookup_append, lookup_memberIf, List.lookup_cons]

/-- A change of values that leaves texts and lists what they are and written conditions
readable, such as putting members in order. -/
structure LeavesConditions (change : Json → Json) : Prop where
  string : ∀ s, change (.string s) = .string s
  array : ∀ items, change (.array items) = .array (items.map change)
  condition : ∀ c : Condition, Condition.ofJson? false (change c.toJson) = some c.canonical

theorem leavesConditions_id : LeavesConditions id where
  string _ := rfl
  array items := by rw [List.map_id]; rfl
  condition c := Condition.ofJson?_toJson c false

theorem leavesConditions_canonical : LeavesConditions Json.canonical where
  string _ := rfl
  array items := by rw [Json.canonical, Json.canonicalItems_eq_map]
  condition c := Condition.ofJson?_canonical_toJson c false

theorem listedUnder_of_lookup {change : Json → Json} (hchange : LeavesConditions change)
    {written : List (String × Json)} {key : String} {conditions : List Condition}
    (h : written.lookup key = some (change (.array (Condition.toItems conditions))) ∨
      written.lookup key = none ∧ conditions = []) :
    ListedUnder written key (Condition.canonicalAll conditions) := by
  obtain h | ⟨h, rfl⟩ := h
  · refine ⟨_, by rw [h, Option.getD_some, hchange.array], ?_⟩
    rw [Condition.canonicalAll_eq_map]
    exact Condition.ofItems?_map fun c _ => hchange.condition c
  · exact ⟨[], by rw [h, Option.getD_none], rfl⟩

/-- What is written states the definition, changed in this way or not. -/
theorem ofJson?_of_lookup {change : Json → Json} (hchange : LeavesConditions change)
    {written : List (String × Json)} (hnodup : (written.map (·.1)).Nodup)
    (hwritten : ∀ key, written.lookup key = (d.members.lookup key).map change) :
    ofJson? (.object written) = some d.canonical := by
  obtain ⟨htype, haction, hrole, hconditions, hcontextType, hcontext⟩ := lookup_members d
  refine ofJson?_of_statedBy hnodup ⟨?_, ?_, ?_, ?_, ?_, ?_⟩
  · rw [hwritten, htype, Option.map_some, hchange.string]
    rfl
  · rw [hwritten, haction, Option.map_some, hchange.string]
    rfl
  · rw [hwritten, hrole, Option.map_some, hchange.string]
    rfl
  · exact listedUnder_of_lookup hchange (.inl (by rw [hwritten, hconditions, Option.map_some]))
  · rw [hwritten, hcontextType, canonical]
    cases d.contextResourceType with
    | none => rfl
    | some type =>
      rw [Option.map_some, Option.map_some, hchange.string]
      rfl
  · refine listedUnder_of_lookup hchange ?_
    rw [hwritten, hcontext]
    cases d.contextConditions with
    | nil => exact .inr ⟨rfl, rfl⟩
    | cons c rest => exact .inl rfl

theorem ofJson?_toJson (d : PermissionDefinition) : ofJson? d.toJson = some d.canonical := by
  rw [toJson_eq_object]
  refine ofJson?_of_lookup leavesConditions_id ((sublist_names d).nodup (by decide)) fun key => ?_
  rw [Option.map_id]
  rfl

theorem ofJson?_canonical_toJson (d : PermissionDefinition) :
    ofJson? d.toJson.canonical = some d.canonical := by
  rw [toJson_eq_object]
  cases hwritten : (Json.object d.members).canonical with
  | object written =>
    -- The document has the members in order of their names, each in canonical form.
    refine ofJson?_of_lookup leavesConditions_canonical
      (Json.of_canonical_eq_object hwritten).1.nodup fun key => ?_
    rw [← Json.get?_eq_lookup, ← hwritten,
      Json.get?_canonical ((sublist_names d).nodup (by decide)), Json.get?_eq_lookup]
  | _ => cases hwritten

/-! ## What is written of what was given -/

/-- How the members given for a definition are written again.  Only the names of a
definition are written.  The conditions are written even where they were left out, the
context type unless it was null, and the conditions on the context only where there are
any. -/
structure Rewritten (given written : List (String × Json)) : Prop where
  names : (written.map (·.1)).Sublist names
  resourceType : written.lookup "resourceType" = given.lookup "resourceType"
  action : written.lookup "action" = given.lookup "action"
  roleKey : written.lookup "roleKey" = given.lookup "roleKey"
  conditions : ∃ conditions, ListedUnder given "conditions" conditions ∧
    written.lookup "conditions" = some (.array (Condition.toItems conditions))
  contextResourceType : written.lookup "contextResourceType" =
    (given.lookup "contextResourceType").filter fun v => !v.isNull
  contextConditions : ∃ conditions, ListedUnder given "contextConditions" conditions ∧
    written.lookup "contextConditions" =
      if conditions.isEmpty then none else some (.array (Condition.toItems conditions))

theorem StatedBy.rewritten (h : d.StatedBy given) : Rewritten given d.members := by
  obtain ⟨htype, haction, hrole, hconditions, hcontextType, hcontext⟩ := lookup_members d
  exact {
    names := sublist_names d
    resourceType := htype.trans h.resourceType.symm
    action := haction.trans h.action.symm
    roleKey := hrole.trans h.roleKey.symm
    conditions := ⟨d.conditions, h.conditions, hconditions⟩
    contextResourceType := hcontextType.trans h.contextResourceType.symm
    contextConditions := ⟨d.contextConditions, h.contextConditions, hcontext⟩ }

/-- Conditions and definitions survive their JSON form.  With values in canonical form, as
the engine holds them, what is written is read as what it was written from, member by member
in the order of writing or as a document.  What was read from an object survives as well:
members of other names are dropped, and what was left out is made explicit only where the
writer does so.  Different conditions are written differently. -/
theorem reads_what_it_writes :
    (∀ (c : Condition) (nested : Bool), c.canonical = c →
      Condition.ofJson? nested c.toJson = some c ∧
        Condition.ofJson? nested c.toJson.canonical = some c) ∧
    (∀ d : PermissionDefinition, d.canonical = d →
      ofJson? d.toJson = some d ∧ ofJson? d.toJson.canonical = some d) ∧
    (∀ (given : List (String × Json)) (nested : Bool) (c : Condition),
      Condition.ofJson? nested (.object given) = some c →
      Condition.ofJson? nested c.toJson = some c ∧
        Condition.ofJson? nested c.toJson.canonical = some c ∧
        Condition.ofJson? nested (.object (given.filter fun m => c.names.contains m.1)) =
          some c ∧
        ∃ written, c.toJson = .object written ∧ written.map (·.1) = c.names) ∧
    (∀ (given : List (String × Json)) (d : PermissionDefinition),
      ofJson? (.object given) = some d →
      ofJson? d.toJson = some d ∧ ofJson? d.toJson.canonical = some d ∧
        ofJson? (.object (given.filter fun m => names.contains m.1)) = some d ∧
        ∃ written, d.toJson = .object written ∧ Rewritten given written) ∧
    (∀ c d : Condition, c.canonical = c → d.canonical = d →
      (c ≠ d → c.toJson ≠ d.toJson ∧ c.toJson.canonical ≠ d.toJson.canonical) ∧
      (c.same d = false → c.toJson.same d.toJson = false ∧
        c.toJson.canonical.same d.toJson.canonical = false)) := by
  have hcondition : ∀ (c : Condition) (nested : Bool), c.canonical = c →
      Condition.ofJson? nested c.toJson = some c ∧
        Condition.ofJson? nested c.toJson.canonical = some c := by
    intro c nested hc
    rw [Condition.ofJson?_toJson, Condition.ofJson?_canonical_toJson, hc]
    exact ⟨rfl, rfl⟩
  have hdefinition : ∀ d : PermissionDefinition, d.canonical = d →
      ofJson? d.toJson = some d ∧ ofJson? d.toJson.canonical = some d := by
    intro d hd
    rw [ofJson?_toJson, ofJson?_canonical_toJson, hd]
    exact ⟨rfl, rfl⟩
  refine ⟨hcondition, hdefinition, ?_, ?_, ?_⟩
  · intro given nested c h
    obtain ⟨hread, hdocument⟩ := hcondition c nested (Condition.canonical_of_ofJson? h)
    exact ⟨hread, hdocument, Condition.ofJson?_filter h, Condition.exists_members c⟩
  · intro given d h
    obtain ⟨hread, hdocument⟩ := hdefinition d (canonical_of_ofJson? h)
    exact ⟨hread, hdocument, ofJson?_filter_names.trans h, d.members, toJson_eq_object d,
      (statedBy_of_ofJson? h).rewritten⟩
  · intro c d hc hd
    obtain ⟨hread, hdocument⟩ := hcondition c false hc
    obtain ⟨hread', hdocument'⟩ := hcondition d false hd
    refine ⟨fun hne => ⟨fun heq => hne ?_, fun heq => hne ?_⟩, fun h => ?_⟩
    · exact Option.some.inj (hread.symm.trans (heq ▸ hread'))
    · exact Option.some.inj (hdocument.symm.trans (heq ▸ hdocument'))
    · rw [Condition.same_toJson, Condition.same_canonical_toJson, hc, hd]
      exact ⟨h, h⟩

/-- A condition of two levels, with a number that only 64 bits without a sign hold and with
a list and an object as value. -/
def largeDocument : Condition :=
  .container "document"
    [.field "content.size" (.compare .less) (.int 18446744073709551615),
      .container "task" [.field "assignee" .isIn
        (.array [.null, .object [("name", .string "mia"), ("team", .bool true)]])]]

def unassigned : Condition := .field "assignee" (.compare .equal) .null

/-- The members of a definition in no order, with a comment, with a null and without
conditions on the context. -/
def givenMembers : List (String × Json) :=
  [("comment", .string "handover"), ("roleKey", .string "CASE_HANDLER"),
    ("contextResourceType", .null), ("action", .string "assign"),
    ("conditions", .array [.object [("value", .null), ("note", .bool true),
      ("operator", .string "=="), ("field", .string "assignee"), ("type", .string "field")]]),
    ("resourceType", .string "task")]

def handover : PermissionDefinition :=
  ⟨"task", "assign", "CASE_HANDLER", [unassigned], none, []⟩

theorem reads_what_it_writes_handover :
    (largeDocument.canonical = largeDocument ∧
      Condition.ofJson? true largeDocument.toJson = some largeDocument) ∧
    (handover.canonical = handover ∧ ofJson? handover.toJson.canonical = some handover) ∧
    (Condition.ofJson? false unassigned.toJson = some unassigned ∧
      ∃ written, unassigned.toJson = .object written ∧
        written.map (·.1) = unassigned.names) ∧
    (ofJson? (.object givenMembers) = some handover ∧
      ∃ written, handover.toJson = .object written ∧ Rewritten givenMembers written) ∧
    (largeDocument.same unassigned = false ∧
      largeDocument.toJson.same unassigned.toJson = false) := by
  obtain ⟨hcondition, hdefinition, hobject, hgiven, hdifferent⟩ := reads_what_it_writes
  have hlarge : largeDocument.canonical = largeDocument := rfl
  have hunassigned : unassigned.canonical = unassigned := rfl
  have hhandover : handover.canonical = handover := rfl
  have hstated : Condition.ofJson? false unassigned.toJson = some unassigned := rfl
  have hread : ofJson? (.object givenMembers) = some handover := rfl
  have hsame : largeDocument.same unassigned = false := rfl
  refine ⟨⟨hlarge, ?_⟩, ⟨hhandover, ?_⟩, ⟨hstated, ?_⟩, ⟨hread, ?_⟩, ⟨hsame, ?_⟩⟩
  · exact (hcondition largeDocument true hlarge).1
  · exact (hdefinition handover hhandover).2
  · exact (hobject _ false unassigned hstated).2.2.2
  · exact (hgiven givenMembers handover hread).2.2.2
  · exact ((hdifferent largeDocument unassigned hlarge hunassigned).2 hsame).1

end PermissionDefinition
end AccessPolicy

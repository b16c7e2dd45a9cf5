/-
The terms of permissions.

Of a permission for the requested type and action only its conditions and its
context requirement matter.  A specification is put together from the request and
from the fragments of these conditions, so lists of permissions on the same terms
are decided alike, and further permissions only ever add fragments.
-/
import AccessPolicy.Proofs.Predicate.Scopes
import AccessPolicy.Proofs.Specification.Decision

namespace AccessPolicy

/-- What a permission asks of the entity and of the context of a request. -/
def Permission.terms (p : Permission) : List Condition × Option ContextRequirement :=
  (p.conditions, p.context)

namespace Specification

open AuthorizationError (liftConfiguration)

/-! ## Putting a specification together -/

/-- The type of the rows that a request is decided on. -/
def decidedType (request : Request) : ResourceType :=
  match request.subject with
  | .related type _ => type
  | _ => request.resourceType

/-- The conditions that are decided on these rows, or `none` when they are about
anything else. -/
def decidedConditions (request : Request) (conditions : List Condition) :
    Option (List Condition) :=
  if decidedType request = request.resourceType then some conditions
  else projectOnto (decidedType request) conditions

/-- What the permissions that take part ask of these rows. -/
def fragments (registry : Registry) (principal : Principal) (request : Request)
    (applicable : List Permission) : Except ConfigurationError (List Predicate) :=
  (applicable.filterMap fun p => decidedConditions request p.conditions).mapM fun conditions =>
    Condition.compileAll registry principal conditions (decidedType request)

/-- How related rows are identified, and by which relation they are reached.  No
relation leads from a type to itself. -/
def joining (registry : Registry) (type related : ResourceType) :
    Except ConfigurationError (FieldPath × Option Relation) := do
  registry.ensureRegistered related
  let name ← registry.identifierField related
  let field ← FieldPath.parse name
  if related = type then pure (field, none)
  else (registry.relation type related).map fun relation => (field, some relation)

/-- The predicate and the target of a request by way of a related row, from the union
of the fragments. -/
def onRelated (related : ResourceType) (identifier : String)
    (joined : FieldPath × Option Relation) (union : Predicate) : Predicate × DecisionTarget :=
  let found := (Predicate.equal joined.1 (.string identifier)).both union
  (match joined.2 with
    | some relation => Predicate.someRelated relation found
    | none => found,
    .related related joined.1 identifier union)

/-- What a request makes of the union of the fragments. -/
def assembly (registry : Registry) (request : Request) :
    Except ConfigurationError (Predicate → Predicate × DecisionTarget) :=
  match request.subject with
  | .related related identifier =>
    (joining registry request.resourceType related).map (onRelated related identifier)
  | subject =>
    (subject.entity?.mapM fun e : Entity => e.attributesAs request.resourceType).map
      fun attributes union => (union, .entity attributes)

/-- The specification of a request with these fragments. -/
def assembled (request : Request) (assemble : Predicate → Predicate × DecisionTarget)
    (fragments : List Predicate) (applicable : Bool) : Specification :=
  ⟨request.resourceType, request.action, (assemble (.any fragments)).1, applicable,
    (assemble (.any fragments)).2⟩

section

variable {registry : Registry} {ambient : Ambient} {principal : Principal} {request : Request}

theorem relatedFragments_eq_mapM (related : ResourceType) (relation : Option Relation)
    (permissions : List Permission) :
    relatedFragments registry principal related relation permissions =
      (permissions.filterMap (conditionsOn related relation)).mapM fun conditions =>
        Condition.compileAll registry principal conditions related := by
  induction permissions with
  | nil => rfl
  | cons first rest ih =>
    rw [relatedFragments_cons, ih]
    cases hconditions : conditionsOn related relation first with
    | none => rw [List.filterMap_cons_none hconditions]; rfl
    | some conditions =>
      rw [List.filterMap_cons_some hconditions, List.mapM_cons]
      rfl

theorem fragments_eq_relatedFragments {related : ResourceType} {identifier : String}
    (hsubject : request.subject = .related related identifier) {relation : Option Relation}
    (hrelation : relation.isNone = decide (related = request.resourceType))
    (applicable : List Permission) :
    fragments registry principal request applicable =
      relatedFragments registry principal related relation applicable := by
  have htype : decidedType request = related := by rw [decidedType, hsubject]
  have hconditions : (fun p : Permission => decidedConditions request p.conditions) =
      conditionsOn related relation := by
    funext p
    rw [decidedConditions, htype]
    cases relation with
    | none => exact if_pos (of_decide_eq_true hrelation.symm)
    | some r => exact if_neg (of_decide_eq_false hrelation.symm)
  rw [fragments, relatedFragments_eq_mapM, htype, hconditions]

theorem fragments_eq_mapM (hsubject : ∀ type identifier, request.subject ≠ .related type identifier)
    (applicable : List Permission) :
    fragments registry principal request applicable =
      applicable.mapM fun p =>
        Condition.compileAll registry principal p.conditions request.resourceType := by
  have htype : decidedType request = request.resourceType := by
    rw [decidedType]
    split
    · rename_i type identifier h
      exact absurd h (hsubject type identifier)
    · rfl
  have hconditions : (fun p : Permission => decidedConditions request p.conditions) =
      some ∘ Permission.conditions := by
    funext p
    rw [decidedConditions, if_pos htype]
    rfl
  rw [fragments, hconditions, htype, List.filterMap_eq_map, List.mapM_map]
  rfl

theorem compileRelated_eq (type related : ResourceType) (identifier : String)
    (applicable : List Permission) :
    compileRelated registry principal type related identifier applicable =
      joining registry type related >>= fun joined =>
        (relatedFragments registry principal related joined.2 applicable).map fun fs =>
          onRelated related identifier joined (.any fs) := by
  rw [compileRelated, joining]
  simp only [bind, Except.bind, pure, Except.pure]
  cases registry.ensureRegistered related with
  | error e => rfl
  | ok _ =>
    cases registry.identifierField related with
    | error e => rfl
    | ok name =>
      simp only
      cases FieldPath.parse name with
      | error e => rfl
      | ok field =>
        simp only
        by_cases heq : related = type
        · rw [if_pos heq, if_pos heq]
          show _ = (relatedFragments registry principal related none applicable).map _
          cases relatedFragments registry principal related none applicable <;> rfl
        · rw [if_neg heq, if_neg heq]
          cases registry.relation type related with
          | error e => rfl
          | ok relation =>
            show _ = (relatedFragments registry principal related (some relation) applicable).map _
            cases hfs : relatedFragments registry principal related (some relation) applicable with
            | error e => simp only [Except.map, hfs]
            | ok fs => simp only [Except.map, hfs]; rfl

theorem of_joining {type related : ResourceType} {joined : FieldPath × Option Relation}
    (h : joining registry type related = .ok joined) :
    joined.2.isNone = decide (related = type) := by
  rw [joining] at h
  obtain ⟨_, _, h⟩ := Outcome.bind_eq_ok.mp h
  obtain ⟨_, _, h⟩ := Outcome.bind_eq_ok.mp h
  obtain ⟨_, _, h⟩ := Outcome.bind_eq_ok.mp h
  by_cases heq : related = type
  · rw [if_pos heq] at h
    cases h
    exact (decide_eq_true heq).symm
  · rw [if_neg heq] at h
    obtain ⟨relation, _, rfl⟩ := Outcome.map_eq_ok.mp h
    exact (decide_eq_false heq).symm

theorem compileEntity_eq_ok_iff {type : ResourceType} {entity : Option Entity}
    {applicable : List Permission} {result : Predicate × DecisionTarget} :
    compileEntity registry principal type entity applicable = .ok result ↔
      ∃ assemble fs,
        ((entity.mapM fun e : Entity => e.attributesAs type).map
          fun attributes union => (union, DecisionTarget.entity attributes)) = .ok assemble ∧
        (applicable.mapM fun p => Condition.compileAll registry principal p.conditions type) =
          .ok fs ∧ result = assemble (.any fs) := by
  rw [compileEntity]
  constructor
  · intro h
    obtain ⟨fs, hfs, h⟩ := Outcome.bind_eq_ok.mp h
    obtain ⟨attributes, hattributes, h⟩ := Outcome.bind_eq_ok.mp h
    cases h
    exact ⟨_, fs, Outcome.map_eq_ok.mpr ⟨attributes, hattributes, rfl⟩, hfs, rfl⟩
  · rintro ⟨assemble, fs, hassemble, hfs, rfl⟩
    obtain ⟨attributes, hattributes, rfl⟩ := Outcome.map_eq_ok.mp hassemble
    exact Outcome.bind_eq_ok.mpr ⟨fs, hfs, Outcome.bind_eq_ok.mpr ⟨attributes, hattributes, rfl⟩⟩

/-- The predicate and the target of a request come from the union of the fragments
alone. -/
theorem compileSubject_eq_ok_iff {applicable : List Permission}
    {result : Predicate × DecisionTarget} :
    compileSubject registry principal request applicable = .ok result ↔
      ∃ assemble fs, assembly registry request = .ok assemble ∧
        fragments registry principal request applicable = .ok fs ∧
        result = assemble (.any fs) := by
  rw [compileSubject, assembly]
  cases hsubject : request.subject with
  | entity entity =>
    rw [fragments_eq_mapM fun _ _ h => Subject.noConfusion (hsubject.symm.trans h)]
    exact compileEntity_eq_ok_iff
  | delegate user entity =>
    rw [fragments_eq_mapM fun _ _ h => Subject.noConfusion (hsubject.symm.trans h)]
    exact compileEntity_eq_ok_iff
  | related related identifier =>
    simp only [compileRelated_eq]
    constructor
    · intro h
      obtain ⟨joined, hjoined, h⟩ := Outcome.bind_eq_ok.mp h
      obtain ⟨fs, hfs, rfl⟩ := Outcome.map_eq_ok.mp h
      rw [← fragments_eq_relatedFragments hsubject (of_joining hjoined)] at hfs
      exact ⟨_, fs, Outcome.map_eq_ok.mpr ⟨joined, hjoined, rfl⟩, hfs, rfl⟩
    · rintro ⟨assemble, fs, hassemble, hfs, rfl⟩
      obtain ⟨joined, hjoined, rfl⟩ := Outcome.map_eq_ok.mp hassemble
      rw [fragments_eq_relatedFragments hsubject (of_joining hjoined)] at hfs
      exact Outcome.bind_eq_ok.mpr ⟨joined, hjoined, Outcome.map_eq_ok.mpr ⟨fs, hfs, rfl⟩⟩

/-- A specification is put together from the permissions that take part. -/
theorem compile_eq_ok_iff {permissions : List Permission} {s : Specification}
    (hdeny : request.action.isDeny = false) :
    compile registry ambient principal request permissions = .ok s ↔
      registry.ensureRegistered request.resourceType = .ok () ∧
      ∃ applicable assemble fs,
        applicablePermissions registry ambient principal request.context
          (permissions.filter fun p => p.grants request.resourceType request.action) =
            .ok applicable ∧
        assembly registry request = .ok assemble ∧
        fragments registry principal request applicable = .ok fs ∧
        s = assembled request assemble fs (!applicable.isEmpty) := by
  rw [compile, if_neg (by rw [hdeny]; exact Bool.false_ne_true)]
  constructor
  · intro h
    obtain ⟨_, hregistered, h⟩ := Outcome.bind_eq_ok.mp h
    obtain ⟨applicable, happlicable, h⟩ := Outcome.bind_eq_ok.mp h
    obtain ⟨result, hresult, h⟩ := Outcome.bind_eq_ok.mp h
    cases h
    obtain ⟨assemble, fs, hassemble, hfs, rfl⟩ :=
      compileSubject_eq_ok_iff.mp (Outcome.mapError_eq_ok.mp hresult)
    exact ⟨Outcome.mapError_eq_ok.mp hregistered, applicable, assemble, fs, happlicable, hassemble,
      hfs, rfl⟩
  · rintro ⟨hregistered, applicable, assemble, fs, happlicable, hassemble, hfs, rfl⟩
    refine Outcome.bind_eq_ok.mpr ⟨(), Outcome.mapError_eq_ok.mpr hregistered, ?_⟩
    refine Outcome.bind_eq_ok.mpr ⟨applicable, happlicable, ?_⟩
    refine Outcome.bind_eq_ok.mpr ⟨assemble (.any fs), Outcome.mapError_eq_ok.mpr ?_, rfl⟩
    exact compileSubject_eq_ok_iff.mpr ⟨assemble, fs, hassemble, hfs, rfl⟩

/-! ## Permissions on the same terms -/

theorem contextAllows_congr {context : Option RequestContext} {p q : Permission}
    (h : p.context = q.context) :
    contextAllows registry ambient principal context p =
      contextAllows registry ambient principal context q := by
  rw [contextAllows, contextAllows, h]

section

variable {context : Option RequestContext} {l l' applicable applicable' : List Permission}

theorem exists_applicable_of_terms (hterms : l'.map Permission.terms ⊆ l.map Permission.terms)
    (h : applicablePermissions registry ambient principal context l = .ok applicable) :
    ∃ applicable', applicablePermissions registry ambient principal context l' =
      .ok applicable' := by
  rw [exists_applicablePermissions]
  intro p hp
  obtain ⟨q, hq, heq⟩ := List.mem_map.mp (hterms (List.mem_map_of_mem hp))
  rw [← contextAllows_congr (congrArg Prod.snd heq)]
  exact exists_applicablePermissions.mp ⟨applicable, h⟩ q hq

theorem terms_applicable_subset (hterms : l.map Permission.terms ⊆ l'.map Permission.terms)
    (h : applicablePermissions registry ambient principal context l = .ok applicable)
    (h' : applicablePermissions registry ambient principal context l' = .ok applicable') :
    applicable.map Permission.terms ⊆ applicable'.map Permission.terms := by
  intro terms hmem
  obtain ⟨p, hp, rfl⟩ := List.mem_map.mp hmem
  obtain ⟨hp, hallows⟩ := (mem_applicablePermissions h).mp hp
  obtain ⟨q, hq, heq⟩ := List.mem_map.mp (hterms (List.mem_map_of_mem hp))
  rw [contextAllows_congr (congrArg Prod.snd heq.symm)] at hallows
  exact List.mem_map.mpr ⟨q, (mem_applicablePermissions h').mpr ⟨hq, hallows⟩, heq⟩

end

section

variable {applicable applicable' : List Permission}

/-- The conditions that are decided depend on the terms alone. -/
theorem decided_subset (hterms : applicable.map Permission.terms ⊆ applicable'.map Permission.terms) :
    (applicable.filterMap fun p => decidedConditions request p.conditions) ⊆
      applicable'.filterMap fun p => decidedConditions request p.conditions := by
  intro conditions hmem
  obtain ⟨p, hp, hconditions⟩ := List.mem_filterMap.mp hmem
  obtain ⟨q, hq, heq⟩ := List.mem_map.mp (hterms (List.mem_map_of_mem hp))
  rw [← show q.conditions = p.conditions from congrArg Prod.fst heq] at hconditions
  exact List.mem_filterMap.mpr ⟨q, hq, hconditions⟩

theorem fragments_subset {fs fs' : List Predicate}
    (hterms : applicable.map Permission.terms ⊆ applicable'.map Permission.terms)
    (h : fragments registry principal request applicable = .ok fs)
    (h' : fragments registry principal request applicable' = .ok fs') : fs ⊆ fs' := by
  intro q hq
  obtain ⟨conditions, hconditions, hcompile⟩ := (Outcome.mem_of_mapM h).mp hq
  exact (Outcome.mem_of_mapM h').mpr ⟨conditions, decided_subset hterms hconditions, hcompile⟩

theorem exists_fragments_of_terms {fs : List Predicate}
    (hterms : applicable'.map Permission.terms ⊆ applicable.map Permission.terms)
    (h : fragments registry principal request applicable = .ok fs) :
    ∃ fs', fragments registry principal request applicable' = .ok fs' :=
  Outcome.exists_mapM.mpr fun conditions hconditions =>
    Outcome.exists_mapM.mp ⟨fs, h⟩ conditions (decided_subset hterms hconditions)

theorem isEmpty_of_terms
    (hterms : applicable.map Permission.terms ⊆ applicable'.map Permission.terms)
    (h : (!applicable.isEmpty) = true) : (!applicable'.isEmpty) = true := by
  cases applicable with
  | nil => cases h
  | cons p rest =>
    obtain ⟨q, hq, _⟩ := List.mem_map.mp (hterms List.mem_cons_self)
    cases applicable' with
    | nil => cases hq
    | cons q' rest' => rfl

/-- Fragments reach related rows by relations of the registry and are no
disjunctions. -/
theorem of_mem_fragments {fs : List Predicate}
    (h : fragments registry principal request applicable = .ok fs) {q : Predicate} (hq : q ∈ fs) :
    q.DrawnFrom registry ∧ ∀ inner, q ≠ .or inner := by
  obtain ⟨conditions, _, hcompile⟩ := (Outcome.mem_of_mapM h).mp hq
  exact ⟨(Condition.built_compileAll hcompile).drawnFrom, Condition.compileAll_ne_or hcompile⟩

end

/-! ## Specifications on the same terms -/

section

variable {l l' : List Permission} {s s' : Specification}

/-- The terms of the permissions for the type and the action of a request. -/
def requestedTerms (request : Request) (permissions : List Permission) :
    List (List Condition × Option ContextRequirement) :=
  (permissions.filter fun p => p.grants request.resourceType request.action).map Permission.terms

/-- Further terms add fragments to a specification and take none away. -/
theorem fragments_grow (hdeny : request.action.isDeny = false)
    (hterms : requestedTerms request l ⊆ requestedTerms request l')
    (h : compile registry ambient principal request l = .ok s)
    (h' : compile registry ambient principal request l' = .ok s') :
    ∃ assemble fs fs' applicable applicable', assembly registry request = .ok assemble ∧
      s = assembled request assemble fs applicable ∧
      s' = assembled request assemble fs' applicable' ∧ fs ⊆ fs' ∧
      (applicable = true → applicable' = true) ∧
      ∀ q ∈ fs', q.DrawnFrom registry ∧ ∀ inner, q ≠ .or inner := by
  obtain ⟨_, a, assemble, fs, ha, hassemble, hfs, rfl⟩ := (compile_eq_ok_iff hdeny).mp h
  obtain ⟨_, a', assemble', fs', ha', hassemble', hfs', rfl⟩ := (compile_eq_ok_iff hdeny).mp h'
  obtain rfl : assemble = assemble' := Except.ok.inj (hassemble.symm.trans hassemble')
  have happlicable := terms_applicable_subset hterms ha ha'
  exact ⟨assemble, fs, fs', _, _, hassemble, rfl, rfl, fragments_subset happlicable hfs hfs',
    isEmpty_of_terms happlicable, fun q hq => of_mem_fragments hfs' hq⟩

/-- The same terms give a specification with the same fragments. -/
theorem compile_of_same_terms (hdeny : request.action.isDeny = false)
    (hterms : ∀ terms, terms ∈ requestedTerms request l ↔ terms ∈ requestedTerms request l')
    (h : compile registry ambient principal request l = .ok s) :
    ∃ assemble fs fs' applicable, assembly registry request = .ok assemble ∧
      s = assembled request assemble fs applicable ∧
      compile registry ambient principal request l' =
        .ok (assembled request assemble fs' applicable) ∧
      (∀ q, q ∈ fs ↔ q ∈ fs') ∧
      ∀ q ∈ fs, q.DrawnFrom registry ∧ ∀ inner, q ≠ .or inner := by
  obtain ⟨hregistered, a, assemble, fs, ha, hassemble, hfs, rfl⟩ := (compile_eq_ok_iff hdeny).mp h
  have hto : requestedTerms request l ⊆ requestedTerms request l' := fun t => (hterms t).mp
  have hfrom : requestedTerms request l' ⊆ requestedTerms request l := fun t => (hterms t).mpr
  obtain ⟨a', ha'⟩ := exists_applicable_of_terms hfrom ha
  have happlicable := terms_applicable_subset hto ha ha'
  have happlicable' := terms_applicable_subset hfrom ha' ha
  obtain ⟨fs', hfs'⟩ := exists_fragments_of_terms happlicable' hfs
  have hempty : (!a.isEmpty) = !a'.isEmpty := by
    rw [Bool.eq_iff_iff]
    exact ⟨isEmpty_of_terms happlicable, isEmpty_of_terms happlicable'⟩
  refine ⟨assemble, fs, fs', !a.isEmpty, hassemble, rfl, ?_, fun q => ?_, fun q hq => ?_⟩
  · rw [hempty]
    exact (compile_eq_ok_iff hdeny).mpr ⟨hregistered, a', assemble, fs', ha', hassemble, hfs', rfl⟩
  · exact ⟨fun hq => fragments_subset happlicable hfs hfs' hq,
      fun hq => fragments_subset happlicable' hfs' hfs hq⟩
  · exact of_mem_fragments hfs hq

end

/-! ## Decisions -/

theorem of_assembly {assemble : Predicate → Predicate × DecisionTarget}
    (h : assembly registry request = .ok assemble) :
    (∃ attributes, ∀ union, assemble union = (union, .entity attributes)) ∨
      ∃ related identifier joined, assemble = onRelated related identifier joined := by
  rw [assembly] at h
  split at h
  · obtain ⟨joined, _, rfl⟩ := Outcome.map_eq_ok.mp h
    exact .inr ⟨_, _, joined, rfl⟩
  · obtain ⟨attributes, _, rfl⟩ := Outcome.map_eq_ok.mp h
    exact .inl ⟨attributes, fun _ => rfl⟩

/-- An entity is decided on when its rows can be loaded, and then by what they show. -/
theorem decideOn_eq_ok_iff {p : Predicate} (hp : p.DrawnFrom registry) {attributes : Json}
    {decision : Bool} :
    decideOn registry ambient attributes p = .ok decision ↔
      Row.Loads registry ambient p.nesting attributes p ∧
        decision = Predicate.satisfies (registry.interpretation ambient) p.fetched attributes := by
  constructor
  · intro h
    refine ⟨?_, of_decideOn hp h⟩
    rw [decideOn] at h
    split at h
    · rename_i hliteral
      cases p with
      | literal value => exact ⟨_, rfl⟩
      | _ => cases hliteral
    · obtain ⟨row, hrow, _⟩ := Outcome.map_eq_ok.mp h
      exact ⟨row, hrow⟩
  · rintro ⟨⟨row, hrow⟩, hdecision⟩
    have hdecide : ∃ decision', decideOn registry ambient attributes p = .ok decision' := by
      rw [decideOn]
      split
      · exact ⟨_, rfl⟩
      · exact ⟨_, Outcome.map_eq_ok.mpr ⟨row, hrow, rfl⟩⟩
    obtain ⟨decision', hdecide⟩ := hdecide
    rw [hdecision, ← of_decideOn hp hdecide]
    exact hdecide

/-- Unions of the same fragments decide alike. -/
theorem decideOn_any_congr {fs fs' : List Predicate} (hfs : ∀ q, q ∈ fs ↔ q ∈ fs')
    (hdrawn : ∀ q ∈ fs, q.DrawnFrom registry) {attributes : Json} {decision : Bool}
    (h : decideOn registry ambient attributes (.any fs) = .ok decision) :
    decideOn registry ambient attributes (.any fs') = .ok decision := by
  have hunion : (Predicate.any fs).DrawnFrom registry := Predicate.relationsIn_any hdrawn
  have hunion' : (Predicate.any fs').DrawnFrom registry :=
    Predicate.relationsIn_any fun q hq => hdrawn q ((hfs q).mpr hq)
  rw [decideOn_eq_ok_iff hunion] at h
  rw [decideOn_eq_ok_iff hunion', ← Predicate.satisfies_fetched_congr _ hfs]
  exact ⟨Row.Loads.of_sameParts hunion hunion' (Nat.le_refl _) (Nat.le_refl _)
    (Predicate.sameParts_any hfs) h.1, h.2⟩

/-- Specifications with the same fragments decide alike. -/
theorem isAuthorized_assembled_congr {assemble : Predicate → Predicate × DecisionTarget}
    {fs fs' : List Predicate} {applicable decision : Bool}
    (hassemble : assembly registry request = .ok assemble) (hfs : ∀ q, q ∈ fs ↔ q ∈ fs')
    (hplain : ∀ q ∈ fs, q.DrawnFrom registry ∧ ∀ inner, q ≠ .or inner)
    (h : (assembled request assemble fs applicable).isAuthorized registry ambient = .ok decision) :
    (assembled request assemble fs' applicable).isAuthorized registry ambient = .ok decision := by
  have hdrawn : ∀ q ∈ fs, q.DrawnFrom registry := fun q hq => (hplain q hq).1
  have hplain' : ∀ q ∈ fs', ∀ inner, q ≠ .or inner := fun q hq => (hplain q ((hfs q).mpr hq)).2
  have hunsatisfiable : (Predicate.any fs').isUnsatisfiable = (Predicate.any fs).isUnsatisfiable := by
    rw [Bool.eq_iff_iff, Predicate.isUnsatisfiable_any hplain',
      Predicate.isUnsatisfiable_any fun q hq => (hplain q hq).2]
    simp only [hfs]
  rw [isAuthorized, assembled] at h ⊢
  obtain ⟨attributes, hentity⟩ | ⟨related, identifier, joined, rfl⟩ := of_assembly hassemble
  · simp only [hentity] at h ⊢
    cases attributes with
    | none => exact h
    | some attributes => exact decideOn_any_congr hfs hdrawn h
  · simp only [onRelated] at h ⊢
    rw [hunsatisfiable]
    by_cases hnever : (Predicate.any fs).isUnsatisfiable = true
    · rw [if_pos hnever] at h ⊢
      exact h
    · rw [if_neg hnever] at h ⊢
      obtain ⟨row, hrow, h⟩ := Outcome.bind_eq_ok.mp h
      exact Outcome.bind_eq_ok.mpr ⟨row, hrow, decideOn_any_congr hfs hdrawn h⟩

end

end Specification
end AccessPolicy

/-
Equality asked in three ways.

A loader asks whether a column equals a value, and the affinity of the column may
turn that value into one of another kind.  A list asks first for the kind of what
is stored, and entities in memory are compared by their attributes.  A loader
therefore finds what a list holds, and besides it the rows that equal the value
only once it is turned.  By texts in text columns, which is how relations join,
all three find the same entities.
-/
import AccessPolicy.Proofs.Database.Listing

namespace AccessPolicy

namespace Sql
namespace Value

/-! ## Values of one kind -/

theorem eq_text_of_isOfKind {a : Value} (h : a.isOfKind false = true) : ∃ t, a = .text t := by
  cases a with
  | text t => exact ⟨t, rfl⟩
  | _ => cases h

/-- A value is bound as a value of its kind. -/
theorem isOfKind_ofJson {v : Json} (hv : v.isNull = false) :
    (ofJson v).isOfKind (Fragment.isNumeric v) = true := by
  cases v with
  | null => cases hv
  | bool b => rfl
  | number n =>
    cases n with
    | integer n =>
      rw [ofJson]
      split <;> rfl
    | double x => rfl
  | _ => rfl

theorem order?_text_eq {s t : String} : (text s).order? (text t) = some .eq ↔ s = t := by
  rw [order?, Option.some_inj, ← beq_iff_eq, Stands.string_order_eq, beq_iff_eq]

/-- Without a conversion only values of one kind are equal. -/
theorem isOfKind_of_order?_eq {a b : Value} {numeric : Bool} (h : a.order? b = some .eq)
    (hb : b.isOfKind numeric = true) : a.isOfKind numeric = true := by
  cases a with
  | null => cases h
  | text s =>
    cases b with
    | text t => exact hb
    | _ => cases h
  | integer n =>
    cases b with
    | integer m => exact hb
    | real y => exact hb
    | _ => cases h
  | real x =>
    cases b with
    | integer m => exact hb
    | real y => exact hb
    | _ => cases h

theorem test_equal_eq_true {a b : Value} {aAffinity bAffinity : Affinity} :
    a.test .equal aAffinity b bAffinity = some true ↔
      (a.underAffinity (commonAffinity aAffinity bAffinity)).order?
        (b.underAffinity (commonAffinity aAffinity bAffinity)) = some .eq := by
  rw [test, Option.map_eq_some_iff]
  constructor
  · rintro ⟨o, ho, heq⟩
    rw [ho, beq_iff_eq.mp heq]
  · intro h
    exact ⟨.eq, h, rfl⟩

/-! ## Values turned into another kind -/

/-- Under the affinity of its column the stored value equals the bound one, but
only because the bound one is turned into another kind: a number into the text
that a text column holds, or a text into the number that an integer column holds. -/
inductive EqualsConverted : Value → Affinity → Json → Prop where
  | number {s : String} {v : Json} (hv : Fragment.isNumeric v = true)
      (h : (ofJson v).asText = .text s) : EqualsConverted (.text s) .text v
  | text {n : Int} {v : Json} {t : String} {m : Value} (hv : ofJson v = .text t)
      (hm : numberOfText? t = some m)
      (h : m.magnitude? = some (n * (Binary64.unitsPerOne : Int))) :
      EqualsConverted (.integer n) .integer v

theorem isNumeric_of_ofJson_text {v : Json} {t : String} (h : ofJson v = .text t) :
    Fragment.isNumeric v = false := by
  cases v with
  | bool b => cases h
  | number n =>
    cases n with
    | integer n =>
      rw [ofJson] at h
      split at h <;> cases h
    | double x => cases h
  | _ => rfl

/-- What equals a converted value is not of its kind. -/
theorem EqualsConverted.comparesKind {stored : Value} {affinity : Affinity} {v : Json}
    (h : stored.EqualsConverted affinity v) : stored.comparesKind affinity .equal v = false := by
  cases h with
  | number hv _ =>
    rw [Value.comparesKind, hv]
    rfl
  | text hv _ _ =>
    rw [Value.comparesKind, isNumeric_of_ofJson_text hv]
    rfl

theorem comparesKind_equal {stored : Value} {affinity : Affinity} {v : Json} :
    stored.comparesKind affinity .equal v = true ↔
      stored.isOfKind (Fragment.isNumeric v) = true ∧
        stored.test .equal affinity (ofJson v) .none = some true := by
  rw [Value.comparesKind, Bool.and_eq_true, beq_iff_eq]

/-! ## Values in columns -/

/-- What a column of an affinity holds.  A member of a document has no affinity and
may be anything. -/
inductive Held : Affinity → Value → Prop where
  | null (affinity : Affinity) : Held affinity .null
  | extracted (stored : Value) : Held .none stored
  | text (s : String) : Held .text (.text s)
  | integer (n : Int) : Held .integer (.integer n)

/-- A text column equals what is written as its text. -/
theorem test_text_column {s : String} {b : Value} :
    (text s).test .equal .text b .none = some true ↔ b.asText = .text s := by
  rw [test_equal_eq_true]
  change (text s).order? b.asText = some .eq ↔ b.asText = .text s
  cases b with
  | null => exact iff_of_false (by intro h; cases h) (by intro h; cases h)
  | _ =>
    simp only [asText, order?_text_eq, Value.text.injEq]
    exact eq_comm

/-- An integer column equals a text that stands for its number. -/
theorem test_integer_column {n : Int} {t : String} :
    (integer n).test .equal .integer (.text t) .none = some true ↔
      ∃ m, numberOfText? t = some m ∧
        m.magnitude? = some (n * (Binary64.unitsPerOne : Int)) := by
  rw [test_equal_eq_true]
  change (integer n).order? ((numberOfText? t).getD (.text t)) = some .eq ↔ _
  cases hm : numberOfText? t with
  | none => exact iff_of_false (by intro h; cases h) (by rintro ⟨_, h, _⟩; cases h)
  | some m =>
    have hkind : m.magnitude?.isSome = true := by
      rw [numberOfText?] at hm
      obtain ⟨l, _, rfl⟩ := Option.map_eq_some_iff.mp hm
      split
      · split <;> rfl
      · rfl
    have horder : (integer n).order? m = some .eq ↔
        m.magnitude? = some (n * (Binary64.unitsPerOne : Int)) := by
      cases m with
      | integer k =>
        simp only [order?, magnitude?, Option.some_inj, Std.compare_eq_iff_eq]
        exact eq_comm
      | real x =>
        simp only [order?, magnitude?, Option.some_inj, Std.compare_eq_iff_eq]
        exact eq_comm
      | _ => cases hkind
    rw [Option.getD_some, horder]
    constructor
    · exact fun h => ⟨m, rfl, h⟩
    · rintro ⟨_, hsome, h⟩
      rw [Option.some_inj.mp hsome]
      exact h

/-- A column equals a value that is of its kind or that is turned into one of it. -/
theorem Held.test_equal_iff {stored : Value} {affinity : Affinity} (h : Held affinity stored)
    {v : Json} (hv : v.isNull = false) :
    stored.test .equal affinity (ofJson v) .none = some true ↔
      stored.comparesKind affinity .equal v = true ∨ stored.EqualsConverted affinity v := by
  have hkind := isOfKind_ofJson hv
  refine ⟨fun htest => ?_, ?_⟩
  · rw [comparesKind_equal]
    cases h with
    | null =>
      rw [test_equal_eq_true] at htest
      cases affinity <;> cases htest
    | extracted =>
      -- Without affinity nothing is turned, so what is equal is of one kind.
      exact .inl ⟨isOfKind_of_order?_eq (test_equal_eq_true.mp htest) hkind, htest⟩
    | text s =>
      cases hnumeric : Fragment.isNumeric v with
      | false => exact .inl ⟨rfl, htest⟩
      | true => exact .inr (.number hnumeric (test_text_column.mp htest))
    | integer n =>
      cases hnumeric : Fragment.isNumeric v with
      | true => exact .inl ⟨rfl, htest⟩
      | false =>
        rw [hnumeric] at hkind
        obtain ⟨t, ht⟩ := eq_text_of_isOfKind hkind
        rw [ht] at htest
        obtain ⟨m, hm, hmagnitude⟩ := test_integer_column.mp htest
        exact .inr (.text ht hm hmagnitude)
  · rintro (hcompares | hconverted)
    · exact (comparesKind_equal.mp hcompares).2
    · cases hconverted with
      | number _ htext => exact test_text_column.mpr htext
      | text ht hm hmagnitude =>
        rw [ht]
        exact test_integer_column.mpr ⟨_, hm, hmagnitude⟩

end Value
end Sql

namespace Stored

/-- A field of a stored entity holds what a column of its affinity holds. -/
theorem held {x : Stored} (hx : x.WellTyped) {type : ResourceType} {field : FieldPath}
    (hfield : (Database.mapping x.kind).locate type field = .ok ()) :
    Sql.Value.Held (x.site.affinity field) (x.site.value field) := by
  obtain ⟨f, hf, hroot, hnested⟩ := field_of_locate hfield
  obtain ⟨cell, hcell, hfits⟩ := hx f hf
  rw [site_value hroot hcell, site_affinity hf hroot]
  cases hempty : field.nested.isEmpty with
  | false => exact .extracted _
  | true =>
    generalize f.2.2 = shape at hfits
    cases hfits with
    | null _ => exact .null _
    | text s => exact .text s
    | optionalText s => exact .text s
    | integer n => exact .integer n
    | document _ => exact .text _

/-- A text in a text column is not turned. -/
theorem not_equalsConverted_of_isText {x : Stored} (hx : x.WellTyped) {type : ResourceType}
    {field : FieldPath} (hfield : (Database.mapping x.kind).locate type field = .ok ())
    (htext : field.isText = true) (s : String) :
    ¬(x.site.value field).EqualsConverted (x.site.affinity field) (.string s) := by
  obtain ⟨haffinity, _⟩ := value_of_isText hx hfield htext
  rw [haffinity]
  generalize x.site.value field = stored
  intro h
  cases h with
  | number hv _ => cases hv

theorem plainAt_of_isText {x : Stored} (hx : x.WellTyped) {type : ResourceType}
    {field : FieldPath} (hfield : (Database.mapping x.kind).locate type field = .ok ())
    (htext : field.isText = true) : x.PlainAt field := by
  obtain ⟨_, f, _, hroot, _, hcell⟩ := cell_of_isText hx hfield htext
  rw [PlainAt, ← hroot]
  obtain hcell | ⟨s, hcell⟩ := hcell
  · rw [hcell]
    exact trivial
  · rw [hcell]
    exact trivial

end Stored

namespace Database

variable {db : Database}

/-! ## Lists by equality -/

/-- The condition of a list by equality is one that the store can read. -/
theorem readable_comparing (field : FieldPath) {v : Json} (hv : v.isNull = false) :
    ∃ e, readable (.comparing (Sql.Fragment.columnOf 0 field) .equal v) = .ok e ∧
      e.tables = [] := by
  have hpeak := peak_column_le (Sql.Fragment.columnOf 0 field)
  have hheight := height_column_le (Sql.Fragment.columnOf 0 field)
  have hbound : Sql.Expr.Reads .negation
      [.column (Sql.Fragment.columnOf 0 field), .operator .equal, .parameter] [.ofJson v] _ :=
    Sql.Fragment.reads_bound field .equal v
  rw [Sql.Fragment.comparing, if_neg (Bool.eq_false_iff.mp hv)]
  cases hnumeric : Sql.Fragment.isNumeric v with
  | false =>
    refine ⟨_, readable_of_reads (.disjunct (.and (.conjunct (.compare .equal
      (.typeOf (Sql.Fragment.columnOf 0 field)) (.literal "text"))) hbound))
      (length_singleton_le v) ?_ ?_, rfl⟩
    · simp only [Sql.Expr.peak, Sql.Operand.peak, Sql.Expr.queryPrefix, Sql.Expr.stackLimit]
      omega
    · simp only [Sql.Expr.height, Sql.Operand.height, Sql.Expr.nestedHeight,
        Sql.Expr.heightLimit]
      omega
  | true =>
    refine ⟨_, readable_of_reads (.disjunct (.and (.conjunct (.inList
      (.typeOf (Sql.Fragment.columnOf 0 field))
      (.more (.literal "integer") (.one (.literal "real"))))) hbound))
      (length_singleton_le v) ?_ ?_, rfl⟩
    · simp only [Sql.Expr.peak, Sql.Operand.peak, Sql.Expr.itemsPeak, List.map_cons,
        List.map_nil, List.foldl_cons, List.foldl_nil, Sql.Expr.queryPrefix,
        Sql.Expr.stackLimit]
      omega
    · simp only [Sql.Expr.height, Sql.Operand.height, Sql.Expr.itemsHeight, List.map_cons,
        List.map_nil, List.foldl_cons, List.foldl_nil, Sql.Expr.nestedHeight,
        Sql.Expr.heightLimit]
      omega

/-- A list by equality holds the entities on whose rows the field is of the kind of
the value and equals it. -/
theorem findMatching_equal (hdb : db.Sound) {k : WorkflowKind} {field : FieldPath} (hfield : (mapping k).locate k.type field = .ok ())
    {v : Json} (hv : v.isNull = false) :
    db.findMatching k.type (.equal field v) =
      .ok (((Stored.ofType db.entities k.type).filter fun x =>
        (x.site.value field).comparesKind (x.site.affinity field) .equal v).map
          Stored.entity) := by
  obtain ⟨t, ht⟩ := hdb.stored k
  obtain ⟨e, hreadable, htablesOf⟩ := readable_comparing field hv
  have hrender : Sql.render mappings k.type (.equal field v) =
      .ok (.comparing (Sql.Fragment.columnOf 0 field) .equal v) := by
    change ((Sql.RenderState.start k.type).column mappings field).map _ = _
    rw [Sql.RenderState.column, Sql.RenderState.start]
    simp only [get_mappings_type, Sql.TableMapping.column, hfield]
    rfl
  have hlisted : ∃ listed, db.findMatching k.type (.equal field v) = .ok listed := by
    rw [findMatching, hrender, get_mappings_type]
    exact ⟨_, select_of_readable hdb ht hreadable htablesOf⟩
  obtain ⟨listed, hlisted⟩ := hlisted
  rw [hlisted, (of_findMatching hdb.typed hlisted).2]
  refine congrArg Except.ok (congrArg (List.map _) (List.filter_congr fun x _ => ?_))
  exact Sql.Value.compares_equal hv

/-! ## Agreement -/

/-- Plain values without NULs are found in a list as in memory. -/
theorem findMatching_eq_memoryLoader (hdb : db.Sound) (ambient : Ambient) {k : WorkflowKind}
    {field : FieldPath} (hfield : (mapping k).locate k.type field = .ok ()) {v : Json}
    (hv : v.isNull = false) (hplain : Stored.PlainIn db.entities k.type field [v])
    (hnul : Stored.NulFreeIn db.entities k.type field [v]) :
    db.findMatching k.type (.equal field v) =
      memoryLoader ((Stored.ofType db.entities k.type).map Stored.entity) ambient field v := by
  rw [findMatching_equal hdb hfield hv, memoryLoader_eq _ _ _ hv,
    List.filter_map]
  refine congrArg Except.ok (congrArg (List.map _) (List.filter_congr fun x hx => ?_))
  have hlocated : Sql.Located mappings k.type field := ⟨mapping k, get_mappings_type k, hfield⟩
  have hstands := Stored.stands hdb.typed hx hlocated (hplain.2 x hx)
  rw [← Sql.Value.compares_equal hv, hstands.compares_eq_test (hplain.1 v List.mem_cons_self),
    Stored.resolve_untilNul hdb.typed hx hlocated (hplain.2 x hx) hnul]
  rfl

/-- By a text in a text column a loader, a list and entities in memory find the same. -/
theorem findByField_text_eq (hdb : db.Sound) (ambient : Ambient) {k : WorkflowKind}
    {field : FieldPath} (hfield : (mapping k).locate k.type field = .ok ())
    (htext : field.isText = true) (s : String) :
    db.findByField k.type field (.string s) = db.findMatching k.type (.equal field (.string s)) ∧
      db.findMatching k.type (.equal field (.string s)) =
        memoryLoader ((Stored.ofType db.entities k.type).map Stored.entity) ambient field
          (.string s) := by
  have hplace : ∀ x ∈ Stored.ofType db.entities k.type,
      (mapping x.kind).locate x.kind.type field = .ok () := fun x hx => locate_of_mem hfield hx
  constructor
  · -- The affinity of a text column leaves a text as it is.
    rw [findByField_eq hdb hfield,
      findMatching_equal hdb hfield rfl]
    refine congrArg Except.ok (congrArg (List.map _) (List.filter_congr fun x hx => ?_))
    have htyped := hdb.typed.of_mem_ofType hx
    have hheld := Stored.held htyped (hplace x hx)
    rw [Bool.eq_iff_iff, beq_iff_eq, hheld.test_equal_iff rfl, or_iff_left
      (Stored.not_equalsConverted_of_isText htyped (hplace x hx) htext s)]
  · refine findMatching_eq_memoryLoader hdb ambient hfield rfl ⟨fun v hv => ?_, fun x hx => ?_⟩
      fun x hx d hd => ?_
    · rw [List.mem_singleton.mp hv]
      rfl
    · exact Stored.plainAt_of_isText (hdb.typed.of_mem_ofType hx) (hplace x hx) htext
    · obtain ⟨_, f, _, hroot, _, hcell⟩ :=
        Stored.cell_of_isText (hdb.typed.of_mem_ofType hx) (hplace x hx) htext
      rw [← hroot] at hd
      obtain hcell | ⟨u, hcell⟩ := hcell
      · rw [hcell] at hd
        cases hd
      · rw [hcell] at hd
        cases hd

section

/-! A wider choice among entities that are told apart, a narrower one, and what only the
wider one finds. -/

variable {rows : List Stored} (hrows : (rows.map Stored.entity).Nodup)
  {wide narrow : Stored → Bool} {Extra : Stored → Prop}
  (hwide : ∀ x ∈ rows, wide x = true ↔ narrow x = true ∨ Extra x)
  (hextra : ∀ x ∈ rows, Extra x → narrow x = false)

include hwide in
theorem mem_wide_of_mem_narrow :
    ∀ e ∈ (rows.filter narrow).map Stored.entity, e ∈ (rows.filter wide).map Stored.entity := by
  intro e he
  obtain ⟨x, hx, rfl⟩ := List.mem_map.mp he
  obtain ⟨hx, hnarrow⟩ := List.mem_filter.mp hx
  exact List.mem_map.mpr ⟨x, List.mem_filter.mpr ⟨hx, (hwide x hx).mpr (.inl hnarrow)⟩, rfl⟩

include hrows hwide hextra

/-- The extra entities are those that only the wider choice finds. -/
theorem mem_wide_not_narrow_iff {x : Stored} (hx : x ∈ rows) :
    (x.entity ∈ (rows.filter wide).map Stored.entity ∧
      x.entity ∉ (rows.filter narrow).map Stored.entity) ↔ Extra x := by
  rw [mem_map_filter_iff hrows hx, mem_map_filter_iff hrows hx, hwide x hx]
  constructor
  · rintro ⟨hnarrow | hx', hnot⟩
    · exact absurd hnarrow hnot
    · exact hx'
  · intro hx'
    exact ⟨.inr hx', Bool.eq_false_iff.mp (hextra x hx hx')⟩

/-- Both choices find the same entities exactly when there are no extra ones. -/
theorem same_members_iff :
    (∀ e, e ∈ (rows.filter wide).map Stored.entity ↔ e ∈ (rows.filter narrow).map Stored.entity) ↔
      ∀ x ∈ rows, ¬Extra x := by
  constructor
  · intro hsame x hx hx'
    obtain ⟨hmem, hnot⟩ := (mem_wide_not_narrow_iff hrows hwide hextra hx).mpr hx'
    exact hnot ((hsame _).mp hmem)
  · refine fun hnone e => ⟨fun he => ?_, mem_wide_of_mem_narrow hwide e⟩
    obtain ⟨x, hx, rfl⟩ := List.mem_map.mp he
    have hx := List.mem_of_mem_filter hx
    exact by_contra fun hnot =>
      hnone x hx ((mem_wide_not_narrow_iff hrows hwide hextra hx).mp ⟨he, hnot⟩)

end

/-- A loader finds all that a list by equality holds, and besides it the entities on
whose rows the value is turned into another kind.  The two find the same exactly
when nothing is turned.  A list holds what is found in memory where plain values
are compared and no text that is read has a NUL, and by a text in a text column all
three find the same. -/
theorem findByField_agrees (hdb : db.Sound) (ambient : Ambient) {k : WorkflowKind}
    {field : FieldPath} (hfield : (mapping k).locate k.type field = .ok ()) {v : Json}
    (hv : v.isNull = false) :
    ∃ found listed remembered,
      db.findByField k.type field v = .ok found ∧
      db.findMatching k.type (.equal field v) = .ok listed ∧
      memoryLoader ((Stored.ofType db.entities k.type).map Stored.entity) ambient field v =
        .ok remembered ∧
      (∀ e ∈ listed, e ∈ found) ∧
      (∀ x ∈ Stored.ofType db.entities k.type, (x.entity ∈ found ∧ x.entity ∉ listed) ↔
        (x.site.value field).EqualsConverted (x.site.affinity field) v) ∧
      ((∀ e, e ∈ found ↔ e ∈ listed) ↔ ∀ x ∈ Stored.ofType db.entities k.type,
        ¬(x.site.value field).EqualsConverted (x.site.affinity field) v) ∧
      (Stored.PlainIn db.entities k.type field [v] →
        Stored.NulFreeIn db.entities k.type field [v] → listed = remembered) ∧
      (∀ s, field.isText = true → v = .string s → found = listed ∧ listed = remembered) := by
  have hfound := findByField_eq hdb hfield v
  have hlisted := findMatching_equal hdb hfield hv
  have hremembered := memoryLoader_eq ((Stored.ofType db.entities k.type).map Stored.entity) ambient
    field hv
  have hnodup := hdb.nodup_entities k.type
  have hwide : ∀ x ∈ Stored.ofType db.entities k.type,
      ((x.site.value field).test .equal (x.site.affinity field) (.ofJson v) .none ==
        some true) = true ↔
        (x.site.value field).comparesKind (x.site.affinity field) .equal v = true ∨
          (x.site.value field).EqualsConverted (x.site.affinity field) v := by
    intro x hx
    rw [beq_iff_eq]
    exact (Stored.held (hdb.typed.of_mem_ofType hx) (locate_of_mem hfield hx)).test_equal_iff hv
  have hextra : ∀ x ∈ Stored.ofType db.entities k.type,
      (x.site.value field).EqualsConverted (x.site.affinity field) v →
        (x.site.value field).comparesKind (x.site.affinity field) .equal v = false :=
    fun _ _ hconverted => hconverted.comparesKind
  refine ⟨_, _, _, hfound, hlisted, hremembered, mem_wide_of_mem_narrow hwide,
    fun x hx => mem_wide_not_narrow_iff hnodup hwide hextra hx,
    same_members_iff hnodup hwide hextra, fun hplain hnul => ?_, fun s htext hs => ?_⟩
  · have hagree := findMatching_eq_memoryLoader hdb ambient hfield hv hplain hnul
    rw [hlisted, hremembered] at hagree
    exact Except.ok.inj hagree
  · subst hs
    obtain ⟨hsame, hagree⟩ := findByField_text_eq hdb ambient hfield htext s
    rw [hfound, hlisted] at hsame
    rw [hlisted, hremembered] at hagree
    exact ⟨Except.ok.inj hsame, Except.ok.inj hagree⟩

open Filed Specification.Absorption in
/-- The tasks of the north are found, listed and remembered as one. -/
theorem findByField_agrees_northern :
    filed.Sound ∧ (mapping .task).locate WorkflowKind.task.type caseTeam = .ok () ∧
      (Json.string "north").isNull = false ∧
      filed.findByField WorkflowKind.task.type caseTeam (.string "north") =
        .ok [(task "t1" (.string "north")).canonical] ∧
      filed.findMatching WorkflowKind.task.type (.equal caseTeam (.string "north")) =
        .ok [(task "t1" (.string "north")).canonical] ∧
      memoryLoader ((Stored.ofType filed.entities WorkflowKind.task.type).map Stored.entity) reader
        caseTeam (.string "north") = .ok [(task "t1" (.string "north")).canonical] := by
  have hfield : (mapping .task).locate WorkflowKind.task.type caseTeam = .ok () := rfl
  have hnorth : filed.findByField WorkflowKind.task.type caseTeam (.string "north") =
      .ok [(task "t1" (.string "north")).canonical] := by decide +kernel
  obtain ⟨found, listed, remembered, hfound, hlisted, hremembered, _, _, _, _, htexts⟩ :=
    findByField_agrees populated_filed.sound reader hfield (v := .string "north") rfl
  obtain ⟨rfl, rfl⟩ := htexts "north" rfl rfl
  obtain rfl := Except.ok.inj (hfound.symm.trans hnorth)
  exact ⟨populated_filed.sound, hfield, rfl, hfound, hlisted, hremembered⟩

namespace Numbered

open Filed (task)

/-- A store with one task, whose identifier is a text of digits. -/
def numbered : Database :=
  { blank.migrate with
    entities :=
      [(tableName .task, ⟨columns .task, [rowOf .task (task "5" .null)]⟩),
        (tableName .document, ⟨columns .document, []⟩),
        (tableName .processDefinition, ⟨columns .processDefinition, []⟩),
        (tableName .execution, ⟨columns .execution, []⟩)] }

theorem populated_numbered : numbered.Populated :=
  Populated.inserted (k := .task) (v := task "5" .null) .migrated rfl (by decide) rfl

end Numbered

open Filed Numbered in
/-- The text of digits is found by the number, which it is neither in a list nor in
memory. -/
theorem findByField_ne_findMatching_of_digits :
    ∃ field, FieldPath.parse "id" = .ok field ∧ numbered.Populated ∧
      (mapping .task).locate WorkflowKind.task.type field = .ok () ∧
      numbered.findByField WorkflowKind.task.type field (.int 5) =
        .ok [(task "5" .null).canonical] ∧
      numbered.findMatching WorkflowKind.task.type (.equal field (.int 5)) = .ok [] ∧
      memoryLoader ((Stored.ofType numbered.entities WorkflowKind.task.type).map Stored.entity)
        reader field (.int 5) = .ok [] :=
  ⟨⟨"id", [], rfl⟩, rfl, populated_numbered, rfl, by decide +kernel, by decide +kernel, rfl⟩

end Database
end AccessPolicy

/-
Texts of paths.

A path keeps the pieces between the dots of the text that it is parsed from, so the
path is written as that text.  A text parses when each piece is a name, and then the
path leads to what descending into objects by these names leads to.
-/
import AccessPolicy.FieldPath

namespace AccessPolicy

theorem Json.get?_eq_lookup (key : String) (members : List (String × Json)) :
    (Json.object members).get? key = members.lookup key := by
  induction members with
  | nil => rfl
  | cons m rest ih =>
    rw [List.lookup_cons, ← ih]
    by_cases h : m.1 = key
    · simp [Json.get?, h]
    · have hne : (key == m.1) = false := beq_eq_false_iff_ne.mpr (Ne.symm h)
      simp [Json.get?, h, hne]

namespace FieldPath

theorem intercalate_cons (c : Char) (first : List Char) (others : List (List Char)) :
    ['.'].intercalate ((c :: first) :: others) = c :: ['.'].intercalate (first :: others) := by
  cases others with
  | nil => rw [List.intercalate_singleton, List.intercalate_singleton]
  | cons second rest =>
    rw [List.intercalate_cons_cons, List.intercalate_cons_cons, List.cons_append, List.cons_append]

/-- The pieces between the dots, joined by dots again. -/
theorem intercalate_pieces (cs : List Char) :
    ['.'].intercalate ((pieces cs).1 :: (pieces cs).2) = cs := by
  induction cs with
  | nil => rfl
  | cons c rest ih =>
    rw [pieces]
    dsimp only
    by_cases hc : c = '.'
    · rw [if_pos hc, List.intercalate_cons_cons, ih, hc]
      rfl
    · rw [if_neg hc, intercalate_cons, ih]

theorem segments_of_parse {text : String} {path : FieldPath} (h : parse text = .ok path) :
    path.segments = ((pieces text.toList).1 :: (pieces text.toList).2).map String.ofList := by
  rw [parse] at h
  dsimp only at h
  split at h
  · rename_i found hfound
    cases h
    rw [ofPieces?] at hfound
    split at hfound
    · cases hfound
      rfl
    · cases hfound
  · cases h

theorem text_of_parse {text : String} {path : FieldPath} (h : parse text = .ok path) :
    path.text = text := by
  rw [FieldPath.text, segments_of_parse h, ← String.toList_inj, String.toList_intercalate,
    List.map_map]
  have hid : String.toList ∘ String.ofList = id := funext fun _ => String.toList_ofList
  rw [hid, List.map_id]
  exact intercalate_pieces text.toList

/-! ## Dotted names -/

/-- A letter of the ASCII alphabet. -/
def IsLetter (c : Char) : Prop := ('A' ≤ c ∧ c ≤ 'Z') ∨ ('a' ≤ c ∧ c ≤ 'z')

/-- A decimal digit. -/
def IsDigit (c : Char) : Prop := '0' ≤ c ∧ c ≤ '9'

/-- The characters of a name: a letter or underscore, then letters, digits and
underscores. -/
inductive IsName : List Char → Prop where
  | start {c : Char} {rest : List Char} (hc : IsLetter c ∨ c = '_')
      (hrest : ∀ d ∈ rest, IsLetter d ∨ IsDigit d ∨ d = '_') : IsName (c :: rest)

/-- The text consists of the names, with one dot between each and the next. -/
inductive Dotted : List String → String → Prop where
  | name {s : String} (h : IsName s.toList) : Dotted [s] s
  | dot {s : String} {names : List String} {text : String} (h : IsName s.toList)
      (hrest : Dotted names text) : Dotted (s :: names) (s ++ "." ++ text)

theorem isAlpha_iff (c : Char) : c.isAlpha = true ↔ IsLetter c := by
  change (decide ('A' ≤ c ∧ c ≤ 'Z') || (decide ('a' ≤ c) && decide (c ≤ 'z'))) = true ↔ _
  simp only [Bool.or_eq_true, Bool.and_eq_true, decide_eq_true_eq, IsLetter]

theorem isDigit_iff (c : Char) : c.isDigit = true ↔ IsDigit c := by
  simp only [Char.isDigit, IsDigit, Bool.and_eq_true, decide_eq_true_eq]
  exact Iff.rfl

theorem isIdentifier_iff (cs : List Char) : isIdentifier cs = true ↔ IsName cs := by
  cases cs with
  | nil => exact ⟨nofun, nofun⟩
  | cons c rest =>
    simp only [isIdentifier, Char.isAlphanum, Bool.and_eq_true, Bool.or_eq_true,
      decide_eq_true_eq, List.all_eq_true, isAlpha_iff, isDigit_iff, or_assoc]
    constructor
    · rintro ⟨hc, hrest⟩
      exact .start hc hrest
    · rintro ⟨hc, hrest⟩
      exact ⟨hc, hrest⟩

theorem IsName.dot_not_mem {cs : List Char} (h : IsName cs) : '.' ∉ cs := by
  obtain ⟨hc, hrest⟩ := h
  have hletter : ¬ IsLetter '.' := by rw [← isAlpha_iff]; decide
  have hdigit : ¬ IsDigit '.' := by rw [← isDigit_iff]; decide
  intro hdot
  rcases List.mem_cons.mp hdot with rfl | hdot
  · rcases hc with hc | hc
    · exact hletter hc
    · cases hc
  · rcases hrest '.' hdot with hc | hc | hc
    · exact hletter hc
    · exact hdigit hc
    · cases hc

theorem IsName.ne_nil {cs : List Char} (h : IsName cs) : cs ≠ [] := by
  cases h
  exact List.cons_ne_nil _ _

/-! ## Pieces of dotted names -/

theorem pieces_of_not_mem {cs : List Char} (h : '.' ∉ cs) : pieces cs = (cs, []) := by
  induction cs with
  | nil => rfl
  | cons c rest ih =>
    rw [List.mem_cons, not_or] at h
    rw [pieces, ih h.2]
    exact if_neg (Ne.symm h.1)

theorem pieces_append {cs : List Char} (h : '.' ∉ cs) (rest : List Char) :
    pieces (cs ++ '.' :: rest) = (cs, (pieces rest).1 :: (pieces rest).2) := by
  induction cs with
  | nil => rfl
  | cons c cs ih =>
    rw [List.mem_cons, not_or] at h
    rw [List.cons_append, pieces, ih h.2]
    exact if_neg (Ne.symm h.1)

/-- The segments that were joined by dots are the pieces between the dots. -/
theorem pieces_intercalate (first : String) (rest : List String)
    (h : ∀ s ∈ first :: rest, '.' ∉ s.toList) :
    pieces (String.intercalate "." (first :: rest)).toList =
      (first.toList, rest.map String.toList) := by
  induction rest generalizing first with
  | nil =>
    rw [String.intercalate_singleton]
    exact pieces_of_not_mem (h first List.mem_cons_self)
  | cons second rest ih =>
    obtain ⟨hfirst, hrest⟩ := List.forall_mem_cons.mp h
    rw [String.intercalate_cons_cons, String.toList_append, String.toList_append, List.append_assoc]
    change pieces (first.toList ++ '.' :: (String.intercalate "." (second :: rest)).toList) = _
    rw [pieces_append hfirst, ih second hrest]
    rfl

/-- The names of a dotted text are its pieces. -/
theorem Dotted.pieces_eq {names : List String} {text : String} (h : Dotted names text) :
    (pieces text.toList).1 :: (pieces text.toList).2 = names.map String.toList := by
  induction h with
  | name h =>
    rw [pieces_of_not_mem h.dot_not_mem]
    rfl
  | @dot s names text h _ ih =>
    have htext : (s ++ "." ++ text).toList = s.toList ++ '.' :: text.toList := by
      rw [String.toList_append, String.toList_append, List.append_assoc]
      rfl
    rw [htext, pieces_append h.dot_not_mem, ih]
    rfl

theorem Dotted.isName {names : List String} {text : String} (h : Dotted names text) :
    ∀ s ∈ names, IsName s.toList := by
  induction h with
  | name h => exact List.forall_mem_singleton.mpr h
  | dot h _ ih => exact List.forall_mem_cons.mpr ⟨h, ih⟩

/-- Names joined by dots. -/
theorem dotted_intercalate {first : String} {others : List String}
    (h : ∀ s ∈ first :: others, IsName s.toList) :
    Dotted (first :: others) (String.intercalate "." (first :: others)) := by
  induction others generalizing first with
  | nil =>
    rw [String.intercalate_singleton]
    exact .name (h first List.mem_cons_self)
  | cons second rest ih =>
    obtain ⟨hfirst, hrest⟩ := List.forall_mem_cons.mp h
    rw [String.intercalate_cons_cons]
    exact .dot hfirst (ih hrest)

/-! ## Parsing -/

theorem eq_of_segments_eq {p q : FieldPath} (h : p.segments = q.segments) : p = q := by
  cases p
  cases q
  cases h
  rfl

theorem isName_of_mem_segments (path : FieldPath) : ∀ s ∈ path.segments, IsName s.toList := by
  intro s hs
  exact (isIdentifier_iff _).mp (List.all_eq_true.mp path.identifiers s hs)

theorem dotted_text (path : FieldPath) : Dotted path.segments path.text :=
  dotted_intercalate path.isName_of_mem_segments

/-- A text parses to the path of the names that it consists of, and only then. -/
theorem parse_eq_ok_iff {text : String} {path : FieldPath} :
    parse text = .ok path ↔ Dotted path.segments text := by
  constructor
  · intro h
    rw [← text_of_parse h]
    exact path.dotted_text
  · intro h
    have hpieces := h.pieces_eq
    have hall : ((pieces text.toList).1 :: (pieces text.toList).2).all isIdentifier = true := by
      rw [hpieces, List.all_map]
      exact path.identifiers
    have hparse : ∃ found, parse text = .ok found := by
      rw [parse]
      dsimp only
      rw [ofPieces?, dif_pos hall]
      exact ⟨_, rfl⟩
    obtain ⟨found, hfound⟩ := hparse
    rw [hfound, Except.ok.injEq]
    refine eq_of_segments_eq ?_
    rw [segments_of_parse hfound, hpieces, List.map_map]
    exact (List.map_congr_left fun s _ => String.ofList_toList).trans (List.map_id _)

/-- A text that consists of no names is reported as it is. -/
theorem parse_eq_error {text : String} (h : ¬ ∃ names, Dotted names text) :
    parse text = .error (.invalidFieldPath text) := by
  rw [parse]
  dsimp only
  split
  · rename_i path hpath
    have hparse : parse text = .ok path := by
      rw [parse]
      dsimp only
      rw [hpath]
    exact absurd ⟨_, parse_eq_ok_iff.mp hparse⟩ h
  · rfl

/-- Names joined by dots parse to the path of these names. -/
theorem parse_of_dotted {names : List String} {text : String} (h : Dotted names text) :
    ∃ path, parse text = .ok path ∧ path.segments = names := by
  have hnames : (names.map String.toList).all isIdentifier = true := by
    rw [List.all_map, List.all_eq_true]
    exact fun s hs => (isIdentifier_iff _).mpr (h.isName s hs)
  rw [List.all_map] at hnames
  cases names with
  | nil => cases h
  | cons first others => exact ⟨⟨first, others, hnames⟩, parse_eq_ok_iff.mpr h, rfl⟩

/-! ## Descending -/

/-- Descending into objects one key at a time leads from one value to another. -/
inductive Reaches : List String → Json → Json → Prop where
  | here (v : Json) : Reaches [] v v
  | member {key : String} {keys : List String} {members : List (String × Json)} {v w : Json}
      (hmember : members.lookup key = some v) (h : Reaches keys v w) :
      Reaches (key :: keys) (.object members) w

/-- Descending comes to a value that is no object or to an object without the next key. -/
inductive Stops : List String → Json → Prop where
  | scalar {key : String} {keys : List String} {v : Json} (h : ∀ members, v ≠ .object members) :
      Stops (key :: keys) v
  | missing {key : String} {keys : List String} {members : List (String × Json)}
      (h : key ∉ members.map (·.1)) : Stops (key :: keys) (.object members)
  | member {key : String} {keys : List String} {members : List (String × Json)} {v : Json}
      (hmember : members.lookup key = some v) (h : Stops keys v) :
      Stops (key :: keys) (.object members)

theorem lookup_eq_none_iff {key : String} {members : List (String × Json)} :
    members.lookup key = none ↔ key ∉ members.map (·.1) := by
  rw [List.lookup_eq_none_iff, List.mem_map]
  simp only [bne_iff_ne]
  constructor
  · rintro h ⟨m, hm, rfl⟩
    exact h m hm rfl
  · intro h m hm hkey
    exact h ⟨m, hm, hkey.symm⟩

theorem descend_object (key : String) (keys : List String) (members : List (String × Json)) :
    descend (key :: keys) (.object members) = (members.lookup key).bind (descend keys) := by
  rw [descend, Json.get?_eq_lookup]

theorem descend_scalar {v : Json} (h : ∀ members, v ≠ .object members) (key : String)
    (keys : List String) : descend (key :: keys) v = none := by
  cases v with
  | object members => exact absurd rfl (h members)
  | _ => rfl

theorem descend_eq_some_iff {keys : List String} {v w : Json} :
    descend keys v = some w ↔ Reaches keys v w := by
  constructor
  · intro h
    induction keys generalizing v with
    | nil =>
      cases h
      exact .here _
    | cons key keys ih =>
      cases v with
      | object members =>
        rw [descend_object] at h
        obtain ⟨u, hmember, h⟩ := Option.bind_eq_some_iff.mp h
        exact .member hmember (ih h)
      | _ => cases h
  · intro h
    induction h with
    | here => rfl
    | member hmember _ ih => rw [descend_object, hmember, Option.bind_some, ih]

theorem descend_eq_none_iff {keys : List String} {v : Json} :
    descend keys v = none ↔ Stops keys v := by
  constructor
  · intro h
    induction keys generalizing v with
    | nil => cases h
    | cons key keys ih =>
      cases v with
      | object members =>
        rw [descend_object] at h
        cases hmember : members.lookup key with
        | none => exact .missing (lookup_eq_none_iff.mp hmember)
        | some u =>
          rw [hmember] at h
          exact .member hmember (ih h)
      | _ => exact .scalar nofun
  · intro h
    induction h with
    | scalar h => exact descend_scalar h _ _
    | missing h => rw [descend_object, lookup_eq_none_iff.mpr h, Option.bind_none]
    | member hmember _ ih => rw [descend_object, hmember, Option.bind_some, ih]

/-! ## Concatenation -/

/-- The path that goes on with another one. -/
def append (p q : FieldPath) : FieldPath where
  root := p.root
  nested := p.nested ++ q.segments
  identifiers := by
    have hp := p.identifiers
    have hq := q.identifiers
    rw [← List.cons_append, List.all_append, hp]
    exact hq

theorem segments_append (p q : FieldPath) : (p.append q).segments = p.segments ++ q.segments :=
  rfl

theorem Dotted.append {names others : List String} {s t : String} (h : Dotted names s)
    (h' : Dotted others t) : Dotted (names ++ others) (s ++ "." ++ t) := by
  induction h with
  | name h => exact .dot h h'
  | @dot first names text h _ ih =>
    have htext : first ++ "." ++ text ++ "." ++ t = first ++ "." ++ (text ++ "." ++ t) := by
      simp only [String.append_assoc]
    rw [htext]
    exact .dot h ih

/-- Resolving a path that goes on is resolving what comes first, and then the rest. -/
theorem resolve_of_segments_eq {p q r : FieldPath} (h : r.segments = p.segments ++ q.segments)
    (v : Json) : r.resolve v = (p.resolve v).bind q.resolve := by
  rw [resolve, h, descend_append]
  rfl

/-- The dotted names are the texts of paths, and no other text is one.  A path is written
as the text that it is parsed from and keeps its names, and it leads to what descending
into objects by these names leads to. -/
theorem parse_exactly_dotted :
    (∀ text : String,
      ((∃ path, parse text = .ok path) ↔ ∃ names, Dotted names text) ∧
      ((¬ ∃ names, Dotted names text) → parse text = .error (.invalidFieldPath text)) ∧
      ∀ path, parse text = .ok path →
        path.text = text ∧ Dotted path.segments text ∧ path.segments ≠ [] ∧
          (∀ s ∈ path.segments, s ≠ "") ∧ path.root :: path.nested = path.segments) ∧
    (∀ names : List String, names ≠ [] → (∀ s ∈ names, IsName s.toList) →
      ∃ path, parse (String.intercalate "." names) = .ok path ∧ path.segments = names) ∧
    (∀ (path : FieldPath) (v : Json),
      (∀ w, path.resolve v = some w ↔ Reaches path.segments v w) ∧
      (path.resolve v = none ↔ Stops path.segments v)) ∧
    ∀ p q : FieldPath, ∃ r, parse (p.text ++ "." ++ q.text) = .ok r ∧
      r.segments = p.segments ++ q.segments ∧
      ∀ v, r.resolve v = (p.resolve v).bind q.resolve := by
  refine ⟨fun text => ⟨⟨?_, ?_⟩, parse_eq_error, fun path hpath => ?_⟩, ?_, fun path v => ?_,
    fun p q => ?_⟩
  · rintro ⟨path, hpath⟩
    exact ⟨path.segments, parse_eq_ok_iff.mp hpath⟩
  · rintro ⟨names, hnames⟩
    obtain ⟨path, hpath, _⟩ := parse_of_dotted hnames
    exact ⟨path, hpath⟩
  · refine ⟨text_of_parse hpath, parse_eq_ok_iff.mp hpath, List.cons_ne_nil _ _, ?_, rfl⟩
    rintro s hs rfl
    exact (path.isName_of_mem_segments "" hs).ne_nil rfl
  · intro names hne hnames
    obtain ⟨first, others, rfl⟩ := List.exists_cons_of_ne_nil hne
    exact parse_of_dotted (dotted_intercalate hnames)
  · exact ⟨fun w => descend_eq_some_iff, descend_eq_none_iff⟩
  · have hdotted := p.dotted_text.append q.dotted_text
    exact ⟨p.append q, parse_eq_ok_iff.mpr hdotted, segments_append p q,
      resolve_of_segments_eq (segments_append p q)⟩

/-- The team of a document is at a path, and two dots in a row make no path. -/
theorem parse_exactly_dotted_team :
    ∃ path, parse "content.team" = .ok path ∧ path.text = "content.team" ∧
      path.segments = ["content", "team"] ∧
      path.resolve (.object [("content", .object [("team", .string "north")])]) =
        some (.string "north") ∧
      parse "a..b" = .error (.invalidFieldPath "a..b") := by
  have hnames : ∀ s ∈ ["content", "team"], IsName s.toList := by
    simp only [← isIdentifier_iff]
    decide
  obtain ⟨path, hparse, hsegments⟩ :=
    parse_exactly_dotted.2.1 ["content", "team"] (List.cons_ne_nil _ _) hnames
  have htext := ((parse_exactly_dotted.1 "content.team").2.2 path hparse).1
  have hleads : Reaches path.segments (.object [("content", .object [("team", .string "north")])])
      (.string "north") := by
    rw [hsegments]
    exact .member rfl (.member rfl (.here _))
  have hdots : ¬ ∃ names, Dotted names "a..b" := by
    rintro ⟨names, h⟩
    have hempty : [] ∈ names.map String.toList := by
      rw [← h.pieces_eq]
      decide
    obtain ⟨s, hs, hnil⟩ := List.mem_map.mp hempty
    exact (h.isName s hs).ne_nil hnil
  exact ⟨path, hparse, htext, hsegments,
    ((parse_exactly_dotted.2.2.1 path _).1 _).mpr hleads,
    (parse_exactly_dotted.1 "a..b").2.1 hdots⟩

end FieldPath
end AccessPolicy

/-
Values that come back from their text.

The text of a value is read to its end and no further.  What is read is the value with
its numbers as they come back, provided that these are numbers of the engine and that
arrays and objects stand inside each other less deeply than the reader allows.
-/
import AccessPolicy.Json.Shape
import AccessPolicy.Json.Text
import AccessPolicy.Proofs.Json.Numbers

namespace AccessPolicy
namespace Json

/-! ## Values that can be written and read -/

mutual

/-- Every number in the value is a number of the engine. -/
def HasValidNumbers : Json → Prop
  | .number n => n.IsValid
  | .array items => ItemsHaveValidNumbers items
  | .object members => MembersHaveValidNumbers members
  | _ => True

def ItemsHaveValidNumbers : List Json → Prop
  | [] => True
  | v :: rest => HasValidNumbers v ∧ ItemsHaveValidNumbers rest

def MembersHaveValidNumbers : List (String × Json) → Prop
  | [] => True
  | (_, v) :: rest => HasValidNumbers v ∧ MembersHaveValidNumbers rest

end

namespace Reader

/-! ## Strings -/

theorem codeUnit?_hexDigit {n : Nat} (h : n < 32) :
    codeUnit? '0' '0' (hexDigit (n / 16)) (hexDigit n) = some n := by
  have hall : ∀ n < 32, codeUnit? '0' '0' (hexDigit (n / 16)) (hexDigit n) = some n := by decide
  exact hall n h

/-- A character is read back from the way in which it is written inside quotes. -/
theorem stringBody_escaped (c : Char) (rest acc : List Char) :
    stringBody (escaped c ++ rest) none (some acc) = stringBody rest none (some (c :: acc)) := by
  rw [escaped]
  split
  · subst c
    simp [stringBody, escapedChar?, settled]
  split
  · subst c
    simp [stringBody, escapedChar?, settled]
  split
  · subst c
    simp [stringBody, escapedChar?, settled]
  split
  · subst c
    simp [stringBody, escapedChar?, settled]
  split
  · subst c
    simp [stringBody, escapedChar?, settled]
  split
  · subst c
    simp [stringBody, escapedChar?, settled]
  split
  · subst c
    simp [stringBody, escapedChar?, settled]
  split
  · rename_i hcontrol
    have hhigh : isHighHalf c.toNat = false := by
      simp only [isHighHalf, Bool.and_eq_false_iff, decide_eq_false_iff_not]
      omega
    have hlow : isLowHalf c.toNat = false := by
      simp only [isLowHalf, Bool.and_eq_false_iff, decide_eq_false_iff_not]
      omega
    simp [stringBody, codeUnit?_hexDigit hcontrol, pushUnit, hhigh, hlow, Char.ofNat_toNat]
  · rename_i hquote hslash _ _ _ _ _ hcontrol
    rw [List.singleton_append, stringBody]
    · simp [hcontrol, hslash, settled]
    · exact hquote
    · rintro _ _ _ _ _ rfl
      exact absurd rfl hslash
    · rintro _ _ rfl
      exact absurd rfl hslash

theorem stringBody_quoted (s : String) (rest : List Char) :
    stringBody (s.toList.flatMap escaped ++ '"' :: rest) none (some []) =
      some (some s, rest) := by
  have hacc : ∀ cs acc, stringBody (cs.flatMap escaped ++ '"' :: rest) none (some acc) =
      some (some (String.ofList (acc.reverse ++ cs)), rest) := by
    intro cs
    induction cs with
    | nil => intro acc; simp [stringBody, settled]
    | cons c cs ih =>
      intro acc
      rw [List.flatMap_cons, List.append_assoc, stringBody_escaped, ih]
      simp
  rw [hacc, List.reverse_nil, List.nil_append, String.ofList_toList]

end Reader

/-! ## Characters of a text -/

theorem toList_quoted (s : String) :
    (quoted s).toList = '"' :: (s.toList.flatMap escaped ++ ['"']) :=
  String.toList_ofList

theorem toList_text_items (v : Json) (rest : List Json) :
    (Json.array (v :: rest)).text.toList =
      '[' :: (v.text.toList ++ ((itemsText rest).toList ++ [']'])) := by
  simp [text]

theorem toList_itemsText (v : Json) (rest : List Json) :
    (itemsText (v :: rest)).toList = ',' :: (v.text.toList ++ (itemsText rest).toList) := by
  simp [itemsText]

theorem toList_text_members (k : String) (v : Json) (rest : List (String × Json)) :
    (Json.object ((k, v) :: rest)).text.toList =
      '\x7b' :: ((quoted k).toList ++ ':' :: (v.text.toList ++
        ((membersText rest).toList ++ ['\x7d']))) := by
  simp [text]

theorem toList_membersText (k : String) (v : Json) (rest : List (String × Json)) :
    (membersText ((k, v) :: rest)).toList =
      ',' :: ((quoted k).toList ++ ':' :: (v.text.toList ++ (membersText rest).toList)) := by
  simp [membersText]

/-! ## The size of a list -/

theorem length_le_utf8ByteSize_itemsText (items : List Json) :
    items.length ≤ (itemsText items).utf8ByteSize := by
  induction items with
  | nil => exact Nat.zero_le _
  | cons v rest ih =>
    have hcomma : (",").utf8ByteSize = 1 := rfl
    rw [itemsText, String.utf8ByteSize_append, String.utf8ByteSize_append, List.length_cons]
    omega

/-- Each item takes up room in the text of a list. -/
theorem length_lt_utf8ByteSize_text (items : List Json) :
    items.length < (array items).text.utf8ByteSize := by
  cases items with
  | nil => exact Nat.zero_lt_succ 1
  | cons v rest =>
    have hrest := length_le_utf8ByteSize_itemsText rest
    have hopening : ("[").utf8ByteSize = 1 := rfl
    have hclosing : ("]").utf8ByteSize = 1 := rfl
    rw [text, String.utf8ByteSize_append, String.utf8ByteSize_append, String.utf8ByteSize_append,
      List.length_cons]
    omega

/-! ## The first character -/

/-- A text starts with the value itself. -/
theorem exists_text_cons (v : Json) :
    ∃ c more, v.text.toList = c :: more ∧ Reader.isBlank c = false ∧ c ≠ ']' := by
  cases v with
  | null => exact ⟨'n', _, rfl, by decide, by decide⟩
  | bool b =>
    cases b
    · exact ⟨'f', _, rfl, by decide, by decide⟩
    · exact ⟨'t', _, rfl, by decide, by decide⟩
  | number n =>
    obtain ⟨d, more, htext, hd⟩ := n.isWritten_literal.exists_text_cons
    rw [text, Number.toList_text, htext]
    cases n.literal.1 with
    | true => exact ⟨'-', _, rfl, by decide, by decide⟩
    | false =>
      refine ⟨d, more, rfl, Reader.isBlank_of_isDigit hd, ?_⟩
      rintro rfl
      exact absurd hd (by decide)
  | string s => exact ⟨'"', _, toList_quoted s, by decide, by decide⟩
  | array items =>
    cases items with
    | nil => exact ⟨'[', _, rfl, by decide, by decide⟩
    | cons v rest => exact ⟨'[', _, toList_text_items v rest, by decide, by decide⟩
  | object members =>
    cases members with
    | nil => exact ⟨'\x7b', _, rfl, by decide, by decide⟩
    | cons m rest => exact ⟨'\x7b', _, toList_text_members m.1 m.2 rest, by decide, by decide⟩

/-! ## Reading a text -/

namespace Reader

section

variable {cs rest after : List Char} {fuel depth : Nat}

theorem value_string {s : Option String} (h : stringBody cs none (some []) = some (s, rest)) :
    value (fuel + 1) depth ('"' :: cs) = (.string s, some rest) := by
  rw [value, skipBlanks_cons (by decide)]
  simp only [h]

theorem value_items {c : Char} {items : List Draft} (hblank : isBlank c = false) (hc : c ≠ ']')
    (hdepth : depth + 1 < nestingLimit)
    (h : elements fuel (depth + 1) (c :: cs) = (items, some after)) :
    value (fuel + 1) depth ('[' :: c :: cs) = (.array false items true, some after) := by
  rw [value, skipBlanks_cons (by decide)]
  simp only [skipBlanks_cons hblank]
  split
  · rename_i heq
    exact absurd (List.cons.inj heq).1 hc
  · simp [h, hdepth]

theorem value_members {c : Char} {entries : List (Option String × Draft)}
    (hblank : isBlank c = false) (hc : c ≠ '\x7d') (hdepth : depth + 1 < nestingLimit)
    (h : members fuel (depth + 1) (c :: cs) = (entries, some after)) :
    value (fuel + 1) depth ('\x7b' :: c :: cs) = (.object false entries true, some after) := by
  rw [value, skipBlanks_cons (by decide)]
  simp only [skipBlanks_cons hblank]
  split
  · rename_i heq
    exact absurd (List.cons.inj heq).1 hc
  · simp [h, hdepth]

theorem value_no_items (hdepth : depth + 1 < nestingLimit) :
    value (fuel + 1) depth ('[' :: ']' :: rest) = (.array false [] true, some rest) := by
  rw [value, skipBlanks_cons (by decide)]
  simp [skipBlanks_cons (show isBlank ']' = false by decide), hdepth]

theorem value_no_members (hdepth : depth + 1 < nestingLimit) :
    value (fuel + 1) depth ('\x7b' :: '\x7d' :: rest) = (.object false [] true, some rest) := by
  rw [value, skipBlanks_cons (by decide)]
  simp [skipBlanks_cons (show isBlank '\x7d' = false by decide), hdepth]

theorem elements_last {item : Draft} (h : value fuel depth cs = (item, some (']' :: rest))) :
    elements (fuel + 1) depth cs = ([item], some rest) := by
  rw [elements, h]
  simp only [skipBlanks_cons (show isBlank ']' = false by decide)]

theorem elements_more {item : Draft} {items : List Draft}
    (h : value fuel depth cs = (item, some (',' :: rest)))
    (hrest : elements fuel depth rest = (items, some after)) :
    elements (fuel + 1) depth cs = (item :: items, some after) := by
  rw [elements, h]
  simp only [skipBlanks_cons (show isBlank ',' = false by decide), hrest]

section

variable {key : Option String} {body : List Char}

theorem members_last {item : Draft}
    (hkey : stringBody cs none (some []) = some (key, ':' :: body))
    (h : value fuel depth body = (item, some ('\x7d' :: rest))) :
    members (fuel + 1) depth ('"' :: cs) = ([(key, item)], some rest) := by
  rw [members, skipBlanks_cons (by decide)]
  simp only [hkey, skipBlanks_cons (show isBlank ':' = false by decide), h,
    skipBlanks_cons (show isBlank '\x7d' = false by decide)]

theorem members_more {item : Draft} {entries : List (Option String × Draft)}
    (hkey : stringBody cs none (some []) = some (key, ':' :: body))
    (h : value fuel depth body = (item, some (',' :: rest)))
    (hrest : members fuel depth rest = (entries, some after)) :
    members (fuel + 1) depth ('"' :: cs) = ((key, item) :: entries, some after) := by
  rw [members, skipBlanks_cons (by decide)]
  simp only [hkey, skipBlanks_cons (show isBlank ':' = false by decide), h,
    skipBlanks_cons (show isBlank ',' = false by decide), hrest]

end

/-- The separators of arrays and objects may follow a value. -/
theorem follows_cons {c : Char} (hc : c = ',' ∨ c = ']' ∨ c = '\x7d') (rest : List Char) :
    Follows (c :: rest) := by
  rintro d ⟨⟩
  exact hc

/-- With so many steps every value is read off its text whole, as long as there are two
steps for each character. -/
def ReadsValues (steps : Nat) : Prop :=
  ∀ (v : Json) (rest : List Char) (depth : Nat), v.HasValidNumbers →
    depth + v.nesting < nestingLimit → 2 * v.text.toList.length ≤ steps → Follows rest →
    value steps depth (v.text.toList ++ rest) = (.ofJson v.reread, some rest)

def ReadsItems (steps : Nat) : Prop :=
  ∀ (v : Json) (items : List Json) (rest : List Char) (depth : Nat),
    ItemsHaveValidNumbers (v :: items) → depth + nestingItems (v :: items) < nestingLimit →
    2 * (v.text.toList.length + (itemsText items).toList.length) + 1 ≤ steps →
    elements steps depth (v.text.toList ++ ((itemsText items).toList ++ ']' :: rest)) =
      (Draft.ofItems (rereadItems (v :: items)), some rest)

def ReadsMembers (steps : Nat) : Prop :=
  ∀ (k : String) (v : Json) (entries : List (String × Json)) (rest : List Char) (depth : Nat),
    MembersHaveValidNumbers ((k, v) :: entries) →
    depth + nestingMembers ((k, v) :: entries) < nestingLimit →
    2 * (v.text.toList.length + (membersText entries).toList.length) + 1 ≤ steps →
    members steps depth ((quoted k).toList ++ ':' ::
        (v.text.toList ++ ((membersText entries).toList ++ '\x7d' :: rest))) =
      (Draft.ofMembers (rereadMembers ((k, v) :: entries)), some rest)

theorem readsValues_succ (hitems : ReadsItems fuel) (hmembers : ReadsMembers fuel) :
    ReadsValues (fuel + 1) := by
  intro v rest depth hnumbers hnesting hfuel hrest
  cases v with
  | null => rfl
  | bool b => cases b <;> rfl
  | number n =>
    have hread := Number.value_text n hrest fuel depth
    rw [Number.number?_literal hnumbers] at hread
    exact hread
  | string s =>
    rw [text, toList_quoted, List.cons_append, List.append_assoc]
    exact value_string (stringBody_quoted s rest)
  | array items =>
    cases items with
    | nil => exact value_no_items hnesting
    | cons v items =>
      rw [nesting] at hnesting
      obtain ⟨c, more, htext, hblank, hc⟩ := exists_text_cons v
      rw [toList_text_items, List.length_cons, List.length_append, List.length_append] at hfuel
      have hread := hitems v items rest (depth + 1) hnumbers (by omega) (by omega)
      rw [toList_text_items]
      simp only [htext, List.append_assoc, List.cons_append, List.nil_append] at hread ⊢
      exact value_items hblank hc (by omega) hread
  | object entries =>
    cases entries with
    | nil => exact value_no_members hnesting
    | cons m entries =>
      obtain ⟨k, v⟩ := m
      rw [nesting] at hnesting
      rw [toList_text_members, List.length_cons, List.length_append, List.length_cons,
        List.length_append, List.length_append] at hfuel
      have hread := hmembers k v entries rest (depth + 1) hnumbers (by omega) (by omega)
      rw [toList_text_members]
      simp only [toList_quoted, List.append_assoc, List.cons_append, List.nil_append]
        at hread ⊢
      exact value_members (by decide) (by decide) (by omega) hread

theorem readsItems_succ (hvalues : ReadsValues fuel) (hitems : ReadsItems fuel) :
    ReadsItems (fuel + 1) := by
  intro v items rest depth hnumbers hnesting hfuel
  rw [nestingItems] at hnesting
  cases items with
  | nil =>
    exact elements_last (hvalues v (']' :: rest) depth hnumbers.1 (by omega) (by omega)
      (follows_cons (.inr (.inl rfl)) rest))
  | cons w items =>
    rw [toList_itemsText, List.length_cons, List.length_append] at hfuel
    rw [toList_itemsText]
    simp only [List.cons_append, List.append_assoc]
    refine elements_more (hvalues v _ depth hnumbers.1 (by omega) (by omega)
      (follows_cons (.inl rfl) _)) ?_
    exact hitems w items rest depth hnumbers.2 (by omega) (by omega)

theorem readsMembers_succ (hvalues : ReadsValues fuel) (hmembers : ReadsMembers fuel) :
    ReadsMembers (fuel + 1) := by
  intro k v entries rest depth hnumbers hnesting hfuel
  rw [nestingMembers] at hnesting
  cases entries with
  | nil =>
    rw [toList_quoted, List.cons_append, List.append_assoc]
    refine members_last (stringBody_quoted k _) ?_
    exact hvalues v ('\x7d' :: rest) depth hnumbers.1 (by omega) (by omega)
      (follows_cons (.inr (.inr rfl)) rest)
  | cons m entries =>
    obtain ⟨l, w⟩ := m
    rw [toList_membersText, List.length_cons, List.length_append, List.length_cons,
      List.length_append] at hfuel
    rw [toList_quoted k, List.cons_append, List.append_assoc, toList_membersText]
    simp only [List.append_assoc, List.cons_append]
    refine members_more (stringBody_quoted k _) (hvalues v _ depth hnumbers.1 (by omega)
      (by omega) (follows_cons (.inl rfl) _)) ?_
    exact hmembers l w entries rest depth hnumbers.2 (by omega) (by omega)

/-- The three readers call each other with one step less, so the induction is on the
steps. -/
theorem reads (steps : Nat) : ReadsValues steps ∧ ReadsItems steps ∧ ReadsMembers steps := by
  induction steps with
  | zero =>
    refine ⟨fun v rest depth _ _ hfuel => ?_, fun v items rest depth _ _ hfuel => ?_,
      fun k v entries rest depth _ _ hfuel => ?_⟩
    · obtain ⟨c, more, htext, -, -⟩ := exists_text_cons v
      rw [htext, List.length_cons] at hfuel
      omega
    · omega
    · omega
  | succ fuel ih =>
    obtain ⟨hvalues, hitems, hmembers⟩ := ih
    exact ⟨readsValues_succ hitems hmembers, readsItems_succ hvalues hitems,
      readsMembers_succ hvalues hmembers⟩

end

end Reader

/-- A text is read as the value with its numbers as they come back. -/
theorem ofDocument?_text {v : Json} (hnumbers : v.HasValidNumbers)
    (hnesting : v.nesting < Reader.nestingLimit) :
    Draft.ofDocument? v.text = some (.ofJson v.reread) := by
  have hread := (Reader.reads (2 * v.text.toList.length + 2)).1 v [] 0 hnumbers (by omega)
    (by omega) nofun
  rw [List.append_nil] at hread
  rw [Draft.ofDocument?, Draft.ofText]
  simp only [hread]
  rfl

end Json
end AccessPolicy

/-
The text of a condition.

Tokens are taken off the front of a text one by one, each as far as it goes.  The
text of tokens in a row is taken apart into just these tokens, so nothing is lost
when a condition is written down.
-/
import AccessPolicy.Proofs.FieldPaths
import AccessPolicy.Sql.Token

namespace AccessPolicy

/-! ## Identifiers -/

theorem forall_of_isIdentifier {cs : List Char} (h : isIdentifier cs = true) :
    ∀ c ∈ cs, (c.isAlphanum || c = '_') = true := by
  cases cs with
  | nil => cases h
  | cons first rest =>
    rw [isIdentifier, Bool.and_eq_true, List.all_eq_true] at h
    refine List.forall_mem_cons.mpr ⟨?_, h.2⟩
    rw [Char.isAlphanum]
    cases halpha : first.isAlpha with
    | true => rfl
    | false =>
      rw [halpha] at h
      rw [Bool.false_or] at h
      rw [h.1, Bool.or_true]

namespace Sql

/-! ## Words -/

namespace Lexer

def isWordChar (c : Char) : Bool := c.isAlphanum || c = '_'

/-- The word at the front of a text. -/
def word (cs : List Char) : List Char := cs.takeWhile isWordChar

/-- What is after the word at the front of a text. -/
def afterWord (cs : List Char) : List Char := cs.dropWhile isWordChar

/-- The text does not go on with a word. -/
def Ends (cs : List Char) : Prop := ∀ c ∈ cs.head?, isWordChar c = false

theorem word_append {w rest : List Char} (hw : ∀ c ∈ w, isWordChar c = true) (hrest : Ends rest) :
    word (w ++ rest) = w ∧ afterWord (w ++ rest) = rest := by
  rw [word, afterWord, List.takeWhile_append_of_pos hw, List.dropWhile_append_of_pos hw]
  cases rest with
  | nil => exact ⟨List.append_nil w, rfl⟩
  | cons c rest =>
    have hc : isWordChar c = false := hrest c rfl
    rw [List.takeWhile_cons_of_neg (ne_true_of_eq_false hc),
      List.dropWhile_cons_of_neg (ne_true_of_eq_false hc)]
    exact ⟨List.append_nil w, rfl⟩

theorem isWordChar_of_isIdentifier {cs : List Char} (h : isIdentifier cs = true) :
    ∀ c ∈ cs, isWordChar c = true :=
  forall_of_isIdentifier h

/-! ## Aliases -/

/-- The slot of an alias. -/
def slot? : List Char → Option Nat
  | 't' :: digits =>
    if !digits.isEmpty && digits.all Char.isDigit then some (Nat.ofDigitChars 10 digits 0)
    else none
  | _ => none

theorem toList_aliasName (slot : Nat) :
    (aliasName slot).toList = 't' :: Nat.toDigits 10 slot := by
  rw [aliasName, String.toList_append]
  change "t".toList ++ slot.repr.toList = _
  rw [Nat.toList_repr]
  rfl

theorem isDigit_of_mem (slot : Nat) : ∀ c ∈ Nat.toDigits 10 slot, c.isDigit = true := fun _ hc =>
  Nat.isDigit_of_mem_toDigits (by decide) (by decide) hc

theorem slot?_aliasName (slot : Nat) : slot? (aliasName slot).toList = some slot := by
  have hempty : (Nat.toDigits 10 slot).isEmpty = false :=
    List.isEmpty_eq_false_iff.mpr Nat.toDigits_ne_nil
  rw [toList_aliasName, slot?, hempty, List.all_eq_true.mpr (isDigit_of_mem slot),
    Nat.ofDigitChars_ten_toDigits]
  rfl

theorem isWordChar_of_isDigit {c : Char} (h : c.isDigit = true) : isWordChar c = true := by
  rw [isWordChar, Char.isAlphanum, h, Bool.or_true]
  rfl

theorem isWordChar_aliasName (slot : Nat) :
    ∀ c ∈ (aliasName slot).toList, isWordChar c = true := by
  rw [toList_aliasName]
  refine List.forall_mem_cons.mpr ⟨rfl, fun c hc => ?_⟩
  exact isWordChar_of_isDigit (isDigit_of_mem slot c hc)

/-! ## Tokens -/

def keywords : List Keyword :=
  [.AND, .OR, .NOT, .IS, .NULL, .IN, .EXISTS, .SELECT, .FROM, .WHERE, .TYPEOF]

def keyword? (w : List Char) : Option Keyword := keywords.find? fun k => k.text.toList == w

/-- An alias, a dot and the name of a column. -/
def column? (cs : List Char) : Option (ColumnRef × List Char) :=
  match slot? (word cs), afterWord cs with
  | some slot, '.' :: rest => some (⟨slot, String.ofList (word rest), []⟩, afterWord rest)
  | _, _ => none

/-- The characters up to a quote, and those after it. -/
def quoted? (cs : List Char) : Option (List Char × List Char) :=
  match cs.dropWhile (· != '\'') with
  | '\'' :: rest => some (cs.takeWhile (· != '\''), rest)
  | _ => none

/-- A column and a path in quotes, up to the closing parenthesis. -/
def member? (cs : List Char) : Option (ColumnRef × List Char) :=
  match column? cs with
  | some (c, ',' :: ' ' :: '\'' :: rest) =>
    match quoted? rest with
    | some ('$' :: '.' :: path, ')' :: rest) =>
      let (first, others) := FieldPath.pieces path
      some ({ c with path := (first :: others).map String.ofList }, rest)
    | _ => none
  | _ => none

/-- A token that begins with a word. -/
def worded? (cs : List Char) : Option (Token × List Char) :=
  match keyword? (word cs) with
  | some k => some (.word k, afterWord cs)
  | none =>
    if word cs = "json_extract".toList then
      match afterWord cs with
      | '(' :: rest => (member? rest).map fun (c, rest) => (.column c, rest)
      | _ => none
    else
      match slot? (word cs) with
      | none => some (.table (String.ofList (word cs)), afterWord cs)
      | some slot =>
        match column? cs with
        | some (c, rest) => some (.column c, rest)
        | none => some (.tableAlias slot, afterWord cs)

/-- A token that begins with another character. -/
def symbol? : Char → List Char → Option (Token × List Char)
  | '(', cs => some (.opening, cs)
  | ')', cs => some (.closing, cs)
  | ',', cs => some (.comma, cs)
  | '?', cs => some (.parameter, cs)
  | '=', cs => some (.operator .equal, cs)
  | '!', '=' :: cs => some (.operator .notEqual, cs)
  | '>', '=' :: cs => some (.operator .greaterOrEqual, cs)
  | '>', cs => some (.operator .greater, cs)
  | '<', '=' :: cs => some (.operator .lessOrEqual, cs)
  | '<', cs => some (.operator .less, cs)
  | '\'', cs => (quoted? cs).map fun (s, rest) => (.literal (String.ofList s), rest)
  | _, _ => none

/-- The token at the front of a text, and what is after it. -/
def token? : List Char → Option (Token × List Char)
  | [] => none
  | c :: cs =>
    if c.isDigit then some (.number (Nat.ofDigitChars 10 (word (c :: cs)) 0), afterWord (c :: cs))
    else if isWordChar c then worded? (c :: cs)
    else symbol? c cs

/-- The tokens of a text, blanks between them aside. -/
def tokensOf? : Nat → List Char → Option (List Token)
  | 0, _ => none
  | fuel + 1, cs =>
    let cs := cs.dropWhile Char.isWhitespace
    if cs.isEmpty then some []
    else (token? cs).bind fun (t, rest) => (tokensOf? fuel rest).map (t :: ·)

end Lexer

/-- The tokens of a text.  Each takes at least one character. -/
def tokens? (text : String) : Option (List Token) :=
  Lexer.tokensOf? (text.toList.length + 1) text.toList

namespace Lexer

/-! ## Tokens as they are written -/

/-- The token can be told from others by its text. -/
def Written : Token → Prop
  | .column c => isIdentifier c.column.toList = true ∧ ∀ s ∈ c.path, isIdentifier s.toList = true
  | .literal s => '\'' ∉ s.toList
  | .table name => isIdentifier name.toList = true ∧ keyword? name.toList = none ∧
      slot? name.toList = none ∧ name ≠ "json_extract"
  | _ => True

instance : DecidablePred Written
  | .column _ => inferInstanceAs (Decidable (_ ∧ ∀ s ∈ _, _))
  | .literal _ => inferInstanceAs (Decidable ¬_)
  | .table _ => inferInstanceAs (Decidable (_ ∧ _ ∧ _ ∧ _))
  | .word _ | .parameter | .number _ | .tableAlias _ | .operator _ | .opening | .closing
  | .comma => .isTrue trivial

@[simp] theorem written_word (k : Keyword) : Written (.word k) := trivial

@[simp] theorem written_parameter : Written .parameter := trivial

@[simp] theorem written_number (n : Nat) : Written (.number n) := trivial

@[simp] theorem written_tableAlias (slot : Nat) : Written (.tableAlias slot) := trivial

@[simp] theorem written_operator (c : Comparison) : Written (.operator c) := trivial

@[simp] theorem written_opening : Written .opening := trivial

@[simp] theorem written_closing : Written .closing := trivial

@[simp] theorem written_comma : Written .comma := trivial

/-- What may follow a token: a blank, a parenthesis or a comma. -/
def Follows (t : Token) (rest : List Char) : Prop :=
  t = .opening ∨ ∀ c ∈ rest.head?, c = ' ' ∨ c = ')' ∨ c = ',' ∨ c = '('

theorem ends_of_forall {rest : List Char}
    (h : ∀ c ∈ rest.head?, c = ' ' ∨ c = ')' ∨ c = ',' ∨ c = '(') : Ends rest := by
  intro c hc
  rcases h c hc with rfl | rfl | rfl | rfl <;> rfl

theorem keyword?_text (k : Keyword) : keyword? k.text.toList = some k := by
  cases k <;> decide

theorem keyword?_aliasName (slot : Nat) : keyword? (aliasName slot).toList = none := by
  rw [keyword?, List.find?_eq_none]
  intro k _ heq
  rw [beq_iff_eq, toList_aliasName] at heq
  have hdigit := isDigit_of_mem slot
  have hhead : k.text.toList.head? = some 't' := by
    rw [heq]
    rfl
  have hdigits : Nat.toDigits 10 slot = k.text.toList.tail := by
    rw [heq]
    rfl
  cases k with
  | TYPEOF =>
    rw [hdigits] at hdigit
    exact absurd (hdigit 'y' (by decide)) (by decide)
  | _ => exact absurd hhead (by decide)

theorem column?_text {c : ColumnRef} (hcolumn : isIdentifier c.column.toList = true)
    {rest : List Char} (hrest : Ends rest) :
    column? ((aliasName c.slot).toList ++ '.' :: (c.column.toList ++ rest)) =
      some ({ c with path := [] }, rest) := by
  have hdot : Ends ('.' :: (c.column.toList ++ rest)) := by
    intro d hd
    cases hd
    rfl
  obtain ⟨halias, hafter⟩ := word_append (isWordChar_aliasName c.slot) hdot
  obtain ⟨hname, hend⟩ := word_append (isWordChar_of_isIdentifier hcolumn) hrest
  rw [column?, halias, hafter, slot?_aliasName]
  simp only [hname, hend, String.ofList_toList]

theorem quoted?_append {s : List Char} (h : '\'' ∉ s) (rest : List Char) :
    quoted? (s ++ '\'' :: rest) = some (s, rest) := by
  have hs : ∀ c ∈ s, (c != '\'') = true := by
    intro c hc
    rw [bne_iff_ne]
    rintro rfl
    exact h hc
  rw [quoted?, List.dropWhile_append_of_pos hs, List.takeWhile_append_of_pos hs]
  change some (s ++ [], rest) = _
  rw [List.append_nil]

/-- A path has the characters of its members and dots. -/
theorem not_mem_path {c : Char} (hword : isWordChar c = false) (hdot : c ≠ '.')
    {path : List String} (h : ∀ s ∈ path, isIdentifier s.toList = true) :
    c ∉ (String.intercalate "." path).toList := by
  induction path with
  | nil => exact List.not_mem_nil
  | cons first rest ih =>
    obtain ⟨hfirst, hrest⟩ := List.forall_mem_cons.mp h
    have hmember : c ∉ first.toList := fun hmem =>
      Bool.false_ne_true (hword.symm.trans (isWordChar_of_isIdentifier hfirst c hmem))
    cases rest with
    | nil =>
      rw [String.intercalate_singleton]
      exact hmember
    | cons second rest =>
      rw [String.intercalate_cons_cons, String.toList_append, String.toList_append]
      simp only [List.mem_append, not_or]
      exact ⟨⟨hmember, fun hmem => hdot (List.mem_singleton.mp hmem)⟩, ih hrest⟩

/-- A path in an expression is in quotes and has no quote of its own. -/
theorem quote_not_mem_path {path : List String} (h : ∀ s ∈ path, isIdentifier s.toList = true) :
    '\'' ∉ '$' :: '.' :: (String.intercalate "." path).toList := by
  simp only [List.mem_cons, not_or]
  exact ⟨by decide, by decide, not_mem_path (by decide) (by decide) h⟩

theorem dot_not_mem {s : String} (h : isIdentifier s.toList = true) : '.' ∉ s.toList :=
  fun hmem => absurd (isWordChar_of_isIdentifier h _ hmem) (by decide)

theorem member?_text {slot : Nat} {column first : String} {others : List String}
    (hcolumn : isIdentifier column.toList = true)
    (hpath : ∀ s ∈ first :: others, isIdentifier s.toList = true) {rest : List Char} :
    member? ((aliasName slot).toList ++ '.' :: (column.toList ++
      ',' :: ' ' :: '\'' :: (('$' :: '.' :: (String.intercalate "." (first :: others)).toList) ++
        '\'' :: ')' :: rest))) = some (⟨slot, column, first :: others⟩, rest) := by
  have hcomma : Ends (',' :: ' ' :: '\'' ::
      (('$' :: '.' :: (String.intercalate "." (first :: others)).toList) ++
        '\'' :: ')' :: rest)) := by
    intro d hd
    cases hd
    rfl
  have hname := column?_text (c := ⟨slot, column, first :: others⟩) hcolumn hcomma
  have hquoted := quoted?_append (quote_not_mem_path hpath) (')' :: rest)
  have hpieces := FieldPath.pieces_intercalate first others fun s hs => dot_not_mem (hpath s hs)
  rw [member?, hname]
  simp only [hquoted, hpieces, List.map_cons, List.map_map, String.ofList_toList]
  have hothers : others.map (String.ofList ∘ String.toList) = others := by
    rw [String.ofList_comp_toList, List.map_id]
  rw [hothers]

theorem token?_of_letter {c : Char} (hdigit : c.isDigit = false) (hword : isWordChar c = true)
    (cs : List Char) : token? (c :: cs) = worded? (c :: cs) := by
  rw [token?, hdigit, hword]
  rfl

theorem token?_keyword (k : Keyword) {rest : List Char} (hrest : Ends rest) :
    token? (k.text.toList ++ rest) = some (.word k, rest) := by
  have hchars : ∀ c ∈ k.text.toList, isWordChar c = true := by
    cases k <;> exact List.all_eq_true.mp rfl
  obtain ⟨hword, hafter⟩ := word_append hchars hrest
  have hworded : token? (k.text.toList ++ rest) = worded? (k.text.toList ++ rest) := by
    cases k <;> exact token?_of_letter rfl rfl _
  rw [hworded, worded?, hword, keyword?_text, hafter]

theorem aliasName_ne (slot : Nat) : (aliasName slot).toList ≠ "json_extract".toList := by
  intro h
  have hhead : "json_extract".toList.head? = some 't' := by
    rw [← h, toList_aliasName]
    rfl
  exact absurd hhead (by decide)

theorem worded?_aliasName (slot : Nat) {rest : List Char} (hrest : Ends rest) :
    worded? ((aliasName slot).toList ++ rest) =
      match column? ((aliasName slot).toList ++ rest) with
      | some (c, rest) => some (.column c, rest)
      | none => some (.tableAlias slot, rest) := by
  obtain ⟨hword, hafter⟩ := word_append (isWordChar_aliasName slot) hrest
  rw [worded?, hword, keyword?_aliasName, slot?_aliasName, hafter]
  simp only [if_neg (aliasName_ne slot)]

theorem column?_aliasName (slot : Nat) {rest : List Char}
    (hrest : ∀ c ∈ rest.head?, c = ' ' ∨ c = ')' ∨ c = ',' ∨ c = '(') :
    column? ((aliasName slot).toList ++ rest) = none := by
  obtain ⟨hword, hafter⟩ := word_append (isWordChar_aliasName slot) (ends_of_forall hrest)
  rw [column?, hword, hafter, slot?_aliasName]
  cases rest with
  | nil => rfl
  | cons c rest => rcases hrest c rfl with rfl | rfl | rfl | rfl <;> rfl

theorem token?_aliasName (slot : Nat) (rest : List Char) :
    token? ((aliasName slot).toList ++ rest) = worded? ((aliasName slot).toList ++ rest) := by
  rw [toList_aliasName]
  exact token?_of_letter rfl rfl _

theorem token?_column {c : ColumnRef} (hcolumn : isIdentifier c.column.toList = true)
    (hpath : ∀ s ∈ c.path, isIdentifier s.toList = true) {rest : List Char} (hrest : Ends rest) :
    token? (c.text.toList ++ rest) = some (.column c, rest) := by
  obtain ⟨slot, column, path⟩ := c
  cases path with
  | nil =>
    have htext : (ColumnRef.mk slot column []).text.toList ++ rest =
        (aliasName slot).toList ++ '.' :: (column.toList ++ rest) := by
      rw [ColumnRef.text, columnText]
      simp [String.toList_append]
    have hdot : Ends ('.' :: (column.toList ++ rest)) := by
      intro d hd
      cases hd
      rfl
    rw [htext, token?_aliasName, worded?_aliasName slot hdot, column?_text hcolumn hrest]
  | cons first others =>
    have htext : (ColumnRef.mk slot column (first :: others)).text.toList ++ rest =
        "json_extract".toList ++ '(' :: ((aliasName slot).toList ++ '.' :: (column.toList ++
          ',' :: ' ' :: '\'' :: (('$' :: '.' ::
            (String.intercalate "." (first :: others)).toList) ++ '\'' :: ')' :: rest))) := by
      rw [ColumnRef.text, columnText]
      simp [String.toList_append]
    have hopening : Ends ('(' :: ((aliasName slot).toList ++ '.' :: (column.toList ++
        ',' :: ' ' :: '\'' :: (('$' :: '.' ::
          (String.intercalate "." (first :: others)).toList) ++ '\'' :: ')' :: rest)))) := by
      intro d hd
      cases hd
      rfl
    obtain ⟨hword, hafter⟩ := word_append (w := "json_extract".toList)
      (List.all_eq_true.mp rfl) hopening
    have hkeyword : keyword? "json_extract".toList = none := by decide
    rw [htext]
    refine (token?_of_letter (c := 'j') rfl rfl _).trans ?_
    change worded? ("json_extract".toList ++ _) = _
    rw [worded?, hword, hkeyword, hafter]
    simp only [if_true, member?_text hcolumn hpath]
    rfl

theorem token?_number (n : Nat) {rest : List Char} (hrest : Ends rest) :
    token? ((toString n).toList ++ rest) = some (.number n, rest) := by
  have htext : (toString n).toList = Nat.toDigits 10 n := Nat.toList_repr
  have hdigits := isDigit_of_mem n
  obtain ⟨hword, hafter⟩ := word_append (fun c hc => isWordChar_of_isDigit (hdigits c hc)) hrest
  rw [htext]
  cases hn : Nat.toDigits 10 n with
  | nil => exact absurd hn Nat.toDigits_ne_nil
  | cons c cs =>
    rw [hn] at hdigits hword hafter
    rw [List.cons_append] at hword hafter ⊢
    rw [token?, hdigits c List.mem_cons_self, hword, hafter, ← hn, Nat.ofDigitChars_ten_toDigits]
    rfl

theorem isDigit_of_isAlpha {c : Char} (h : (c.isAlpha || c = '_') = true) : c.isDigit = false := by
  rw [Bool.or_eq_true, decide_eq_true_eq] at h
  obtain halpha | rfl := h
  · rw [← Bool.not_eq_true]
    intro hdigit
    have hnine : c.val ≤ '9'.val := of_decide_eq_true ((Bool.and_eq_true _ _).mp hdigit).2
    have hletter : 'A'.val ≤ c.val := by
      obtain hupper | hlower := (Bool.or_eq_true _ _).mp halpha
      · exact (of_decide_eq_true hupper : _ ∧ _).1
      · have hlow : 'a'.val ≤ c.val := of_decide_eq_true ((Bool.and_eq_true _ _).mp hlower).1
        exact UInt32.le_trans (by decide) hlow
    exact absurd (UInt32.le_trans hletter hnine) (by decide)
  · rfl

theorem token?_table {name : String} (h : Written (.table name)) {rest : List Char}
    (hrest : Ends rest) : token? (name.toList ++ rest) = some (.table name, rest) := by
  obtain ⟨hidentifier, hkeyword, hslot, hne⟩ := h
  have hletter : token? (name.toList ++ rest) = worded? (name.toList ++ rest) := by
    cases hname : name.toList with
    | nil =>
      rw [hname] at hidentifier
      cases hidentifier
    | cons c cs =>
      have hword : isWordChar c = true :=
        isWordChar_of_isIdentifier hidentifier c (hname ▸ List.mem_cons_self)
      rw [hname, isIdentifier, Bool.and_eq_true] at hidentifier
      exact token?_of_letter (isDigit_of_isAlpha hidentifier.1) hword _
  obtain ⟨hword, hafter⟩ := word_append (isWordChar_of_isIdentifier hidentifier) hrest
  have hextract : name.toList ≠ "json_extract".toList := fun heq =>
    hne (String.toList_injective heq)
  rw [hletter, worded?, hword, hkeyword, hafter, hslot]
  simp only [if_neg hextract, String.ofList_toList]

theorem token?_operator (c : Comparison) {rest : List Char}
    (hrest : ∀ d ∈ rest.head?, d = ' ' ∨ d = ')' ∨ d = ',' ∨ d = '(') :
    token? (c.sqlOperator.toList ++ rest) = some (.operator c, rest) := by
  cases rest with
  | nil => cases c <;> rfl
  | cons d rest => rcases hrest d rfl with rfl | rfl | rfl | rfl <;> cases c <;> rfl

/-- The text of a token is read as the token, whatever may follow it. -/
theorem token?_text {t : Token} (ht : Written t) {rest : List Char} (hrest : Follows t rest) :
    token? (t.text.toList ++ rest) = some (t, rest) := by
  obtain rfl | hrest := hrest
  · rfl
  have hends := ends_of_forall hrest
  cases t with
  | word k => exact token?_keyword k hends
  | column c => exact token?_column ht.1 ht.2 hends
  | parameter => rfl
  | number n => exact token?_number n hends
  | literal s =>
    have htext : (Token.literal s).text.toList ++ rest = '\'' :: (s.toList ++ '\'' :: rest) := by
      rw [Token.text]
      simp [String.toList_append]
    rw [htext]
    change (quoted? (s.toList ++ '\'' :: rest)).map _ = _
    rw [quoted?_append ht]
    change some (Token.literal (String.ofList s.toList), rest) = _
    rw [String.ofList_toList]
  | table name => exact token?_table ht hends
  | tableAlias slot =>
    change token? ((aliasName slot).toList ++ rest) = _
    rw [token?_aliasName, worded?_aliasName slot hends, column?_aliasName slot hrest]
  | operator c => exact token?_operator c hrest
  | opening => rfl
  | closing => rfl
  | comma => rfl

/-! ## Tokens in a row -/

theorem isWhitespace_of_isWordChar {c : Char} (h : isWordChar c = true) :
    c.isWhitespace = false := by
  rw [← Bool.not_eq_true]
  intro hblank
  simp only [Char.isWhitespace, Bool.or_eq_true, decide_eq_true_eq] at hblank
  rcases hblank with ((rfl | rfl) | rfl) | rfl <;> exact absurd h (by decide)

/-- Every token begins with a character that is no blank. -/
theorem text_eq_cons {t : Token} (ht : Written t) :
    ∃ c cs, t.text.toList = c :: cs ∧ c.isWhitespace = false := by
  cases t with
  | word k => cases k <;> exact ⟨_, _, rfl, rfl⟩
  | column c =>
    obtain ⟨slot, column, path⟩ := c
    cases path with
    | nil =>
      refine ⟨'t', Nat.toDigits 10 slot ++ '.' :: column.toList, ?_, rfl⟩
      rw [Token.text, ColumnRef.text, columnText]
      simp [String.toList_append, toList_aliasName]
    | cons first others =>
      rw [Token.text, ColumnRef.text, columnText]
      simp only [List.isEmpty_cons, Bool.false_eq_true, if_false, String.toList_append,
        List.append_assoc]
      exact ⟨'j', _, rfl, rfl⟩
  | number n =>
    have htext : (Token.number n).text.toList = Nat.toDigits 10 n := Nat.toList_repr
    cases hn : Nat.toDigits 10 n with
    | nil => exact absurd hn Nat.toDigits_ne_nil
    | cons c cs =>
      have hdigit : c.isDigit = true := isDigit_of_mem n c (hn ▸ List.mem_cons_self)
      exact ⟨c, cs, htext.trans hn, isWhitespace_of_isWordChar (isWordChar_of_isDigit hdigit)⟩
  | table name =>
    cases hname : name.toList with
    | nil =>
      have hidentifier := ht.1
      rw [hname] at hidentifier
      cases hidentifier
    | cons c cs =>
      have hword : isWordChar c = true :=
        isWordChar_of_isIdentifier ht.1 c (hname ▸ List.mem_cons_self)
      exact ⟨c, cs, hname, isWhitespace_of_isWordChar hword⟩
  | tableAlias slot => exact ⟨'t', _, toList_aliasName slot, rfl⟩
  | operator c => cases c <;> exact ⟨_, _, rfl, rfl⟩
  | literal s =>
    rw [Token.text, String.toList_append, String.toList_append, List.append_assoc]
    exact ⟨'\'', _, rfl, rfl⟩
  | _ => exact ⟨_, _, rfl, rfl⟩

theorem of_adjoins {t u : Token} (h : Token.adjoins t u = true) :
    t = .opening ∨ u = .closing ∨ u = .comma ∨ u = .opening := by
  unfold Token.adjoins at h
  split at h
  · exact .inl rfl
  · exact .inr (.inl rfl)
  · exact .inr (.inr (.inl rfl))
  · exact .inr (.inr (.inr rfl))
  · cases h

theorem follows_adjoining (t u : Token) (rest : List Char) :
    Follows t ((if Token.adjoins t u then "" else " ").toList ++ (u.text.toList ++ rest)) := by
  cases hadjoins : Token.adjoins t u with
  | true =>
    obtain rfl | rfl | rfl | rfl := of_adjoins hadjoins
    · exact .inl rfl
    · exact .inr fun c hc => .inr (.inl (Option.some.inj hc).symm)
    · exact .inr fun c hc => .inr (.inr (.inl (Option.some.inj hc).symm))
    · exact .inr fun c hc => .inr (.inr (.inr (Option.some.inj hc).symm))
  | false => exact .inr fun c hc => .inl (Option.some.inj hc).symm

theorem rowText_cons (t : Token) (ts : List Token) :
    ∃ rest, (Token.rowText (t :: ts)).toList = t.text.toList ++ rest := by
  cases ts with
  | nil => exact ⟨[], (List.append_nil _).symm⟩
  | cons u ts =>
    rw [Token.rowText, String.toList_append, String.toList_append, List.append_assoc]
    exact ⟨_, rfl⟩

theorem tokensOf?_separator (separated : Bool) (fuel : Nat) (cs : List Char) :
    tokensOf? fuel ((if separated then "" else " ").toList ++ cs) = tokensOf? fuel cs := by
  cases separated with
  | true => rfl
  | false => cases fuel <;> rfl

theorem tokensOf?_text {t : Token} (ht : Written t) {rest : List Char} (hrest : Follows t rest)
    (fuel : Nat) : tokensOf? (fuel + 1) (t.text.toList ++ rest) =
      (tokensOf? fuel rest).map (t :: ·) := by
  obtain ⟨c, cs, htext, hblank⟩ := text_eq_cons ht
  have hread := token?_text ht hrest
  rw [htext, List.cons_append] at hread ⊢
  rw [tokensOf?, List.dropWhile_cons_of_neg (ne_true_of_eq_false hblank)]
  simp only [List.isEmpty_cons, Bool.false_eq_true, if_false, hread, Option.bind_some]

theorem tokensOf?_rowText {ts : List Token} :
    ∀ {fuel : Nat}, (∀ t ∈ ts, Written t) → ts.length < fuel →
      tokensOf? fuel (Token.rowText ts).toList = some ts := by
  induction ts with
  | nil =>
    intro fuel _ hfuel
    obtain ⟨fuel, rfl⟩ := Nat.exists_eq_succ_of_ne_zero (Nat.ne_of_gt hfuel)
    rfl
  | cons t ts ih =>
    intro fuel hts hfuel
    obtain ⟨ht, hts⟩ := List.forall_mem_cons.mp hts
    obtain ⟨fuel, rfl⟩ := Nat.exists_eq_succ_of_ne_zero (Nat.ne_of_gt (Nat.zero_lt_of_lt hfuel))
    have htail := ih hts (Nat.lt_of_succ_lt_succ hfuel)
    cases ts with
    | nil =>
      have hend : Follows t [] := .inr fun c hc => by cases hc
      rw [Token.rowText, ← List.append_nil t.text.toList, tokensOf?_text ht hend]
      exact congrArg (Option.map (t :: ·)) htail
    | cons u rest =>
      -- What follows the token is decided by the next token alone.
      obtain ⟨more, hmore⟩ := rowText_cons u rest
      have hfollows := follows_adjoining t u more
      rw [← hmore] at hfollows
      rw [Token.rowText, String.toList_append, String.toList_append, List.append_assoc,
        tokensOf?_text ht hfollows, tokensOf?_separator, htail]
      rfl

theorem length_le_rowText {ts : List Token} (h : ∀ t ∈ ts, Written t) :
    ts.length ≤ (Token.rowText ts).toList.length := by
  induction ts with
  | nil => exact Nat.zero_le _
  | cons t ts ih =>
    obtain ⟨ht, hts⟩ := List.forall_mem_cons.mp h
    obtain ⟨c, cs, htext, _⟩ := text_eq_cons ht
    have htail := ih hts
    cases ts with
    | nil =>
      rw [Token.rowText, htext]
      simp
    | cons u rest =>
      rw [Token.rowText, String.toList_append, String.toList_append, htext]
      simp only [List.length_append, List.length_cons] at htail ⊢
      omega

end Lexer

/-- The text of tokens is taken apart into the tokens. -/
theorem tokens?_rowText {ts : List Token} (h : ∀ t ∈ ts, Lexer.Written t) :
    tokens? (Token.rowText ts) = some ts :=
  Lexer.tokensOf?_rowText h (Nat.lt_succ_of_le (Lexer.length_le_rowText h))

end Sql
end AccessPolicy

/-
Files that assign environment variables.

Such a file is first cut into entries, because a quoted value may run over
several lines, and each entry then assigns one variable or none.  Variables are
taken over one by one, so those before the first entry at fault count.
-/
import AccessPolicy.Blank

namespace AccessPolicy
namespace EnvironmentFile

/-! ## Entries -/

inductive Quote where
  | strong
  | weak
deriving DecidableEq, Repr

/-- Where the end of a line is met: outside of quotes, in them or after a
backslash.  A comment starts after a blank only. -/
inductive Place where
  | plain
  | escaped
  | blank
  | quoted (quote : Quote)
  | quotedEscaped (quote : Quote)
deriving DecidableEq, Repr

namespace Place

def opened (c : Char) : Place :=
  if c = '\\' then escaped
  else if c = '"' then quoted .weak
  else if c = '\'' then quoted .strong
  else plain

def closes : Quote → Char → Bool
  | .strong, c => c = '\''
  | .weak, c => c = '"'

/-- The place after a character, unless the character starts a comment. -/
def next : Place → Char → Option Place
  | plain, c =>
    if isBlank c && c != '\n' && c != '\r' then some blank else some (opened c)
  | blank, c => if c = '#' then none else some (opened c)
  | escaped, _ => some plain
  | quoted q, c =>
    if c = '\\' then some (quotedEscaped q)
    else if closes q c then some plain else some (quoted q)
  | quotedEscaped q, _ => some (quoted q)

end Place

/-- The place at the end of a line, or the part of the line before a comment. -/
def scan : Place → List Char → List Char → Place ⊕ List Char
  | p, _, [] => .inl p
  | p, seen, c :: rest =>
    match p.next c with
    | some p => scan p (c :: seen) rest
    | none => .inr seen.reverse

/-- The lines of a text, each with its end. -/
def linesOf (cs : List Char) : List (List Char) :=
  let (line, lines) := cs.foldr (fun c (line, lines) =>
    if c = '\n' then (['\n'], if line.isEmpty then lines else line :: lines)
    else (c :: line, lines)) ([], [])
  if line.isEmpty then lines else line :: lines

/-- A line without its end. -/
def chomped (cs : List Char) : List Char :=
  match cs.reverse with
  | '\n' :: '\r' :: rest => rest.reverse
  | '\n' :: rest => rest.reverse
  | _ => cs

/-- The entries of the lines, where `held` is the part of an entry that the lines
before have left open.  An entry that stays open is at fault. -/
def entries : Place → List Char → List (List Char) → List (Option (List Char))
  | p, _, [] => if p = .plain then [] else [none]
  | p, held, line :: rest =>
    let all := held ++ line
    if (afterBlanks all).head? = some '#' then some [] :: entries .plain [] rest
    else
      match scan p [] line with
      | .inr before => some (held ++ before) :: entries .plain [] rest
      | .inl .plain => some (chomped all) :: entries .plain [] rest
      | .inl p => entries p all rest

/-! ## Values -/

/-- A name whose value is being filled in, with its characters in reverse. -/
inductive Name where
  | bare (reversed : List Char)
  | braced (reversed : List Char)
deriving DecidableEq, Repr

structure ValueState where
  output : List Char
  quote : Option Quote
  escaped : Bool
  closed : Bool
  name : Option Name
deriving DecidableEq, Repr

namespace ValueState

def start : ValueState := ⟨[], none, false, false, none⟩

def push (s : ValueState) (c : Char) : ValueState := { s with output := c :: s.output }

/-- Appends the value of a variable, or nothing where it has none. -/
def fill (s : ValueState) (environment : String → Option String) (reversed : List Char) :
    ValueState :=
  let value := (environment (String.ofList reversed.reverse)).getD ""
  { s with output := value.toList.reverse ++ s.output, name := none }

/-- Characters of a name.  Those beyond ASCII count as letters. -/
def isNameChar (c : Char) : Bool := c.isAlphanum || 128 ≤ c.toNat

/-- Takes a character while a name is being read.  The character after a bare
name is taken as it is, unless it starts another one. -/
def named (s : ValueState) (environment : String → Option String) (c : Char) : Name → ValueState
  | .bare reversed =>
    if isNameChar c then { s with name := some (.bare (c :: reversed)) }
    else if c = '{' ∧ reversed = [] then { s with name := some (.braced []) }
    else
      let s := s.fill environment reversed
      if c = '$' then { s with name := some (.bare []) } else s.push c
  | .braced reversed =>
    if c = '}' then s.fill environment reversed
    else { s with name := some (.braced (c :: reversed)) }

/-- Takes a character, unless it cannot stand here. -/
def next? (s : ValueState) (environment : String → Option String) (c : Char) : Option ValueState :=
  if s.closed then if c = ' ' ∨ c = '\t' then some s else none
  else if s.escaped then
    let s := { s with escaped := false }
    if ['\\', '\'', '"', '$', ' '].contains c then some (s.push c)
    else if c = 'n' then some (s.push '\n') else none
  else if s.quote = some .strong then
    if c = '\'' then some { s with quote := none } else some (s.push c)
  else
    match s.name with
    | some name => some (s.named environment c name)
    | none =>
      if c = '$' then some { s with name := some (.bare []) }
      else if c = '\\' then some { s with escaped := true }
      else if s.quote = some .weak then
        if c = '"' then some { s with quote := none } else some (s.push c)
      else if c = '\'' then some { s with quote := some .strong }
      else if c = '"' then some { s with quote := some .weak }
      else if c = ' ' ∨ c = '\t' then some { s with closed := true }
      else some (s.push c)

/-- The value at the end of its text.  Quotes and braces have to be closed. -/
def finish? (s : ValueState) (environment : String → Option String) : Option String :=
  if s.quote.isSome then none
  else
    match s.name with
    | some (.braced _) => none
    | some (.bare reversed) => some (String.ofList (s.fill environment reversed).output.reverse)
    | none => some (String.ofList s.output.reverse)

end ValueState

/-- The value that is written as a text.  After a blank outside of quotes only
blanks and a comment may follow. -/
def value? (environment : String → Option String) : ValueState → List Char → Option String
  | s, [] => s.finish? environment
  | s, c :: rest =>
    if s.closed ∧ c = '#' then s.finish? environment
    else (s.next? environment c).bind fun s => value? environment s rest

/-! ## Assignments -/

/-- The name at the front of a text, and the rest. -/
def key? (cs : List Char) : Option (String × List Char) :=
  match cs with
  | c :: _ =>
    if c.isAlpha || c = '_' then
      let isKeyChar (c : Char) : Bool := c.isAlphanum || c = '_' || c = '.'
      some (String.ofList (cs.takeWhile isKeyChar), cs.dropWhile isKeyChar)
    else none
  | [] => none

/-- The text after an equals sign, blanks before and after it aside. -/
def afterEquals? (cs : List Char) : Option (List Char) :=
  match afterBlanks cs with
  | '=' :: rest => some (afterBlanks rest)
  | _ => none

/-- The name that an entry assigns to and the text of the value.  The word
`export` may stand before the name and may also be one. -/
def split? (cs : List Char) : Option (String × List Char) :=
  match key? cs with
  | none => none
  | some (key, rest) =>
    match afterEquals? rest with
    | some value => some (key, value)
    | none =>
      if key = "export" then
        (key? (afterBlanks rest)).bind fun (key, rest) =>
          (afterEquals? rest).map fun value => (key, value)
      else none

/-- What an entry assigns.  An empty entry and a comment assign nothing, and an
entry at fault has no answer. -/
def assignment? (environment : String → Option String) (entry : List Char) :
    Option (Option (String × String)) :=
  match afterBlanks (beforeBlanks entry) with
  | [] => some none
  | '#' :: _ => some none
  | cs =>
    match split? cs with
    | none => none
    | some (key, []) => some (some (key, ""))
    | some (key, '#' :: _) => some (some (key, ""))
    | some (key, text) => (value? environment .start text).map fun v => some (key, v)

/-- The variables of a text in addition to those that are set already, which keep
their values. -/
def extend (set : List (String × String)) : List (Option (List Char)) → List (String × String)
  | [] => set
  | none :: _ => set
  | some entry :: rest =>
    match assignment? (fun name => set.lookup name) entry with
    | none => set
    | some none => extend set rest
    | some (some (key, value)) =>
      if (set.lookup key).isSome then extend set rest else extend (set ++ [(key, value)]) rest

/-- The environment after a file was taken over.  A byte order mark in front is
not looked at. -/
def load (set : List (String × String)) (text : String) : List (String × String) :=
  let cs := match text.toList with
    | '\ufeff' :: rest => rest
    | cs => cs
  extend set (entries .plain [] (linesOf cs))

end EnvironmentFile
end AccessPolicy

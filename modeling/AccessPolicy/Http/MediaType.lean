/-
Media types of message bodies.
-/

namespace AccessPolicy
namespace Http

/-- The characters of a token in a header. -/
def isTokenChar (c : Char) : Bool :=
  c.isAlphanum || "!#$%&'*+-.^_|~\x60".toList.contains c

/-- A media type such as `application/vnd.api+json`, in lower case.  What stands
after the last plus of the second part is its suffix. -/
structure MediaType where
  type : String
  subtype : String
  suffix : Option String
deriving DecidableEq, Repr

namespace MediaType

/-! ## Parameters -/

/-- Where in the parameters a reader is. -/
inductive Place where
  | before
  | name
  | valueStart
  | value
  | quotedStart
  | quoted
  | after

/-- Whether the text from a place on is a rest of parameters.  Parameters have
the form `name=value`, the value may stand in quotes, and blanks are allowed
before a parameter and after closing quotes.  Quotes enclose at least one
character. -/
def parameters : Place → List Char → Bool
  | .before, [] => true
  | .before, c :: rest =>
    if c = ' ' then parameters .before rest else isTokenChar c && parameters .name rest
  | .name, [] => false
  | .name, c :: rest =>
    if c = '=' then parameters .valueStart rest else isTokenChar c && parameters .name rest
  | .valueStart, [] => true
  | .valueStart, c :: rest =>
    if c = '"' then parameters .quotedStart rest else isTokenChar c && parameters .value rest
  | .value, [] => true
  | .value, c :: rest =>
    if c = ';' then parameters .before rest else isTokenChar c && parameters .value rest
  | .quotedStart, [] => false
  | .quotedStart, c :: rest => 31 < c.toNat && c.toNat != 127 && parameters .quoted rest
  | .quoted, [] => false
  | .quoted, c :: rest =>
    if c = '"' then parameters .after rest
    else 31 < c.toNat && c.toNat != 127 && parameters .quoted rest
  | .after, [] => true
  | .after, c :: rest =>
    if c = ';' then parameters .before rest else c == ' ' && parameters .after rest

/-! ## Reading -/

/-- The parts before and after the last plus that does not come first. -/
def splitSuffix (cs : List Char) : List Char × Option (List Char) :=
  let suffix := (cs.reverse.takeWhile (· != '+')).reverse
  let before := cs.take (cs.length - suffix.length - 1)
  if before.isEmpty then (cs, none) else (before, some suffix)

def lower (cs : List Char) : String := String.ofList (cs.map Char.toLower)

/-- The media type of a header value. -/
def ofText? (text : String) : Option MediaType :=
  let cs := text.toList
  let type := cs.takeWhile isTokenChar
  match type.isEmpty, cs.dropWhile isTokenChar with
  | false, '/' :: rest =>
    let name := rest.takeWhile isTokenChar
    let (subtype, suffix) := splitSuffix name
    let result : MediaType := ⟨lower type, lower subtype, suffix.map lower⟩
    match rest.dropWhile isTokenChar with
    | [] => some result
    | ';' :: rest =>
      if !name.isEmpty && parameters .before rest then some result else none
    | _ => none
  | _, _ => none

/-- The type is JSON or a format built on it. -/
def isJson (m : MediaType) : Bool :=
  m.type == "application" && (m.subtype == "json" || m.suffix == some "json")

end MediaType
end Http
end AccessPolicy

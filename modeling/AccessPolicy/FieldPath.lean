/-
Dotted attribute paths such as `content.team`.

Every segment is an identifier of ASCII letters, digits and underscores.  That
also makes a path safe to write into a query, so the property is part of the
type.
-/
import AccessPolicy.ConfigurationError
import AccessPolicy.Json

namespace AccessPolicy

/-- A letter or underscore followed by letters, digits and underscores. -/
def isIdentifier : List Char → Bool
  | [] => false
  | c :: rest => (c.isAlpha || c = '_') && rest.all fun d => d.isAlphanum || d = '_'

/-- A path is its first segment and the segments below it. -/
structure FieldPath where
  root : String
  nested : List String
  identifiers : (root :: nested).all (fun s => isIdentifier s.toList) = true
deriving DecidableEq

namespace FieldPath

/-- The characters up to the first dot, and the pieces between the dots after
it. -/
def pieces : List Char → List Char × List (List Char)
  | [] => ([], [])
  | c :: rest =>
    let (first, others) := pieces rest
    if c = '.' then ([], first :: others) else (c :: first, others)

def ofPieces? (first : List Char) (others : List (List Char)) : Option FieldPath :=
  if h : (first :: others).all isIdentifier = true then
    some ⟨String.ofList first, others.map String.ofList, by
      simpa [List.all_map, Function.comp_def, String.toList_ofList] using h⟩
  else none

/-- The path of a text, or the text as an invalid path. -/
def parse (text : String) : Except ConfigurationError FieldPath :=
  let (first, others) := pieces text.toList
  match ofPieces? first others with
  | some path => .ok path
  | none => .error (.invalidFieldPath text)

def segments (path : FieldPath) : List String := path.root :: path.nested

def text (path : FieldPath) : String := String.intercalate "." path.segments

/-- Descends into members one key at a time. -/
def descend : List String → Json → Option Json
  | [], v => some v
  | key :: rest, v => (v.get? key).bind (descend rest)

/-- The value at the path, if every level is an object with the key. -/
def resolve (path : FieldPath) (v : Json) : Option Json := descend path.segments v

theorem descend_append (as bs : List String) (v : Json) :
    descend (as ++ bs) v = (descend as v).bind (descend bs) := by
  induction as generalizing v with
  | nil => rfl
  | cons key rest ih =>
    simp only [List.cons_append, descend]
    cases v.get? key with
    | none => rfl
    | some w => simp [ih]

end FieldPath
end AccessPolicy

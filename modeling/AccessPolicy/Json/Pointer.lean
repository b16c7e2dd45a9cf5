/-
JSON pointers: paths of member keys and array indices, each after a slash.
-/
import AccessPolicy.Digits
import AccessPolicy.Json

namespace AccessPolicy
namespace Json
namespace Pointer

/-- The steps of a pointer: the empty pointer has none, and any other starts
with a slash. -/
def steps? : List Char → Option (List (List Char))
  | [] => some []
  | c :: rest => if c = '/' then some (split rest) else none
where
  split : List Char → List (List Char)
    | [] => [[]]
    | c :: rest =>
      match split rest with
      | [] => []
      | step :: others => if c = '/' then [] :: step :: others else (c :: step) :: others

/-- Reads `~1` as a slash and `~0` as a tilde. -/
def unescape : List Char → List Char
  | '~' :: '1' :: rest => '/' :: unescape rest
  | '~' :: '0' :: rest => '~' :: unescape rest
  | c :: rest => c :: unescape rest
  | [] => []

/-- An index has no leading zeros. -/
def index? : List Char → Option Nat
  | '0' :: _ :: _ => none
  | cs => Digits.natural? cs

def descend : List (List Char) → Json → Option Json
  | [], v => some v
  | step :: rest, .object members =>
    ((Json.object members).get? (String.ofList (unescape step))).bind (descend rest)
  | step :: rest, .array items =>
    ((index? (unescape step)).bind fun i => items[i]?).bind (descend rest)
  | _ :: _, _ => none

end Pointer

/-- The value that a pointer leads to. -/
def atPointer? (v : Json) (pointer : String) : Option Json :=
  (Pointer.steps? pointer.toList).bind fun steps => Pointer.descend steps v

end Json
end AccessPolicy

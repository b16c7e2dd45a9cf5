/-
Where a store is kept.

A URL names a file or the memory of the process, and its parameters say how the
store is opened.
-/
import AccessPolicy.Digits

namespace AccessPolicy
namespace Database

/-- How a store is opened.  One that is only read is not created either. -/
structure Access where
  readOnly : Bool
  create : Bool
  inMemory : Bool
deriving DecidableEq, Repr

/-- The name of the file, and how it is opened. -/
structure Location where
  file : String
  access : Access
deriving DecidableEq, Repr

namespace Location

/-! ## Escapes -/

/-- The bytes of a text in which `%` and two hexadecimal digits stand for one. -/
def unescapedBytes : List UInt8 → List UInt8
  | [] => []
  | b :: hi :: lo :: rest =>
    if b = 37 then
      match Digits.hexValue? (Char.ofNat hi.toNat), Digits.hexValue? (Char.ofNat lo.toNat) with
      | some h, some l => UInt8.ofNat (h * 16 + l) :: unescapedBytes rest
      | _, _ => b :: unescapedBytes (hi :: lo :: rest)
    else b :: unescapedBytes (hi :: lo :: rest)
  | b :: rest => b :: unescapedBytes rest

/-- The text with its escapes replaced, if that gives a text. -/
def unescaped? (s : String) : Option String :=
  String.fromUTF8? ⟨(unescapedBytes s.toUTF8.toList).toArray⟩

/-! ## Parameters -/

/-- A parameter with its name and value, where a plus stands for a blank. -/
def parameter? (s : String) : Option (String × String) :=
  let cs := s.toList.map fun c => if c = '+' then ' ' else c
  let name := cs.takeWhile (· != '=')
  (unescaped? (String.ofList name)).bind fun key =>
    (unescaped? (String.ofList (cs.drop (name.length + 1)))).map fun value => (key, value)

/-- The access that a parameter asks for, if it is known. -/
def adjust? (a : Access) : String × String → Option Access
  | ("mode", "ro") => some { a with readOnly := true }
  | ("mode", "rw") => some a
  | ("mode", "rwc") => some { a with create := true }
  | ("mode", "memory") => some { a with inMemory := true }
  | ("cache", "private") => some a
  | ("cache", "shared") => some a
  | ("immutable", "true") => some { a with readOnly := true }
  | ("immutable", "1") => some { a with readOnly := true }
  | ("immutable", "false") => some a
  | ("immutable", "0") => some a
  | _ => none

def adjustAll? (a : Access) : List String → Option Access
  | [] => some a
  | s :: rest =>
    if s.isEmpty then adjustAll? a rest
    else ((parameter? s).bind (adjust? a)).bind fun a => adjustAll? a rest

/-! ## URLs -/

/-- A text without any number of copies of another in front. -/
def withoutFront (front : List Char) (cs : List Char) : List Char :=
  if _h : front ≠ [] ∧ front.isPrefixOf cs then withoutFront front (cs.drop front.length) else cs
termination_by cs.length
decreasing_by
  obtain ⟨hne, hp⟩ := _h
  have hle := (List.isPrefixOf_iff_prefix.mp hp).length_le
  have hpos := List.length_pos_iff.mpr hne
  simp only [List.length_drop]
  omega

/-- The location that a URL names.  The scheme may be left out, and a plain name
is one of a file that is there. -/
def ofUrl? (url : String) : Option Location :=
  let cs := withoutFront "sqlite:".toList (withoutFront "sqlite://".toList url.toList)
  let name := String.ofList (cs.takeWhile (· != '?'))
  let parameters := String.ofList ((cs.dropWhile (· != '?')).drop 1)
  let memory := name == ":memory:"
  let file? := if memory then some name else unescaped? name
  file?.bind fun file =>
    if file.toList.contains '\x00' then none
    else
      (adjustAll? ⟨false, false, memory⟩ (parameters.splitOn "&")).map fun access => ⟨file, access⟩

/-- A store without a file is gone when it is closed. -/
def isTransient (l : Location) : Bool := l.access.inMemory || l.file.isEmpty

end Location
end Database
end AccessPolicy

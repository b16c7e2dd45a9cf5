/-
Identifiers of stored records.
-/
import AccessPolicy.Digits

namespace AccessPolicy

/-- A 128-bit identifier. -/
structure Uuid where
  value : Nat
deriving DecidableEq, Repr

namespace Uuid

/-- The hexadecimal digits of a number, most significant first, padded to a
width. -/
def hexDigits : Nat → Nat → List Char
  | 0, _ => []
  | width + 1, n => hexDigits width (n / 16) ++ [Nat.digitChar (n % 16)]

/-- Five groups of digits joined by hyphens. -/
def text (u : Uuid) : String :=
  let d := hexDigits 32 u.value
  String.ofList (d.take 8 ++ '-' :: (d.drop 8).take 4 ++ '-' :: (d.drop 12).take 4 ++
    '-' :: (d.drop 16).take 4 ++ '-' :: d.drop 20)

/-- Thirty-two digits without separators. -/
def ofDigits? (cs : List Char) : Option Uuid :=
  if cs.length = 32 then
    (cs.foldlM (fun n c => (Digits.hexValue? c).map (n * 16 + ·)) 0).map Uuid.mk
  else none

/-- Digits in five groups joined by hyphens. -/
def ofGroups? (cs : List Char) : Option Uuid :=
  if cs.length = 36 ∧ [8, 13, 18, 23].all (fun i => cs[i]? = some '-') then
    ofDigits? (cs.take 8 ++ (cs.drop 9).take 4 ++ (cs.drop 14).take 4 ++
      (cs.drop 19).take 4 ++ cs.drop 24)
  else none

/-- An identifier is read with hyphens or without, and with hyphens also in
braces or as a URN. -/
def ofText? (text : String) : Option Uuid :=
  let cs := text.toList
  match ofDigits? cs with
  | some u => some u
  | none =>
    match cs with
    | '\x7b' :: rest =>
      if cs.getLast? = some '\x7d' then ofGroups? rest.dropLast else none
    | 'u' :: 'r' :: 'n' :: ':' :: 'u' :: 'u' :: 'i' :: 'd' :: ':' :: rest => ofGroups? rest
    | _ => ofGroups? cs

/-- The identifier handed out after `n` others: `n` below the bits that mark a
random identifier. -/
def issued (n : Nat) : Uuid := ⟨0x40008000000000000000 + n⟩

theorem issued_injective {m n : Nat} (h : issued m = issued n) : m = n := by
  simpa [issued] using h

end Uuid
end AccessPolicy

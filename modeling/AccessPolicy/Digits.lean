/-
Digits and the numbers that rows of them stand for.
-/

namespace AccessPolicy
namespace Digits

def value (c : Char) : Nat := c.toNat - '0'.toNat

/-- The value of a hexadecimal digit in either case. -/
def hexValue? (c : Char) : Option Nat :=
  if c.isDigit then some (value c)
  else if 'a' ≤ c ∧ c ≤ 'f' then some (c.toNat - 'a'.toNat + 10)
  else if 'A' ≤ c ∧ c ≤ 'F' then some (c.toNat - 'A'.toNat + 10)
  else none

/-- The number of digits read from the most significant one on. -/
def decimal (ds : List Nat) : Nat := ds.foldl (fun n d => n * 10 + d) 0

/-- The digits at the front of a text. -/
def leading (cs : List Char) : List Nat := (cs.takeWhile Char.isDigit).map value

/-- The characters after the digits at the front of a text. -/
def after (cs : List Char) : List Char := cs.dropWhile Char.isDigit

/-- The number of a text that consists of ASCII digits, at least one. -/
def natural? (cs : List Char) : Option Nat :=
  if !cs.isEmpty && (after cs).isEmpty then some (decimal (leading cs)) else none

end Digits
end AccessPolicy

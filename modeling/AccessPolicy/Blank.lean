/-
Blank characters, and texts without those at an end.
-/
namespace AccessPolicy

/-- Characters that count as blank: those with the Unicode property White_Space. -/
def isBlank (c : Char) : Bool :=
  let n := c.toNat
  (9 ≤ n && n ≤ 13) || (0x2000 ≤ n && n ≤ 0x200A) ||
    [0x20, 0x85, 0xA0, 0x1680, 0x2028, 0x2029, 0x202F, 0x205F, 0x3000].contains n

/-- A text without the blanks at its front. -/
def afterBlanks (cs : List Char) : List Char := cs.dropWhile isBlank

/-- A text without the blanks at its end. -/
def beforeBlanks (cs : List Char) : List Char := (cs.reverse.dropWhile isBlank).reverse

end AccessPolicy

/-
Finite double-precision numbers in exact integer arithmetic.

A finite double is a whole number of units of `2 ^ -1074`, the spacing of the
smallest doubles.  Keeping the count of units makes an order of doubles an order
of integers, and makes each rounding step one division of naturals, so nothing
here rests on machine arithmetic.
-/

namespace AccessPolicy

/-- A finite double: its sign and its magnitude in units of `2 ^ -1074`.  The
sign is kept for zero as well, because the two zeros are written differently. -/
structure Binary64 where
  negative : Bool
  units : Nat
deriving DecidableEq, Repr

namespace Binary64

/-! ## Units and rounding -/

/-- The number of units in one. -/
def unitsPerOne : Nat := Nat.pow 2 1074

/-- Magnitudes from here on are beyond the largest double. -/
def unitsLimit : Nat := Nat.pow 2 2098

/-- The distance between neighbouring doubles near `u` units: one unit while 53
bits hold the count, and the weight of the lowest of 53 bits above that. -/
def spacing (u : Nat) : Nat := Nat.pow 2 (Nat.log2 u - 52)

/-- The multiple of the local spacing nearest to `num / den` units, a tie going
to the even multiple. -/
def roundQuotient (num den : Nat) : Nat :=
  let gap := spacing (num / den)
  let step := gap * den
  let low := num / step
  let twice := 2 * (num % step)
  if step < twice ∨ (twice = step ∧ low % 2 = 1) then (low + 1) * gap else low * gap

/-- Rounding that refuses magnitudes no double reaches. -/
def nearest? (num den : Nat) : Option Nat :=
  let units := roundQuotient num den
  if units < unitsLimit then some units else none

/-- The double nearest to an integer of at most 64 bits. -/
def ofInt (n : Int) : Binary64 :=
  ⟨decide (n < 0), roundQuotient (n.natAbs * unitsPerOne) 1⟩

/-- The signed number of units.  Both zeros have the value zero. -/
def value (x : Binary64) : Int :=
  if x.negative then -(x.units : Int) else (x.units : Int)

def neg (x : Binary64) : Binary64 := { x with negative := !x.negative }

/-! ## Reading a decimal

A decimal is read the fast way: its significand becomes the nearest double,
which is then multiplied or divided by the double nearest to the power of ten.
Each of the steps rounds, so the result can be a neighbour of the nearest
double when the significand has more than fifteen digits. -/

def mul? (a b : Nat) : Option Nat := nearest? (a * b) unitsPerOne

def div (a b : Nat) : Nat := roundQuotient (a * unitsPerOne) b

/-- The magnitude of the double nearest to `10 ^ e`. -/
def powerOfTen (e : Nat) : Nat := roundQuotient (Nat.pow 10 e * unitsPerOne) 1

/-- The largest power of ten that is a finite double. -/
def maxPower : Nat := 308

/-- Division by `10 ^ e` in steps of the largest power.  Three full steps take
every 64-bit significand to zero, so further ones need not be made. -/
def scaleDown (u e : Nat) : Nat :=
  let steps := (e - 1) / maxPower
  let reduced := Nat.repeat (fun v => div v (powerOfTen maxPower)) (min steps 3) u
  div reduced (powerOfTen (e - steps * maxPower))

/-- The double read from `significand * 10 ^ exponent`, if it is finite. -/
def ofDecimal? (negative : Bool) (significand : Nat) (exponent : Int) : Option Binary64 :=
  let u := roundQuotient (significand * unitsPerOne) 1
  match exponent with
  | .ofNat e =>
    if e ≤ maxPower then (mul? u (powerOfTen e)).map (⟨negative, ·⟩)
    else if u = 0 then some ⟨negative, 0⟩ else none
  | .negSucc e => some ⟨negative, scaleDown u (e + 1)⟩

/-! ## Shortest decimal -/

/-- A decimal `digits * 10 ^ exponent`. -/
structure Decimal where
  digits : Nat
  exponent : Int
deriving DecidableEq, Repr

/-- The number of decimal digits of a natural, none for zero. -/
def decimalLength (n : Nat) : Nat := if n = 0 then 0 else (Nat.toDigits 10 n).length

/-- The `e` with `10 ^ (e - 1) ≤ num / den < 10 ^ e`, for a positive quotient. -/
def pointPosition (num den : Nat) : Int :=
  if den ≤ num then (decimalLength (num / den) : Int)
  else 1 - (decimalLength ((den - 1) / num) : Int)

/-- `num / den * 10 ^ e` as a fraction. -/
def shifted (num den : Nat) (e : Int) : Nat × Nat :=
  match e with
  | .ofNat k => (num * Nat.pow 10 k, den)
  | .negSucc k => (num, den * Nat.pow 10 (k + 1))

/-- Whether a decimal reads back as the double of `u` units under rounding to
nearest: it lies between the midpoints to the neighbours, the midpoints
included when the last of the 53 bits is even. -/
def readsBack (u : Nat) (d : Decimal) : Bool :=
  let gap := spacing u
  let mantissa := u / gap
  let below := if mantissa = Nat.pow 2 52 ∧ 1 < gap then gap else 2 * gap
  let (num, den) := shifted (d.digits * unitsPerOne) 1 d.exponent
  let x := 4 * num
  let low := (4 * u - below) * den
  let high := (4 * u + 2 * gap) * den
  if mantissa % 2 = 0 then low ≤ x && x ≤ high else low < x && x < high

/-- The distance of a decimal from `u` units, over the denominator that all
decimals of one exponent share. -/
def distance (u : Nat) (d : Decimal) : Nat :=
  let (num, den) := shifted (d.digits * unitsPerOne) 1 d.exponent
  (num - u * den) + (u * den - num)

/-- The better of the two neighbours of `u` units on the grid of decimals with
`n` digits, if one of them reads back. -/
def bestOfLength? (u n : Nat) : Option Decimal :=
  let exponent := pointPosition u unitsPerOne - n
  let (num, den) := shifted u unitsPerOne (-exponent)
  let low : Decimal := ⟨num / den, exponent⟩
  let high : Decimal := ⟨num / den + 1, exponent⟩
  match readsBack u low, readsBack u high with
  | true, true =>
    if distance u low < distance u high then some low
    else if distance u high < distance u low then some high
    else if low.digits % 2 = 0 then some low else some high
  | true, false => some low
  | false, true => some high
  | false, false => none

/-- The decimal of fewest digits that reads back as `u` units.  Seventeen digits
always do. -/
def shortest (u : Nat) : Decimal :=
  if u = 0 then ⟨0, 0⟩
  else ((List.range 17).findSome? fun n => bestOfLength? u (n + 1)).getD ⟨0, 0⟩

/-! ## Written form -/

/-- How doubles are written: the scientific exponents that are written out in
positions.  Everything else has one digit before the point and an exponent with
its sign, and a whole number keeps the fraction `.0`. -/
structure Style where
  leastPositional : Int
  mostPositional : Int

def style : Style := ⟨-5, 15⟩

def dropTrailingZeros (cs : List Char) : List Char := (cs.reverse.dropWhile (· = '0')).reverse

def positional (cs : List Char) (point : Int) : List Char :=
  match point with
  | .ofNat k =>
    if cs.length ≤ k then cs ++ List.replicate (k - cs.length) '0' ++ ['.', '0']
    else if k = 0 then '0' :: '.' :: cs
    else cs.take k ++ '.' :: cs.drop k
  | .negSucc k => '0' :: '.' :: (List.replicate (k + 1) '0' ++ cs)

def scientific (cs : List Char) (exponent : Int) : List Char :=
  let mantissa := match cs with
    | [c] => [c]
    | c :: rest => c :: '.' :: rest
    | [] => []
  let sign := if exponent < 0 then '-' else '+'
  mantissa ++ 'e' :: sign :: Nat.toDigits 10 exponent.natAbs

/-- The shortest text that reads back as the double. -/
def text (x : Binary64) : String :=
  let sign := if x.negative then "-" else ""
  if x.units = 0 then sign ++ "0.0"
  else
    let d := shortest x.units
    let all := Nat.toDigits 10 d.digits
    let exponent := d.exponent + all.length - 1
    let cs := dropTrailingZeros all
    let body :=
      if style.leastPositional ≤ exponent ∧ exponent ≤ style.mostPositional
      then positional cs (exponent + 1) else scientific cs exponent
    sign ++ String.ofList body

end Binary64
end AccessPolicy

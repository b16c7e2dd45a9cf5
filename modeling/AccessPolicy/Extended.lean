/-
Magnitudes with 64 significant bits.

A store scales decimals in numbers that are wider than doubles and rounds to a
double once, at the end.  Every scaling step rounds to 64 bits, so a decimal
that takes many steps can end on a neighbour of the nearest double.
-/
import AccessPolicy.Binary64

namespace AccessPolicy

/-- The number `significand * 2 ^ exponent`.  The significand is zero or has its
highest of 64 bits set, which makes the order one of exponents first. -/
structure Extended where
  significand : Nat
  exponent : Int
deriving DecidableEq, Repr

namespace Extended

def precision : Nat := 64

/-- A natural rounded to 64 bits, a tie going to the even significand. -/
def ofNat (n : Nat) : Extended :=
  if n = 0 then ⟨0, 0⟩
  else
    let bits := Nat.log2 n + 1
    if bits ≤ precision then
      ⟨n * Nat.pow 2 (precision - bits), (bits : Int) - precision⟩
    else
      let step := Nat.pow 2 (bits - precision)
      let low := n / step
      let twice := 2 * (n % step)
      let rounded := if step < twice ∨ (twice = step ∧ low % 2 = 1) then low + 1 else low
      if rounded = Nat.pow 2 precision then
        ⟨Nat.pow 2 (precision - 1), (bits : Int) - precision + 1⟩
      else ⟨rounded, (bits : Int) - precision⟩

def scaledBy (x : Extended) (exponent : Int) : Extended :=
  { x with exponent := x.exponent + exponent }

def mul (x y : Extended) : Extended :=
  (ofNat (x.significand * y.significand)).scaledBy (x.exponent + y.exponent)

/-- The reciprocal of a positive natural.  The quotient has bits to spare, and
the lowest of them records whether anything was cut off, so rounding it is
rounding the reciprocal. -/
def inverse (n : Nat) : Extended :=
  let shift := Nat.log2 n + precision + 4
  let cut := if Nat.pow 2 shift % n = 0 then 0 else 1
  (ofNat (2 * (Nat.pow 2 shift / n) + cut)).scaledBy (-(shift + 1 : Nat))

/-- The power of ten rounded to 64 bits. -/
def powerOfTen : Int → Extended
  | .ofNat k => ofNat (Nat.pow 10 k)
  | .negSucc k => inverse (Nat.pow 10 (k + 1))

/-- The order of positive magnitudes. -/
def le (x y : Extended) : Bool :=
  x.exponent < y.exponent || (x.exponent = y.exponent && x.significand ≤ y.significand)

/-- The whole part. -/
def floor (x : Extended) : Nat :=
  match x.exponent with
  | .ofNat k => x.significand * Nat.pow 2 k
  | .negSucc k => x.significand / Nat.pow 2 (k + 1)

/-- The number of units in the largest double. -/
def largestUnits : Nat := (Nat.pow 2 53 - 1) * Nat.pow 2 2045

/-- The units of the nearest double, unless the magnitude is greater than every
double. -/
def units? (x : Extended) : Option Nat :=
  let (num, den) := match x.exponent + 1074 with
    | .ofNat k => (x.significand * Nat.pow 2 k, 1)
    | .negSucc k => (x.significand, Nat.pow 2 (k + 1))
  if num ≤ largestUnits * den then some (Binary64.roundQuotient num den) else none

/-- A count of units of a double, which 64 bits always hold. -/
def ofUnits (units : Nat) : Extended := (ofNat units).scaledBy (-1074)

/-! ## Scaling by powers of ten -/

/-- The powers of ten by which magnitudes are scaled, the greatest first. -/
def strides : List Nat := [100, 10, 1]

def tenUp : Nat → Extended
  | 100 => up100
  | 10 => up10
  | k => powerOfTen k
where
  up100 : Extended := powerOfTen 100
  up10 : Extended := powerOfTen 10

def tenDown : Nat → Extended
  | 100 => down100
  | 10 => down10
  | 1 => down1
  | k => powerOfTen (-k)
where
  down100 : Extended := powerOfTen (-100)
  down10 : Extended := powerOfTen (-10)
  down1 : Extended := powerOfTen (-1)

/-- Multiplication by `10 ^ n`, or by `10 ^ -n`, stride by stride. -/
def scale (down : Bool) (x : Extended) (n : Nat) : Extended :=
  (strides.foldl (fun (x, n) k =>
    (Nat.repeat (fun x => x.mul (if down then tenDown k else tenUp k)) (n / k) x, n % k))
    (x, n)).1

end Extended
end AccessPolicy

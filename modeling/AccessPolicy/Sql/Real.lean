/-
Reals of a relational store, and the decimals as which they are read and
written.

Both directions scale by powers of ten with 64 bits.  What is read from a text
is therefore not always the double nearest to it, and a double does not always
come back from its own text.
-/
import AccessPolicy.Digits
import AccessPolicy.Extended

namespace AccessPolicy
namespace Sql

/-- A real of the store.  Decimals beyond the largest double are infinite. -/
inductive Real where
  | finite (value : Binary64)
  | infinite (negative : Bool)
deriving DecidableEq, Repr

/-- A decimal literal as it is written. -/
structure Numeral where
  negative : Bool
  whole : List Nat
  fraction : Option (List Nat)
  exponent : Option (Bool × List Nat)
deriving DecidableEq, Repr

namespace Numeral

/-- The sign that a text may start with, and the rest. -/
def sign : List Char → Bool × List Char
  | '-' :: rest => (true, rest)
  | '+' :: rest => (false, rest)
  | cs => (false, cs)

/-- The literal that takes up all characters.  Digits may stand on either side
of a point, at least one, and an exponent needs a digit of its own. -/
def read? (cs : List Char) : Option Numeral :=
  let (negative, cs) := sign cs
  let whole := Digits.leading cs
  let (fraction, rest) : Option (List Nat) × List Char :=
    match Digits.after cs with
    | '.' :: rest => (some (Digits.leading rest), Digits.after rest)
    | rest => (none, rest)
  if whole = [] ∧ fraction.getD [] = [] then none
  else
    match rest with
    | [] => some ⟨negative, whole, fraction, none⟩
    | c :: rest =>
      if c = 'e' || c = 'E' then
        let (down, rest) := sign rest
        if Digits.leading rest = [] ∨ Digits.after rest ≠ [] then none
        else some ⟨negative, whole, fraction, some (down, Digits.leading rest)⟩
      else none

/-- The integer that a literal without point and exponent stands for. -/
def integer? (l : Numeral) : Option Int :=
  if l.fraction.isNone && l.exponent.isNone then
    let n : Int := Digits.decimal l.whole
    some (if l.negative then -n else n)
  else none

/-- Digits are taken into the significand while it is below this number, so that
the next one fits into 64 bits. -/
def fullFrom : Nat := (Nat.pow 2 64 - 10) / 10

/-- A significand with the digits that fit, and how many of them did not. -/
def absorb : Nat → List Nat → Nat × Nat
  | s, [] => (s, 0)
  | s, d :: rest => if s < fullFrom then absorb (s * 10 + d) rest else (s, rest.length + 1)

/-- Exponents from here on are not told apart. -/
def exponentBound : Nat := 10000

def boundedExponent (ds : List Nat) : Nat :=
  ds.foldl (fun e d => if e < exponentBound then e * 10 + d else exponentBound) 0

/-- The significand and the power of ten that a literal stands for.  Digits of
the whole part that do not fit raise the power, and those of the fraction are
dropped. -/
def scaled (l : Numeral) : Nat × Int :=
  let (s, dropped) := absorb 0 l.whole
  let fraction := l.fraction.getD []
  let (s, ignored) := absorb s fraction
  let shift : Int := (dropped : Int) - ((fraction.length - ignored : Nat) : Int)
  let exponent : Int := match l.exponent with
    | some (true, ds) => -(boundedExponent ds : Int)
    | some (false, ds) => boundedExponent ds
    | none => 0
  (s, exponent + shift)

/-- Moves powers of ten into a significand while it has room for them. -/
def raise : Nat → Nat → Nat × Nat
  | s, 0 => (s, 0)
  | s, n + 1 => if s < (Nat.pow 2 64 - 1) / 10 then raise (s * 10) n else (s, n + 1)

/-- Moves trailing zeros of a significand into the power of ten below it. -/
def reduce : Nat → Nat → Nat × Nat
  | s, 0 => (s, 0)
  | s, n + 1 => if s % 10 = 0 then reduce (s / 10) n else (s, n + 1)

/-- The magnitude `s * 10 ^ exponent` of a positive significand. -/
def magnitude (s : Nat) (exponent : Int) : Extended :=
  match exponent with
  | .ofNat n =>
    let (s, n) := raise s n
    (Extended.ofNat s).scale false n
  | .negSucc n =>
    let (s, n) := reduce s (n + 1)
    (Extended.ofNat s).scale true n

/-- The real that a literal is read as. -/
def real (l : Numeral) : Real :=
  let (s, exponent) := l.scaled
  if s = 0 then .finite ⟨l.negative, 0⟩
  else
    match (magnitude s exponent).units? with
    | some units => .finite ⟨l.negative, units⟩
    | none => .infinite l.negative

end Numeral

namespace Real

def zero : Real := .finite ⟨false, 0⟩

/-- The real read from the text of a JSON number. -/
def ofText (s : String) : Real := ((Numeral.read? s.toList).map Numeral.real).getD zero

/-- The number of units, where infinities stand next to the largest doubles.
They are in the same order as the reals. -/
def rank : Real → Int
  | finite x => x.value
  | infinite true => -(Binary64.unitsLimit : Int)
  | infinite false => Binary64.unitsLimit

/-! ## Text -/

/-- The number of significant digits in the text of a real. -/
def digitCount : Nat := 15

/-- Scales down while the magnitude is at least `10 ^ (bound + stride)`, counting
the powers of ten. -/
def lower (bound stride : Nat) : Nat → Extended × Int → Extended × Int
  | 0, r => r
  | fuel + 1, (x, e) =>
    if (Extended.powerOfTen (bound + stride : Nat)).le x then
      lower bound stride fuel (x.mul (Extended.tenDown stride), e + stride)
    else (x, e)

/-- Scales up while the magnitude is below `10 ^ (bound - stride)`. -/
def lift (bound stride : Nat) : Nat → Extended × Int → Extended × Int
  | 0, r => r
  | fuel + 1, (x, e) =>
    if (Extended.powerOfTen ((bound : Int) - stride)).le x then (x, e)
    else lift bound stride fuel (x.mul (Extended.tenUp stride), e - stride)

/-- No stride is taken more often. -/
def strideFuel : Nat := 12

/-- A positive magnitude as a whole number of 18 or 19 digits and the power of
ten that it lacks. -/
def expanded (x : Extended) : Nat × Int :=
  let (x, e) :=
    if (Extended.powerOfTen 19).le x then
      lower 18 1 strideFuel (lower 19 10 strideFuel (lower 19 100 strideFuel (x, 0)))
    else
      lift 18 1 strideFuel (lift 17 10 strideFuel (lift 3 100 strideFuel (x, 0)))
  (x.floor, e)

/-- The significant digits of a positive magnitude, half away from zero, and the
position of the point. -/
def roundedDigits (units : Nat) : List Char × Int :=
  let (v, e) := expanded (.ofUnits units)
  let length := (Nat.toDigits 10 v).length
  let point : Int := length + e
  let unit := Nat.pow 10 (length - digitCount)
  let q := (2 * v + unit) / (2 * unit)
  if q = Nat.pow 10 digitCount then (['1'], point + 1)
  else (Binary64.dropTrailingZeros (Nat.toDigits 10 q), point)

def exponentText (exponent : Int) : List Char :=
  let digits := Nat.toDigits 10 exponent.natAbs
  (if exponent < 0 then '-' else '+') :: (if digits.length < 2 then '0' :: digits else digits)

/-- The text of a finite real: fifteen significant digits without trailing
zeros, with at least one digit after the point. -/
def finiteText (x : Binary64) : String :=
  if x.units = 0 then "0.0"
  else
    let (digits, point) := roundedDigits x.units
    let exponent := point - 1
    let body :=
      if -4 ≤ exponent ∧ exponent < digitCount then Binary64.positional digits point
      else
        match digits with
        | [c] => c :: '.' :: '0' :: 'e' :: exponentText exponent
        | c :: rest => c :: '.' :: (rest ++ 'e' :: exponentText exponent)
        | [] => []
    String.ofList (if x.negative then '-' :: body else body)

def text : Real → String
  | finite x => finiteText x
  | infinite true => "-Inf"
  | infinite false => "Inf"

end Real
end Sql
end AccessPolicy

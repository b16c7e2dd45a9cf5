/-
Reading JSON text into a draft.

Every step takes characters off the front and answers with what it read and the
characters after it, or with no rest where the text breaks off.
-/
import AccessPolicy.Digits
import AccessPolicy.Json.Draft

namespace AccessPolicy
namespace Json
namespace Reader

/-- Arrays and objects nested this deeply are not read as values. -/
def nestingLimit : Nat := 128

def isBlank (c : Char) : Bool := c = ' ' || c = '\n' || c = '\t' || c = '\r'

def skipBlanks (cs : List Char) : List Char := cs.dropWhile isBlank

/-! ## Strings -/

/-- The code unit written with four hexadecimal digits. -/
def codeUnit? (a b c d : Char) : Option Nat := do
  let w ← Digits.hexValue? a
  let x ← Digits.hexValue? b
  let y ← Digits.hexValue? c
  let z ← Digits.hexValue? d
  some (((w * 16 + x) * 16 + y) * 16 + z)

def isHighHalf (u : Nat) : Bool := 0xD800 ≤ u && u < 0xDC00

def isLowHalf (u : Nat) : Bool := 0xDC00 ≤ u && u < 0xE000

/-- The character of a surrogate pair. -/
def joinHalves (high low : Nat) : Char :=
  Char.ofNat (0x10000 + (high - 0xD800) * 0x400 + (low - 0xDC00))

def escapedChar? : Char → Option Char
  | '"' => some '"'
  | '\\' => some '\\'
  | '/' => some '/'
  | 'b' => some '\x08'
  | 'f' => some '\x0c'
  | 'n' => some '\n'
  | 'r' => some '\r'
  | 't' => some '\t'
  | _ => none

/-- Adds a code unit to the characters read so far, which are held in reverse
and are `none` once half of a surrogate pair stood alone.  `pending` is a high
half that waits for its low half. -/
def pushUnit (u : Nat) (pending : Option Nat) (acc : Option (List Char)) :
    Option Nat × Option (List Char) :=
  match pending with
  | some high =>
    if isLowHalf u then (none, acc.map (joinHalves high u :: ·))
    else if isHighHalf u then (some u, none)
    else (none, none)
  | none =>
    if isHighHalf u then (some u, acc)
    else if isLowHalf u then (none, none)
    else (none, acc.map (Char.ofNat u :: ·))

/-- The characters read so far, once nothing can complete a pending half. -/
def settled (pending : Option Nat) (acc : Option (List Char)) : Option (List Char) :=
  if pending.isSome then none else acc

/-- The rest of a string after its opening quote.  A lone half of a surrogate
pair spoils the string but does not end it. -/
def stringBody : List Char → Option Nat → Option (List Char) → Option (Option String × List Char)
  | [], _, _ => none
  | '"' :: rest, pending, acc =>
    some ((settled pending acc).map fun cs => String.ofList cs.reverse, rest)
  | '\\' :: 'u' :: a :: b :: c :: d :: rest, pending, acc =>
    match codeUnit? a b c d with
    | none => none
    | some u => stringBody rest (pushUnit u pending acc).1 (pushUnit u pending acc).2
  | '\\' :: c :: rest, pending, acc =>
    match escapedChar? c with
    | none => none
    | some e => stringBody rest none ((settled pending acc).map (e :: ·))
  | c :: rest, pending, acc =>
    if c.toNat < 32 || c = '\\' then none
    else stringBody rest none ((settled pending acc).map (c :: ·))

/-! ## Numbers -/

/-- The digits that a 64-bit significand can still take, and the rest. -/
def absorb (significand : Nat) : List Nat → Nat × List Nat
  | [] => (significand, [])
  | d :: rest =>
    if significand * 10 + d < Number.unsignedLimit then absorb (significand * 10 + d) rest
    else (significand, d :: rest)

/-- The double of a literal.  Digits before the point that do not fit the
significand raise the exponent, and digits after it that do not fit are
dropped. -/
def double? (negative : Bool) (whole fraction : List Nat) (exponent : Int) : Option Binary64 :=
  let (head, left) := absorb 0 whole
  let (significand, dropped) := absorb head fraction
  let shift := (left.length : Int) - ((fraction.length - dropped.length : Nat) : Int)
  Binary64.ofDecimal? negative significand (exponent + shift)

/-- The number of a literal.  Negative zero is a double even without a point. -/
def number? (negative : Bool) (whole : List Nat) (fraction : Option (List Nat))
    (exponent : Option Int) : Option Number :=
  let value := Digits.decimal whole
  match fraction, exponent with
  | none, none =>
    if negative then
      if 0 < value ∧ Number.isSigned (-(value : Int)) then some (.integer (-(value : Int)))
      else (double? true whole [] 0).map .double
    else if value < Number.unsignedLimit then some (.integer value)
    else (double? false whole [] 0).map .double
  | f, e => (double? negative whole (f.getD []) (e.getD 0)).map .double

/-- An optional point with its digits; the outer `none` is a point without
digits. -/
def fractionPart (cs : List Char) : Option (Option (List Nat) × List Char) :=
  match cs with
  | '.' :: rest =>
    if Digits.leading rest = [] then none
    else some (some (Digits.leading rest), Digits.after rest)
  | _ => some (none, cs)

/-- An optional exponent; the outer `none` is a mark without digits. -/
def exponentPart (cs : List Char) : Option (Option Int × List Char) :=
  let signed (negative : Bool) (rest : List Char) : Option (Option Int × List Char) :=
    if Digits.leading rest = [] then none
    else
      let e : Int := Digits.decimal (Digits.leading rest)
      some (some (if negative then -e else e), Digits.after rest)
  match cs with
  | c :: rest =>
    if c = 'e' || c = 'E' then
      match rest with
      | '-' :: more => signed true more
      | '+' :: more => signed false more
      | more => signed false more
    else some (none, cs)
  | [] => some (none, cs)

def number (negative : Bool) (cs : List Char) : Draft × Option (List Char) :=
  let whole := Digits.leading cs
  match whole with
  | [] => (.absent, none)
  | 0 :: _ :: _ => (.absent, none)
  | _ =>
    match fractionPart (Digits.after cs) with
    | none => (.absent, none)
    | some (fraction, rest) =>
      match exponentPart rest with
      | none => (.absent, none)
      | some (exponent, rest) => (.number (number? negative whole fraction exponent), some rest)

/-! ## Values -/

mutual

/-- One value at the given nesting, after blanks. -/
def value : Nat → Nat → List Char → Draft × Option (List Char)
  | 0, _, _ => (.absent, none)
  | fuel + 1, depth, cs =>
    match skipBlanks cs with
    | 'n' :: 'u' :: 'l' :: 'l' :: rest => (.null, some rest)
    | 't' :: 'r' :: 'u' :: 'e' :: rest => (.bool true, some rest)
    | 'f' :: 'a' :: 'l' :: 's' :: 'e' :: rest => (.bool false, some rest)
    | '"' :: rest =>
      match stringBody rest none (some []) with
      | none => (.absent, none)
      | some (s, rest) => (.string s, some rest)
    | '[' :: rest =>
      let deep := nestingLimit ≤ depth + 1
      match skipBlanks rest with
      | ']' :: rest => (.array deep [] true, some rest)
      | rest =>
        let (items, after) := elements fuel (depth + 1) rest
        (.array deep items after.isSome, after)
    | '\x7b' :: rest =>
      let deep := nestingLimit ≤ depth + 1
      match skipBlanks rest with
      | '\x7d' :: rest => (.object deep [] true, some rest)
      | rest =>
        let (entries, after) := members fuel (depth + 1) rest
        (.object deep entries after.isSome, after)
    | '-' :: rest => number true rest
    | rest => number false rest

/-- The elements of an array up to its end. -/
def elements : Nat → Nat → List Char → List Draft × Option (List Char)
  | 0, _, _ => ([], none)
  | fuel + 1, depth, cs =>
    match value fuel depth cs with
    | (item, none) => ([item], none)
    | (item, some rest) =>
      match skipBlanks rest with
      | ',' :: rest =>
        let (items, after) := elements fuel depth rest
        (item :: items, after)
      | ']' :: rest => ([item], some rest)
      | _ => ([item], none)

/-- The members of an object up to its end. -/
def members : Nat → Nat → List Char → List (Option String × Draft) × Option (List Char)
  | 0, _, _ => ([], none)
  | fuel + 1, depth, cs =>
    match skipBlanks cs with
    | '"' :: rest =>
      match stringBody rest none (some []) with
      | none => ([], none)
      | some (key, rest) =>
        match skipBlanks rest with
        | ':' :: rest =>
          match value fuel depth rest with
          | (item, none) => ([(key, item)], none)
          | (item, some rest) =>
            match skipBlanks rest with
            | ',' :: rest =>
              let (entries, after) := members fuel depth rest
              ((key, item) :: entries, after)
            | '\x7d' :: rest => ([(key, item)], some rest)
            | _ => ([(key, item)], none)
        | _ => ([(key, .absent)], none)
    | _ => ([], none)

end

end Reader

/-- The first value of a text and the characters after it.  Each value takes at
most two steps for one character, so the steps never run out. -/
def Draft.ofText (text : String) : Draft × Option (List Char) :=
  let cs := text.toList
  Reader.value (2 * cs.length + 2) 0 cs

/-- The draft of a text that holds one value and blanks around it. -/
def Draft.ofDocument? (text : String) : Option Draft :=
  match Draft.ofText text with
  | (draft, some rest) => if Reader.skipBlanks rest = [] then some draft else none
  | (_, none) => none

/-- The value of a text, with repeated members kept. -/
def ofText? (text : String) : Option Json := (Draft.ofDocument? text).bind Draft.toJson?

end Json
end AccessPolicy

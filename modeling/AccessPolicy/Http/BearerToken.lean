/-
Bearer tokens and their verification.

A token is three parts: how it was signed, its claims, and a signature under a
secret shared with its issuer.  Taking it apart and computing the signature is
left to a decoder; what is decided here is what a token so decoded is worth.
-/

namespace AccessPolicy

/-- A token taken apart.  It is `genuine` when the signature is the one that the
shared secret gives. -/
structure SignedToken where
  algorithm : String
  genuine : Bool
  subject : String
  expiry : Nat
deriving DecidableEq, Repr

/-- Takes a token apart, if it has three parts. -/
abbrev TokenDecoder : Type := String → Option SignedToken

inductive TokenError where
  | malformed
  | wrongAlgorithm
  | wrongSignature
  | expired
deriving DecidableEq, Repr

namespace TokenError

def message : TokenError → String
  | malformed => "InvalidToken"
  | wrongAlgorithm => "InvalidAlgorithm"
  | wrongSignature => "InvalidSignature"
  | expired => "ExpiredSignature"

end TokenError

namespace SignedToken

/-- The one algorithm that is accepted. -/
def requiredAlgorithm : String := "HS256"

/-- Seconds that a token stays valid after its expiry, for clocks that differ. -/
def leeway : Nat := 60

/-- The first defect of a token at a time in seconds. -/
def verify (now : Nat) (t : SignedToken) : Except TokenError Unit :=
  if t.algorithm ≠ requiredAlgorithm then .error .wrongAlgorithm
  else if !t.genuine then .error .wrongSignature
  else if t.expiry + leeway < now then .error .expired
  else .ok ()

end SignedToken

namespace TokenDecoder

/-- The subject of a token, if the token holds at a time in seconds. -/
def subject (decode : TokenDecoder) (now : Nat) (text : String) : Except TokenError String :=
  match decode text with
  | none => .error .malformed
  | some token => (token.verify now).map fun _ => token.subject

end TokenDecoder

/-! ## Headers -/

/-- A header value is a text when it holds nothing but visible ASCII characters,
blanks and tabs. -/
def isHeaderText (value : String) : Bool :=
  value.toList.all fun c => c = '\t' || (32 ≤ c.toNat && c.toNat < 127)

/-- What introduces a token in an authorization header. -/
def bearerScheme : List Char := "Bearer ".toList

/-- The token of the first authorization header. -/
def bearerToken? : List String → Option String
  | [] => none
  | value :: _ =>
    if isHeaderText value && bearerScheme.isPrefixOf value.toList then
      some (String.ofList (value.toList.drop bearerScheme.length))
    else none

end AccessPolicy

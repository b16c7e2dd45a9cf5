/-
The compact text of a JSON value: no blanks, members in the order in which the
value holds them.
-/
import AccessPolicy.Json

namespace AccessPolicy
namespace Json

def hexDigit (n : Nat) : Char := (Nat.digitChar (n % 16))

/-- A character inside quotes.  Quote, backslash and the control characters
below the blank are escaped and all else stands for itself. -/
def escaped (c : Char) : List Char :=
  if c = '"' then ['\\', '"']
  else if c = '\\' then ['\\', '\\']
  else if c = '\n' then ['\\', 'n']
  else if c = '\r' then ['\\', 'r']
  else if c = '\t' then ['\\', 't']
  else if c = '\x08' then ['\\', 'b']
  else if c = '\x0c' then ['\\', 'f']
  else if c.toNat < 32 then ['\\', 'u', '0', '0', hexDigit (c.toNat / 16), hexDigit c.toNat]
  else [c]

def quoted (s : String) : String :=
  String.ofList ('"' :: (s.toList.flatMap escaped ++ ['"']))

mutual

def text : Json → String
  | .null => "null"
  | .bool b => if b then "true" else "false"
  | .number n => n.text
  | .string s => quoted s
  | .array [] => "[]"
  | .array (v :: rest) => "[" ++ text v ++ itemsText rest ++ "]"
  | .object [] => "\x7b\x7d"
  | .object ((k, v) :: rest) =>
    "\x7b" ++ quoted k ++ ":" ++ text v ++ membersText rest ++ "\x7d"

def itemsText : List Json → String
  | [] => ""
  | v :: rest => "," ++ text v ++ itemsText rest

def membersText : List (String × Json) → String
  | [] => ""
  | (k, v) :: rest => "," ++ quoted k ++ ":" ++ text v ++ membersText rest

end

end Json
end AccessPolicy

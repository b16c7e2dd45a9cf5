/-
Settings of a server, as its environment gives them.
-/
import AccessPolicy.Blank
import AccessPolicy.Digits
import AccessPolicy.ServiceError

namespace AccessPolicy

/-- A file named here is deployed when the server starts. -/
structure Settings where
  listeningPort : Nat
  permissionsFile : Option String
  listeningPort_lt : listeningPort < 65536
deriving DecidableEq

namespace Settings

/-- A number of a TCP endpoint is written in digits, and a plus may stand before
them. -/
def portNumber? (text : String) : Option Nat :=
  match text.toList with
  | '+' :: rest => Digits.natural? rest
  | cs => Digits.natural? cs

def defaultPort : Nat := 8000

/-- Settings from the texts of the two variables, where they are set.  A blank
file name names no file. -/
def ofEnvironment (listeningPort permissionsFile : Option String) : Except ServiceError Settings :=
  let file := permissionsFile.filter fun name => !name.toList.all isBlank
  match listeningPort with
  | none => .ok ⟨defaultPort, file, by decide⟩
  | some text =>
    match portNumber? text with
    | none => .error invalidPort
    | some n => if h : n < 65536 then .ok ⟨n, file, h⟩ else .error invalidPort
where
  invalidPort : ServiceError := .configuration "APP_PORT must be a valid port number"

end Settings
end AccessPolicy

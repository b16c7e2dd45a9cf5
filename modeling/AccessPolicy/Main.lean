/-
The administration tool as a program.
-/
import AccessPolicy.CommandLine
import AccessPolicy.Database.Snapshot

namespace AccessPolicy
namespace CommandLine

/-- The text of a file, if it can be read. -/
def readText? (path : String) : IO (Option String) := do
  try
    return some (← IO.FS.readFile path)
  catch _ => return none

/-- The file of environment variables and the files that the arguments ask to
read. -/
def textsFor (arguments : List String) : IO (String → Option String) := do
  let names := Workspace.environmentName :: match read arguments with
    | .run command => command.files
    | _ => []
  let texts ← names.mapM fun name => return (Workspace.fileName name, ← readText? name)
  return fun name => (texts.lookup name).join

/-- The variables that the tool reads, as far as they are set. -/
def environment : IO (List (String × String)) := do
  match ← IO.getEnv "DATABASE_URL" with
  | some url => return [("DATABASE_URL", url)]
  | none => return []

/-- The stores of a workspace: the one at its location, if it is there. -/
def storesOf (w : Workspace) : IO (List (String × Database)) := do
  match w.location? with
  | none => return []
  | some l =>
    match ← readText? l.file with
    | none => return []
    | some text =>
      let db := (Database.Snapshot.ofDocument? text).getD Database.blank.close
      return [(Workspace.fileName l.file, db)]

end CommandLine
end AccessPolicy

open AccessPolicy CommandLine in
/-- Runs one command on the store and keeps the store that it leaves. -/
def main (arguments : List String) : IO UInt32 := do
  let texts ← textsFor arguments
  let w : Workspace := ⟨← environment, texts, []⟩
  let w := { w with stores := ← storesOf w }
  let (outcome, after) := execute w arguments
  IO.print outcome.output
  match after.stores with
  | (name, db) :: _ =>
    if !db.closed then IO.FS.writeFile name (Database.Snapshot.text db)
  | [] => pure ()
  return outcome.code.toUInt32

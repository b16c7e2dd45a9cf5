/-
Deploying permission definitions.

All definitions are turned into permissions before anything is written, and the
permissions take the place of the stored ones together.
-/
import AccessPolicy.Database.Roles

namespace AccessPolicy

inductive DeploymentError where
  | unreadable
  | malformed
  | definition (index : Nat) (source : ConfigurationError)
  | store (error : StoreError)
deriving DecidableEq, Repr

namespace DeploymentError

def message : DeploymentError → String
  | unreadable => "failed to read permission definitions"
  | malformed => "invalid permission definitions"
  | definition index source => "definition " ++ toString index ++ ": " ++ source.message
  | store error => error.message

end DeploymentError

/-- What was deployed: the number of permissions and of distinct roles. -/
structure DeploymentSummary where
  permissions : Nat
  roles : Nat
deriving DecidableEq, Repr

namespace Deployment

/-- The permissions of definitions, numbered from `index`, or the first
definition at fault. -/
def permissions (registry : Registry) (issued : Nat) :
    Nat → List PermissionDefinition → Except DeploymentError (List Permission)
  | _, [] => .ok []
  | index, d :: rest =>
    match d.toPermission registry (.issued (issued + index)) with
    | .error e => .error (.definition index e)
    | .ok p => (permissions registry issued (index + 1) rest).map (p :: ·)

def summary (ps : List Permission) : DeploymentSummary :=
  ⟨ps.length, (RoleSet.ofList (ps.map (·.role))).roles.length⟩

/-- Deploys definitions.  Identifiers are handed out for the permissions before
any are handed out for roles. -/
def deploy (registry : Registry) (db : Database) (definitions : List PermissionDefinition) :
    Except DeploymentError (DeploymentSummary × Database) := do
  let ps ← permissions registry db.issued 0 definitions
  let db ← ({ db with issued := db.issued + definitions.length }.replacePermissions ps).mapError
    DeploymentError.store
  pure (summary ps, db)

/-- Deploys the definitions of a file, if there is one. -/
def deployText (registry : Registry) (db : Database) (text : Option String) :
    Except DeploymentError (DeploymentSummary × Database) :=
  match text with
  | none => .error .unreadable
  | some text =>
    match PermissionDefinition.listOfText? text with
    | none => .error .malformed
    | some definitions => deploy registry db definitions

end Deployment
end AccessPolicy

/-
Who acts, and in which ambient context.
-/
import AccessPolicy.Role

namespace AccessPolicy

/-- An acting user and the roles they hold. -/
structure Principal where
  identifier : String
  roles : RoleSet
deriving DecidableEq

namespace Principal

/-- Stands in for the acting user where nobody is signed in.  It holds no role
and its identifier is empty. -/
def anonymous : Principal := ⟨"", .empty⟩

end Principal

/-- What surrounds a call: the number of open bypass scopes and the principal
of the innermost principal scope.  It is passed down, so whatever a scope
contains, the context after the scope is the one before it. -/
structure Ambient where
  bypassDepth : Nat
  principal : Option Principal
deriving DecidableEq

namespace Ambient

/-- The context of a fresh task, which inherits neither bypass nor principal. -/
def fresh : Ambient := ⟨0, none⟩

/-- The context inside a bypass scope. -/
def bypassing (a : Ambient) : Ambient := { a with bypassDepth := a.bypassDepth + 1 }

/-- The context inside a scope of the given principal. -/
def actingAs (a : Ambient) (p : Principal) : Ambient := { a with principal := some p }

def isBypassed (a : Ambient) : Bool := 0 < a.bypassDepth

end Ambient

/-- Where the service takes the acting principal from. -/
inductive PrincipalSource where
  | ambient
  | fixed (principal : Principal)

namespace PrincipalSource

def current (source : PrincipalSource) (a : Ambient) : Option Principal :=
  match source with
  | .ambient => a.principal
  | .fixed p => some p

end PrincipalSource
end AccessPolicy

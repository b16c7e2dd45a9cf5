/-
The migrations that create the tables of the store.
-/
import AccessPolicy.Database

namespace AccessPolicy

/-- A step in the history of the store's layout.  Versions are the times at
which the steps were added. -/
structure Migration where
  version : Nat
  name : String
  tables : List String
deriving DecidableEq, Repr

namespace Migration

/-- Every migration, the oldest first. -/
def all : List Migration :=
  [⟨20250301000000, "authorization", ["roles", "permissions", "user_roles"]⟩,
    ⟨20250301000100, "resource projections", WorkflowKind.all.map Database.tableName⟩]

/-- A migration is applied when the tables that it creates are there. -/
def isApplied (db : Database) (m : Migration) : Bool :=
  m.tables.all db.present.contains

/-- After migrating, every migration is applied. -/
theorem isApplied_migrate (db : Database) (m : Migration) (h : m ∈ all) :
    isApplied db.migrate m = true := by
  simp only [all, List.mem_cons, List.not_mem_nil, or_false] at h
  rcases h with rfl | rfl <;> rfl

end Migration
end AccessPolicy

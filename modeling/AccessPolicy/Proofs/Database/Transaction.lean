/-
The transactions that write roles, permissions and assignments.

A transaction carries out statements one after the other on a working copy of the
store.  A statement can fail by itself or from outside, and so can the commit.  The
working copy takes the place of the store after the last statement and is dropped
otherwise, with every role that was created in it.  Replacing the permissions and
giving a role to a user are such transactions, and the operations of the store are
what they come to when nothing fails from outside.
-/
import AccessPolicy.Deployment
import AccessPolicy.Proofs.Database.Populated

namespace AccessPolicy
namespace Database

/-! ## Statements -/

/-- A statement of a transaction. -/
inductive Statement where
  /-- Removes every permission. -/
  | clear
  /-- Creates the role with a key unless there is one. -/
  | provide (key : String)
  /-- Puts down a permission with the identifier of its role. -/
  | insert (p : Permission)
  /-- Gives the role with a key to a user unless the user has it. -/
  | assign (user key : String)

/-- The store after a statement. -/
def Statement.run (db : Database) : Statement → Except StoreError Database
  | .clear => do
    db.require ["permissions"]
    pure { db with permissions := [] }
  | .provide key => (db.ensureRole key).map (·.2)
  | .insert p =>
    match db.roles.find? fun r => r.key == p.role.key with
    | none => .error (.backend ("no role has the key " ++ p.role.key))
    | some role => db.insertRow (.ofPermission role.id p)
  | .assign user key => do
    db.require ["user_roles"]
    match db.roles.find? fun r => r.key == key with
    | none => .error (.backend ("no role has the key " ++ key))
    | some role =>
      pure (if db.assignments.contains ⟨user, role.id⟩ then db
        else { db with assignments := db.assignments ++ [⟨user, role.id⟩] })

/-- The statements that replace the permissions. -/
def replacement (permissions : List Permission) : List Statement :=
  .clear :: permissions.flatMap fun p => [.provide p.role.key, .insert p]

/-- The statements that give a role to a user. -/
def assignment (user : String) (role : Role) : List Statement :=
  [.provide role.key, .assign user role.key]

/-! ## Transactions -/

/-- A transaction under way: what is stored, and what the statements so far made of it. -/
structure Transaction where
  stored : Database
  working : Database

/-- What goes wrong from outside at each statement, and after the last one at the commit. -/
abbrev Disturbance : Type := Nat → Option StoreError

namespace Disturbance

def none : Disturbance := fun _ => Option.none

/-- Nothing goes wrong at a number of statements and at the commit after them. -/
def spares (disturbance : Disturbance) (statements : Nat) : Bool :=
  (List.range (statements + 1)).all fun n => (disturbance n).isNone

theorem spares_iff {disturbance : Disturbance} {statements : Nat} :
    disturbance.spares statements = true ↔
      (∀ n < statements, disturbance n = Option.none) ∧ disturbance statements = Option.none := by
  rw [spares, List.all_eq_true]
  simp only [List.mem_range, Option.isNone_iff_eq_none]
  exact Nat.forall_lt_succ_right

end Disturbance

/-- Carries out statements up to the first that fails, the first of them being the `n`-th. -/
def Transaction.execute (disturbance : Disturbance) :
    Nat → List Statement → Transaction → Except StoreError Unit × Transaction
  | _, [], t => (.ok (), t)
  | n, s :: rest, t =>
    match disturbance n with
    | some e => (.error e, t)
    | none =>
      match s.run t.working with
      | .error e => (.error e, t)
      | .ok db => execute disturbance (n + 1) rest { t with working := db }

/-- What a transaction reports, and the store that it leaves. -/
def transact (db : Database) (disturbance : Disturbance) (statements : List Statement) :
    Except StoreError Unit × Database :=
  match Transaction.execute disturbance 0 statements ⟨db, db⟩ with
  | (.error e, t) => (.error e, t.stored)
  | (.ok _, t) =>
    match disturbance statements.length with
    | some e => (.error e, t.stored)
    | none => (.ok (), t.working)

section

variable {db db' : Database} {disturbance : Disturbance} {statements : List Statement}

variable (disturbance statements) in
theorem stored_execute :
    ∀ (n : Nat) (t : Transaction), (t.execute disturbance n statements).2.stored = t.stored := by
  induction statements with
  | nil => exact fun _ _ => rfl
  | cons s rest ih =>
    intro n t
    rw [Transaction.execute]
    split
    · rfl
    · split
      · rfl
      · exact ih _ _

/-- A transaction that fails leaves the store as it was. -/
theorem transact_of_error {e : StoreError} (h : (db.transact disturbance statements).1 = .error e) :
    (db.transact disturbance statements).2 = db := by
  have hstored := stored_execute disturbance statements 0 ⟨db, db⟩
  rw [transact] at h ⊢
  split
  · rename_i t heq
    rw [heq] at hstored
    exact hstored
  · rename_i t heq
    rw [heq] at hstored h
    split
    · exact hstored
    · rename_i hcommit
      simp only [hcommit] at h
      cases h

variable (disturbance statements) in
/-- All statements are carried out when nothing goes wrong at any of them and each can
follow on the one before. -/
theorem execute_eq_ok_iff (t' : Transaction) :
    ∀ (n : Nat) (t : Transaction), t.execute disturbance n statements = (.ok (), t') ↔
      (∀ m < statements.length, disturbance (n + m) = none) ∧
        ∃ db, statements.foldlM Statement.run t.working = .ok db ∧
          t' = { t with working := db } := by
  induction statements with
  | nil =>
    intro n t
    constructor
    · intro h
      cases h
      exact ⟨nofun, _, rfl, rfl⟩
    · rintro ⟨_, db, hdb, rfl⟩
      cases hdb
      rfl
  | cons s rest ih =>
    intro n t
    have hshift : (∀ m < rest.length, disturbance (n + (m + 1)) = none) ↔
        ∀ m < rest.length, disturbance (n + 1 + m) = none := by
      simp only [Nat.add_comm 1, Nat.add_assoc]
    rw [Transaction.execute, List.length_cons, Nat.forall_lt_succ_left, Nat.add_zero, hshift,
      List.foldlM_cons]
    cases hdisturbance : disturbance n with
    | some e => exact ⟨nofun, nofun⟩
    | none =>
      cases hdb : s.run t.working with
      | error e => exact ⟨nofun, fun ⟨_, _, hfold, _⟩ => nomatch hfold⟩
      | ok db =>
        refine (ih (n + 1) { t with working := db }).trans ?_
        rw [and_iff_right rfl]
        rfl

variable (statements) in
/-- Without disturbance a transaction reports what the statements do. -/
theorem execute_none :
    ∀ (n : Nat) (t : Transaction), (t.execute .none n statements).1 =
      (statements.foldlM Statement.run t.working).map fun _ => () := by
  induction statements with
  | nil => exact fun _ _ => rfl
  | cons s rest ih =>
    intro n t
    rw [Transaction.execute, List.foldlM_cons]
    cases hdb : s.run t.working with
    | error e => rfl
    | ok db => exact ih (n + 1) { t with working := db }

/-- A transaction succeeds when it is not disturbed and its statements can be carried out. -/
theorem transact_eq_ok_iff :
    db.transact disturbance statements = (.ok (), db') ↔
      disturbance.spares statements.length = true ∧
        statements.foldlM Statement.run db = .ok db' := by
  have hexecute := fun t => execute_eq_ok_iff disturbance statements t 0 ⟨db, db⟩
  simp only [Nat.zero_add] at hexecute
  rw [transact, Disturbance.spares_iff]
  constructor
  · intro h
    split at h
    · cases h
    · rename_i t heq
      obtain ⟨hstatements, left, hfold, rfl⟩ := (hexecute t).mp heq
      split at h
      · cases h
      · rename_i hcommit
        cases h
        exact ⟨⟨hstatements, hcommit⟩, hfold⟩
  · rintro ⟨⟨hstatements, hcommit⟩, hfold⟩
    rw [(hexecute ⟨db, db'⟩).mpr ⟨hstatements, db', hfold, rfl⟩]
    simp only [hcommit]

theorem transact_none :
    db.transact .none statements =
      match statements.foldlM Statement.run db with
      | .ok db' => (.ok (), db')
      | .error e => (.error e, db) := by
  cases hfold : statements.foldlM Statement.run db with
  | ok db' => exact transact_eq_ok_iff.mpr ⟨Disturbance.spares_iff.mpr ⟨fun _ _ => rfl, rfl⟩, hfold⟩
  | error e =>
    have hreport := execute_none statements 0 ⟨db, db⟩
    have hstored := stored_execute .none statements 0 ⟨db, db⟩
    rw [hfold] at hreport
    rw [transact]
    generalize Transaction.execute .none 0 statements ⟨db, db⟩ = executed at hreport hstored
    obtain ⟨report, t⟩ := executed
    cases hreport
    cases hstored
    rfl

end

/-! ## Operations -/

section

variable {db : Database}

/-- A role that was looked up or created is found by its key. -/
theorem find_of_ensureRole {key : String} {id : Uuid} {next : Database}
    (h : db.ensureRole key = .ok (id, next)) :
    ∃ role, next.roles.find? (fun r => r.key == key) = some role ∧ role.id = id := by
  rcases ensureRole_cases h with ⟨rfl, hfound⟩ | ⟨hmissing, _, rfl⟩
  · exact hfound
  · refine ⟨⟨id, key⟩, ?_, rfl⟩
    rw [List.find?_append, hmissing]
    simp

theorem foldlM_provide_insert (p : Permission) :
    [Statement.provide p.role.key, .insert p].foldlM Statement.run db = db.insertPermission p := by
  rw [insertPermission, List.foldlM_cons, Statement.run]
  cases hensured : db.ensureRole p.role.key with
  | error e => rfl
  | ok ensured =>
    obtain ⟨id, next⟩ := ensured
    obtain ⟨role, hfound, rfl⟩ := find_of_ensureRole hensured
    change [Statement.insert p].foldlM Statement.run next =
      next.insertRow (.ofPermission role.id p)
    rw [List.foldlM_cons, Statement.run, hfound]
    exact bind_pure _

/-- Giving a role to a user is carrying out its statements. -/
theorem foldlM_assignment (user : String) (role : Role) :
    (assignment user role).foldlM Statement.run db = db.assignRole user role := by
  rw [assignment, assignRole, List.foldlM_cons, Statement.run]
  cases hensured : db.ensureRole role.key with
  | error e => rfl
  | ok ensured =>
    obtain ⟨id, next⟩ := ensured
    obtain ⟨found, hfound, rfl⟩ := find_of_ensureRole hensured
    change [Statement.assign user role.key].foldlM Statement.run next = _
    rw [List.foldlM_cons, Statement.run, hfound]
    exact bind_pure _

theorem foldlM_permissions (permissions : List Permission) :
    ∀ (db : Database), (permissions.flatMap fun p => [.provide p.role.key, .insert p]).foldlM
      Statement.run db = db.insertPermissions permissions := by
  induction permissions with
  | nil => exact fun _ => rfl
  | cons p rest ih =>
    intro db
    rw [List.flatMap_cons, List.foldlM_append, foldlM_provide_insert, insertPermissions]
    exact congrArg _ (funext ih)

/-- Replacing the permissions is carrying out its statements. -/
theorem foldlM_replacement (permissions : List Permission) :
    (replacement permissions).foldlM Statement.run db = db.replacePermissions permissions := by
  rw [replacement, List.foldlM_cons, replacePermissions, Statement.run]
  cases db.require ["permissions"] with
  | error e => rfl
  | ok _ => exact foldlM_permissions permissions _

/-- The transaction leaves the store of the engine when nothing fails from outside. -/
theorem transact_replacement (permissions : List Permission) :
    db.transact .none (replacement permissions) =
      match db.replacePermissions permissions with
      | .ok db' => (.ok (), db')
      | .error e => (.error e, db) := by
  rw [transact_none, foldlM_replacement]

end

end Database
end AccessPolicy

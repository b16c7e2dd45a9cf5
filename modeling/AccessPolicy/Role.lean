/-
Roles and sets of roles.
-/

namespace AccessPolicy

/-- An opaque key by which permissions are granted. -/
structure Role where
  key : String
deriving DecidableEq, Repr

instance : LT Role := ⟨fun a b => a.key < b.key⟩

instance (a b : Role) : Decidable (a < b) := inferInstanceAs (Decidable (a.key < b.key))

/-- A finite set of roles, held in the order of their keys.  Equal sets are
equal values. -/
structure RoleSet where
  roles : List Role
  ascending : roles.Pairwise (· < ·)
deriving DecidableEq

namespace RoleSet

def empty : RoleSet := ⟨[], List.Pairwise.nil⟩

instance : Membership Role RoleSet := ⟨fun s r => r ∈ s.roles⟩

instance (r : Role) (s : RoleSet) : Decidable (r ∈ s) := inferInstanceAs (Decidable (r ∈ s.roles))

def contains (s : RoleSet) (r : Role) : Bool := decide (r ∈ s)

/-- Insertion into ascending roles. -/
def insertInto (r : Role) : List Role → List Role
  | [] => [r]
  | q :: rest =>
    if r < q then r :: q :: rest else if r = q then q :: rest else q :: insertInto r rest

theorem mem_insertInto {r q : Role} {l : List Role} : q ∈ insertInto r l ↔ q = r ∨ q ∈ l := by
  induction l with
  | nil => simp [insertInto]
  | cons p rest ih =>
    simp only [insertInto]
    split
    · simp
    · split
      · rename_i h; subst h; simp
      · simp only [List.mem_cons, ih]
        constructor
        · rintro (h | h | h)
          · exact .inr (.inl h)
          · exact .inl h
          · exact .inr (.inr h)
        · rintro (h | h | h)
          · exact .inr (.inl h)
          · exact .inl h
          · exact .inr (.inr h)

theorem insertInto_ascending {r : Role} {l : List Role} (h : l.Pairwise (· < ·)) :
    (insertInto r l).Pairwise (· < ·) := by
  induction l with
  | nil => simp [insertInto]
  | cons p rest ih =>
    obtain ⟨hp, hrest⟩ := List.pairwise_cons.mp h
    simp only [insertInto]
    split
    · rename_i hlt
      refine List.pairwise_cons.mpr ⟨fun q hq => ?_, h⟩
      rcases List.mem_cons.mp hq with rfl | hq
      · exact hlt
      · exact String.lt_trans hlt (hp q hq)
    · split
      · exact h
      · rename_i hnlt hne
        refine List.pairwise_cons.mpr ⟨fun q hq => ?_, ih hrest⟩
        rcases mem_insertInto.mp hq with rfl | hq
        · rcases Decidable.em (p.key < q.key) with hpq | hpq
          · exact hpq
          · exact absurd (congrArg Role.mk (String.le_antisymm hpq hnlt)) hne
        · exact hp q hq

def insert (r : Role) (s : RoleSet) : RoleSet :=
  ⟨insertInto r s.roles, insertInto_ascending s.ascending⟩

/-- The set of the roles of a list. -/
def ofList (roles : List Role) : RoleSet := roles.foldr insert empty

/-- The roles of the set that satisfy a test. -/
def filter (p : Role → Bool) (s : RoleSet) : RoleSet :=
  ⟨s.roles.filter p, s.ascending.filter p⟩

def keys (s : RoleSet) : List String := s.roles.map (·.key)

theorem mem_insert {r q : Role} {s : RoleSet} : q ∈ s.insert r ↔ q = r ∨ q ∈ s :=
  mem_insertInto

theorem mem_ofList {r : Role} {l : List Role} : r ∈ ofList l ↔ r ∈ l := by
  induction l with
  | nil => exact Iff.rfl
  | cons q rest ih =>
    rw [List.mem_cons, ← ih]
    exact mem_insert

theorem mem_filter {r : Role} {p : Role → Bool} {s : RoleSet} :
    r ∈ s.filter p ↔ r ∈ s ∧ p r = true :=
  List.mem_filter

end RoleSet
end AccessPolicy

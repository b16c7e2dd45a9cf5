/-
Calls that determine a predicate.

Building a predicate is a row of calls on a builder: each output is produced after those
it is made of, and only the scope of a related row is announced before what stands in it.
Nothing of the predicate is lost in the row.  A stack of outputs is all that is needed to
make the calls again, on the builder of predicates themselves or on any other.
-/
import AccessPolicy.Predicate.Query
import AccessPolicy.Proofs.Predicate.Interpretation

namespace AccessPolicy

/-! ## Brackets -/

/-- Calls are well bracketed and produce a number of outputs.  A connective joins outputs
that were produced in its own scope, and a scope is left by the relation by which it was
entered, after one output. -/
inductive QueryCall.Bracketed : Nat → List QueryCall → Prop where
  | nil : Bracketed 0 []
  | literal {n : Nat} {calls : List QueryCall} (value : Bool) (h : Bracketed n calls) :
      Bracketed (n + 1) (calls ++ [.literal value])
  | compare {n : Nat} {calls : List QueryCall} (field : FieldPath) (comparison : Comparison)
      (value : Json) (h : Bracketed n calls) :
      Bracketed (n + 1) (calls ++ [.compare field comparison value])
  | oneOf {n : Nat} {calls : List QueryCall} (field : FieldPath) (values : List Json)
      (h : Bracketed n calls) : Bracketed (n + 1) (calls ++ [.oneOf field values])
  | and {n parts : Nat} {calls : List QueryCall} (h : Bracketed (n + parts) calls) :
      Bracketed (n + 1) (calls ++ [.and parts])
  | or {n parts : Nat} {calls : List QueryCall} (h : Bracketed (n + parts) calls) :
      Bracketed (n + 1) (calls ++ [.or parts])
  | scope {n : Nat} {calls inner : List QueryCall} (relation : Relation) (h : Bracketed n calls)
      (hinner : Bracketed 1 inner) :
      Bracketed (n + 1) (calls ++ .enter relation :: (inner ++ [.leave relation]))

/-! ## Replaying -/

namespace QueryBuilder

variable {σ α : Type}

/-- Puts an output on top of a stack. -/
def push (stack : List α) (produced : α × σ) : List α × σ := (produced.1 :: stack, produced.2)

/-- Joins as many outputs as are asked for, from the top of a stack. -/
def joinTop (join : List α → σ → α × σ) (parts : Nat) (stack : List α) (s : σ) :
    Option (List α × σ) :=
  if parts ≤ stack.length then
    some (push (stack.drop parts) (join (stack.take parts).reverse s))
  else none

/-- Makes a call with outputs from a stack, the last one on top. -/
def perform (b : QueryBuilder σ α) : QueryCall → List α × σ → Option (List α × σ)
  | .literal value, (stack, s) => some (push stack (b.literal value s))
  | .and parts, (stack, s) => joinTop b.and parts stack s
  | .or parts, (stack, s) => joinTop b.or parts stack s
  | .compare field comparison value, (stack, s) =>
    some (push stack (b.compare field comparison value s))
  | .oneOf field values, (stack, s) => some (push stack (b.oneOf field values s))
  | .enter relation, (stack, s) => some (stack, b.enter relation s)
  | .leave relation, (inner :: stack, s) => some (push stack (b.leave relation inner s))
  | .leave _, ([], _) => none

/-- Makes calls one after the other. -/
def replay (b : QueryBuilder σ α) : List QueryCall → List α × σ → Option (List α × σ)
  | [], state => some state
  | call :: rest, state => (b.perform call state).bind (b.replay rest)

/-- A connective finds the outputs that were pushed for it. -/
theorem joinTop_reverse_append (join : List α → σ → α × σ) (outputs stack : List α) (s : σ) :
    joinTop join outputs.length (outputs.reverse ++ stack) s =
      some (push stack (join outputs s)) := by
  have hlength : outputs.reverse.length = outputs.length := List.length_reverse
  have henough : outputs.length ≤ (outputs.reverse ++ stack).length := by
    rw [List.length_append, hlength]
    exact Nat.le_add_right _ _
  rw [joinTop, if_pos henough, List.drop_left' hlength, List.take_left' hlength,
    List.reverse_reverse]

end QueryBuilder

/-- The builder whose outputs are the predicates themselves. -/
def predicateBuilder : QueryBuilder Unit Predicate where
  literal value s := (.literal value, s)
  and parts s := (.and parts, s)
  or parts s := (.or parts, s)
  compare field comparison value s := (.compare field comparison value, s)
  oneOf field values s := (.oneOf field values, s)
  enter _ s := s
  leave relation filter s := (.related relation filter, s)

namespace Predicate

variable {σ α : Type}

/-! ## Calls of a predicate -/

theorem length_buildParts (b : QueryBuilder σ α) (parts : List Predicate) (s : σ) :
    (buildParts b parts s).1.length = parts.length := by
  induction parts generalizing s with
  | nil => rfl
  | cons p rest ih => exact congrArg Nat.succ (ih _)

theorem recorded_parts {parts : List Predicate}
    (hparts : ∀ p ∈ parts, ∀ calls, (p.build callRecorder calls).2 = calls ++ p.calls) :
    ∀ calls, (buildParts callRecorder parts calls).2 = calls ++ parts.flatMap Predicate.calls := by
  induction parts with
  | nil => exact fun calls => (List.append_nil calls).symm
  | cons p rest ih =>
    intro calls
    obtain ⟨hp, hrest⟩ := List.forall_mem_cons.mp hparts
    rw [List.flatMap_cons, ← List.append_assoc, ← hp calls]
    exact ih hrest _

/-- The call of a connective is recorded after the calls of its parts. -/
theorem recorded_joined {parts : List Predicate} (call : Nat → QueryCall)
    (hparts : ∀ p ∈ parts, ∀ calls, (p.build callRecorder calls).2 = calls ++ p.calls)
    (calls : List QueryCall) :
    (buildParts callRecorder parts calls).2 ++
        [call (buildParts callRecorder parts calls).1.length] =
      calls ++ (parts.flatMap Predicate.calls ++ [call parts.length]) := by
  rw [recorded_parts hparts, length_buildParts, List.append_assoc]

theorem recorded_scope (relation : Relation) {filter : Predicate}
    (hfilter : ∀ calls, (filter.build callRecorder calls).2 = calls ++ filter.calls)
    (calls : List QueryCall) :
    (filter.build callRecorder (calls ++ [.enter relation])).2 ++ [.leave relation] =
      calls ++ .enter relation :: (filter.calls ++ [.leave relation]) := by
  rw [hfilter, List.append_assoc, List.append_assoc, List.singleton_append]

/-- Calls are recorded after those that were made before. -/
theorem recorded (p : Predicate) :
    ∀ calls, (p.build callRecorder calls).2 = calls ++ p.calls := by
  induction p with
  | and parts ih =>
    intro calls
    have hall := recorded_joined .and ih
    exact (hall calls).trans (congrArg (calls ++ ·) (hall []).symm)
  | or parts ih =>
    intro calls
    have hany := recorded_joined .or ih
    exact (hany calls).trans (congrArg (calls ++ ·) (hany []).symm)
  | related relation filter ih =>
    intro calls
    have hscope := recorded_scope relation ih
    exact (hscope calls).trans (congrArg (calls ++ ·) (hscope []).symm)
  | _ => exact fun _ => rfl

theorem calls_and (parts : List Predicate) :
    (Predicate.and parts).calls = parts.flatMap Predicate.calls ++ [.and parts.length] :=
  recorded_joined .and (fun p _ => recorded p) []

theorem calls_or (parts : List Predicate) :
    (Predicate.or parts).calls = parts.flatMap Predicate.calls ++ [.or parts.length] :=
  recorded_joined .or (fun p _ => recorded p) []

theorem calls_related (relation : Relation) (filter : Predicate) :
    (Predicate.related relation filter).calls =
      .enter relation :: (filter.calls ++ [.leave relation]) :=
  recorded_scope relation (recorded filter) []

/-! ## Brackets of a predicate -/

theorem bracketed_parts {parts : List Predicate}
    (hparts : ∀ p ∈ parts, ∀ {n : Nat} {calls : List QueryCall}, QueryCall.Bracketed n calls →
      QueryCall.Bracketed (n + 1) (calls ++ p.calls)) :
    ∀ {n : Nat} {calls : List QueryCall}, QueryCall.Bracketed n calls →
      QueryCall.Bracketed (n + parts.length) (calls ++ parts.flatMap Predicate.calls) := by
  induction parts with
  | nil =>
    intro n calls h
    rw [List.flatMap_nil, List.append_nil]
    exact h
  | cons p rest ih =>
    intro n calls h
    obtain ⟨hp, hrest⟩ := List.forall_mem_cons.mp hparts
    rw [List.flatMap_cons, ← List.append_assoc, List.length_cons, Nat.add_comm rest.length 1,
      ← Nat.add_assoc]
    exact ih hrest (hp h)

/-- After calls in the same scope, the calls of a predicate produce one more output. -/
theorem bracketed_append (p : Predicate) :
    ∀ {n : Nat} {calls : List QueryCall}, QueryCall.Bracketed n calls →
      QueryCall.Bracketed (n + 1) (calls ++ p.calls) := by
  induction p with
  | literal value => exact fun h => .literal value h
  | compare field comparison value => exact fun h => .compare field comparison value h
  | oneOf field values => exact fun h => .oneOf field values h
  | and parts ih =>
    intro n calls h
    rw [calls_and, ← List.append_assoc]
    exact .and (bracketed_parts ih h)
  | or parts ih =>
    intro n calls h
    rw [calls_or, ← List.append_assoc]
    exact .or (bracketed_parts ih h)
  | related relation filter ih =>
    intro n calls h
    rw [calls_related]
    exact .scope relation h (ih .nil)

/-! ## Predicates rebuilt -/

theorem replay_parts (b : QueryBuilder σ α) {parts : List Predicate}
    (hparts : ∀ p ∈ parts, ∀ (rest : List QueryCall) (stack : List α) (s : σ),
      b.replay (p.calls ++ rest) (stack, s) =
        b.replay rest (QueryBuilder.push stack (p.build b s))) :
    ∀ (rest : List QueryCall) (stack : List α) (s : σ),
      b.replay (parts.flatMap Predicate.calls ++ rest) (stack, s) =
        b.replay rest ((buildParts b parts s).1.reverse ++ stack, (buildParts b parts s).2) := by
  induction parts with
  | nil => exact fun _ _ _ => rfl
  | cons p others ih =>
    intro rest stack s
    obtain ⟨hp, hothers⟩ := List.forall_mem_cons.mp hparts
    rw [List.flatMap_cons, List.append_assoc, hp, QueryBuilder.push, ih hothers, buildParts,
      List.reverse_cons, List.append_assoc, List.singleton_append]

/-- The call of a connective takes up the outputs of the parts. -/
theorem replay_joined (b : QueryBuilder σ α) {call : Nat → QueryCall}
    {join : List α → σ → α × σ}
    (hcall : ∀ n stack s, b.perform (call n) (stack, s) = QueryBuilder.joinTop join n stack s)
    {parts : List Predicate}
    (hparts : ∀ p ∈ parts, ∀ (rest : List QueryCall) (stack : List α) (s : σ),
      b.replay (p.calls ++ rest) (stack, s) =
        b.replay rest (QueryBuilder.push stack (p.build b s)))
    (rest : List QueryCall) (stack : List α) (s : σ) :
    b.replay (parts.flatMap Predicate.calls ++ [call parts.length] ++ rest) (stack, s) =
      b.replay rest (QueryBuilder.push stack
        (join (buildParts b parts s).1 (buildParts b parts s).2)) := by
  rw [List.append_assoc, replay_parts b hparts, List.singleton_append, QueryBuilder.replay,
    ← length_buildParts b parts s, hcall, QueryBuilder.joinTop_reverse_append, Option.bind_some]

/-- Whatever stands on the stack and whatever calls follow, replaying the calls of a
predicate puts its output on top and leaves the state in which building it ends. -/
theorem replay_append (b : QueryBuilder σ α) (p : Predicate) :
    ∀ (rest : List QueryCall) (stack : List α) (s : σ),
      b.replay (p.calls ++ rest) (stack, s) =
        b.replay rest (QueryBuilder.push stack (p.build b s)) := by
  induction p with
  | and parts ih =>
    intro rest stack s
    rw [calls_and]
    exact replay_joined b (fun _ _ _ => rfl) ih rest stack s
  | or parts ih =>
    intro rest stack s
    rw [calls_or]
    exact replay_joined b (fun _ _ _ => rfl) ih rest stack s
  | related relation filter ih =>
    intro rest stack s
    rw [calls_related, List.cons_append, List.append_assoc, QueryBuilder.replay,
      QueryBuilder.perform, Option.bind_some, ih]
    rfl
  | _ => exact fun _ _ _ => rfl

theorem buildParts_predicateBuilder {parts : List Predicate}
    (hparts : ∀ p ∈ parts, p.build predicateBuilder () = (p, ())) :
    buildParts predicateBuilder parts () = (parts, ()) := by
  induction parts with
  | nil => rfl
  | cons p rest ih =>
    obtain ⟨hp, hrest⟩ := List.forall_mem_cons.mp hparts
    rw [buildParts, hp]
    dsimp only
    rw [ih hrest]

theorem build_predicateBuilder (p : Predicate) : p.build predicateBuilder () = (p, ()) := by
  induction p with
  | and parts ih => exact congrArg (fun r => (Predicate.and r.1, ())) (buildParts_predicateBuilder ih)
  | or parts ih => exact congrArg (fun r => (Predicate.or r.1, ())) (buildParts_predicateBuilder ih)
  | related relation filter ih => exact congrArg (fun r => (Predicate.related relation r.1, ())) ih
  | _ => rfl

theorem replay_calls (b : QueryBuilder σ α) (p : Predicate) (s : σ) :
    b.replay p.calls ([], s) = some ([(p.build b s).1], (p.build b s).2) := by
  have h := replay_append b p [] [] s
  rw [List.append_nil] at h
  exact h

/-- The calls of a predicate are well bracketed and produce one output.  Replaying them on
a stack rebuilds the predicate, so no other predicate makes the same calls, and on any
builder it gives what building gives, failures included. -/
theorem determined_by_calls (p : Predicate) :
    QueryCall.Bracketed 1 p.calls ∧
      predicateBuilder.replay p.calls ([], ()) = some ([p], ()) ∧
      (∀ q : Predicate, q.calls = p.calls ↔ q = p) ∧
      ∀ {σ α : Type} (b : QueryBuilder σ α) (s : σ),
        b.replay p.calls ([], s) = some ([(p.build b s).1], (p.build b s).2) := by
  -- Replaying gives each predicate back, so the same calls cannot come from two of them.
  have hself : ∀ q : Predicate, predicateBuilder.replay q.calls ([], ()) = some ([q], ()) := by
    intro q
    rw [replay_calls, build_predicateBuilder]
  refine ⟨p.bracketed_append .nil, hself p, fun q => ⟨fun h => ?_, fun h => h ▸ rfl⟩,
    fun b s => replay_calls b p s⟩
  have hq := hself q
  rw [h, hself p] at hq
  cases hq
  rfl

end Predicate
end AccessPolicy

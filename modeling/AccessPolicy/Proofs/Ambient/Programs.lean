/-
Scopes in whole programs.

A task keeps the bypass depth and the current principal in two places of its own.  A scope
writes one of them when it opens and puts back what it found there when it ends, whether
its body succeeded or failed.  What a check finds is therefore given by the scopes that
stand around it in the text of the program, whatever ran before.
-/
import AccessPolicy.Proofs.Service.Lookups
import AccessPolicy.Proofs.Service.Refusals

namespace AccessPolicy
namespace Ambient

/-! ## Scopes -/

inductive Scope where
  | bypass
  | acting (principal : Principal)
deriving DecidableEq

namespace Scope

/-- Opening a scope writes the depth or the principal. -/
def enter (a : Ambient) : Scope → Ambient
  | bypass => a.bypassing
  | acting principal => a.actingAs principal

/-- Ending a scope puts back the depth or the principal that was found, and only the one
that the scope wrote. -/
def leave (found a : Ambient) : Scope → Ambient
  | bypass => { a with bypassDepth := found.bypassDepth }
  | acting _ => { a with principal := found.principal }

def principal? : Scope → Option Principal
  | bypass => none
  | acting principal => some principal

end Scope

/-- The context inside of scopes, of which the innermost comes first. -/
def inside (start : Ambient) (around : List Scope) : Ambient :=
  ⟨start.bypassDepth + around.count .bypass,
    (around.findSome? Scope.principal?).or start.principal⟩

theorem inside_nil (start : Ambient) : start.inside [] = start := rfl

theorem inside_bypass (start : Ambient) (around : List Scope) :
    start.inside (.bypass :: around) = (start.inside around).bypassing := by
  rw [inside, List.count_cons_self]
  rfl

theorem inside_acting (start : Ambient) (around : List Scope) (principal : Principal) :
    start.inside (.acting principal :: around) = (start.inside around).actingAs principal := by
  rw [inside, List.count_cons_of_ne Scope.noConfusion]
  rfl

theorem enter_inside (start : Ambient) (around : List Scope) (scope : Scope) :
    scope.enter (start.inside around) = start.inside (scope :: around) := by
  cases scope with
  | bypass => exact (inside_bypass start around).symm
  | acting principal => exact (inside_acting start around principal).symm

/-- Whatever the scope wrote is put back, and the other place was not written. -/
theorem leave_inside (start : Ambient) (around : List Scope) (scope : Scope) :
    scope.leave (start.inside around) (start.inside (scope :: around)) = start.inside around := by
  rw [← enter_inside]
  cases scope <;> rfl

/-! ## Programs -/

/-- What a task does as far as authorization goes.  A check leads on by its answer and
ends in an error when it has none.  So does asking for a specification, or for the roles
that are authorized. -/
inductive Program where
  | skip
  | fail (e : AuthorizationError)
  | check (request : Request) (granted refused : Program)
  | specify (request : Request) (context : Option RequestContext)
  | discover (request : Request)
  | seq (first second : Program)
  | recover (body handler : Program)
  | within (scope : Scope) (body : Program)

/-- A check that was made: the context it was made in and the answer. -/
structure Checked where
  request : Request
  ambient : Ambient
  answer : Except AuthorizationError Bool

/-- A scope that ended: the contexts before it and after it. -/
structure Ended where
  scope : Scope
  before : Ambient
  after : Ambient

/-- What became of a program, with all checks and all ends of scopes in their order. -/
structure Run where
  result : Except AuthorizationError Unit
  after : Ambient
  checks : List Checked
  ends : List Ended

/-- One run, and another from the context that the first one left. -/
def Run.andThen (run : Run) (next : Ambient → Run) : Run :=
  let rest := next run.after
  ⟨rest.result, rest.after, run.checks ++ rest.checks, run.ends ++ rest.ends⟩

namespace Program

/-- The run of a program from a context. -/
def run (s : AuthorizationService) : Program → Ambient → Run
  | skip, a => ⟨.ok (), a, [], []⟩
  | fail e, a => ⟨.error e, a, [], []⟩
  | check request granted refused, a =>
    match s.hasPermission a request with
    | .error e => ⟨.error e, a, [⟨request, a, .error e⟩], []⟩
    | .ok authorized =>
      Run.andThen ⟨.ok (), a, [⟨request, a, .ok authorized⟩], []⟩
        (if authorized then run s granted else run s refused)
  | specify request context, a =>
    ⟨(s.authorizationSpecification a request context).map fun _ => (), a, [], []⟩
  | discover request, a => ⟨(s.authorizedRoles a request).map fun _ => (), a, [], []⟩
  | seq first second, a =>
    let done := run s first a
    match done.result with
    | .error _ => done
    | .ok _ => done.andThen (run s second)
  | recover body handler, a =>
    let done := run s body a
    match done.result with
    | .error _ => done.andThen (run s handler)
    | .ok _ => done
  | within scope body, a =>
    let done := run s body (scope.enter a)
    let after := scope.leave a done.after
    ⟨done.result, after, done.checks, done.ends ++ [⟨scope, a, after⟩]⟩

/-- Requires a permission. -/
def require (request : Request) : Program :=
  check request skip
    (fail (.accessDenied ⟨request.resourceType, request.action, request.subject.identifier?⟩))

theorem result_require (s : AuthorizationService) (request : Request) (a : Ambient) :
    ((require request).run s a).result = s.requirePermission a request := by
  rw [require, run, AuthorizationService.requirePermission]
  cases s.hasPermission a request with
  | error e => rfl
  | ok authorized => cases authorized <;> rfl

/-- The check of a request alone, under a principal or none. -/
def alone (request : Request) : Option Principal → Program
  | none => check request skip skip
  | some principal => within (.acting principal) (check request skip skip)

theorem checks_alone (s : AuthorizationService) (request : Request) (principal : Option Principal) :
    ((alone request principal).run s .fresh).checks =
      [⟨request, ⟨0, principal⟩, s.hasPermission ⟨0, principal⟩ request⟩] := by
  have hchecks : ∀ a, ((check request skip skip).run s a).checks =
      [⟨request, a, s.hasPermission a request⟩] := by
    intro a
    rw [run]
    cases s.hasPermission a request with
    | error e => rfl
    | ok authorized => cases authorized <;> rfl
  cases principal with
  | none => exact hchecks .fresh
  | some principal => exact hchecks (Ambient.fresh.actingAs principal)

end Program

/-! ## Checks in the text of a program -/

/-- A check in a program, with the scopes around it, of which the innermost comes first. -/
structure Site where
  around : List Scope
  request : Request

/-- The checks of a program that stands inside of scopes, in the order of its text. -/
def Program.sites (around : List Scope) : Program → List Site
  | skip => []
  | fail _ => []
  | specify _ _ => []
  | discover _ => []
  | check request granted refused =>
    ⟨around, request⟩ :: (sites around granted ++ sites around refused)
  | seq first second => sites around first ++ sites around second
  | recover body handler => sites around body ++ sites around handler
  | within scope body => sites (scope :: around) body

/-- The check as it is made at this place, by the scopes around it alone. -/
def Site.checked (s : AuthorizationService) (start : Ambient) (site : Site) : Checked :=
  ⟨site.request, start.inside site.around,
    s.hasPermission (start.inside site.around) site.request⟩

/-- The run ends in the context it began with, every scope in it did so too, and its checks
were made at places of the text, in their order. -/
structure Run.Follows (s : AuthorizationService) (start : Ambient) (around : List Scope)
    (sites : List Site) (run : Run) : Prop where
  after : run.after = start.inside around
  checks : ∃ visited : List Site, visited.Sublist sites ∧
    run.checks = visited.map (Site.checked s start)
  ends : ∀ ended ∈ run.ends, ended.after = ended.before

section

variable {s : AuthorizationService} {start : Ambient} {around : List Scope}
  {sites others : List Site} {run : Run}

theorem Run.Follows.mono (h : run.Follows s start around sites) (hsites : sites.Sublist others) :
    run.Follows s start around others := by
  obtain ⟨visited, hvisited, hchecks⟩ := h.checks
  exact ⟨h.after, ⟨visited, hvisited.trans hsites, hchecks⟩, h.ends⟩

theorem Run.Follows.andThen {next : Ambient → Run} (h : run.Follows s start around sites)
    (hnext : (next (start.inside around)).Follows s start around others) :
    (run.andThen next).Follows s start around (sites ++ others) := by
  obtain ⟨visited, hvisited, hchecks⟩ := h.checks
  rw [← h.after] at hnext
  obtain ⟨visited', hvisited', hchecks'⟩ := hnext.checks
  refine ⟨hnext.after, ⟨visited ++ visited', ?_, ?_⟩, ?_⟩
  · exact hvisited.append hvisited'
  · rw [Run.andThen, List.map_append, hchecks, hchecks']
  · intro ended hended
    exact (List.mem_append.mp hended).elim (h.ends ended) (hnext.ends ended)

/-- A check is made in the context of the scopes around it. -/
theorem Run.Follows.of_check (request : Request) (result : Except AuthorizationError Unit) :
    Run.Follows s start around [⟨around, request⟩]
      ⟨result, start.inside around,
        [⟨request, start.inside around, s.hasPermission (start.inside around) request⟩], []⟩ :=
  ⟨rfl, ⟨[⟨around, request⟩], List.Sublist.refl _, rfl⟩, nofun⟩

theorem Run.Follows.of_nothing (result : Except AuthorizationError Unit) :
    Run.Follows s start around [] ⟨result, start.inside around, [], []⟩ :=
  ⟨rfl, ⟨[], List.Sublist.refl _, rfl⟩, nofun⟩

/-- A scope leaves the context as it found it, when its body left the context as it was
inside. -/
theorem Run.Follows.within (scope : Scope) (h : run.Follows s start (scope :: around) sites) :
    Run.Follows s start around sites
      ⟨run.result, scope.leave (start.inside around) run.after, run.checks,
        run.ends ++ [⟨scope, start.inside around,
          scope.leave (start.inside around) run.after⟩]⟩ := by
  have hleft : scope.leave (start.inside around) run.after = start.inside around := by
    rw [h.after, leave_inside]
  refine ⟨hleft, h.checks, fun ended hended => ?_⟩
  rcases List.mem_append.mp hended with hended | hended
  · exact h.ends ended hended
  · obtain rfl := List.mem_singleton.mp hended
    exact hleft

end

variable (s : AuthorizationService) (start : Ambient)

/-- A program that stands inside of scopes and runs in their context. -/
theorem Program.follows_run (p : Program) : ∀ around,
    (p.run s (start.inside around)).Follows s start around (p.sites around) := by
  induction p with
  | skip => exact fun around => .of_nothing _
  | fail e => exact fun around => .of_nothing _
  | specify request context => exact fun around => .of_nothing _
  | discover request => exact fun around => .of_nothing _
  | check request granted refused hgranted hrefused =>
    intro around
    have hmade : ∀ result, Run.Follows s start around [⟨around, request⟩]
        ⟨result, start.inside around,
          [⟨request, start.inside around, s.hasPermission (start.inside around) request⟩], []⟩ :=
      Run.Follows.of_check request
    rw [run, sites]
    cases hanswer : s.hasPermission (start.inside around) request with
    | error e =>
      rw [hanswer] at hmade
      exact (hmade (.error e)).mono (List.Sublist.cons_cons _ (List.nil_sublist _))
    | ok authorized =>
      rw [hanswer] at hmade
      cases authorized with
      | true =>
        refine ((hmade (.ok ())).andThen (hgranted around)).mono ?_
        exact List.Sublist.cons_cons _ (List.sublist_append_left _ _)
      | false =>
        refine ((hmade (.ok ())).andThen (hrefused around)).mono ?_
        exact List.Sublist.cons_cons _ (List.sublist_append_right _ _)
  | seq first second hfirst hsecond =>
    intro around
    rw [run, sites]
    split
    · exact (hfirst around).mono (List.sublist_append_left _ _)
    · exact (hfirst around).andThen (hsecond around)
  | recover body handler hbody hhandler =>
    intro around
    rw [run, sites]
    split
    · exact (hbody around).andThen (hhandler around)
    · exact (hbody around).mono (List.sublist_append_left _ _)
  | within scope body hbody =>
    intro around
    rw [run, sites, enter_inside]
    exact (hbody (scope :: around)).within scope

/-- A program ends in the context it began with. -/
theorem Program.after_run (p : Program) : (p.run s start).after = start :=
  (p.follows_run s start []).after

/-! ## What a check finds -/

/-- The check is made at this place of a program, and decided by the scopes around it: the
depth is the number of bypass scopes and the principal that of the innermost principal
scope.  In a bypass scope the check is granted.  Outside, it has the answer of the same
check alone under that principal.  All rows are looked up one level deeper, so loaders that
work in that context alone make no difference. -/
structure Site.Decides (site : Site) (checked : Checked) : Prop where
  request : checked.request = site.request
  depth : checked.ambient.bypassDepth = start.bypassDepth + site.around.count .bypass
  principal : checked.ambient.principal =
    (site.around.findSome? Scope.principal?).or start.principal
  granted : 0 < checked.ambient.bypassDepth → checked.answer = .ok true
  covered : .bypass ∈ site.around → checked.answer = .ok true
  alone : checked.ambient.bypassDepth = 0 →
    ((Program.alone checked.request checked.ambient.principal).run s .fresh).checks = [checked]
  lookups : ∀ e,
    (s.lookingUpOnlyIn ⟨checked.ambient.bypassDepth + 1, checked.ambient.principal⟩ e).hasPermission
      checked.ambient checked.request = checked.answer

theorem Site.decides_checked (site : Site) : site.Decides s start (site.checked s start) := by
  have hgranted : 0 < (start.inside site.around).bypassDepth →
      s.hasPermission (start.inside site.around) site.request = .ok true :=
    AuthorizationService.hasPermission_of_bypassed
  refine ⟨rfl, rfl, rfl, hgranted, fun hbypass => hgranted ?_, fun hdepth => ?_, fun e => ?_⟩
  · exact Nat.add_pos_right _ (List.count_pos_iff.mpr hbypass)
  · have hambient : start.inside site.around = ⟨0, (start.inside site.around).principal⟩ := by
      rw [← hdepth]
      rfl
    rw [Program.checks_alone]
    show [_] = [Site.checked s start site]
    rw [Site.checked, hambient]
  · exact s.hasPermission_lookingUpOnlyIn (start.inside site.around) e site.request

/-- Every program leaves the depth and the principal as they were, and so does every scope
in it, whether it ended in an error or not.  The checks that were made stand in the text of
the program in this order, and each is decided by the scopes around it. -/
theorem Program.run_by_scopes (p : Program) :
    (p.run s start).after = start ∧
      (∀ ended ∈ (p.run s start).ends, ended.after = ended.before) ∧
      ∃ visited, visited.Sublist (p.sites []) ∧
        List.Forall₂ (Site.Decides s start) visited (p.run s start).checks := by
  have h := p.follows_run s start []
  rw [inside_nil] at h
  obtain ⟨visited, hvisited, hchecks⟩ := h.checks
  refine ⟨p.after_run s start, h.ends, visited, hvisited, ?_⟩
  rw [hchecks, List.forall₂_map_right_iff]
  exact List.forall₂_same.mpr fun site _ => site.decides_checked s start

open AuthorizationService (byDocument northernReaders reader)

/-- Two bypass scopes, of which the inner one fails, and a check after each has ended. -/
def Program.nestedBypasses : Program :=
  .seq
    (.within .bypass (.seq (.recover (.within .bypass (.fail .noPrincipal)) .skip)
      (.check byDocument .skip .skip)))
    (.check byDocument .skip .skip)

/-- Somebody without roles is granted the tasks of the document as long as the outer scope
is open.  Readers are granted them by rows that are looked up one level deeper: loaders that
work there alone will do, and loaders that work in the context of the check will not. -/
theorem Program.run_by_scopes_nestedBypasses :
    (nestedBypasses.run northernReaders ⟨0, some ⟨"user", .empty⟩⟩).after =
        ⟨0, some ⟨"user", .empty⟩⟩ ∧
      (∀ ended ∈ (nestedBypasses.run northernReaders ⟨0, some ⟨"user", .empty⟩⟩).ends,
        ended.after = ended.before) ∧
      (nestedBypasses.run northernReaders ⟨0, some ⟨"user", .empty⟩⟩).checks.map
        (fun checked => (checked.ambient.bypassDepth, checked.answer)) =
          [(1, .ok true), (0, .ok false)] ∧
      (∃ visited, visited.Sublist [⟨[], byDocument⟩] ∧
        List.Forall₂ (Site.Decides northernReaders reader) visited
          (((check byDocument skip skip).run northernReaders reader).checks)) ∧
      (northernReaders.lookingUpOnlyIn ⟨1, reader.principal⟩ (.backend "")).hasPermission reader
        byDocument = .ok true ∧
      (northernReaders.lookingUpOnlyIn ⟨0, reader.principal⟩ (.backend "")).hasPermission reader
        byDocument = .error (.store (.backend "")) := by
  obtain ⟨hafter, hends, _⟩ :=
    run_by_scopes northernReaders ⟨0, some ⟨"user", .empty⟩⟩ nestedBypasses
  obtain ⟨_, _, hdecided⟩ := run_by_scopes northernReaders reader (check byDocument skip skip)
  exact ⟨hafter, hends, by cbv, hdecided, by cbv, by cbv⟩

end Ambient
end AccessPolicy

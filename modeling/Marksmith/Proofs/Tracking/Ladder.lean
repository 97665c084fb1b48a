import Marksmith.Proofs.Host.Supertypes
import Marksmith.Proofs.Pass.Live
import Marksmith.Proofs.Tracking.Introduced

/-!
The marked classes from a class on upwards, each as it is seen from that class.

* `Rung`, `rung?`: the marked classes on the way up;
* `mem_registrations_iff`: a rung registers what it introduces, payloads only if it is tracked;
* `Plain`: what the compiler of a project guarantees, on a ladder without generic classes;
* `standing_of_rung?`: on a plain ladder, every rung is a class without type parameters that the
  lowest one inherits.
-/

namespace Marksmith

open Syntax (TypeRef)

/-! ### The way up -/

/-- A marked class as it is seen from a class below it. -/
structure Rung where
  /-- The class, with the type arguments that it has there. -/
  type : TypeRef
  plan : TrackingPlan

/-- The plan for a marked declaration, if it gets one. -/
def Project.trackingPlan? (project : Project) (s : Symbol) : Option TrackingPlan :=
  match TrackingState.unconfigured.analyze project .live s with
  | .ok state =>
    match state.plan project.settings with
    | .ready plan => some plan
    | _ => none
  | .error _ => none

namespace Rung

variable (rung : Rung)

/-- The facts about the class. -/
def facts : Facts := rung.plan.facts

/-- A registration of the class as it is seen from below. -/
def close (r : Registration) : Registration := r.substitute rung.facts.typeParams rung.type.args

/-- What the code for the class registers itself. -/
def registrations : List Registration := rung.plan.enable.map rung.close

/-- What the class adds to its marked ancestor. -/
def introduced : List Registration := rung.facts.introduced.map rung.close

/-- The marked ancestor of the class. -/
def above? (project : Project) : Option Rung := do
  let ancestor ← rung.facts.markedAncestor
  let type := ancestor.substitute rung.facts.typeParams rung.type.args
  let plan ← project.trackingPlan? (.ofType type)
  return ⟨type, plan⟩

theorem facts_of_plan {f : Facts} {settings : Settings} (plan : rung.plan = f.plan settings) :
    rung.facts = f := by
  rw [facts, plan, Facts.facts_plan]

/-- The rung of a marked declaration itself. -/
def ofSymbol? (project : Project) (s : Symbol) : Option Rung :=
  (project.trackingPlan? s).map fun plan => ⟨plan.facts.type, plan⟩

end Rung

/-- The marked classes from a class on upwards. -/
def rung? (project : Project) (first : Rung) : Nat → Option Rung
  | 0 => some first
  | k + 1 => (rung? project first k).bind (·.above? project)

/-- Every marked ancestor on the way up gets a plan. -/
def AllReady (project : Project) (first : Rung) : Prop :=
  ∀ k rung, rung? project first k = some rung → rung.facts.markedAncestor.isSome →
    (rung.above? project).isSome

/-- A plan is made from the facts about a declaration. -/
theorem plan_of_trackingPlan? {project : Project} {s : Symbol} {plan : TrackingPlan}
    (found : project.trackingPlan? s = some plan) :
    ∃ d marker track singleton, project.host.declaration? s = some d ∧
      plan = (Facts.ofDecl project.host project.index marker d track singleton).plan
        project.settings := by
  rw [Project.trackingPlan?] at found
  split at found
  · next state analyzed =>
    simp only [TrackingState.analyze] at analyzed
    generalize (if project.index.tracked.contains s then Marker.track else .singleton) = marker
      at analyzed
    split at analyzed
    · next facts extracted =>
      obtain ⟨d, track, singleton, declared, rfl⟩ := facts_of_extract extracted
      split at analyzed
      · cases analyzed
        cases found
      · cases analyzed
        cases found
        exact ⟨d, _, track, singleton, declared, rfl⟩
    · cases analyzed
    · cases analyzed
      cases found
  · cases found

variable {project : Project} {first rung : Rung}

theorem trackingPlan?_of_above? {next : Rung} (up : rung.above? project = some next) :
    project.trackingPlan? (.ofType next.type) = some next.plan := by
  obtain ⟨ancestor, -, rest⟩ := Option.bind_eq_some_iff.mp up
  obtain ⟨plan, planned, same⟩ := Option.bind_eq_some_iff.mp rest
  cases same
  exact planned

theorem trackingPlan?_of_rung? {s : Symbol} (start : Rung.ofSymbol? project s = some first) {k : Nat}
    (found : rung? project first k = some rung) :
    ∃ t, project.trackingPlan? t = some rung.plan := by
  cases k with
  | zero =>
    cases found
    obtain ⟨plan, planned, rfl⟩ := Option.map_eq_some_iff.mp start
    exact ⟨s, planned⟩
  | succ k =>
    obtain ⟨below, -, up⟩ := Option.bind_eq_some_iff.mp found
    exact ⟨_, trackingPlan?_of_above? up⟩

/-! ### Registrations of rungs -/

/-- A rung registers what it introduces, payloads only if it is tracked. -/
def Rung.Records (rung : Rung) (r : Registration) : Prop :=
  r ∈ rung.introduced ∧ (r.isPayload → rung.facts.isTracked) ∧ rung.facts.kind ≠ .interface

/-- What a marked class registers of interfaces and payloads, as it is seen from below. -/
theorem mem_registrations_iff {s : Symbol} (planned : project.trackingPlan? s = some rung.plan)
    {r : Registration} (owed : r.isOwed) : r ∈ rung.registrations ↔ rung.Records r := by
  obtain ⟨d, marker, track, singleton, -, plan⟩ := plan_of_trackingPlan? planned
  have enable : rung.plan.enable = if rung.facts.isInterface then [] else rung.facts.enable := by
    rw [rung.facts_of_plan plan, plan, Facts.enable_plan]
  have isInterface : rung.facts.kind ≠ .interface ↔ ¬rung.facts.isInterface := by
    rw [Facts.isInterface, beq_iff_eq]
  rw [Rung.registrations, Rung.Records, Rung.introduced, List.mem_map, List.mem_map, enable,
    isInterface]
  by_cases noClass : rung.facts.isInterface
  · simp [noClass]
  · rw [if_neg noClass]
    constructor
    · rintro ⟨t, mem, rfl⟩
      rw [Rung.close, Registration.isOwed_substitute] at owed
      obtain ⟨introduced, tracked⟩ := (rung.facts.mem_enable_iff owed).mp mem
      rw [Rung.close, Registration.isPayload_substitute]
      exact ⟨⟨t, introduced, rfl⟩, tracked, noClass⟩
    · rintro ⟨⟨t, introduced, rfl⟩, tracked, -⟩
      rw [Rung.close, Registration.isOwed_substitute] at owed
      rw [Rung.close, Registration.isPayload_substitute] at tracked
      exact ⟨t, (rung.facts.mem_enable_iff owed).mpr ⟨introduced, tracked⟩, rfl⟩

/-- A rung without type parameters introduces what its own interfaces stand for. -/
theorem mem_introduced_iff {s : Symbol} (planned : project.trackingPlan? s = some rung.plan)
    (closed : rung.facts.typeParams = []) (r : Registration) :
    r ∈ rung.introduced ↔
      ∃ i ∈ rung.facts.ownInterfaces project.host, r ∈ standsFor project.index i := by
  obtain ⟨d, marker, track, singleton, -, plan⟩ := plan_of_trackingPlan? planned
  have same : rung.introduced = rung.facts.introduced := by
    rw [Rung.introduced]
    refine List.map_id'' (fun r => ?_) _
    rw [Rung.close, closed, Registration.substitute_nil]
  rw [same, rung.facts_of_plan plan, Facts.mem_introduced_ofDecl]

/-! ### Plain ladders -/

/-- What the compiler of a project guarantees, on a ladder without generic classes: bases are classes,
interfaces are interfaces, and no class is its own ancestor. The walks for interfaces end. -/
structure Plain (project : Project) (first : Rung) : Prop where
  ordinary : project.host.Ordinary first.type
  finite : ∃ n, rung? project first n = none
  closed : ∀ k rung, rung? project first k = some rung → rung.facts.typeParams = []
  ends : ∀ t, project.host.Reaches first.type t →
    (project.host.allInterfacesWithin? project.host.stepLimit [t] [t]).isSome
  ready : AllReady project first

theorem Plain.interface {project : Project} {first : Rung} (plain : Plain project first)
    {i : TypeRef} (inherits : project.host.Inherits first.type i) :
    i.nullable = false ∧ i.rank = 0 := by
  obtain ⟨u, up, declared⟩ := inherits
  exact (plain.ordinary.interface u up i declared).2

/-- A rung on which a class stands that has no type parameters. -/
structure Standing (project : Project) (first rung : Rung) : Prop where
  above : project.host.Reaches first.type rung.type
  kind : project.host.IsKind .class rung.type
  made : ∃ d marker track singleton, rung.type = d.selfType ∧
    project.host.declaration? (.ofType d.selfType) = some d ∧
    rung.plan = (Facts.ofDecl project.host project.index marker d track singleton).plan
      project.settings

theorem Standing.facts_type (standing : Standing project first rung) :
    rung.facts.type = rung.type := by
  obtain ⟨d, marker, track, singleton, same, -, plan⟩ := standing.made
  rw [rung.facts_of_plan plan, same]
  rfl

theorem Standing.isClass (standing : Standing project first rung) : rung.facts.kind = .class := by
  obtain ⟨d, marker, track, singleton, same, declared, plan⟩ := standing.made
  have kind := standing.kind.1
  rw [same, Host.kindOf?, declared] at kind
  rw [rung.facts_of_plan plan]
  exact Option.some.inj kind

/-- The rung of a marked class stands, if nothing is wrong above it. -/
theorem standing_of_ofSymbol? {s : Symbol} (found : Rung.ofSymbol? project s = some first)
    (plain : Plain project first) : Standing project first first := by
  refine ⟨.refl, plain.ordinary.kind, ?_⟩
  obtain ⟨plan, planned, rfl⟩ := Option.map_eq_some_iff.mp found
  obtain ⟨d, marker, track, singleton, declared, rfl⟩ := plan_of_trackingPlan? planned
  obtain ⟨-, rfl⟩ := Host.symbol_of_declaration? declared
  refine ⟨d, marker, track, singleton, ?_, ?_, rfl⟩
  · rw [Facts.facts_plan]
    rfl
  · rw [TypeDecl.ofType_selfType, declared]

/-- Without type parameters, the next rung is the marked ancestor. -/
theorem markedAncestor_of_above? (closed : rung.facts.typeParams = []) {next : Rung}
    (up : rung.above? project = some next) : rung.facts.markedAncestor = some next.type := by
  obtain ⟨ancestor, marked, rest⟩ := Option.bind_eq_some_iff.mp up
  obtain ⟨plan, planned, same⟩ := Option.bind_eq_some_iff.mp rest
  cases same
  obtain ⟨name, args, nullable, rank⟩ := ancestor
  rw [marked, TypeRef.substitute, closed]
  rfl

/-- The marked ancestor of a class is the base of a class on the way up. -/
theorem Standing.base (standing : Standing project first rung) {ancestor : TypeRef}
    (marked : rung.facts.markedAncestor = some ancestor) :
    ∃ u, project.host.Reaches rung.type u ∧ project.host.baseType? u = some ancestor := by
  obtain ⟨d, marker, track, singleton, same, -, plan⟩ := standing.made
  rw [rung.facts_of_plan plan] at marked
  rw [same]
  exact Host.base_of_mem_baseChain (List.mem_of_find?_eq_some marked)

theorem Standing.next (plain : Plain project first) (standing : Standing project first rung)
    (closed : rung.facts.typeParams = []) {next : Rung} (up : rung.above? project = some next)
    (closed' : next.facts.typeParams = []) : Standing project first next := by
  obtain ⟨u, way, link⟩ := standing.base (markedAncestor_of_above? closed up)
  have kind := plain.ordinary.base u (standing.above.trans way) next.type link
  refine ⟨(standing.above.trans way).tail (.inl link), kind, ?_⟩
  obtain ⟨d, marker, track, singleton, declared, plan⟩ :=
    plan_of_trackingPlan? (trackingPlan?_of_above? up)
  obtain ⟨-, symbol⟩ := Host.symbol_of_declaration? declared
  have same : next.type = d.selfType := by
    rw [next.facts_of_plan plan] at closed'
    have params : d.typeParams = [] := closed'
    have name : d.name = next.type.name := congrArg Symbol.name symbol
    have arity : d.typeParams.length = next.type.args.length := congrArg Symbol.arity symbol
    rw [params, List.length_nil, eq_comm, List.length_eq_zero_iff] at arity
    rw [TypeDecl.selfType, params, name]
    obtain ⟨⟨typeName, args, nullable, rank⟩, _⟩ := next
    obtain ⟨-, rfl, rfl⟩ := kind
    cases arity
    rfl
  exact ⟨d, marker, track, singleton, same, same ▸ declared, plan⟩

/-- On a plain ladder, every rung stands. -/
theorem standing_of_rung? (plain : Plain project first) (start : Standing project first first)
    {k : Nat} (found : rung? project first k = some rung) : Standing project first rung := by
  induction k generalizing rung with
  | zero =>
    cases found
    exact start
  | succ k ih =>
    obtain ⟨below, there, up⟩ := Option.bind_eq_some_iff.mp found
    exact (ih there).next plain (plain.closed k below there) up
      (plain.closed (k + 1) rung found)

end Marksmith

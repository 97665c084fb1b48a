import Marksmith.Proofs.Tracking.Ladder
import Mathlib.Data.Nat.Find

/-!
Registrations along base calls. The code for a marked class registers what the class adds to its
nearest marked ancestor, and calls the ancestor's code for the rest. Every tracked interface and
every payload of a class should so be registered by exactly one class on the way up.

* `existsUnique_introduces`: on a plain ladder, every interface is introduced by exactly one rung;
* `registeredOnce_iff`: so everything is registered exactly once if and only if every rung that
  introduces a payload is tracked.

`not_registeredOnce_knight` is a tracked class whose payload is introduced by a singleton, which does
not register it.
-/

namespace Marksmith

open Syntax (TypeRef)

/-- Every tracked interface and every payload of a class is registered by exactly one class on the
way up. -/
def RegisteredOnce (project : Project) (first : Rung) : Prop :=
  ∀ i ∈ project.host.allInterfaces first.type, ∀ r ∈ standsFor project.index i,
    ∃! k, ∃ rung, rung? project first k = some rung ∧ r ∈ rung.registrations

variable {project : Project} {first rung : Rung}

/-! ### Every interface is introduced once -/

/-- The rung with a number inherits an interface. -/
def InheritsAt (project : Project) (first : Rung) (i : TypeRef) (k : Nat) : Prop :=
  ∃ rung, rung? project first k = some rung ∧ project.host.Inherits rung.type i

theorem InheritsAt.down (plain : Plain project first) (start : Standing project first first)
    {i : TypeRef} {k : Nat} (inherits : InheritsAt project first i (k + 1)) :
    InheritsAt project first i k := by
  obtain ⟨next, found, above⟩ := inherits
  obtain ⟨rung, there, up⟩ := Option.bind_eq_some_iff.mp found
  have standing := standing_of_rung? plain start there
  obtain ⟨u, way, link⟩ := standing.base (markedAncestor_of_above? (plain.closed k rung there) up)
  exact ⟨rung, there, above.of_reaches (way.tail (.inl link))⟩

/-- A property that is lost going up, and lost at last, is lost at exactly one step. -/
theorem existsUnique_last {P : Nat → Prop} (start : P 0) (down : ∀ k, P (k + 1) → P k)
    {n : Nat} (stop : ¬P n) : ∃! k, P k ∧ ¬P (k + 1) := by
  have below : ∀ {m k}, m ≤ k → P k → P m := by
    intro m k le holds
    induction le with
    | refl => exact holds
    | step _ ih => exact ih (down _ holds)
  classical
  have lost : ∃ n, ¬P n := ⟨n, stop⟩
  obtain ⟨k, last⟩ : ∃ k, Nat.find lost = k + 1 := by
    refine Nat.exists_eq_succ_of_ne_zero fun none => ?_
    have first := Nat.find_spec lost
    rw [none] at first
    exact first start
  have gone : ¬P (k + 1) := last ▸ Nat.find_spec lost
  have holds : P k := by
    by_contra absent
    have least := Nat.find_min' lost absent
    omega
  refine ⟨k, ⟨holds, gone⟩, fun m ⟨here, after⟩ => ?_⟩
  by_contra apart
  rcases Nat.lt_or_gt_of_ne apart with earlier | later
  · exact after (below earlier holds)
  · exact gone (below later here)

/-- The interfaces that a rung finds are those that it inherits. -/
theorem Standing.mem_allInterfaces (plain : Plain project first)
    (standing : Standing project first rung) {i : TypeRef} :
    i ∈ project.host.allInterfaces rung.type ↔ project.host.Inherits rung.type i :=
  Host.mem_allInterfaces (plain.ordinary.of_reaches standing.above standing.kind)
    (plain.ends _ standing.above)

/-- The interfaces that a rung adds to its marked ancestor are those that it inherits and the next
rung does not. -/
theorem mem_ownInterfaces_iff (plain : Plain project first) (start : Standing project first first)
    {k : Nat} (found : rung? project first k = some rung) (i : TypeRef) :
    i ∈ rung.facts.ownInterfaces project.host ↔
      project.host.Inherits rung.type i ∧ ¬InheritsAt project first i (k + 1) := by
  have standing := standing_of_rung? plain start found
  have step : rung? project first (k + 1) = rung.above? project := by
    rw [rung?, found, Option.bind_some]
  rw [Facts.ownInterfaces, List.mem_filter, standing.facts_type, standing.mem_allInterfaces plain]
  refine and_congr_right fun _ => ?_
  rw [Bool.not_eq_true', ← Bool.not_eq_true, List.contains_iff_mem, not_iff_not]
  cases marked : rung.facts.markedAncestor with
  | none =>
    have top : rung.above? project = none := by rw [Rung.above?, marked]; rfl
    constructor
    · intro none
      cases none
    · rintro ⟨next, there, -⟩
      rw [step, top] at there
      cases there
  | some ancestor =>
    obtain ⟨next, up⟩ := Option.isSome_iff_exists.mp
      (plain.ready k rung found (by rw [marked]; rfl))
    have same := markedAncestor_of_above? (plain.closed k rung found) up
    have there : rung? project first (k + 1) = some next := step.trans up
    have above := standing_of_rung? plain start there
    rw [marked] at same
    cases same
    rw [Option.map_some, Option.getD_some, above.mem_allInterfaces plain]
    constructor
    · exact fun inherits => ⟨next, there, inherits⟩
    · rintro ⟨other, again, inherits⟩
      rw [there] at again
      cases again
      exact inherits

/-- On a plain ladder, every inherited interface is added by exactly one rung. -/
theorem existsUnique_ownInterfaces (plain : Plain project first)
    (start : Standing project first first) {i : TypeRef}
    (inherits : project.host.Inherits first.type i) :
    ∃! k, ∃ rung, rung? project first k = some rung ∧
      i ∈ rung.facts.ownInterfaces project.host := by
  obtain ⟨n, top⟩ := plain.finite
  have stop : ¬InheritsAt project first i n := by
    rintro ⟨rung, found, -⟩
    rw [top] at found
    cases found
  have same : ∀ k, (∃ rung, rung? project first k = some rung ∧
      i ∈ rung.facts.ownInterfaces project.host) ↔
        InheritsAt project first i k ∧ ¬InheritsAt project first i (k + 1) := by
    intro k
    constructor
    · rintro ⟨rung, found, own⟩
      obtain ⟨here, gone⟩ := (mem_ownInterfaces_iff plain start found i).mp own
      exact ⟨⟨rung, found, here⟩, gone⟩
    · rintro ⟨⟨rung, found, here⟩, gone⟩
      exact ⟨rung, found, (mem_ownInterfaces_iff plain start found i).mpr ⟨here, gone⟩⟩
  have once := existsUnique_last ⟨first, rfl, inherits⟩
    (fun k => InheritsAt.down plain start) stop
  simpa only [same] using once

/-- On a plain ladder, whatever an inherited interface stands for is introduced by exactly one
rung. -/
theorem existsUnique_introduces (plain : Plain project first) {s : Symbol}
    (start : Rung.ofSymbol? project s = some first) {i : TypeRef}
    (inherits : project.host.Inherits first.type i) {r : Registration}
    (stands : r ∈ standsFor project.index i) :
    ∃! k, ∃ rung, rung? project first k = some rung ∧ r ∈ rung.introduced := by
  have standing := standing_of_ofSymbol? start plain
  have same : ∀ k, (∃ rung, rung? project first k = some rung ∧ r ∈ rung.introduced) ↔
      ∃ rung, rung? project first k = some rung ∧ i ∈ rung.facts.ownInterfaces project.host := by
    intro k
    refine exists_congr fun rung => and_congr_right fun found => ?_
    obtain ⟨t, planned⟩ := trackingPlan?_of_rung? start found
    rw [mem_introduced_iff planned (plain.closed k rung found)]
    constructor
    · rintro ⟨j, own, stands'⟩
      have here := ((mem_ownInterfaces_iff plain standing found j).mp own).1
      have same := eq_of_mem_standsFor (plain.interface inherits)
        (plain.interface (here.of_reaches (standing_of_rung? plain standing found).above))
        stands stands'
      exact same ▸ own
    · exact fun own => ⟨i, own, stands⟩
  simpa only [same] using existsUnique_ownInterfaces plain standing inherits

/-! ### Registered once -/

/-- Everything that a class inherits is registered exactly once if and only if exactly one rung
records it. On a plain ladder that is the rung that introduces it, so the rungs that introduce
payloads have to be tracked. -/
theorem registeredOnce_iff {s : Symbol} (start : Rung.ofSymbol? project s = some first) :
    (RegisteredOnce project first ↔
        ∀ i ∈ project.host.allInterfaces first.type, ∀ r ∈ standsFor project.index i,
          ∃! k, ∃ rung, rung? project first k = some rung ∧ rung.Records r) ∧
      (Plain project first → (RegisteredOnce project first ↔
        ∀ k rung, rung? project first k = some rung →
          (∃ r ∈ rung.introduced, r.isPayload) → rung.facts.isTracked)) := by
  have recorded : RegisteredOnce project first ↔
      ∀ i ∈ project.host.allInterfaces first.type, ∀ r ∈ standsFor project.index i,
        ∃! k, ∃ rung, rung? project first k = some rung ∧ rung.Records r := by
    refine forall₄_congr fun i _ r stands => existsUnique_congr fun k => ?_
    refine exists_congr fun rung => and_congr_right fun found => ?_
    obtain ⟨t, planned⟩ := trackingPlan?_of_rung? start found
    exact mem_registrations_iff planned (isOwed_of_mem_standsFor stands)
  refine ⟨recorded, fun plain => recorded.trans ?_⟩
  have standing := standing_of_ofSymbol? start plain
  constructor
  · rintro once k rung found ⟨r, introduced, payload⟩
    obtain ⟨t, planned⟩ := trackingPlan?_of_rung? start found
    obtain ⟨i, own, stands⟩ :=
      (mem_introduced_iff planned (plain.closed k rung found) r).mp introduced
    have here := ((mem_ownInterfaces_iff plain standing found i).mp own).1
    have inherits := here.of_reaches (standing_of_rung? plain standing found).above
    obtain ⟨m, ⟨recorder, there, records⟩, -⟩ :=
      once i ((standing.mem_allInterfaces plain).mpr inherits) r stands
    have same : m = k := (existsUnique_introduces plain start inherits stands).unique
      ⟨recorder, there, records.1⟩ ⟨rung, found, introduced⟩
    subst same
    rw [found] at there
    cases there
    exact records.2.1 payload
  · intro tracked i mem r stands
    have inherits := (standing.mem_allInterfaces plain).mp mem
    have once := existsUnique_introduces plain start inherits stands
    refine (existsUnique_congr fun k => ?_).mpr once
    refine exists_congr fun rung => and_congr_right fun found => ?_
    have isClass := (standing_of_rung? plain standing found).isClass
    constructor
    · exact fun records => records.1
    · intro introduced
      refine ⟨introduced, fun payload => tracked k rung found ⟨r, introduced, payload⟩, ?_⟩
      rw [isClass]
      exact TypeKind.noConfusion

/-! ### A payload of a singleton -/

/-- A class `Hero` with a payload and a marker, and a tracked class `Knight` derived from it. -/
def knights (marker : String) : Model where
  types :=
    [ { name := "Game.Stats", kind := .struct },
      { name := "Game.Hero", kind := .class, attributes := [⟨marker, []⟩],
        interfaces := [.generic "Medicine.IUnmanagedData" [.named "Stats"]] },
      { name := "Game.Knight", kind := .class, base := some (.named "Hero"),
        attributes := [⟨"Track", []⟩] } ]

/-- The project of these declarations. -/
def knightsProject (marker : String) : Project :=
  let model := knights marker
  let host : Host :=
    ⟨{ model with types := model.types ++ Host.visiblePrelude model.types }, Host.usualStepLimit⟩
  { host, index := MarkerIndex.ofHost host }

theorem knights_accepted (marker : String) :
    Host.ofModel Host.usualStepLimit (knights marker) = .ok (knightsProject marker).host := by
  have distinct : Host.firstDuplicate? [] (knights marker).types = none := rfl
  have contained : Host.firstUnknownContaining?
      ((knights marker).types ++ Host.visiblePrelude (knights marker).types) = none := rfl
  simp only [Host.ofModel, distinct, contained]
  rfl

/-- The symbol of `Knight`. -/
def knight : Symbol := ⟨"Game.Knight", 0⟩

/-- The type `Knight` with the interface and the class above it. -/
def knightTypes : List TypeRef :=
  [.named "Game.Knight", .named "Game.Hero",
    .generic "Medicine.IUnmanagedData" [.named "Game.Stats"]]

theorem above?_eq_none (top : rung.facts.markedAncestor = none) : rung.above? project = none := by
  rw [Rung.above?, top]
  rfl

/-- A ladder of two rungs. -/
theorem rung?_of_two {second : Rung} (up : first.above? project = some second)
    (top : second.facts.markedAncestor = none) {k : Nat}
    (found : rung? project first k = some rung) :
    (k = 0 ∧ rung = first) ∨ (k = 1 ∧ rung = second) := by
  have one : rung? project first 1 = some second := up
  match k with
  | 0 => exact .inl ⟨rfl, (Option.some.inj found).symm⟩
  | 1 => exact .inr ⟨rfl, Option.some.inj (found.symm.trans one)⟩
  | k + 2 =>
    have none : ∀ k, rung? project first (k + 2) = none := by
      intro k
      induction k with
      | zero => rw [rung?, one, Option.bind_some, above?_eq_none top]
      | succ k ih => rw [rung?, ih, Option.bind_none]
    rw [none k] at found
    cases found

theorem allReady_of_two {second : Rung} (up : first.above? project = some second)
    (top : second.facts.markedAncestor = none) : AllReady project first := by
  intro k rung found marked
  rcases rung?_of_two up top found with ⟨-, rfl⟩ | ⟨-, rfl⟩
  · rw [up]
    rfl
  · rw [top] at marked
    cases marked

/-- What can be tested of a rung. -/
structure Rung.Shape where
  type : TypeRef
  kind : TypeKind
  isTracked : Bool
  typeParams : List String
  markedAncestor : Option TypeRef
  registrations : List Registration
deriving DecidableEq

def Rung.shape (rung : Rung) : Rung.Shape where
  type := rung.type
  kind := rung.facts.kind
  isTracked := rung.facts.isTracked
  typeParams := rung.facts.typeParams
  markedAncestor := rung.facts.markedAncestor
  registrations := rung.registrations

/-- The two rungs of `Knight`. -/
def knightShapes (project : Project) : Option (Rung.Shape × Rung.Shape) :=
  (Rung.ofSymbol? project knight).bind fun first =>
    (first.above? project).map fun second => (first.shape, second.shape)

theorem knight_rungs {below above : Rung.Shape}
    (shapes : knightShapes project = some (below, above)) :
    ∃ first second, Rung.ofSymbol? project knight = some first ∧
      first.above? project = some second ∧ first.shape = below ∧ second.shape = above := by
  obtain ⟨first, start, rest⟩ := Option.bind_eq_some_iff.mp shapes
  obtain ⟨second, up, same⟩ := Option.map_eq_some_iff.mp rest
  obtain ⟨left, right⟩ := Prod.mk.inj same
  exact ⟨first, second, start, up, left, right⟩

/-- If `Hero` is tracked as well, everything that `Knight` inherits is registered once. -/
theorem registeredOnce_knight :
    ∃ first, Rung.ofSymbol? (knightsProject "Track") knight = some first ∧
      RegisteredOnce (knightsProject "Track") first := by
  have shapes : knightShapes (knightsProject "Track")
      = some (⟨.named "Game.Knight", .class, true, [], some (.named "Game.Hero"),
            [.base, .instances]⟩,
          ⟨.named "Game.Hero", .class, true, [], none,
            [.instances, .unmanagedData (.named "Game.Stats")]⟩) := by decide +kernel
  obtain ⟨first, second, start, up, below, above⟩ := knight_rungs shapes
  have type := congrArg Rung.Shape.type below
  have top := congrArg Rung.Shape.markedAncestor above
  refine ⟨first, start, ((registeredOnce_iff start).2 ?_).mpr ?_⟩
  · have host : ∀ t ∈ knightTypes, ∀ v ∈ ((knightsProject "Track").host.baseType? t).toList
        ++ (knightsProject "Track").host.declaredInterfaces t, v ∈ knightTypes := by
      decide +kernel
    refine ⟨?_, ⟨2, ?_⟩, ?_, ?_, allReady_of_two up top⟩
    · rw [show first.type = _ from type]
      exact Host.ordinary_of_closed List.mem_cons_self host (by decide +kernel)
        (by decide +kernel) (by decide +kernel)
    · show (rung? _ first 1).bind _ = none
      rw [show rung? _ first 1 = some second from up, Option.bind_some, above?_eq_none top]
    · intro k rung found
      rcases rung?_of_two up top found with ⟨-, rfl⟩ | ⟨-, rfl⟩
      · exact congrArg Rung.Shape.typeParams below
      · exact congrArg Rung.Shape.typeParams above
    · intro t reaches
      have all : ∀ t ∈ knightTypes, ((knightsProject "Track").host.allInterfacesWithin?
          (knightsProject "Track").host.stepLimit [t] [t]).isSome := by decide +kernel
      rw [show first.type = _ from type] at reaches
      exact all t (Host.mem_of_reaches List.mem_cons_self host reaches)
  · intro k rung found _
    rcases rung?_of_two up top found with ⟨-, rfl⟩ | ⟨-, rfl⟩
    · exact congrArg Rung.Shape.isTracked below
    · exact congrArg Rung.Shape.isTracked above

/-- If `Hero` is a singleton only, nothing registers its payload. -/
theorem not_registeredOnce_knight :
    ¬∀ limit model host settings s first, Host.ofModel limit model = .ok host →
      Rung.ofSymbol? ⟨host, MarkerIndex.ofHost host, settings, none⟩ s = some first →
      first.facts.isTracked → first.facts.kind = .class →
      AllReady ⟨host, MarkerIndex.ofHost host, settings, none⟩ first →
      RegisteredOnce ⟨host, MarkerIndex.ofHost host, settings, none⟩ first := by
  intro always
  have shapes : knightShapes (knightsProject "Singleton")
      = some (⟨.named "Game.Knight", .class, true, [], some (.named "Game.Hero"),
            [.base, .instances]⟩,
          ⟨.named "Game.Hero", .class, false, [], none, [.singleton]⟩) := by decide +kernel
  obtain ⟨first, second, start, up, below, above⟩ := knight_rungs shapes
  have type := congrArg Rung.Shape.type below
  have top := congrArg Rung.Shape.markedAncestor above
  have once : RegisteredOnce (knightsProject "Singleton") first :=
    always _ _ _ {} knight first (knights_accepted "Singleton") start
      (congrArg Rung.Shape.isTracked below) (congrArg Rung.Shape.kind below)
      (allReady_of_two up top)
  have inherited : .generic "Medicine.IUnmanagedData" [.named "Game.Stats"]
      ∈ (knightsProject "Singleton").host.allInterfaces first.type := by
    rw [show first.type = _ from type]
    decide +kernel
  have stands : .unmanagedData (.named "Game.Stats") ∈ standsFor (knightsProject "Singleton").index
      (.generic "Medicine.IUnmanagedData" [.named "Game.Stats"]) := by decide +kernel
  obtain ⟨k, ⟨rung, found, mem⟩, -⟩ := once _ inherited _ stands
  rcases rung?_of_two up top found with ⟨-, rfl⟩ | ⟨-, rfl⟩
  · rw [show rung.registrations = _ from congrArg Rung.Shape.registrations below] at mem
    simp at mem
  · rw [show rung.registrations = _ from congrArg Rung.Shape.registrations above] at mem
    simp at mem

end Marksmith

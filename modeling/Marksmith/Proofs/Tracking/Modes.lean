import Marksmith.Proofs.Tracking.Extraction

/-!
Registration modes along base calls. The code for a marked class calls that of its nearest marked
ancestor, so both should be registered in the same way, by calls of the project or automatically. A
class is compared with two ancestors instead, marker by marker: the nearest tracked one and the
nearest singleton.

* `ModesAgree`: a class with a plan registers as its marked ancestor does, and a class that does not
  is reported;
* `mismatch?_eq_none_iff`: what the comparison finds out;
* `compatible_markedAncestor`: markers that a class shares with its marked ancestor have the same
  mode;
* `modesAgree_iff`: so modes agree exactly if a shared marker is manual, or manual markers that only
  one of the two has come in pairs.

`not_modesAgree_knight` is an automatic singleton below a manual tracked class.
-/

namespace Marksmith

open Syntax (TypeRef)

/-! ### Modes -/

namespace MarkerIndex

variable (index : MarkerIndex)

/-- Whether a tracked type registers manually. -/
def trackMode? (s : Symbol) : Option Bool := (index.tracked.get? s).map (·.options.manual)

/-- Whether a singleton registers manually. -/
def singletonMode? (s : Symbol) : Option Bool := (index.singletons.get? s).map (·.manual)

/-- Whether a marked type registers manually. -/
def isManual (s : Symbol) : Bool := (index.trackMode? s).any id || (index.singletonMode? s).any id

end MarkerIndex

namespace Facts

variable (f : Facts)

/-- Whether a type registers manually as a tracked one. -/
def trackMode? : Option Bool := f.track.map (·.manual)

/-- Whether a type registers manually as a singleton. -/
def singletonMode? : Option Bool := f.singleton.map (·.manual)

theorem isManual_eq : f.isManual = (f.trackMode?.any id || f.singletonMode?.any id) := by
  rw [isManual, trackMode?, singletonMode?, Option.any_map, Option.any_map]
  rfl

end Facts

/-- A class with a plan registers as its marked ancestor does; if it does not, it is reported and
nothing is generated. -/
def ModesAgree (project : Project) (s : Symbol) : Prop :=
  ∀ f ancestor, project.facts? s = some f → f.kind = .class → f.markedAncestor = some ancestor →
    ((project.trackingPlan? s).isSome → f.isManual = project.index.isManual (.ofType ancestor)) ∧
      (f.isManual ≠ project.index.isManual (.ofType ancestor) →
        ∃ report, report.code = .registrationModeMismatch ∧
          project.trackingOutput .live s = .ok { files := [], diagnostics := [report] })

/-! ### What is compared -/

/-- Modes that are the same where there are both. -/
def Compatible (own theirs : Option Bool) : Prop := ∀ a ∈ own, ∀ b ∈ theirs, a = b

theorem compatible_none (own : Option Bool) : Compatible own none := by
  intro a _ b absent
  cases absent

/-- The comparison of a marker's mode with that of an ancestor. -/
theorem compare_eq_none_iff {α β : Type} {own : Option α} {ancestor : Option TypeRef}
    {lookup : TypeRef → Option β} {manual : α → Bool} {manual' : β → Bool} :
    (do
      let own ← own
      let ancestor ← ancestor
      let theirs ← lookup ancestor
      if manual own ≠ manual' theirs then return (ancestor, manual own) else none) = none ↔
      Compatible (own.map manual) (ancestor.bind fun t => (lookup t).map manual') := by
  cases own with
  | none => simp [Compatible]
  | some own =>
    cases ancestor with
    | none => simp [Compatible]
    | some ancestor =>
      cases found : lookup ancestor with
      | none => simp [Compatible, found]
      | some theirs => simp [Compatible, found]

namespace Facts

variable {index : MarkerIndex} {f : Facts}

/-- There is no mismatch exactly if each marker has the mode that the nearest ancestor with this
marker has. -/
theorem mismatch?_eq_none_iff :
    mismatch? index f = none ↔
      Compatible f.trackMode? (f.trackedAncestor.bind fun t => index.trackMode? (.ofType t)) ∧
        Compatible f.singletonMode?
          (f.singletonAncestor.bind fun t => index.singletonMode? (.ofType t)) := by
  rw [mismatch?, Option.or_eq_none_iff]
  exact and_congr compare_eq_none_iff compare_eq_none_iff

end Facts

/-! ### The marked ancestor -/

/-- The first element that satisfies one of two conditions is the first that satisfies a given one
of them, if it does. -/
theorem find?_of_find?_or {α : Type} {p q : α → Bool} {a : α} {as : List α}
    (found : as.find? (fun a => p a || q a) = some a) (holds : p a) : as.find? p = some a := by
  obtain ⟨-, front, back, rfl, before⟩ := List.find?_eq_some_iff_append.mp found
  refine List.find?_eq_some_iff_append.mpr ⟨holds, front, back, rfl, fun b mem => ?_⟩
  have neither := before b mem
  rw [Bool.not_eq_true', Bool.or_eq_false_iff] at neither
  rw [neither.1]
  rfl

variable {project : Project} {s : Symbol} {f : Facts} {ancestor : TypeRef}

/-- The ancestors of a class, as they are looked for among its base types. -/
theorem ancestors_of_facts? (found : project.facts? s = some f) :
    ∃ d, project.host.declaration? s = some d ∧
      f.markedAncestor = (project.host.baseChain d.selfType).find? (fun t =>
        project.index.tracked.containsType t || project.index.singletons.containsType t) ∧
      f.trackedAncestor = (project.host.baseChain d.selfType).find?
        project.index.tracked.containsType ∧
      f.singletonAncestor = (project.host.baseChain d.selfType).find?
        project.index.singletons.containsType := by
  obtain ⟨d, track, singleton, declared, -, -, rfl⟩ := Project.facts?_eq_some_iff.mp found
  refine ⟨d, declared, ?_, rfl, rfl⟩
  rw [Facts.ofDecl, MarkerIndex.markerOf]
  split
  · rfl
  · rfl

/-- Markers that a class shares with its marked ancestor have the same mode, unless a mismatch is
found. -/
theorem compatible_markedAncestor (found : project.facts? s = some f)
    (marked : f.markedAncestor = some ancestor)
    (fits : Facts.mismatch? project.index f = none) :
    Compatible f.trackMode? (project.index.trackMode? (.ofType ancestor)) ∧
      Compatible f.singletonMode? (project.index.singletonMode? (.ofType ancestor)) := by
  obtain ⟨d, -, nearest, nearestTracked, nearestSingleton⟩ := ancestors_of_facts? found
  obtain ⟨tracked, singleton⟩ := Facts.mismatch?_eq_none_iff.mp fits
  rw [marked] at nearest
  constructor
  · cases entry : project.index.trackMode? (.ofType ancestor) with
    | none => exact compatible_none _
    | some mode =>
      have isTracked : project.index.tracked.containsType ancestor := by
        obtain ⟨type, there, -⟩ := Option.map_eq_some_iff.mp entry
        rw [SymbolTable.containsType, SymbolTable.contains, there]
        rfl
      have same := find?_of_find?_or nearest.symm isTracked
      rwa [nearestTracked, same, Option.bind_some, entry] at tracked
  · cases entry : project.index.singletonMode? (.ofType ancestor) with
    | none => exact compatible_none _
    | some mode =>
      have isSingleton : project.index.singletons.containsType ancestor := by
        obtain ⟨options, there, -⟩ := Option.map_eq_some_iff.mp entry
        rw [SymbolTable.containsType, SymbolTable.contains, there]
        rfl
      simp only [Bool.or_comm] at nearest
      have same := find?_of_find?_or nearest.symm isSingleton
      rwa [nearestSingleton, same, Option.bind_some, entry] at singleton

/-! ### When modes agree -/

section

variable (index : MarkerIndex) (f : Facts) (ancestor : TypeRef)

/-- A class shares a manual marker with its ancestor. -/
def SharesManual : Prop :=
  (f.trackMode? = some true ∧ (index.trackMode? (.ofType ancestor)).isSome) ∨
    (f.singletonMode? = some true ∧ (index.singletonMode? (.ofType ancestor)).isSome)

/-- A class has a manual marker that its ancestor has not. -/
def AddsManual : Prop :=
  (f.trackMode? = some true ∧ index.trackMode? (.ofType ancestor) = none) ∨
    (f.singletonMode? = some true ∧ index.singletonMode? (.ofType ancestor) = none)

/-- The ancestor of a class has a manual marker that the class has not. -/
def DropsManual : Prop :=
  (index.trackMode? (.ofType ancestor) = some true ∧ f.trackMode? = none) ∨
    (index.singletonMode? (.ofType ancestor) = some true ∧ f.singletonMode? = none)

end

theorem any_id_iff {mode : Option Bool} : mode.any id ↔ mode = some true := by
  rcases mode with _ | _ | _ <;> simp

/-- Of two compatible modes, a manual one is shared or alone. -/
theorem Compatible.manual_iff {own theirs : Option Bool} (compatible : Compatible own theirs) :
    (own = some true ↔ (own = some true ∧ theirs.isSome) ∨ (own = some true ∧ theirs = none)) ∧
      (theirs = some true ↔
        (own = some true ∧ theirs.isSome) ∨ (theirs = some true ∧ own = none)) := by
  cases own with
  | none => simp
  | some a =>
    cases theirs with
    | none => simp
    | some b =>
      cases compatible a rfl b rfl
      simp

/-- A class and its marked ancestor register in the same way exactly if they share a manual marker,
or each has a manual marker that the other has not, or neither has. -/
theorem isManual_eq_iff {index : MarkerIndex} {f : Facts} {ancestor : TypeRef}
    (tracked : Compatible f.trackMode? (index.trackMode? (.ofType ancestor)))
    (singleton : Compatible f.singletonMode? (index.singletonMode? (.ofType ancestor))) :
    f.isManual = index.isManual (.ofType ancestor) ↔
      SharesManual index f ancestor ∨
        (AddsManual index f ancestor ↔ DropsManual index f ancestor) := by
  have own : f.isManual ↔ SharesManual index f ancestor ∨ AddsManual index f ancestor := by
    rw [f.isManual_eq, Bool.or_eq_true, any_id_iff, any_id_iff, tracked.manual_iff.1,
      singleton.manual_iff.1, SharesManual, AddsManual]
    exact or_or_or_comm
  have theirs : index.isManual (.ofType ancestor) ↔
      SharesManual index f ancestor ∨ DropsManual index f ancestor := by
    rw [MarkerIndex.isManual, Bool.or_eq_true, any_id_iff, any_id_iff, tracked.manual_iff.2,
      singleton.manual_iff.2, SharesManual, DropsManual]
    exact or_or_or_comm
  rw [Bool.eq_iff_iff, own, theirs]
  by_cases shared : SharesManual index f ancestor
  · simp [shared]
  · simp [shared]

/-- The modes of a class with a plan and of its marked ancestor are the same exactly if they share a
manual marker, or each has a manual marker that the other has not, or neither has. -/
theorem modesAgree_iff :
    ModesAgree project s ↔ ∀ f ancestor, project.facts? s = some f → f.kind = .class →
      f.markedAncestor = some ancestor → (project.trackingPlan? s).isSome →
        SharesManual project.index f ancestor ∨
          (AddsManual project.index f ancestor ↔ DropsManual project.index f ancestor) := by
  refine forall₅_congr fun f ancestor found isClass marked => ?_
  have planned : (project.trackingPlan? s).isSome ↔ Facts.mismatch? project.index f = none := by
    rw [Project.trackingPlan?_eq, found]
    cases mismatch : Facts.mismatch? project.index f <;> simp [mismatch]
  have agree : Facts.mismatch? project.index f = none →
      (f.isManual = project.index.isManual (.ofType ancestor) ↔
        SharesManual project.index f ancestor ∨
          (AddsManual project.index f ancestor ↔ DropsManual project.index f ancestor)) :=
    fun fits => isManual_eq_iff (compatible_markedAncestor found marked fits).1
      (compatible_markedAncestor found marked fits).2
  rw [planned]
  constructor
  · rintro ⟨same, -⟩ fits
    exact (agree fits).mp (same fits)
  · intro matched
    refine ⟨fun fits => (agree fits).mpr (matched fits), fun apart => ?_⟩
    cases mismatch : Facts.mismatch? project.index f with
    | none => exact absurd ((agree mismatch).mpr (matched mismatch)) apart
    | some reported =>
      obtain ⟨location, report⟩ := Project.diagnostics_of_facts? found
      rw [mismatch] at report
      refine ⟨Facts.mismatchReport location f reported.1 reported.2, rfl, ?_⟩
      rw [Project.trackingOutput_eq, found]
      simp only [mismatch, report]
      rfl

/-! ### An automatic class below a manual one -/

/-- A class `Hero` and a class `Knight` derived from it, each with a marker. -/
def heirs (hero knight : Attribute) : Model where
  types :=
    [ { name := "Game.Hero", kind := .class, attributes := [hero] },
      { name := "Game.Knight", kind := .class, base := some (.named "Hero"),
        attributes := [knight] } ]

/-- The project of these declarations. -/
def heirsProject (hero knight : Attribute) : Project where
  host := .withPrelude (heirs hero knight)
  index := .ofHost (.withPrelude (heirs hero knight))

/-- An automatic singleton below a manual tracked class gets a plan. -/
theorem not_modesAgree_knight :
    ¬∀ limit model (project : Project), Host.ofModel limit model = .ok project.host →
      project.index = .ofHost project.host → ∀ s, ModesAgree project s := by
  intro always
  let manual : Attribute := ⟨"Track", [⟨some "manual", .bool true⟩]⟩
  let automatic : Attribute := ⟨"Singleton", []⟩
  have agree := always _ _ (heirsProject manual automatic) (Host.ofModel_withPrelude rfl rfl) rfl
    ⟨"Game.Knight", 0⟩
  have facts : ((heirsProject manual automatic).facts? ⟨"Game.Knight", 0⟩).map
      (fun f => (f.kind, f.markedAncestor, f.isManual))
        = some (.class, some (.named "Game.Hero"), false) := by decide +kernel
  have planned : ((heirsProject manual automatic).trackingPlan? ⟨"Game.Knight", 0⟩).isSome := by
    decide +kernel
  have theirs : (heirsProject manual automatic).index.isManual ⟨"Game.Hero", 0⟩ = true := by
    decide +kernel
  obtain ⟨f, found, same⟩ := Option.map_eq_some_iff.mp facts
  simp only [Prod.mk.injEq] at same
  have mode := (agree f (.named "Game.Hero") found same.1 same.2.1).1 planned
  rw [same.2.2] at mode
  exact absurd (mode.trans theirs) (by decide)

end Marksmith

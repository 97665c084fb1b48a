import Marksmith.Proofs.Analysis.Tables
import Marksmith.Proofs.Lists
import Marksmith.Proofs.Tracking.Ladder
import Marksmith.Tracking.Source

/-!
What becomes of a tracked type or a singleton, read off the facts about it.

* `extract_eq_ok_iff`, `facts?_eq_some_iff`: there are facts about a class or an interface whose
  options can be read; if the index reports no error they can (`exists_facts_of_clean`);
* `trackingPlan?_eq`, `trackingOutput_eq`: facts without a mismatch become a plan and its file,
  facts with one become a report;
* `track_of_facts?`, `singleton_of_facts?`: the options in the facts are the entries of the index.
-/

namespace Marksmith

open Syntax (TypeRef)

/-! ### Extraction -/

/-- The marker that a tracked type or a singleton is looked at under. -/
def MarkerIndex.markerOf (index : MarkerIndex) (s : Symbol) : Marker :=
  if index.tracked.contains s then .track else .singleton

theorem MarkerIndex.markerOf_accepts (index : MarkerIndex) (s : Symbol) (kind : TypeKind) :
    (index.markerOf s).accepts kind = (kind == .class || kind == .interface) := by
  rw [markerOf]
  split
  · rfl
  · rfl

namespace Facts

variable {host : Host} {index : MarkerIndex} {s : Symbol} {marker : Marker} {facts : Facts}

/-- The options of both markers on a declaration, as far as the markers stand on it. -/
structure Reads (d : TypeDecl) (track : Option TrackOptions) (singleton : Option SingletonOptions) :
    Prop where
  track : readOptions .track TrackOptions.read d = .ok track
  singleton : readOptions .singleton SingletonOptions.read d = .ok singleton

/-- There are facts about a declaration exactly if its marker may stand on it and its options can be
read. -/
theorem extract_eq_ok_iff :
    extract host index .live s marker = .ok facts ↔
      ∃ d track singleton, host.declaration? s = some d ∧ d.kind ≠ .enum ∧ marker.accepts d.kind ∧
        Reads d track singleton ∧ facts = ofDecl host index marker d track singleton := by
  constructor
  · intro extracted
    rw [extract] at extracted
    split at extracted
    · cases extracted
    · next d declared =>
      split at extracted
      · cases extracted
      · next kind =>
        split at extracted
        · cases extracted
        · next accepts =>
          rw [Bool.not_eq_true', Bool.not_eq_false] at accepts
          cases first : readOptions .track TrackOptions.read d with
          | error e =>
            rw [first] at extracted
            cases extracted
          | ok track =>
            cases second : readOptions .singleton SingletonOptions.read d with
            | error e =>
              rw [first, second] at extracted
              cases extracted
            | ok singleton =>
              rw [first, second] at extracted
              cases extracted
              exact ⟨d, track, singleton, declared, kind, accepts, ⟨first, second⟩, rfl⟩
  · rintro ⟨d, track, singleton, declared, kind, accepts, ⟨first, second⟩, rfl⟩
    simp only [extract, declared, if_neg kind, accepts, first, second]
    rfl

theorem readOptions_eq_ok {α : Type} {read : Attribute → Except OptionError α} {d : TypeDecl}
    {options : Option α} (accepts : marker.accepts d.kind)
    (ok : readOptions marker read d = .ok options) :
    MarkerIndex.optionsOf? marker read d = options := by
  rw [MarkerIndex.optionsOf?, if_pos accepts]
  rw [readOptions] at ok
  split at ok
  · next absent =>
    cases ok
    rw [absent, Option.bind_none]
  · next a found =>
    split at ok
    · next here =>
      cases ok
      rw [found, Option.bind_some, here]
      rfl
    · cases ok

theorem exists_readOptions {α : Type} {read : Attribute → Except OptionError α} {d : TypeDecl}
    (readable : ∀ a, Attribute.find? marker d.attributes = some a →
      MarkerIndex.optionError?.errorOf (read a) = none) :
    ∃ options, readOptions marker read d = .ok options := by
  rw [readOptions]
  cases found : Attribute.find? marker d.attributes with
  | none => exact ⟨none, rfl⟩
  | some a =>
    cases outcome : read a with
    | ok options => exact ⟨some options, by simp [outcome]⟩
    | error e =>
      have unreadable := readable a found
      rw [outcome] at unreadable
      cases unreadable

end Facts

/-! ### Facts of a project -/

namespace Project

variable {project : Project} {s : Symbol} {f : Facts}

/-- The facts about a tracked type or a singleton. -/
def facts? (project : Project) (s : Symbol) : Option Facts :=
  (Facts.extract project.host project.index .live s (project.index.markerOf s)).toOption

/-- There are facts about the classes and interfaces whose options can be read. -/
theorem facts?_eq_some_iff :
    project.facts? s = some f ↔
      ∃ d track singleton, project.host.declaration? s = some d ∧
        (d.kind = .class ∨ d.kind = .interface) ∧ Facts.Reads d track singleton ∧
        f = .ofDecl project.host project.index (project.index.markerOf s) d track singleton := by
  have kinds : ∀ d : TypeDecl, (d.kind ≠ .enum ∧ (project.index.markerOf s).accepts d.kind) ↔
      d.kind = .class ∨ d.kind = .interface := by
    intro d
    rw [MarkerIndex.markerOf_accepts]
    cases d.kind <;> decide
  rw [facts?, toOption_eq_some_iff, Facts.extract_eq_ok_iff]
  refine exists₃_congr fun d track singleton => and_congr_right fun _ => ?_
  rw [← and_assoc, kinds]

/-- A mismatch between the modes of a declaration and its ancestors is reported. -/
theorem diagnostics_of_facts? (found : project.facts? s = some f) :
    ∃ location, f.diagnostics = ((Facts.mismatch? project.index f).map fun (ancestor, manual) =>
      Facts.mismatchReport location f ancestor manual).toList := by
  obtain ⟨d, track, singleton, -, -, -, rfl⟩ := facts?_eq_some_iff.mp found
  exact ⟨d.location, rfl⟩

/-- A mismatch is an error. -/
theorem any_isError_of_facts? (found : project.facts? s = some f) :
    f.diagnostics.any (·.isError) = (Facts.mismatch? project.index f).isSome := by
  obtain ⟨location, reported⟩ := diagnostics_of_facts? found
  rw [reported]
  cases Facts.mismatch? project.index f with
  | none => rfl
  | some mismatch => rfl

theorem analyze_eq (s : Symbol) :
    TrackingState.unconfigured.analyze project .live s = .ok (match project.facts? s with
      | some f => if (Facts.mismatch? project.index f).isSome then .diagnosed f.diagnostics
        else .analyzed f
      | none => .diagnosed []) := by
  have asked : (if project.index.tracked.contains s then Marker.track else .singleton)
      = project.index.markerOf s := rfl
  simp only [TrackingState.analyze, asked]
  cases extracted : Facts.extract project.host project.index .live s (project.index.markerOf s) with
  | ok f =>
    have found : project.facts? s = some f := by rw [facts?, extracted]; rfl
    simp only [found, any_isError_of_facts? found]
    cases (Facts.mismatch? project.index f).isSome <;> rfl
  | error e =>
    have absent : project.facts? s = none := by rw [facts?, extracted]; rfl
    simp only [absent]
    cases e with
    | cancelled => exact absurd extracted (extract_ne_cancelled _ _ _ _)
    | notATypeDeclaration => rfl
    | invalidTarget => rfl
    | options => rfl

/-- A plan is made from facts without a mismatch. -/
theorem trackingPlan?_eq (s : Symbol) :
    project.trackingPlan? s = (project.facts? s).bind fun f =>
      if (Facts.mismatch? project.index f).isSome then none
      else some (f.plan project.settings) := by
  rw [trackingPlan?, analyze_eq]
  cases project.facts? s with
  | none => rfl
  | some f =>
    cases mismatch : (Facts.mismatch? project.index f).isSome <;>
      simp [mismatch, TrackingState.plan]

/-- A plan is made from facts, which tell of no mismatch. -/
theorem exists_facts_of_plan {plan : TrackingPlan} (ready : project.trackingPlan? s = some plan) :
    ∃ f, project.facts? s = some f ∧ Facts.mismatch? project.index f = none ∧
      plan = f.plan project.settings := by
  rw [trackingPlan?_eq] at ready
  obtain ⟨f, found, made⟩ := Option.bind_eq_some_iff.mp ready
  refine ⟨f, found, ?_⟩
  split at made
  · cases made
  · next fits =>
    cases made
    exact ⟨Option.not_isSome_iff_eq_none.mp fits, rfl⟩

/-- The output for a tracked type or a singleton: the file of its plan, or the report of a
mismatch. -/
theorem trackingOutput_eq (s : Symbol) :
    project.trackingOutput .live s = .ok (match project.facts? s with
      | some f =>
        if (Facts.mismatch? project.index f).isSome then { diagnostics := f.diagnostics }
        else
          { files := [(f.plan project.settings).file project.host project.settings]
            diagnostics := (f.plan project.settings).diagnostics }
      | none => {}) := by
  rw [trackingOutput, analyze_eq]
  cases project.facts? s with
  | none => rfl
  | some f =>
    dsimp only
    split
    · rfl
    · rfl

theorem symbol_of_facts? (found : project.facts? s = some f) : f.symbol = s := by
  obtain ⟨d, track, singleton, declared, -, -, rfl⟩ := facts?_eq_some_iff.mp found
  exact (Host.symbol_of_declaration? declared).2

theorem kind_of_facts? {d : TypeDecl} (found : project.facts? s = some f)
    (declared : project.host.declaration? s = some d) :
    f.kind = d.kind ∧ f.isSealed = d.isSealed := by
  obtain ⟨e, track, singleton, same, -, -, rfl⟩ := facts?_eq_some_iff.mp found
  cases declared.symm.trans same
  exact ⟨rfl, rfl⟩

/-! ### Options in the index -/

section

variable {limit : Nat} {model : Model}

/-- The options of the first marker are those of the table. -/
theorem track_of_facts? (accepted : Host.ofModel limit model = .ok project.host)
    (indexed : project.index = .ofHost project.host) (found : project.facts? s = some f) :
    f.track = (project.index.tracked.get? s).map (·.options) := by
  obtain ⟨d, track, singleton, declared, kind, reads, rfl⟩ := facts?_eq_some_iff.mp found
  have accepts : Marker.track.accepts d.kind := by
    rcases kind with same | same
    · rw [same]
      rfl
    · rw [same]
      rfl
  rw [indexed, MarkerIndex.get?_tracked accepted, declared, Option.bind_some,
    Facts.readOptions_eq_ok accepts reads.track]
  show track = _
  cases track <;> rfl

/-- The options of the second marker are those of the table. -/
theorem singleton_of_facts? (accepted : Host.ofModel limit model = .ok project.host)
    (indexed : project.index = .ofHost project.host) (found : project.facts? s = some f) :
    f.singleton = project.index.singletons.get? s := by
  obtain ⟨d, track, singleton, declared, kind, reads, rfl⟩ := facts?_eq_some_iff.mp found
  have accepts : Marker.singleton.accepts d.kind := by
    rcases kind with same | same
    · rw [same]
      rfl
    · rw [same]
      rfl
  rw [indexed, MarkerIndex.get?_singletons accepted, declared, Option.bind_some,
    Facts.readOptions_eq_ok accepts reads.singleton]
  rfl

/-- In a project whose index reports no error, there are facts about every marked class of its
own. -/
theorem exists_facts_of_clean (indexed : project.index = .ofHost project.host)
    (clean : project.index.Clean) {d : TypeDecl} (declared : project.host.declaration? s = some d)
    (own : d.external = false) (isClass : d.kind = .class) : ∃ f, project.facts? s = some f := by
  rw [indexed] at clean
  have mem := (Host.symbol_of_declaration? declared).1
  obtain ⟨track, first⟩ : ∃ track, Facts.readOptions .track TrackOptions.read d = .ok track :=
    Facts.exists_readOptions fun a found =>
      MarkerIndex.readable_of_clean clean mem own (by rw [isClass]; rfl) found
  obtain ⟨singleton, second⟩ :
      ∃ singleton, Facts.readOptions .singleton SingletonOptions.read d = .ok singleton :=
    Facts.exists_readOptions fun a found =>
      MarkerIndex.readable_of_clean clean mem own (by rw [isClass]; rfl) found
  exact ⟨_, facts?_eq_some_iff.mpr
    ⟨d, track, singleton, declared, .inl isClass, ⟨first, second⟩, rfl⟩⟩

end

end Project

end Marksmith

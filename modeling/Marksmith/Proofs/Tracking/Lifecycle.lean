import Marksmith.Proofs.Host.Hierarchy
import Marksmith.Proofs.Pass.Jobs
import Marksmith.Proofs.Tracking.Modes

/-!
Lifecycle methods along base calls. The methods of a class with a marked ancestor override those of
the ancestor and call them, so the ancestor has to declare them; and some class on the way up has to
have them called.

* `exists_plan`: in a pass without errors, every marked class of the project has a plan and a file;
* `Overrides`: a class overrides methods that its marked ancestor declares;
* `forwarderPieces_ne_nil_iff`: which classes emit methods that call the lifecycle methods;
* `lifecycle_sound`: in a pass without errors, overriding methods have something to override, and
  among the marked classes on the way up only the last one forwards, if it can.

`not_forwardedOnce_squire` shows ways up on which no class does, as the last one declares both
messages of the engine itself, or is declared elsewhere.
-/

namespace Marksmith

open Relation (ReflTransGen TransGen)
open Source (Piece Page)

namespace Pass

variable {p : Pass} {limit : Nat} {model : Model} {s u : Symbol}

/-! ### Marked ancestors -/

/-- A definition that is tracked or a singleton. -/
def IsMarked (p : Pass) (s : Symbol) : Prop :=
  p.index.tracked.contains s || p.index.singletons.contains s

/-- The nearest marked definition among the base types of a definition. -/
def markedAncestor? (p : Pass) (s : Symbol) : Option Symbol := do
  let d ← p.host.declaration? s
  let nearest ← (p.host.baseChain d.selfType).find? fun t =>
    p.index.tracked.containsType t || p.index.singletons.containsType t
  return .ofType nearest

/-- A marked definition on the way up, or the definition itself. -/
def Above (p : Pass) : Symbol → Symbol → Prop :=
  ReflTransGen fun s u => p.markedAncestor? s = some u

theorem markedAncestor?_of_facts? {f : Facts} (found : p.project.facts? s = some f) :
    p.markedAncestor? s = f.markedAncestor.map .ofType := by
  obtain ⟨d, declared, marked, -⟩ := ancestors_of_facts? found
  rw [markedAncestor?, show p.host.declaration? s = some d from declared, marked]
  show ((p.host.baseChain d.selfType).find? _).bind _ = _
  rw [Option.map_eq_bind]
  rfl

theorem markedAncestor?_eq_none_iff {f : Facts} (found : p.project.facts? s = some f) :
    p.markedAncestor? s = none ↔ f.markedAncestor = none := by
  rw [markedAncestor?_of_facts? found, Option.map_eq_none_iff]

theorem IsMarked.declared (accepted : Host.ofModel limit model = .ok p.host)
    (marked : p.IsMarked s) : ∃ d, p.host.declaration? s = some d := by
  cases declared : p.host.declaration? s with
  | some d => exact ⟨d, rfl⟩
  | none =>
    have tracked := MarkerIndex.get?_tracked accepted s
    have single := MarkerIndex.get?_singletons accepted s
    rw [declared, Option.bind_none] at tracked single
    simp [IsMarked, index, SymbolTable.contains, tracked, single] at marked

/-- The marked ancestor of a class is a class above it that is not sealed. -/
theorem markedAncestor?_spec (hierarchy : p.host.Hierarchy) (isClass : p.host.IsClass s)
    (up : p.markedAncestor? s = some u) :
    TransGen p.host.Derives s u ∧ p.IsMarked u ∧
      ∀ d, p.host.declaration? u = some d → d.kind = .class ∧ d.isSealed = false := by
  obtain ⟨d, declared, rest⟩ := Option.bind_eq_some_iff.mp up
  obtain ⟨t, nearest, same⟩ := Option.bind_eq_some_iff.mp rest
  cases same
  obtain ⟨-, rfl⟩ := Host.symbol_of_declaration? declared
  rw [← TypeDecl.ofType_selfType d] at isClass ⊢
  obtain ⟨above, kind⟩ := Host.mem_baseChain hierarchy isClass (List.mem_of_find?_eq_some nearest)
  have marked := List.find?_some nearest
  exact ⟨above, marked, kind⟩

/-! ### Plans and files -/

/-- The file of a definition with facts in a pass. -/
def planFile (p : Pass) (f : Facts) : SourceFile :=
  (f.plan p.inputs.settings).file p.host p.inputs.settings

theorem fresh_tracking (p : Pass) (s : Symbol) :
    p.fresh ⟨.tracking, s⟩ = match p.project.facts? s with
      | some f =>
        if (Facts.mismatch? p.index f).isSome then { diagnostics := f.diagnostics }
        else { files := [p.planFile f], diagnostics := (f.plan p.inputs.settings).diagnostics }
      | none => {} := by
  have made : p.project.trackingOutput .live s = .ok (p.fresh ⟨.tracking, s⟩) :=
    p.output_ok ⟨.tracking, s⟩
  rw [Project.trackingOutput_eq] at made
  exact (Except.ok.inj made).symm

theorem mem_jobs_tracking : ⟨.tracking, s⟩ ∈ p.jobs ↔
    p.IsMarked s ∧ ∃ d ∈ p.host.declarations, d.external = false ∧ d.symbol = s := by
  rw [mem_jobs_of_kind (by decide), IsMarked]
  have kinds : SourceKind.tracking ∈ Job.kindsFor p.index s ↔
      (p.index.tracked.contains s || p.index.singletons.contains s) := by
    simp [Job.kindsFor, apply_ite (SourceKind.tracking ∈ ·)]
  rw [kinds]
  constructor
  · rintro ⟨d, mem, own, same, marked⟩
    exact ⟨marked, d, mem, own, same⟩
  · rintro ⟨marked, d, mem, own, same⟩
    exact ⟨d, mem, own, same, marked⟩

/-- The file for a tracked type or a singleton is that of its plan. -/
theorem facts_of_makes {file : SourceFile} (makes : p.Makes ⟨.tracking, s⟩ file) :
    ∃ f, p.project.facts? s = some f ∧ Facts.mismatch? p.index f = none ∧ file = p.planFile f := by
  obtain ⟨-, given⟩ := makes
  rw [fresh_tracking] at given
  split at given
  · next f found =>
    split at given
    · cases given
    · next fits =>
      rw [Option.not_isSome_iff_eq_none] at fits
      exact ⟨f, found, fits, List.mem_singleton.mp given⟩
  · cases given

/-! ### Lifecycle methods -/

section

variable {f : Facts}

theorem plan_of_class (isClass : f.kind = .class) (settings : Settings) :
    (f.plan settings).lifecycle = f.lifecycle ∧ (f.plan settings).enable = f.enable ∧
      (f.plan settings).disable = f.disable ∧ (f.plan settings).forwarders = f.forwarders := by
  rw [Facts.plan, if_neg (Facts.not_isInterface isClass)]
  exact ⟨rfl, rfl, rfl, rfl⟩

/-- The lines of the lifecycle methods stand in the file of a class. -/
theorem shows_of_mem (isClass : f.kind = .class) {piece : Piece}
    (mem : piece ∈ (f.plan p.inputs.settings).lifecyclePieces p.host) {line : String}
    (isLine : Page.IsLine line piece) : (p.planFile f).Shows line := by
  have noInterface : ¬(f.plan p.inputs.settings).facts.isInterface := by
    rw [Facts.facts_plan]
    exact Facts.not_isInterface isClass
  have member : piece ∈ (f.plan p.inputs.settings).memberPieces p.host := by
    rw [TrackingPlan.memberPieces, if_neg noInterface]
    exact List.mem_append_right _ (List.mem_cons_of_mem _ (List.mem_append_left _ mem))
  exact SourceFile.shows_of_mem member isLine

/-- The head of a lifecycle method. -/
def methodHead (lifecycle : Lifecycle) (name : String) : String :=
  lifecycle.modifiers ++ " void " ++ name ++ "()"

/-- The file of a class declares both lifecycle methods. -/
theorem shows_methods (isClass : f.kind = .class) :
    (p.planFile f).Shows (methodHead f.lifecycle "OnEnableINTERNAL") ∧
      (p.planFile f).Shows (methodHead f.lifecycle "OnDisableINTERNAL") := by
  rw [← (plan_of_class isClass p.inputs.settings).1]
  constructor
  · exact shows_of_mem isClass (List.mem_append_left _ List.mem_cons_self) (.inr rfl)
  · exact shows_of_mem isClass
      (List.mem_append_right _ (List.mem_cons_of_mem _ List.mem_cons_self)) (.inr rfl)

/-- The lifecycle methods of a class with a marked ancestor call those of the ancestor. -/
theorem shows_baseCalls (isClass : f.kind = .class) (marked : f.markedAncestor.isSome) :
    (p.planFile f).Shows "base.OnEnableINTERNAL();" ∧
      (p.planFile f).Shows "base.OnDisableINTERNAL();" := by
  obtain ⟨-, enable, disable, -⟩ := plan_of_class isClass p.inputs.settings
  have enabled : .base ∈ f.enable := by simp [Facts.enable, marked]
  have disabled : .base ∈ f.disable := by
    have other : Registration.base ≠ f.owner := by
      rw [Facts.owner]
      split
      · exact Registration.noConfusion
      · exact Registration.noConfusion
    refine List.mem_cons_of_mem _ (List.mem_filter.mpr ⟨List.mem_reverse.mpr enabled, ?_⟩)
    exact decide_eq_true other
  have calledOn : .line "base.OnEnableINTERNAL();"
      ∈ (f.plan p.inputs.settings).lifecyclePieces p.host := by
    apply List.mem_append_left
    apply List.mem_cons_of_mem
    apply List.mem_append_left
    exact List.mem_map_of_mem
      (List.mem_flatMap.mpr ⟨.base, enable ▸ enabled, List.mem_cons_self⟩)
  have calledOff : .line "base.OnDisableINTERNAL();"
      ∈ (f.plan p.inputs.settings).lifecyclePieces p.host := by
    apply List.mem_append_right
    apply List.mem_cons_of_mem
    apply List.mem_cons_of_mem
    apply List.mem_append_left
    exact List.mem_map_of_mem
      (List.mem_flatMap.mpr ⟨.base, disable ▸ disabled, List.mem_cons_self⟩)
  exact ⟨shows_of_mem isClass calledOn (.inl rfl), shows_of_mem isClass calledOff (.inl rfl)⟩

/-- A class leaves its lifecycle methods to be called by others exactly if it has a marked
ancestor. -/
theorem forwarders_eq_inherited_iff : f.forwarders = .inherited ↔ f.markedAncestor ≠ none := by
  rw [Facts.forwarders]
  cases f.markedAncestor with
  | some ancestor => simp
  | none => cases f.isManual <;> simp

/-- A class emits methods that call its lifecycle methods exactly if it has no marked ancestor, and
is registered manually or leaves a message of the engine undeclared. -/
theorem forwarderPieces_ne_nil_iff (isClass : f.kind = .class) :
    (f.plan p.inputs.settings).forwarderPieces ≠ [] ↔
      f.markedAncestor = none ∧
        (f.isManual ∨ ¬(f.declares Engine.onEnable ∧ f.declares Engine.onDisable)) := by
  rw [TrackingPlan.forwarderPieces, (plan_of_class isClass p.inputs.settings).2.2.2,
    Facts.forwarders]
  cases f.markedAncestor with
  | some ancestor => simp
  | none =>
    cases f.isManual with
    | true => simp
    | false =>
      cases f.declares Engine.onEnable <;> cases f.declares Engine.onDisable <;> simp

end

variable {result : PassResult}

/-- In a pass without errors, every marked class of the project has a plan and a file. -/
theorem exists_plan (made : generate p.host p.inputs .live = .ok result)
    (noErrors : result.hasErrors = false) (marked : p.IsMarked s) {d : TypeDecl}
    (declared : p.host.declaration? s = some d) (own : d.external = false)
    (isClass : d.kind = .class) :
    ∃ f, p.project.facts? s = some f ∧ Facts.mismatch? p.index f = none ∧
      p.Makes ⟨.tracking, s⟩ (p.planFile f) := by
  obtain ⟨clean, jobsClean⟩ := (hasErrors_eq_false_iff made).mp noErrors
  obtain ⟨f, found⟩ : ∃ f, p.project.facts? s = some f :=
    Project.exists_facts_of_clean rfl clean declared own isClass
  obtain ⟨mem, same⟩ := Host.symbol_of_declaration? declared
  have job : ⟨.tracking, s⟩ ∈ p.jobs := mem_jobs_tracking.mpr ⟨marked, d, mem, own, same⟩
  have fits : Facts.mismatch? p.index f = none := by
    cases mismatch : Facts.mismatch? p.index f with
    | none => rfl
    | some reported =>
      have fresh := p.fresh_tracking s
      rw [found] at fresh
      simp only [mismatch, Option.isSome_some, if_true] at fresh
      have error := Project.any_isError_of_facts? found
      rw [show Facts.mismatch? p.project.index f = _ from mismatch, Option.isSome_some,
        List.any_eq_true] at error
      obtain ⟨report, listed, isError⟩ := error
      exact absurd isError (jobsClean _ job report (by rw [fresh]; exact listed))
  refine ⟨f, found, fits, job, ?_⟩
  rw [fresh_tracking, found]
  simp [fits]

/-! ### Overriding -/

/-- If the marked ancestor of a class belongs to the project, the file of the class overrides
lifecycle methods that the file of the ancestor declares. -/
def Overrides (p : Pass) (s : Symbol) (file : SourceFile) : Prop :=
  ∀ u a, p.markedAncestor? s = some u → p.host.declaration? u = some a → a.external = false →
    (file.Shows "protected override void OnEnableINTERNAL()" ∧
      file.Shows "protected override void OnDisableINTERNAL()" ∧
      file.Shows "base.OnEnableINTERNAL();" ∧ file.Shows "base.OnDisableINTERNAL();") ∧
    ∃ above, p.Makes ⟨.tracking, u⟩ above ∧
      ((above.Shows "protected virtual void OnEnableINTERNAL()" ∧
          above.Shows "protected virtual void OnDisableINTERNAL()") ∨
        (above.Shows "protected override void OnEnableINTERNAL()" ∧
          above.Shows "protected override void OnDisableINTERNAL()"))

theorem overrides_of_makes (hierarchy : p.host.Hierarchy)
    (made : generate p.host p.inputs .live = .ok result)
    (noErrors : result.hasErrors = false) {file : SourceFile}
    (makes : p.Makes ⟨.tracking, s⟩ file) {d : TypeDecl}
    (declared : p.host.declaration? s = some d) (isClass : d.kind = .class) :
    p.Overrides s file := by
  intro u a up aboveDeclared own
  obtain ⟨f, found, -, rfl⟩ := facts_of_makes makes
  have kind : f.kind = .class := (Project.kind_of_facts? found declared).1.trans isClass
  have marked : f.markedAncestor.isSome := by
    rw [markedAncestor?_of_facts? found, Option.map_eq_some_iff] at up
    obtain ⟨t, here, -⟩ := up
    rw [here]
    rfl
  have overriding : f.lifecycle = .overriding := by rw [Facts.lifecycle, if_pos marked]
  have methods := shows_methods (p := p) kind
  rw [overriding] at methods
  have calls := shows_baseCalls (p := p) kind marked
  refine ⟨⟨methods.1, methods.2, calls.1, calls.2⟩, ?_⟩
  have isClass' : p.host.IsClass s := Host.isClass_of_kind declared isClass
  obtain ⟨-, isMarked, above⟩ := markedAncestor?_spec hierarchy isClass' up
  obtain ⟨aboveClass, notSealed⟩ := above a aboveDeclared
  obtain ⟨g, known, -, makesAbove⟩ :=
    exists_plan made noErrors isMarked aboveDeclared own aboveClass
  obtain ⟨kind', sealed'⟩ := Project.kind_of_facts? known aboveDeclared
  refine ⟨p.planFile g, makesAbove, ?_⟩
  have shown := shows_methods (p := p) (kind'.trans aboveClass)
  rw [Facts.lifecycle, sealed', notSealed] at shown
  split at shown
  · exact .inr shown
  · exact .inl shown

/-! ### Forwarding -/

/-- The file for a definition has methods that call its lifecycle methods. -/
def Forwards (p : Pass) (s : Symbol) : Prop :=
  ∃ f, p.project.facts? s = some f ∧ p.Makes ⟨.tracking, s⟩ (p.planFile f) ∧
    (f.plan p.inputs.settings).forwarderPieces ≠ []

/-- A class of the project that is registered manually or leaves a message of the engine
undeclared. -/
def CanForward (p : Pass) (s : Symbol) : Prop :=
  ∃ d, p.host.declaration? s = some d ∧ d.external = false ∧
    (p.index.isManual s ∨ ¬(Engine.onEnable ∈ d.memberNames ∧ Engine.onDisable ∈ d.memberNames))

theorem isManual_of_facts? (accepted : Host.ofModel limit model = .ok p.host) {f : Facts}
    (found : p.project.facts? s = some f) : f.isManual = p.index.isManual s := by
  rw [f.isManual_eq, Facts.trackMode?, Facts.singletonMode?,
    Project.track_of_facts? accepted rfl found, Project.singleton_of_facts? accepted rfl found,
    Option.map_map]
  rfl

theorem declares_iff {f : Facts} {d : TypeDecl} (found : p.project.facts? s = some f)
    (declared : p.host.declaration? s = some d) (name : String) :
    f.declares name ↔ name ∈ d.memberNames := by
  obtain ⟨e, track, singleton, same, -, -, rfl⟩ := Project.facts?_eq_some_iff.mp found
  cases declared.symm.trans same
  rw [Facts.declares, List.contains_iff_mem]
  exact Text.mem_nameSet

/-- A class with a file forwards exactly if it is the last marked one on the way up and can. -/
theorem forwards_iff (accepted : Host.ofModel limit model = .ok p.host) {f : Facts} {d : TypeDecl}
    (found : p.project.facts? s = some f) (declared : p.host.declaration? s = some d)
    (own : d.external = false) (isClass : d.kind = .class)
    (makes : p.Makes ⟨.tracking, s⟩ (p.planFile f)) :
    p.Forwards s ↔ p.markedAncestor? s = none ∧ p.CanForward s := by
  have kind : f.kind = .class := (Project.kind_of_facts? found declared).1.trans isClass
  have can : p.CanForward s ↔
      (f.isManual ∨ ¬(f.declares Engine.onEnable ∧ f.declares Engine.onDisable)) := by
    rw [isManual_of_facts? accepted found, declares_iff found declared, declares_iff found declared]
    constructor
    · rintro ⟨e, same, -, can⟩
      cases declared.symm.trans same
      exact can
    · exact fun can => ⟨d, declared, own, can⟩
  rw [markedAncestor?_eq_none_iff found, can, ← forwarderPieces_ne_nil_iff kind]
  constructor
  · rintro ⟨g, same, -, pieces⟩
    cases found.symm.trans same
    exact pieces
  · exact fun pieces => ⟨f, found, makes, pieces⟩

/-- Going up comes to one end only. -/
theorem eq_of_above {c top : Symbol} (way : p.Above s c) (last : p.markedAncestor? c = none)
    (way' : p.Above s top) (last' : p.markedAncestor? top = none) : c = top := by
  induction way using ReflTransGen.head_induction_on with
  | refl =>
    rcases way'.cases_head with same | ⟨u, step, -⟩
    · exact same
    · rw [last] at step
      cases step
  | head step _ ih =>
    rcases way'.cases_head with rfl | ⟨u, step', rest⟩
    · rw [last'] at step
      cases step
    · rw [step] at step'
      cases step'
      exact ih rest

/-- Whatever is met on the way up from a marked class is a marked class. -/
theorem inside_of_above (hierarchy : p.host.Hierarchy) (isClass : p.host.IsClass s)
    (marked : p.IsMarked s) {c : Symbol} (way : p.Above s c) : p.host.IsClass c ∧ p.IsMarked c := by
  induction way with
  | refl => exact ⟨isClass, marked⟩
  | tail _ step ih =>
    obtain ⟨-, marked', above⟩ := markedAncestor?_spec hierarchy ih.1 step
    exact ⟨fun d declared => (above d declared).1, marked'⟩

/-- In a pass without errors, only the last of the marked classes on the way up forwards, and it
does so if it can. -/
theorem forwards_iff_of_above (accepted : Host.ofModel limit model = .ok p.host)
    (hierarchy : p.host.Hierarchy) (made : generate p.host p.inputs .live = .ok result)
    (noErrors : result.hasErrors = false) (isClass : p.host.IsClass s) (marked : p.IsMarked s)
    {top : Symbol} (way : p.Above s top) (last : p.markedAncestor? top = none) {c : Symbol}
    (reached : p.Above s c) : p.Forwards c ↔ c = top ∧ p.CanForward top := by
  obtain ⟨isClass', marked'⟩ := inside_of_above hierarchy isClass marked reached
  constructor
  · rintro ⟨f, found, makes, pieces⟩
    obtain ⟨-, d, mem, own, rfl⟩ := mem_jobs_tracking.mp makes.1
    have declared := Host.declaration?_symbol accepted mem
    obtain ⟨last', can⟩ := (forwards_iff accepted found declared own (isClass' d declared)
      makes).mp ⟨f, found, makes, pieces⟩
    have same := eq_of_above reached last' way last
    exact ⟨same, same ▸ can⟩
  · rintro ⟨rfl, d, declared, own, able⟩
    obtain ⟨f, found, -, makes⟩ :=
      exists_plan made noErrors marked' declared own (isClass' d declared)
    exact (forwards_iff accepted found declared own (isClass' d declared) makes).mpr
      ⟨last, d, declared, own, able⟩

/-- Of the marked classes on the way up, only the last one is planned to forward. -/
theorem forwarders_eq_inherited_iff_of_above (hierarchy : p.host.Hierarchy)
    (isClass : p.host.IsClass s) (marked : p.IsMarked s) {top : Symbol} (way : p.Above s top)
    (last : p.markedAncestor? top = none) {c : Symbol} (reached : p.Above s c)
    {plan : TrackingPlan} (planned : p.project.trackingPlan? c = some plan) :
    plan.forwarders = .inherited ↔ c ≠ top := by
  rw [Project.trackingPlan?_eq] at planned
  obtain ⟨f, found, made⟩ := Option.bind_eq_some_iff.mp planned
  obtain ⟨d, -, -, declared, -⟩ := Project.facts?_eq_some_iff.mp found
  have isClass' := (inside_of_above hierarchy isClass marked reached).1 d declared
  have kind : f.kind = .class := (Project.kind_of_facts? found declared).1.trans isClass'
  split at made
  · cases made
  · cases made
    rw [(plan_of_class kind _).2.2.2, forwarders_eq_inherited_iff]
    refine not_congr ((markedAncestor?_eq_none_iff found).symm.trans ⟨?_, ?_⟩)
    · exact fun last' => eq_of_above reached last' way last
    · rintro rfl
      exact last

/-- In a pass without errors over a class hierarchy, the file of a class overrides lifecycle methods
that the file of its marked ancestor declares. Of the marked classes from the class on upwards, only
the last one is planned to have its lifecycle methods called, and it has if it belongs to the
project and is registered manually or leaves a message of the engine undeclared. -/
theorem lifecycle_sound (accepted : Host.ofModel limit model = .ok p.host)
    (hierarchy : p.host.Hierarchy) (made : generate p.host p.inputs .live = .ok result)
    (noErrors : result.hasErrors = false) {file : SourceFile}
    (makes : p.Makes ⟨.tracking, s⟩ file) {d : TypeDecl}
    (declared : p.host.declaration? s = some d) (isClass : d.kind = .class) :
    p.Overrides s file ∧ ∃ top, p.Above s top ∧ p.markedAncestor? top = none ∧
      ∀ c, p.Above s c → (p.Forwards c ↔ c = top ∧ p.CanForward top) ∧
        ∀ plan, p.project.trackingPlan? c = some plan →
          (plan.forwarders = .inherited ↔ c ≠ top) := by
  have isClass' : p.host.IsClass s := Host.isClass_of_kind declared isClass
  have marked : p.IsMarked s := (mem_jobs_tracking.mp makes.1).1
  refine ⟨overrides_of_makes hierarchy made noErrors makes declared isClass, ?_⟩
  have step : ∀ s u, p.host.IsClass s → p.markedAncestor? s = some u →
      TransGen p.host.Derives s u ∧ p.host.IsClass u := by
    intro s u inside up
    obtain ⟨above, -, kind⟩ := markedAncestor?_spec hierarchy inside up
    exact ⟨above, fun d there => (kind d there).1⟩
  obtain ⟨top, way, last⟩ := hierarchy.exists_top step isClass'
  refine ⟨top, way, last, fun c reached => ⟨?_, fun plan planned => ?_⟩⟩
  · exact forwards_iff_of_above accepted hierarchy made noErrors isClass' marked way last reached
  · exact forwarders_eq_inherited_iff_of_above hierarchy isClass' marked way last reached planned

/-! ### Ways up on which no class forwards -/

/-- The marked classes on the way up are found among symbols that are closed upwards. -/
theorem mem_of_above {all : List Symbol} (start : s ∈ all)
    (closed : ∀ c ∈ all, ∀ u ∈ (p.markedAncestor? c).toList, u ∈ all) {c : Symbol}
    (way : p.Above s c) : c ∈ all := by
  induction way with
  | refl => exact start
  | tail _ step ih => exact closed _ ih _ (Option.mem_toList.mpr step)

/-- A pass that has nothing to report, and makes a file for a job. -/
theorem exists_clean {job : Job} (quiet : p.index.diagnostics = [] ∧
    ∀ job ∈ p.jobs, (p.fresh job).diagnostics = []) (mem : job ∈ p.jobs)
    (some : (p.fresh job).files ≠ []) :
    ∃ result file, generate p.host p.inputs .live = .ok result ∧ result.hasErrors = false ∧
      p.Makes job file := by
  obtain ⟨result, made, -⟩ := Session.generate_ok p
  obtain ⟨file, given⟩ := List.exists_mem_of_ne_nil _ some
  refine ⟨result, file, made, (hasErrors_eq_false_iff made).mpr ⟨?_, ?_⟩, mem, given⟩
  · intro d listed
    rw [quiet.1] at listed
    cases listed
  · intro job there d listed
    rw [quiet.2 job there] at listed
    cases listed

/-- Tracked classes `Squire`, `Knight` and `Hero`, each derived from the next one. `Hero` declares
some methods, and may be declared elsewhere. -/
def knightsBelow (methods : List String) (external : Bool) : Model where
  types :=
    [ { name := "Game.Hero", kind := .class, attributes := [⟨"Track", []⟩],
        methods := methods.map fun name => { name }, external },
      { name := "Game.Knight", kind := .class, base := some (.named "Hero"),
        attributes := [⟨"Track", []⟩] },
      { name := "Game.Squire", kind := .class, base := some (.named "Knight"),
        attributes := [⟨"Track", []⟩] } ]

/-- A pass over these declarations. -/
def knightsPass (methods : List String) (external : Bool) : Pass where
  host := .withPrelude (knightsBelow methods external)

/-- The symbol of `Squire`. -/
def squire : Symbol := ⟨"Game.Squire", 0⟩

/-- The number of base types of a class without type parameters. -/
def knightsRank (p : Pass) (s : Symbol) : Nat := (p.host.baseChain (.named s.name)).length

/-- The files of the classes fit together, and `Hero` has the lifecycle methods called. -/
theorem lifecycle_sound_squire :
    ∃ file, (knightsPass [] false).Makes ⟨.tracking, squire⟩ file ∧
      (knightsPass [] false).Overrides squire file ∧
      ∃ top, (knightsPass [] false).Above squire top ∧
        (knightsPass [] false).markedAncestor? top = none ∧
        ∀ c, (knightsPass [] false).Above squire c →
          ((knightsPass [] false).Forwards c ↔
            c = top ∧ (knightsPass [] false).CanForward top) ∧
          ∀ plan, (knightsPass [] false).project.trackingPlan? c = some plan →
            (plan.forwarders = .inherited ↔ c ≠ top) := by
  have job : ⟨.tracking, squire⟩ ∈ (knightsPass [] false).jobs := by decide +kernel
  have given : ((knightsPass [] false).fresh ⟨.tracking, squire⟩).files ≠ [] := by decide +kernel
  obtain ⟨result, file, made, noErrors, makes⟩ :=
    exists_clean ⟨by decide +kernel, by decide +kernel⟩ job given
  have accepted : Host.ofModel Host.usualStepLimit (knightsBelow [] false)
      = .ok (knightsPass [] false).host := Host.ofModel_withPrelude rfl rfl
  have hierarchy : (knightsPass [] false).host.Hierarchy :=
    Host.hierarchy_of_rank (knightsRank (knightsPass [] false)) (by decide +kernel)
  have declared : ((knightsPass [] false).host.declaration? squire).map TypeDecl.kind
      = some .class := by decide +kernel
  obtain ⟨d, found, kind⟩ := Option.map_eq_some_iff.mp declared
  exact ⟨file, makes, lifecycle_sound accepted hierarchy made noErrors makes found kind⟩

/-- Among the marked classes from a class on upwards, exactly one has its lifecycle methods
called. -/
def ForwardedOnce (p : Pass) (s : Symbol) : Prop := ∃! c, p.Above s c ∧ p.Forwards c

/-- In passes without errors over class hierarchies, some condition lets exactly one class on the
way up from a class with a marked ancestor of the project forward. -/
def ForwardedOnceIf (Given : Pass → Symbol → Prop) : Prop :=
  ∀ limit model (p : Pass) result, Host.ofModel limit model = .ok p.host → p.host.Hierarchy →
    generate p.host p.inputs .live = .ok result → result.hasErrors = false →
      ∀ s file d, p.Makes ⟨.tracking, s⟩ file → p.host.declaration? s = some d → d.kind = .class →
        ∀ u a, p.markedAncestor? s = some u → p.host.declaration? u = some a →
          a.external = false → Given p s → p.ForwardedOnce s

/-- What can be computed of a pass in which no class forwards on the way up from `Squire`. -/
structure Unforwarded (p : Pass) : Prop where
  silent : p.index.diagnostics = [] ∧ ∀ job ∈ p.jobs, (p.fresh job).diagnostics = []
  made : ⟨.tracking, squire⟩ ∈ p.jobs ∧ (p.fresh ⟨.tracking, squire⟩).files ≠ []
  kind : (p.host.declaration? squire).map TypeDecl.kind = some .class
  ancestor : p.markedAncestor? squire = some ⟨"Game.Knight", 0⟩ ∧
    (p.host.declaration? ⟨"Game.Knight", 0⟩).map TypeDecl.external = some false
  none : ∀ c ∈ [squire, ⟨"Game.Knight", 0⟩, ⟨"Game.Hero", 0⟩], ⟨.tracking, c⟩ ∈ p.jobs →
    ∀ f ∈ (p.project.facts? c).toList, (f.plan p.inputs.settings).forwarderPieces = []
  closed : ∀ c ∈ [squire, ⟨"Game.Knight", 0⟩, ⟨"Game.Hero", 0⟩],
    ∀ u ∈ (p.markedAncestor? c).toList, u ∈ [squire, ⟨"Game.Knight", 0⟩, ⟨"Game.Hero", 0⟩]

theorem Unforwarded.not_forwardedOnceIf (unforwarded : Unforwarded p)
    (accepted : Host.ofModel limit model = .ok p.host) (hierarchy : p.host.Hierarchy)
    {Given : Pass → Symbol → Prop} (given : Given p squire) : ¬ForwardedOnceIf Given := by
  intro always
  obtain ⟨result, file, made, noErrors, makes⟩ :=
    exists_clean unforwarded.silent unforwarded.made.1 unforwarded.made.2
  obtain ⟨d, declared, kind⟩ := Option.map_eq_some_iff.mp unforwarded.kind
  obtain ⟨a, above, own⟩ := Option.map_eq_some_iff.mp unforwarded.ancestor.2
  obtain ⟨c, ⟨reached, f, found, made, pieces⟩, -⟩ := always _ _ p result accepted hierarchy made
    noErrors squire file d makes declared kind _ a unforwarded.ancestor.1 above own given
  have place := mem_of_above List.mem_cons_self unforwarded.closed reached
  exact pieces (unforwarded.none c place made.1 f (Option.mem_toList.mpr found))

/-- No class on the way up from `Squire` forwards if `Hero` declares both messages of the engine,
although all of them belong to the project; nor if `Hero` is declared elsewhere, although it
declares no message. -/
theorem not_forwardedOnce_squire :
    ¬ForwardedOnceIf (fun _ _ => True) ∧
      ¬ForwardedOnceIf (fun p s => ∀ c, p.Above s c → ∀ d, p.host.declaration? c = some d →
        d.external = false) ∧
      ¬ForwardedOnceIf (fun p s => ∀ c, p.Above s c → ∀ d, p.host.declaration? c = some d →
        Engine.onEnable ∉ d.memberNames ∧ Engine.onDisable ∉ d.memberNames) := by
  have own : Unforwarded (knightsPass [Engine.onEnable, Engine.onDisable] false) :=
    ⟨by decide +kernel, by decide +kernel, by decide +kernel, by decide +kernel, by decide +kernel,
      by decide +kernel⟩
  have foreign : Unforwarded (knightsPass [] true) :=
    ⟨by decide +kernel, by decide +kernel, by decide +kernel, by decide +kernel, by decide +kernel,
      by decide +kernel⟩
  have ownHierarchy : (knightsPass [Engine.onEnable, Engine.onDisable] false).host.Hierarchy :=
    Host.hierarchy_of_rank (knightsRank (knightsPass [Engine.onEnable, Engine.onDisable] false))
      (by decide +kernel)
  have foreignHierarchy : (knightsPass [] true).host.Hierarchy :=
    Host.hierarchy_of_rank (knightsRank (knightsPass [] true)) (by decide +kernel)
  refine ⟨own.not_forwardedOnceIf (Host.ofModel_withPrelude rfl rfl) ownHierarchy trivial,
    own.not_forwardedOnceIf (Host.ofModel_withPrelude rfl rfl) ownHierarchy ?_,
    foreign.not_forwardedOnceIf (Host.ofModel_withPrelude rfl rfl) foreignHierarchy ?_⟩
  · intro c way d declared
    have all : ∀ c ∈ [squire, ⟨"Game.Knight", 0⟩, ⟨"Game.Hero", 0⟩],
        ∀ d ∈ ((knightsPass [Engine.onEnable, Engine.onDisable] false).host.declaration? c).toList,
          d.external = false := by decide +kernel
    exact all c (mem_of_above List.mem_cons_self own.closed way) d (Option.mem_toList.mpr declared)
  · intro c way d declared
    have all : ∀ c ∈ [squire, ⟨"Game.Knight", 0⟩, ⟨"Game.Hero", 0⟩],
        ∀ d ∈ ((knightsPass [] true).host.declaration? c).toList,
          Engine.onEnable ∉ d.memberNames ∧ Engine.onDisable ∉ d.memberNames := by decide +kernel
    exact all c (mem_of_above List.mem_cons_self foreign.closed way) d
      (Option.mem_toList.mpr declared)

end Pass

end Marksmith

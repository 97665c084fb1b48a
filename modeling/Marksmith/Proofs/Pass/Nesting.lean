import Marksmith.Proofs.Pass.FileNames
import Marksmith.Proofs.Pass.Unbraced

/-!
Generated sources are well nested: no brace is closed that is not open, all of them are closed in
the end, and every brace begins its line behind four spaces for each brace that is open around it.
This is so if no name has braces, as names are written as they are.

* `Pass.nested_fresh`, `Pass.nested_served`: the outputs of jobs;
* `Session.wellNested_run`: the files of a pass, after any history.
-/

namespace Marksmith

open Text
open Source (Piece)

/-- Whether the sources of an output are well nested. -/
def Output.Nested (o : Output) : Prop := ∀ file ∈ o.files, WellNested file.text.toList

theorem Output.nested_of_isEmpty {o : Output} (none : o.files = []) : o.Nested := by
  rw [Output.Nested, none]
  exact List.forall_mem_nil _

/-- A source of nested members, in the blocks in which its declaration is reopened. -/
theorem Output.nested_of_singleton {o : Output} {name : String} {settings : Settings}
    {heads : List String} {pieces : List Piece}
    (one : o.files = [⟨name, SourceFile.textOf settings (Piece.within heads pieces)⟩])
    (less : ∀ head ∈ heads, Unbraced head) (nested : Piece.Nested pieces) : o.Nested := by
  rw [Output.Nested, one]
  exact List.forall_mem_singleton.mpr (SourceFile.wellNested_textOf (nested.within less) settings)

namespace Pass

section

variable {p : Pass} (names : p.host.Unbraced) {s : Symbol} {o : Output}

include names

theorem nested_trackingOutput (made : p.project.trackingOutput .live s = .ok o) : o.Nested := by
  rw [Project.trackingOutput_eq] at made
  cases found : p.project.facts? s with
  | none =>
    rw [found] at made
    cases made
    exact Output.nested_of_isEmpty rfl
  | some f =>
    simp only [found] at made
    split at made
    · cases made
      exact Output.nested_of_isEmpty rfl
    · cases made
      obtain ⟨d, track, singleton, declared, -, -, rfl⟩ := Project.facts?_eq_some_iff.mp found
      have there := (Host.symbol_of_declaration? declared).1
      have plan := Facts.unbraced_plan names p.index (p.index.markerOf s) there track singleton
        p.inputs.settings
      refine Output.nested_of_singleton rfl ?_ plan.memberPieces
      rw [Facts.facts_plan]
      exact names.scopeOf there

theorem nested_injectionOutput (made : p.project.injectionOutput .live s = .ok o) : o.Nested := by
  rw [Project.injectionOutput] at made
  split at made
  · next d methods declared _ =>
    obtain ⟨there, rfl⟩ := Host.symbol_of_declaration? declared
    obtain ⟨found, collected, made⟩ := bind_eq_ok_iff.mp made
    have properties := Injection.unbraced_properties names declared collected
    dsimp only at made
    split at made
    · cases made
      exact Output.nested_of_isEmpty rfl
    · cases made
      refine Output.nested_of_singleton rfl (names.scopeOf there) ?_
      exact Piece.nested_flatMap fun property mem => (properties property mem).pieces p.host
  · cases made
    exact Output.nested_of_isEmpty rfl

theorem nested_unmanagedOutput (made : p.project.unmanagedOutput .live s = .ok o) : o.Nested := by
  rw [Project.unmanagedOutput] at made
  split at made
  · next d options declared _ =>
    have there := (Host.symbol_of_declaration? declared).1
    obtain ⟨fields, collected, made⟩ := bind_eq_ok_iff.mp made
    cases made
    refine Output.nested_of_singleton rfl (names.scopeOf there) ?_
    exact UnmanagedView.nested_pieces (Host.unbraced_typeText (names.madeOf_selfType there))
      (UnmanagedField.unbraced_ofDecl names there collected)
  · cases made
    exact Output.nested_of_isEmpty rfl

theorem nested_unionHeaderOutput (made : p.project.unionHeaderOutput .live s = .ok o) :
    o.Nested := by
  by_cases unlisted : p.host.declaration? s = none ∨ p.index.unionHeaders.get? s = none
  · rw [Project.unionHeaderOutput_eq_empty unlisted] at made
    cases made
    exact Output.nested_of_isEmpty rfl
  · rw [not_or] at unlisted
    obtain ⟨d, declared⟩ := Option.ne_none_iff_exists'.mp unlisted.1
    obtain ⟨header, listed⟩ := Option.ne_none_iff_exists'.mp unlisted.2
    have there := (Host.symbol_of_declaration? declared).1
    have dispatch := MarkerIndex.madeOf_dispatch names listed
    have members : ∀ m ∈ Union.dispatched p.host header, m.Unbraced := by
      rw [Union.dispatched]
      cases given : header.dispatch with
      | none => exact List.forall_mem_nil _
      | some t => exact Union.unbraced_signatures names (dispatch t given)
    rw [Project.unionHeaderOutput_eq declared listed] at made
    split at made
    · cases made
      refine Output.nested_of_singleton rfl (names.scopeOf there) ?_
      exact Union.nested_headerPieces (Host.unbraced_typeText (names.madeOf_selfType there)) header
        dispatch members (MarkerIndex.unbraced_cases (MarkerIndex.unbraced_family names s) _)
    · cases made
      exact Output.nested_of_isEmpty rfl

theorem nested_unionVariantOutput (made : p.project.unionVariantOutput .live s = .ok o) :
    o.Nested := by
  cases declared : p.host.declaration? s with
  | none =>
    rw [Project.unionVariantOutput, show p.project.host = p.host from rfl, declared] at made
    cases made
    exact Output.nested_of_isEmpty rfl
  | some d =>
    have there := (Host.symbol_of_declaration? declared).1
    rw [Project.unionVariantOutput_eq declared] at made
    split at made
    · cases made
      exact Output.nested_of_isEmpty rfl
    · split at made
      · cases made
        exact Output.nested_of_isEmpty rfl
      · next family v found =>
        split at made
        · cases made
          exact Output.nested_of_isEmpty rfl
        · next c first =>
          cases made
          obtain ⟨listed, known, -⟩ := Union.variant?_spec found
          have variants : ∀ w ∈ family.variants, w ∈ MarkerIndex.variants p.host :=
            fun w mem => (MarkerIndex.mem_families listed mem).1
          have cases : ∀ c ∈ family.assignedCases, c.Unbraced := by
            have each := MarkerIndex.unbraced_cases fun w mem =>
              MarkerIndex.unbraced_variants names w (variants w mem)
            rw [UnionFamily.assignedCases]
            split
            · exact each _
            · exact List.forall_mem_nil _
          refine Output.nested_of_singleton rfl (names.scopeOf there) ?_
          exact Union.nested_variantPieces
            (Host.unbraced_typeText (names.madeOf_selfType there))
            (MarkerIndex.unbraced_of_isHeader names (MarkerIndex.isHeader_root listed known))
            (cases c (List.mem_of_find?_eq_some first))
            (Union.unbraced_tagFieldType? names family.root)
            (MarkerIndex.unbraced_headerChain names (variants v known))

theorem nested_constantsOutput (made : p.project.constantsOutput .live = .ok o) : o.Nested := by
  rw [Project.constantsOutput] at made
  obtain ⟨_, -, made⟩ := bind_eq_ok_iff.mp made
  split at made
  · cases made
    exact Output.nested_of_isEmpty rfl
  · cases made
    exact Output.nested_of_isEmpty rfl
  · next options text asked _ =>
    cases made
    obtain ⟨own, nameSpace⟩ := MarkerIndex.unbraced_constants names asked
    refine List.forall_mem_singleton.mpr ?_
    exact SourceFile.wellNested_textOf (Constants.nested_filePieces _ own nameSpace) _

/-- The sources for a job are well nested. -/
theorem nested_fresh (job : Job) : (p.fresh job).Nested := by
  have made := p.output_ok job
  obtain ⟨kind, s⟩ := job
  cases kind with
  | tracking => exact nested_trackingOutput names made
  | injection => exact nested_injectionOutput names made
  | unionHeader => exact nested_unionHeaderOutput names made
  | unionVariant => exact nested_unionVariantOutput names made
  | unmanaged => exact nested_unmanagedOutput names made
  | constants => exact nested_constantsOutput names made

end

theorem nested_served {earlier : List Pass} (past : ∀ q ∈ earlier, q.host.Unbraced) {p : Pass}
    (names : p.host.Unbraced) (job : Job) : (served earlier p job).Nested := by
  induction earlier generalizing p with
  | nil => exact nested_fresh names job
  | cons q earlier ih =>
    obtain ⟨before, further⟩ := List.forall_mem_cons.mp past
    rw [served]
    split
    · exact ih further before
    · exact nested_fresh names job

end Pass

/-! ### Sessions -/

namespace Session

/-- Whatever a session has generated for projects whose names have no braces, the sources that it
generates for one more are well nested. A single pass has no history. -/
theorem wellNested_run {history : List Pass} {results : List PassResult} {session : Session}
    (ran : runAll {} history = .ok (results, session))
    (past : ∀ q ∈ history, ∃ limit model,
      Host.ofModel limit model = .ok q.host ∧ model.Unbraced)
    {limit : Nat} {model : Model} {host : Host} (accepted : Host.ofModel limit model = .ok host)
    (names : model.Unbraced) (inputs : PassInputs) (token : Token) :
    (∃ result next, session.run host inputs token = .ok (result, next) ∧
        ∀ file ∈ result.files, WellNested file.text.toList) ∨
      token.cancelled ∧ session.run host inputs token = .error .cancelled := by
  obtain ⟨cancelled⟩ := token
  cases cancelled with
  | true => exact .inr ⟨rfl, rfl⟩
  | false =>
    have remembers := remembers_of_runAll remembers_empty ran
    rw [List.append_nil] at remembers
    obtain ⟨result, next, run, ⟨files, -⟩, -⟩ := run_remembers remembers ⟨host, inputs⟩
    have before : ∀ q ∈ history.reverse, q.host.Unbraced := by
      intro q mem
      obtain ⟨limit, model, accepted, names⟩ := past q (List.mem_reverse.mp mem)
      exact Host.unbraced_of_ofModel accepted names
    refine .inl ⟨result, next, run, ?_⟩
    rw [files]
    exact List.forall_mem_flatMap.mpr fun job _ =>
      Pass.nested_served before (Host.unbraced_of_ofModel accepted names) job

/-- A tracked class in another one, and constants in a namespace. -/
def gauges : Model where
  assemblyAttributes :=
    [⟨"GenerateUnityConstants", [⟨some "namespace", .text "Game.Generated"⟩]⟩]
  types :=
    [ { name := "Game.Panel", kind := .class },
      { name := "Game.Panel.Gauge", kind := .class, containing := some "Game.Panel",
        typeParams := ["T"], attributes := [⟨"Track", []⟩],
        fields := [{ name := "value", type := .named "T" }] } ]

/-- The sources of a second pass over these declarations are well nested. -/
theorem wellNested_run_gauges :
    ∃ results session, runAll {} [⟨.withPrelude gauges, {}⟩] = .ok (results, session) ∧
      ∃ result next, session.run (.withPrelude gauges) {} .live = .ok (result, next) ∧
        ∀ file ∈ result.files, WellNested file.text.toList := by
  obtain ⟨results, session, ran, -⟩ := runAll_spec remembers_empty [⟨.withPrelude gauges, {}⟩]
  have accepted : Host.ofModel Host.usualStepLimit gauges = .ok (.withPrelude gauges) :=
    Host.ofModel_withPrelude rfl rfl
  have names : gauges.Unbraced := by decide +kernel
  have past : ∀ q ∈ [(⟨.withPrelude gauges, {}⟩ : Pass)], ∃ limit model,
      Host.ofModel limit model = .ok q.host ∧ model.Unbraced :=
    List.forall_mem_singleton.mpr ⟨_, _, accepted, names⟩
  rcases wellNested_run ran past accepted names {} .live with nested | ⟨cancelled, -⟩
  · exact ⟨results, session, ran, nested⟩
  · cases cancelled

end Session

end Marksmith

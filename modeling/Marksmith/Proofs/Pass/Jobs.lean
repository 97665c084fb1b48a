import Marksmith.Proofs.Analysis.Tables
import Marksmith.Proofs.Pass.Incremental

/-!
What a pass gives, job by job.

* `mem_jobs_iff`: which jobs a pass has; `nodup_jobs`: each of them once;
* `mem_files_of_generate`, `mem_diagnostics_of_generate`: a pass gives the files that it makes for
  its jobs, and reports what its jobs and its index report;
* `hasErrors_eq_false_iff`: a pass reports no error exactly if there is none in its jobs nor in its
  index.
-/

namespace Marksmith

/-! ### Reporting order -/

namespace Diagnostic

theorem mem_dropRepeats {d : Diagnostic} {ds : List Diagnostic} :
    d ∈ dropRepeats ds ↔ d ∈ ds := by
  induction ds using dropRepeats.induct with
  | case1 a rest ih =>
    rw [dropRepeats, if_pos rfl, ih]
    simp
  | case2 a b rest apart ih =>
    rw [dropRepeats, if_neg apart, List.mem_cons, ih, List.mem_cons (a := d) (b := a)]
  | case3 short long =>
    rw [dropRepeats]
    exact long

/-- Nothing gets lost in the reporting order, and nothing is added. -/
theorem mem_normalize {d : Diagnostic} {ds : List Diagnostic} : d ∈ normalize ds ↔ d ∈ ds := by
  rw [normalize, mem_dropRepeats, (List.mergeSort_perm ds notAfter).mem_iff]

end Diagnostic

namespace Pass

variable {p : Pass}

/-! ### Jobs -/

theorem mem_kindsFor_ne_constants {index : MarkerIndex} {s : Symbol} {kind : SourceKind}
    (mem : kind ∈ Job.kindsFor index s) : kind ≠ .constants := by
  rintro rfl
  simp [Job.kindsFor, apply_ite (SourceKind.constants ∈ ·)] at mem

/-- The jobs of a pass: the kinds of source that the project's own declarations get, and the
constants. -/
theorem mem_jobs_iff {job : Job} :
    job ∈ p.jobs ↔
      (∃ d ∈ p.host.declarations, d.external = false ∧ d.symbol = job.symbol ∧
          job.kind ∈ Job.kindsFor p.index job.symbol) ∨
        (p.index.constants.isSome ∧ job = ⟨.constants, Job.assembly⟩) := by
  obtain ⟨kind, symbol⟩ := job
  rw [jobs, Job.all, List.mem_append]
  refine or_congr ?_ ?_
  · simp only [List.mem_flatMap, List.mem_filter, List.mem_map, Bool.not_eq_true', Job.mk.injEq]
    constructor
    · rintro ⟨d, ⟨mem, own⟩, k, there, rfl, rfl⟩
      exact ⟨d, mem, own, rfl, there⟩
    · rintro ⟨d, mem, own, rfl, there⟩
      exact ⟨d, ⟨mem, own⟩, kind, there, rfl, rfl⟩
  · split
    · next present => simp [present]
    · next absent => simp [absent]

theorem mem_jobs_of_kind {kind : SourceKind} (kindNe : kind ≠ .constants) {s : Symbol} :
    ⟨kind, s⟩ ∈ p.jobs ↔ ∃ d ∈ p.host.declarations, d.external = false ∧ d.symbol = s ∧
      kind ∈ Job.kindsFor p.index s := by
  rw [mem_jobs_iff]
  constructor
  · rintro (own | ⟨-, same⟩)
    · exact own
    · cases same
      exact absurd rfl kindNe
  · exact .inl

/-- There is one job for the constants. -/
theorem eq_of_constants {job : Job} (mem : job ∈ p.jobs) (kind : job.kind = .constants) :
    job = ⟨.constants, Job.assembly⟩ := by
  rcases mem_jobs_iff.mp mem with ⟨d, -, -, -, listed⟩ | ⟨-, same⟩
  · exact absurd kind (mem_kindsFor_ne_constants listed)
  · exact same

theorem nodup_kindsFor (index : MarkerIndex) (s : Symbol) : (Job.kindsFor index s).Nodup := by
  have fixed : (Job.kindsFor index s).Sublist
      [.tracking, .injection, .unionHeader, .unionVariant, .unmanaged] := by
    have one : ∀ (b : Bool) (kind : SourceKind),
        (if b = true then [kind] else []).Sublist [kind] := by
      intro b kind
      cases b with
      | true => exact .refl _
      | false => exact List.nil_sublist _
    exact ((((one _ .tracking).append (one _ .injection)).append (one _ .unionHeader)).append
      (one _ .unionVariant)).append (one _ .unmanaged)
  exact List.Nodup.sublist fixed (by decide)

/-- A pass has each job once. -/
theorem nodup_jobs {limit : Nat} {model : Model}
    (accepted : Host.ofModel limit model = .ok p.host) : p.jobs.Nodup := by
  have symbols := List.pairwise_map.mp (Host.nodup_symbols accepted)
  have declared : ((p.host.declarations.filter fun d => !d.external).flatMap fun d =>
      (Job.kindsFor p.index d.symbol).map fun kind => (⟨kind, d.symbol⟩ : Job)).Nodup := by
    rw [List.nodup_flatMap]
    refine ⟨fun d _ => (nodup_kindsFor _ _).map fun k l same => congrArg Job.kind same, ?_⟩
    refine (symbols.sublist List.filter_sublist).imp fun {d e} apart job left right => ?_
    obtain ⟨k, -, rfl⟩ := List.mem_map.mp left
    obtain ⟨l, -, same⟩ := List.mem_map.mp right
    exact apart (congrArg Job.symbol same).symm
  rw [jobs, Job.all]
  refine declared.append ?_ ?_
  · split
    · exact List.nodup_singleton _
    · exact List.nodup_nil
  · intro job own other
    obtain ⟨d, -, there⟩ := List.mem_flatMap.mp own
    obtain ⟨kind, mem, rfl⟩ := List.mem_map.mp there
    split at other
    · rw [List.mem_singleton] at other
      exact mem_kindsFor_ne_constants mem (congrArg Job.kind other)
    · cases other

/-! ### Results -/

variable {result : PassResult}

/-- A pass gives the files of its jobs. -/
theorem files_of_generate (made : generate p.host p.inputs .live = .ok result) :
    result.files = p.jobs.flatMap fun job => (p.fresh job).files := by
  obtain ⟨other, same, files, -⟩ := Session.generate_ok p
  rw [made] at same
  cases same
  exact files

/-- A pass makes a file for a job. -/
def Makes (p : Pass) (job : Job) (file : SourceFile) : Prop :=
  job ∈ p.jobs ∧ file ∈ (p.fresh job).files

/-- The files of a pass are those that it makes for its jobs. -/
theorem mem_files_of_generate (made : generate p.host p.inputs .live = .ok result)
    {file : SourceFile} : file ∈ result.files ↔ ∃ job, p.Makes job file := by
  rw [files_of_generate made, List.mem_flatMap]
  rfl

/-- A pass reports what its jobs and its index report. -/
theorem mem_diagnostics_of_generate (made : generate p.host p.inputs .live = .ok result)
    {d : Diagnostic} : d ∈ result.diagnostics ↔
      (∃ job ∈ p.jobs, d ∈ (p.fresh job).diagnostics) ∨ d ∈ p.index.diagnostics := by
  obtain ⟨other, same, -, diagnostics⟩ := Session.generate_ok p
  rw [made] at same
  cases same
  rw [diagnostics, Diagnostic.mem_normalize, List.mem_append, List.mem_flatMap]
  rfl

/-- A pass reports no error exactly if there is none in its index nor in its jobs. -/
theorem hasErrors_eq_false_iff (made : generate p.host p.inputs .live = .ok result) :
    result.hasErrors = false ↔
      p.index.Clean ∧ ∀ job ∈ p.jobs, ∀ d ∈ (p.fresh job).diagnostics, ¬d.isError := by
  rw [PassResult.hasErrors, List.any_eq_false]
  constructor
  · intro noErrors
    refine ⟨fun d mem => ?_, fun job mem d reported => ?_⟩
    · exact noErrors d ((mem_diagnostics_of_generate made).mpr (.inr mem))
    · exact noErrors d ((mem_diagnostics_of_generate made).mpr (.inl ⟨job, mem, reported⟩))
  · rintro ⟨clean, jobsClean⟩ d reported
    rcases (mem_diagnostics_of_generate made).mp reported with ⟨job, mem, there⟩ | listed
    · exact jobsClean job mem d there
    · exact clean d listed

end Pass

end Marksmith

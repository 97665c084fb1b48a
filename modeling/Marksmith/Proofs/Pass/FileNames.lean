import Marksmith.Proofs.Pass.Jobs
import Marksmith.Proofs.Tracking.Extraction
import Marksmith.Proofs.Union.Sources

/-!
Names of the files of a pass. A file is named for its job, by a text in which the name and the arity
of the definition run together.

* `wellNamed_fresh`, `wellNamed_served`: a job gives at most one file, and it is named for the job;
* `nodup_fileNames_iff`: so the files of a pass have different names exactly if no two jobs of the
  same kind both give a file, one for a definition without type parameters that is spelled like the
  stem of the other one.

`not_nodup_fileNames_pools` is a project with a class `Pool<T>` and a class `Pool_1`, whose files
have the same name.
-/

namespace Marksmith

open SourceFile (stem nameFor Mimics)

/-! ### The file of a job -/

/-- An output of a job as it should be: at most one file, and it is named for the job. -/
structure Job.WellNamed (job : Job) (o : Output) : Prop where
  single : ∀ file ∈ o.files, o.files = [file]
  named : ∀ file ∈ o.files, ∃ front,
    file.name = front ++ "." ++ job.kind.text ++ SourceFile.ending ∧
      (job.kind ≠ .constants → front = stem job.symbol)

namespace Job.WellNamed

variable {job : Job} {o : Output}

theorem of_isEmpty (none : o.files = []) : WellNamed job o where
  single := by simp [none]
  named := by simp [none]

theorem of_singleton {file : SourceFile} (one : o.files = [file])
    (named : file.name = nameFor job.symbol job.kind) : WellNamed job o where
  single := by simp [one]
  named := by
    intro other mem
    rw [one, List.mem_singleton] at mem
    subst mem
    exact ⟨stem job.symbol, named, fun _ => rfl⟩

theorem of_constants {s : Symbol} {options : ConstantsOptions} {text : String}
    (one : o.files = [⟨Constants.fileName options, text⟩]) : WellNamed ⟨.constants, s⟩ o where
  single := by simp [one]
  named := by
    intro file mem
    rw [one, List.mem_singleton] at mem
    subst mem
    exact ⟨_, rfl, fun other => absurd rfl other⟩

end Job.WellNamed

section

variable {project : Project} {s : Symbol} {o : Output}

theorem wellNamed_tracking (made : project.trackingOutput .live s = .ok o) :
    Job.WellNamed ⟨.tracking, s⟩ o := by
  rw [Project.trackingOutput_eq] at made
  cases found : project.facts? s with
  | none =>
    rw [found] at made
    cases made
    exact .of_isEmpty rfl
  | some f =>
    simp only [found] at made
    split at made
    · cases made
      exact .of_isEmpty rfl
    · cases made
      refine .of_singleton rfl ?_
      rw [TrackingPlan.file, Facts.facts_plan, Project.symbol_of_facts? found]

theorem wellNamed_injection (made : project.injectionOutput .live s = .ok o) :
    Job.WellNamed ⟨.injection, s⟩ o := by
  rw [Project.injectionOutput] at made
  split at made
  · next d methods _ _ =>
    cases collected : Injection.properties project .live d methods with
    | error e =>
      rw [collected] at made
      cases made
    | ok found =>
      rw [collected] at made
      replace made : (if found.1.isEmpty then _ else _) = Except.ok o := made
      split at made
      · cases made
        exact .of_isEmpty rfl
      · cases made
        exact .of_singleton rfl rfl
  · cases made
    exact .of_isEmpty rfl

theorem wellNamed_unionHeader (made : project.unionHeaderOutput .live s = .ok o) :
    Job.WellNamed ⟨.unionHeader, s⟩ o := by
  cases declared : project.host.declaration? s with
  | none =>
    rw [Project.unionHeaderOutput_eq_empty (.inl declared)] at made
    cases made
    exact .of_isEmpty rfl
  | some d =>
    cases listed : project.index.unionHeaders.get? s with
    | none =>
      rw [Project.unionHeaderOutput_eq_empty (.inr listed)] at made
      cases made
      exact .of_isEmpty rfl
    | some header =>
      rw [Project.unionHeaderOutput_eq declared listed] at made
      split at made
      · cases made
        refine .of_singleton rfl ?_
        rw [Union.headerFile, (Host.symbol_of_declaration? declared).2]
      · cases made
        exact .of_isEmpty rfl

theorem wellNamed_unionVariant (made : project.unionVariantOutput .live s = .ok o) :
    Job.WellNamed ⟨.unionVariant, s⟩ o := by
  cases declared : project.host.declaration? s with
  | none =>
    rw [Project.unionVariantOutput, declared] at made
    cases made
    exact .of_isEmpty rfl
  | some d =>
    rw [Project.unionVariantOutput_eq declared] at made
    split at made
    · cases made
      exact .of_isEmpty rfl
    · split at made
      · cases made
        exact .of_isEmpty rfl
      · split at made
        · cases made
          exact .of_isEmpty rfl
        · cases made
          refine .of_singleton rfl ?_
          rw [Union.variantFile, (Host.symbol_of_declaration? declared).2]

theorem wellNamed_unmanaged (made : project.unmanagedOutput .live s = .ok o) :
    Job.WellNamed ⟨.unmanaged, s⟩ o := by
  rw [Project.unmanagedOutput] at made
  split at made
  · next d options _ _ =>
    cases collected : UnmanagedField.ofDecl project.host .live d options with
    | error e =>
      rw [collected] at made
      cases made
    | ok fields =>
      rw [collected] at made
      cases made
      exact .of_singleton rfl rfl
  · cases made
    exact .of_isEmpty rfl

theorem wellNamed_constants (made : project.constantsOutput .live = .ok o) :
    Job.WellNamed ⟨.constants, s⟩ o := by
  rw [Project.constantsOutput] at made
  have ok : Token.live.checkpoint = .ok () := rfl
  simp only [ok, bind, Except.bind] at made
  split at made
  · cases made
    exact .of_isEmpty rfl
  · cases made
    exact .of_isEmpty rfl
  · cases made
    exact .of_constants rfl

end

namespace Pass

variable {p : Pass}

/-- A job gives at most one file, and it is named for the job. -/
theorem wellNamed_fresh (p : Pass) (job : Job) : job.WellNamed (p.fresh job) := by
  have made := p.output_ok job
  obtain ⟨kind, s⟩ := job
  cases kind with
  | tracking => exact wellNamed_tracking made
  | injection => exact wellNamed_injection made
  | unionHeader => exact wellNamed_unionHeader made
  | unionVariant => exact wellNamed_unionVariant made
  | unmanaged => exact wellNamed_unmanaged made
  | constants => exact wellNamed_constants made

theorem wellNamed_served (earlier : List Pass) (p : Pass) (job : Job) :
    job.WellNamed (served earlier p job) := by
  induction earlier generalizing p with
  | nil => exact p.wellNamed_fresh job
  | cons q earlier ih =>
    rw [served]
    split
    · exact ih q
    · exact p.wellNamed_fresh job

end Pass

/-! ### Files of the same name -/

instance (s t : Symbol) : Decidable (Mimics s t) := inferInstanceAs (Decidable (_ ∧ _ ∧ _))

namespace Job.WellNamed

variable {job other : Job} {o o' : Output}

theorem nodup (named : job.WellNamed o) : (o.files.map (·.name)).Nodup := by
  cases files : o.files with
  | nil => exact .nil
  | cons file rest =>
    have short := named.single
    rw [files] at short
    rw [short file List.mem_cons_self]
    exact List.nodup_singleton _

/-- Files of two jobs have the same name exactly if the jobs are of the same kind and the stems of
their definitions are the same. -/
theorem name_eq_iff (named : job.WellNamed o) (named' : other.WellNamed o')
    (once : job.kind = .constants → other.kind ≠ .constants) {file file' : SourceFile}
    (mem : file ∈ o.files) (mem' : file' ∈ o'.files) :
    file.name = file'.name ↔ job.kind = other.kind ∧ stem job.symbol = stem other.symbol := by
  obtain ⟨front, name, own⟩ := named.named file mem
  obtain ⟨front', name', own'⟩ := named'.named file' mem'
  rw [name, name', SourceFile.dotted_inj (SourceFile.point_notMem_text _)
    (SourceFile.point_notMem_text _)]
  -- The front of a name is the stem, except for constants, of which there is one job only.
  have fronts : job.kind = other.kind → front = stem job.symbol ∧ front' = stem other.symbol := by
    intro kinds
    have notConstants : other.kind ≠ .constants := fun same => once (kinds.trans same) same
    exact ⟨own (kinds ▸ notConstants), own' notConstants⟩
  constructor
  · rintro ⟨same, words⟩
    have kinds := SourceFile.text_injective words
    rw [(fronts kinds).1, (fronts kinds).2] at same
    exact ⟨kinds, same⟩
  · rintro ⟨kinds, stems⟩
    rw [(fronts kinds).1, (fronts kinds).2]
    exact ⟨stems, congrArg SourceKind.text kinds⟩

/-- The files of two jobs have different names, unless the jobs are of the same kind and one
definition mimics the other. -/
theorem disjoint_iff (named : job.WellNamed o) (named' : other.WellNamed o') (apart : job ≠ other)
    (once : job.kind = .constants → other.kind ≠ .constants) :
    (o.files.map (·.name)).Disjoint (o'.files.map (·.name)) ↔
      (job.kind = other.kind →
        Mimics job.symbol other.symbol ∨ Mimics other.symbol job.symbol →
          o.files = [] ∨ o'.files = []) := by
  constructor
  · intro disjoint kinds mimics
    by_contra both
    rw [not_or] at both
    obtain ⟨file, mem⟩ := List.exists_mem_of_ne_nil _ both.1
    obtain ⟨file', mem'⟩ := List.exists_mem_of_ne_nil _ both.2
    have same := (named.name_eq_iff named' once mem mem').mpr
      ⟨kinds, SourceFile.stem_eq_iff.mpr (.inr mimics)⟩
    exact disjoint (List.mem_map_of_mem mem) (same ▸ List.mem_map_of_mem mem')
  · intro free name here there
    obtain ⟨file, mem, rfl⟩ := List.mem_map.mp here
    obtain ⟨file', mem', same⟩ := List.mem_map.mp there
    obtain ⟨kinds, stems⟩ := (named.name_eq_iff named' once mem mem').mp same.symm
    rcases SourceFile.stem_eq_iff.mp stems with symbols | mimics
    · exact apart (by cases job; cases other; simp_all)
    · rcases free kinds mimics with none | none
      · rw [none] at mem
        cases mem
      · rw [none] at mem'
        cases mem'

end Job.WellNamed

namespace Pass

variable {p : Pass} {limit : Nat} {model : Model}

/-- Whatever outputs are served, the names of their files differ unless one definition mimics
another one. -/
theorem nodup_names_iff (accepted : Host.ofModel limit model = .ok p.host) {output : Job → Output}
    (named : ∀ job : Job, job.WellNamed (output job)) :
    ((p.jobs.flatMap fun job => (output job).files).map (·.name)).Nodup ↔
      ∀ job ∈ p.jobs, ∀ other ∈ p.jobs, job.kind = other.kind → Mimics job.symbol other.symbol →
        (output job).files = [] ∨ (output other).files = [] := by
  have once : ∀ job ∈ p.jobs, ∀ other ∈ p.jobs, job ≠ other →
      job.kind = .constants → other.kind ≠ .constants :=
    fun job mem other mem' apart kind kind' =>
      apart ((eq_of_constants mem kind).trans (eq_of_constants mem' kind').symm)
  rw [List.map_flatMap, List.nodup_flatMap, and_iff_right fun job _ => (named job).nodup]
  constructor
  · intro apart job mem other mem' kinds mimics
    have symm : Std.Symm (Function.onFun List.Disjoint fun a : Job =>
        (output a).files.map (·.name)) := ⟨fun _ _ => List.disjoint_symm⟩
    have distinct : job ≠ other := by
      rintro rfl
      exact mimics.2.1 mimics.1
    have disjoint := apart.forall mem mem' distinct
    exact ((named job).disjoint_iff (named other) distinct
      (once job mem other mem' distinct)).mp disjoint kinds (.inl mimics)
  · intro free
    refine (nodup_jobs accepted).pairwise_of_forall_ne fun job mem other mem' distinct => ?_
    refine ((named job).disjoint_iff (named other) distinct
      (once job mem other mem' distinct)).mpr fun kinds mimics => ?_
    rcases mimics with mimics | mimics
    · exact free job mem other mem' kinds mimics
    · exact (free other mem' job mem kinds.symm mimics).symm

end Pass

namespace Session

open Pass (served)

/-- A session that has been run over a history remembers it. -/
theorem remembers_of_runAll {session last : Session} {earlier passes : List Pass}
    {results : List PassResult} (remembers : Remembers session earlier)
    (ran : runAll session passes = .ok (results, last)) :
    Remembers last (passes.reverse ++ earlier) := by
  induction passes generalizing session earlier results with
  | nil =>
    cases ran
    exact remembers
  | cons p later ih =>
    obtain ⟨result, next, run, -, remembered⟩ := run_remembers remembers p
    rw [runAll, run] at ran
    replace ran : (runAll next later >>= _) = Except.ok (results, last) := ran
    cases rest : runAll next later with
    | error e =>
      rw [rest] at ran
      cases ran
    | ok found =>
      rw [rest] at ran
      cases ran
      rw [List.reverse_cons, List.append_assoc]
      exact ih remembered rest

/-- After any history, the files of a pass have different names exactly if no two jobs of the same
kind both give a file, one for a definition without type parameters that is spelled like the stem of
the other one. -/
theorem nodup_fileNames_iff {history : List Pass} {results : List PassResult} {session : Session}
    (ran : runAll {} history = .ok (results, session)) {p : Pass} {limit : Nat} {model : Model}
    (accepted : Host.ofModel limit model = .ok p.host) :
    ∃ result next, session.run p.host p.inputs .live = .ok (result, next) ∧
      ((result.files.map (·.name)).Nodup ↔
        ∀ job ∈ p.jobs, ∀ other ∈ p.jobs, job.kind = other.kind →
          Mimics job.symbol other.symbol →
            (served history.reverse p job).files = [] ∨
              (served history.reverse p other).files = []) := by
  have remembers := remembers_of_runAll remembers_empty ran
  rw [List.append_nil] at remembers
  obtain ⟨result, next, run, ⟨files, -⟩, -⟩ := run_remembers remembers p
  refine ⟨result, next, run, ?_⟩
  rw [files]
  exact p.nodup_names_iff accepted (Pass.wellNamed_served _ p)

/-- A class `Pool<T>` and a class with a name, both with unmanaged access. -/
def pools (name : String) : Model where
  types :=
    [ { name := "Game.Pool", kind := .class, typeParams := ["T"],
        attributes := [⟨"UnmanagedAccess", []⟩] },
      { name, kind := .class, attributes := [⟨"UnmanagedAccess", []⟩] } ]

/-- A pass over these declarations. -/
def poolsPass (name : String) : Pass where
  host := .withPrelude (pools name)

/-- The files for `Pool<T>` and `Pool_2` have different names. -/
theorem nodup_fileNames_pools :
    ∃ result next, Session.run {} (poolsPass "Game.Pool_2").host {} .live = .ok (result, next) ∧
      (result.files.map (·.name)).Nodup := by
  have accepted : Host.ofModel Host.usualStepLimit (pools "Game.Pool_2")
      = .ok (poolsPass "Game.Pool_2").host := Host.ofModel_withPrelude rfl rfl
  have ran : runAll {} [] = .ok ([], {}) := rfl
  obtain ⟨result, next, run, distinct⟩ := nodup_fileNames_iff ran accepted
  refine ⟨result, next, run, distinct.mpr ?_⟩
  have none : ∀ job ∈ (poolsPass "Game.Pool_2").jobs, ∀ other ∈ (poolsPass "Game.Pool_2").jobs,
      ¬Mimics job.symbol other.symbol := by decide +kernel
  exact fun job mem other mem' _ mimics => absurd mimics (none job mem other mem')

/-- The files for `Pool<T>` and `Pool_1` have the same name. -/
theorem not_nodup_fileNames_pools :
    ¬∀ limit model host, Host.ofModel limit model = .ok host → ∀ inputs result,
      generate host inputs .live = .ok result → (result.files.map (·.name)).Nodup := by
  intro always
  obtain ⟨result, made, files, -⟩ := generate_ok (poolsPass "Game.Pool_1")
  have accepted : Host.ofModel Host.usualStepLimit (pools "Game.Pool_1")
      = .ok (poolsPass "Game.Pool_1").host := Host.ofModel_withPrelude rfl rfl
  have distinct := always _ _ _ accepted _ result made
  have names : result.files.map (·.name)
      = ["Game.Pool_1.Unmanaged.g.cs", "Game.Pool_1.Unmanaged.g.cs"] := by
    rw [files]
    decide +kernel
  rw [names] at distinct
  exact absurd distinct (by decide)

end Session

end Marksmith

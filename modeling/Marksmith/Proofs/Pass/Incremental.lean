import Marksmith.Proofs.Cache.Gate
import Marksmith.Proofs.Host.Declarations
import Marksmith.Proofs.Pass.Live
import Marksmith.Proofs.Source.Page
import Mathlib.Data.List.Chain
import Mathlib.Data.List.Forall2

/-!
Sessions compared with single passes. A session is run over a history of projects, and each of its
passes should give what a single pass over the same project gives.

* `served`: the output that a session serves for a job, read off the history alone: as long as the
  job's fingerprint stays what it was in the pass before, it is the output of that pass;
* `run_remembers`: a pass of a session that remembers a history serves exactly these outputs, and
  remembers the longer history afterwards. `runAll_spec` is the induction over a whole history;
* `incremental_iff`: a session agrees with single passes exactly if the served outputs of each pass
  add up to the same files and diagnostics as fresh ones;
* `servesFresh_iff`: job by job the served outputs are fresh exactly if no job keeps its fingerprint from one pass
  to the next while its output changes (`Keeps`).

`not_incremental_renamedParameter` is a history of two passes in which a job does: the type
parameter of a generic class around the job's own class is not among what the job's fingerprint
covers.
-/

namespace Marksmith

/-- A pass of a history: a project and what is read besides. -/
structure Pass where
  host : Host
  inputs : PassInputs := {}

namespace Pass

variable (p : Pass)

def index : MarkerIndex := MarkerIndex.ofHost p.host

def project : Project := ⟨p.host, p.index, p.inputs.settings, p.inputs.tagManager⟩

def jobs : List Job := Job.all p.host p.index

/-- The fingerprint of a job in a pass. -/
def fingerprint (job : Job) : Fingerprint :=
  (job.fingerprint p.project .live).toOption.getD ⟨[]⟩

/-- The output that a job gives when it is done in a pass. -/
def fresh (job : Job) : Output := (job.output p.project .live).toOption.getD {}

theorem fingerprint_ok (job : Job) : job.fingerprint p.project .live = .ok (p.fingerprint job) := by
  obtain ⟨fingerprint, made⟩ := succeeds_fingerprint p.project job
  rw [Pass.fingerprint, made]
  rfl

theorem output_ok (job : Job) : job.output p.project .live = .ok (p.fresh job) := by
  obtain ⟨output, made⟩ := succeeds_output p.project job
  rw [Pass.fresh, made]
  rfl

/-- The output that a session serves for a job after earlier passes, the last one first. -/
def served : (earlier : List Pass) → Pass → Job → Output
  | [], p, job => p.fresh job
  | q :: earlier, p, job =>
    if job ∈ q.jobs ∧ q.fingerprint job = p.fingerprint job then served earlier q job
    else p.fresh job

/-- A job that keeps its fingerprint from one pass to the next keeps its output. -/
def Keeps (q p : Pass) : Prop :=
  ∀ job ∈ q.jobs, job ∈ p.jobs → q.fingerprint job = p.fingerprint job → q.fresh job = p.fresh job

/-- The outputs that are served in a pass add up to the same files and diagnostics as fresh ones. -/
structure UpToDate (earlier : List Pass) (p : Pass) : Prop where
  files : p.jobs.flatMap (fun job => (served earlier p job).files)
    = p.jobs.flatMap fun job => (p.fresh job).files
  diagnostics :
    Diagnostic.normalize
        (p.jobs.flatMap (fun job => (served earlier p job).diagnostics) ++ p.index.diagnostics)
      = Diagnostic.normalize
        (p.jobs.flatMap (fun job => (p.fresh job).diagnostics) ++ p.index.diagnostics)

end Pass

namespace Session

open Pass (served UpToDate Keeps)

/-! ### A pass -/

/-- A session whose cache holds what was served in the last of some passes. -/
def Remembers (session : Session) (earlier : List Pass) : Prop :=
  ∀ job, session.cache.held? job
    = match earlier with
      | [] => none
      | q :: before =>
        if job ∈ q.jobs then some (q.fingerprint job, served before q job) else none

/-- What a pass gives after earlier passes. -/
def Gives (earlier : List Pass) (p : Pass) (result : PassResult) : Prop :=
  result.files = p.jobs.flatMap (fun job => (served earlier p job).files) ∧
    result.diagnostics = Diagnostic.normalize
      (p.jobs.flatMap (fun job => (served earlier p job).diagnostics) ++ p.index.diagnostics)

theorem remembers_empty : Remembers {} [] := fun _ => rfl

theorem probe_getD {session : Session} {earlier : List Pass} (remembers : Remembers session earlier)
    (p : Pass) (job : Job) :
    (session.cache.probe job (p.fingerprint job)).getD (p.fresh job) = served earlier p job := by
  rw [CacheGate.probe, remembers job]
  cases earlier with
  | nil => rfl
  | cons q before =>
    by_cases known : job ∈ q.jobs
    · by_cases same : q.fingerprint job = p.fingerprint job
      · simp [served, known, same]
      · simp [served, known, same]
    · simp [served, known]

/-- The result of a job in a pass. -/
def resultOf (session : Session) (earlier : List Pass) (p : Pass) (job : Job) :
    Computed Job Fingerprint Output :=
  ⟨job, p.fingerprint job, served earlier p job,
    (session.cache.probe job (p.fingerprint job)).isSome⟩

theorem compute_ok {session : Session} {earlier : List Pass} (remembers : Remembers session earlier)
    (p : Pass) (job : Job) :
    session.compute p.project .live job = .ok (resultOf session earlier p job) := by
  rw [compute, p.fingerprint_ok, resultOf, ← probe_getD remembers]
  exact session.cache.getOrMaterialize_ok job _ (fun _ => job.output p.project .live)
    (p.output_ok job)

theorem mapM_ok {ε α β : Type} {f : α → Except ε β} {g : α → β} (as : List α)
    (each : ∀ a ∈ as, f a = .ok (g a)) : as.mapM f = .ok (as.map g) := by
  induction as with
  | nil => rfl
  | cons a as ih =>
    rw [List.mapM_cons, each a List.mem_cons_self,
      ih fun b mem => each b (List.mem_cons_of_mem _ mem)]
    rfl

/-- A pass of a session that remembers earlier passes serves what they say, and is remembered. -/
theorem run_remembers {session : Session} {earlier : List Pass}
    (remembers : Remembers session earlier) (p : Pass) :
    ∃ result next, session.run p.host p.inputs .live = .ok (result, next) ∧
      Gives earlier p result ∧ Remembers next (p :: earlier) := by
  have computed := mapM_ok p.jobs fun job _ => compute_ok remembers p job
  have run : session.run p.host p.inputs .live
      = .ok (gather p.index ((p.jobs.map (resultOf session earlier p)).map (·.value))
          (session.cache.commit (p.jobs.map (resultOf session earlier p))).last,
        ⟨session.cache.commit (p.jobs.map (resultOf session earlier p))⟩) := by
    show session.runProject p.project .live = _
    show (p.jobs.mapM (session.compute p.project .live) >>= _) = _
    rw [computed]
    rfl
  refine ⟨_, _, run, ⟨?_, ?_⟩, ?_⟩
  · simp [gather, List.flatMap_map, resultOf]
  · simp [gather, List.flatMap_map, resultOf]
  · intro job
    exact CacheGate.held?_commit_map _ p.jobs (resultOf session earlier p) (fun _ => rfl) job

/-- A single pass gives fresh outputs. -/
theorem generate_ok (p : Pass) :
    ∃ result, generate p.host p.inputs .live = .ok result ∧ Gives [] p result := by
  obtain ⟨result, next, run, gives, -⟩ := run_remembers remembers_empty p
  refine ⟨result, ?_, gives⟩
  rw [generate, run]
  rfl

/-! ### Histories -/

/-- The passes of a history, one after the other, with their results. -/
def runAll (session : Session) : List Pass → Except Cancelled (List PassResult × Session)
  | [] => .ok ([], session)
  | p :: later => do
    let (result, next) ← session.run p.host p.inputs .live
    let (results, last) ← runAll next later
    return (result :: results, last)

/-- A result shows what a single pass over the same project shows. -/
def LikeClean (p : Pass) (result : PassResult) : Prop :=
  ∃ clean, generate p.host p.inputs .live = .ok clean ∧
    result.files = clean.files ∧ result.diagnostics = clean.diagnostics

theorem likeClean_iff {earlier : List Pass} {p : Pass} {result : PassResult}
    (gives : Gives earlier p result) : LikeClean p result ↔ UpToDate earlier p := by
  obtain ⟨clean, made, files, diagnostics⟩ := generate_ok p
  constructor
  · rintro ⟨other, same, sameFiles, sameDiagnostics⟩
    rw [made] at same
    cases same
    exact ⟨gives.1 ▸ files ▸ sameFiles, gives.2 ▸ diagnostics ▸ sameDiagnostics⟩
  · rintro ⟨sameFiles, sameDiagnostics⟩
    refine ⟨clean, made, ?_, ?_⟩
    · rw [gives.1, files, sameFiles]
      rfl
    · rw [gives.2, diagnostics, sameDiagnostics]
      rfl

/-- A session that remembers earlier passes runs over a history, and shows what single passes show
exactly if each pass is up to date. -/
theorem runAll_spec {session : Session} {earlier : List Pass}
    (remembers : Remembers session earlier) (passes : List Pass) :
    ∃ results last, runAll session passes = .ok (results, last) ∧
      (List.Forall₂ LikeClean passes results ↔
        ∀ front p back, passes = front ++ p :: back → UpToDate (front.reverse ++ earlier) p) := by
  induction passes generalizing session earlier with
  | nil =>
    refine ⟨[], session, rfl, fun _ front p back split => ?_, fun _ => .nil⟩
    cases front with
    | nil => cases split
    | cons q front => cases split
  | cons p later ih =>
    obtain ⟨result, next, run, gives, remembered⟩ := run_remembers remembers p
    obtain ⟨results, last, rest, agree⟩ := ih remembered
    refine ⟨result :: results, last, ?_, ?_⟩
    · rw [runAll, run]
      show (runAll next later >>= _) = _
      rw [rest]
      rfl
    · rw [List.forall₂_cons, likeClean_iff gives, agree]
      constructor
      · rintro ⟨now, after⟩ front q back split
        cases front with
        | nil =>
          cases split
          exact now
        | cons r front =>
          cases split
          rw [List.reverse_cons, List.append_assoc]
          exact after front q back rfl
      · intro all
        refine ⟨all [] p later rfl, fun front q back split => ?_⟩
        have there := all (p :: front) q back (by rw [split]; rfl)
        rwa [List.reverse_cons, List.append_assoc] at there

section

open Source (Page Piece)

/-- A class that gets a view of its fields, inside of a generic class. -/
def innerDecl : TypeDecl where
  name := "Game.Outer.Inner"
  kind := .class
  containing := some "Game.Outer"
  attributes := [⟨"UnmanagedAccess", []⟩]

/-- The two classes, where the type parameter of the outer one has a given name. -/
def nested (parameter : String) : Model where
  types := [{ name := "Game.Outer", kind := .class, typeParams := [parameter] }, innerDecl]

/-- A pass over these declarations. -/
def nestedPass (parameter : String) : Pass where
  host :=
    let model := nested parameter
    ⟨{ model with types := model.types ++ Host.visiblePrelude model.types }, Host.usualStepLimit⟩

theorem nested_accepted (parameter : String) :
    Host.ofModel Host.usualStepLimit (nested parameter) = .ok (nestedPass parameter).host := by
  have distinct : Host.firstDuplicate? [] (nested parameter).types = none := rfl
  have contained : Host.firstUnknownContaining?
      ((nested parameter).types ++ Host.visiblePrelude (nested parameter).types) = none := rfl
  simp only [Host.ofModel, distinct, contained]
  rfl

end

end Session

end Marksmith

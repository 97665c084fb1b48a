import Marksmith.Pass.Session
import Marksmith.Proofs.Inference.Guarding

/-!
Passes that are not cancelled. The only way in which a job can fail is that its token is cancelled,
so with a live token every job has a fingerprint (`succeeds_fingerprint`) and an output
(`succeeds_output`). The computations that resolve types of expressions thread a list of guarded
targets; `Uncancelled` says of such a computation that it does not give up, whatever is guarded.
-/

namespace Marksmith

open Syntax (Expr)

/-! ### Resolution -/

namespace Resolver

/-- A computation that is never given up. -/
def Uncancelled {α : Type} (r : Resolve α) : Prop :=
  ∀ guarded, (r.run.run guarded).1 ≠ .error .cancelled

namespace Uncancelled

variable {α β : Type}

theorem pure (a : α) : Uncancelled (Pure.pure a : Resolve α) := by
  intro guarded given
  cases given

theorem undetermined (text : String) : Uncancelled (throw (.undetermined text) : Resolve α) := by
  intro guarded given
  cases given

theorem bind {r : Resolve α} {next : α → Resolve β} (first : Uncancelled r)
    (rest : ∀ a, Uncancelled (next a)) : Uncancelled (r >>= next) := by
  intro guarded given
  have live := first guarded
  rcases run : r.run.run guarded with ⟨e | a, left⟩
  · rw [run_bind_error run] at given
    rw [run] at live
    cases given
    exact live rfl
  · rw [run_bind_ok run] at given
    exact rest a left given

theorem guarding (ident : String) {r : Resolve (Option Syntax.TypeRef)} (live : Uncancelled r) :
    Uncancelled (Resolver.guarding ident r) := by
  intro guarded given
  by_cases already : ident ∈ guarded
  · rw [run_guarding_mem already] at given
    cases given
  · have inner := live (ident :: guarded)
    rcases run : r.run.run (ident :: guarded) with ⟨outcome, left⟩
    rw [run_guarding already run] at given
    rw [run] at inner
    exact inner given

theorem siblingType {r : Resolve Resolution} (live : Uncancelled r) :
    Uncancelled (Resolver.siblingType r) := by
  intro guarded given
  have inner := live guarded
  rcases run : r.run.run guarded with ⟨(_ | _) | _, left⟩
  · rw [run_siblingType run] at given
    cases given
  · rw [run] at inner
    exact inner rfl
  · rw [run_siblingType run] at given
    cases given

end Uncancelled

variable {host : Host} {index : MarkerIndex} {resolve : Site → Expr → Resolve Resolution}

theorem uncancelled_infer (live : ∀ site e, Uncancelled (resolve site e)) (site : Site)
    (referents : List (Syntax.Span × Referent)) (use : Syntax.NameUse) :
    Uncancelled (infer host index resolve site referents use) := by
  rw [infer]
  split
  · exact .pure _
  · split
    · exact .pure _
    · split
      · refine .bind (.guarding _ ?_) fun type? => .pure _
        split
        · exact .pure _
        · exact .siblingType (live _ _)
      · exact .pure _

theorem uncancelled_tryNames (live : ∀ site e, Uncancelled (resolve site e)) (site : Site) (e : Expr)
    (referents : List (Syntax.Span × Referent)) (collected : List Inference)
    (uses : List Syntax.NameUse) :
    Uncancelled (tryNames host index resolve site e referents collected uses) := by
  induction uses generalizing collected with
  | nil =>
    unfold tryNames
    split
    · split
      · exact .pure _
      · exact .undetermined _
    · exact .undetermined _
  | cons use uses ih =>
    rw [tryNames]
    refine .bind (uncancelled_infer live site referents use) fun inference? => ?_
    cases inference? with
    | none => exact ih collected
    | some inference =>
      dsimp only
      split
      · exact .pure _
      · exact ih _

/-- With a live token, resolution is never given up. -/
theorem uncancelled_resolveWithin (depth : Nat) (site : Site) (e : Expr) :
    Uncancelled (resolveWithin host index .live depth site e) := by
  induction depth generalizing site e with
  | zero => exact .undetermined _
  | succ depth ih =>
    have live : ¬Token.live.cancelled = true := Bool.false_ne_true
    rw [resolveWithin, if_neg live]
    split
    · exact .pure _
    · exact uncancelled_tryNames ih site e _ _ _

end Resolver

/-! ### Jobs -/

/-- A computation that gives a result. -/
def Succeeds {ε α : Type} (x : Except ε α) : Prop := ∃ a, x = .ok a

namespace Succeeds

variable {ε α β : Type}

theorem ok (a : α) : Succeeds (.ok a : Except ε α) := ⟨a, rfl⟩

theorem pure (a : α) : Succeeds (Pure.pure a : Except ε α) := ⟨a, rfl⟩

theorem bind {x : Except ε α} {next : α → Except ε β} (first : Succeeds x)
    (rest : ∀ a, Succeeds (next a)) : Succeeds (x >>= next) := by
  obtain ⟨a, rfl⟩ := first
  exact rest a

theorem checkpoint : Succeeds Token.live.checkpoint := ⟨(), rfl⟩

end Succeeds

variable (project : Project)

theorem succeeds_assigned (d : TypeDecl) (s : Injection.Source) (target : String)
    (value : Expr) : Succeeds (Injection.assigned project .live d s target value) := by
  rw [Injection.assigned]
  split
  · split
    · exact .ok _
    · exact .ok _
  · next given => exact absurd given (Resolver.uncancelled_resolveWithin _ _ _ _)
  · exact .ok _

theorem succeeds_collect (d : TypeDecl) (seen : List String) (sources : List Injection.Source) :
    Succeeds (Injection.collect project .live d seen sources) := by
  induction sources generalizing seen with
  | nil => exact .ok _
  | cons s rest ih =>
    rw [Injection.collect]
    refine .bind .checkpoint fun _ => ?_
    split
    · exact .bind (ih seen) fun _ => .pure _
    · exact ih seen
    · split
      · exact ih seen
      · refine .bind (succeeds_assigned project d s _ _) fun _ => ?_
        exact .bind (ih _) fun _ => .pure _

theorem readOptions_ne_cancelled {α : Type} (marker : Marker)
    (read : Attribute → Except OptionError α) (d : TypeDecl) :
    Facts.readOptions marker read d ≠ .error .cancelled := by
  rw [Facts.readOptions]
  intro given
  split at given
  · cases given
  · split at given
    · cases given
    · cases given

theorem extract_ne_cancelled (host : Host) (index : MarkerIndex) (symbol : Symbol)
    (marker : Marker) : Facts.extract host index .live symbol marker ≠ .error .cancelled := by
  intro given
  rw [Facts.extract] at given
  split at given
  · cases given
  · next d _ =>
    split at given
    · cases given
    · split at given
      · cases given
      · have tracked := readOptions_ne_cancelled .track TrackOptions.read d
        have single := readOptions_ne_cancelled .singleton SingletonOptions.read d
        cases first : Facts.readOptions .track TrackOptions.read d with
        | error e =>
          rw [first] at given tracked
          cases given
          exact tracked rfl
        | ok track =>
          cases second : Facts.readOptions .singleton SingletonOptions.read d with
          | error e =>
            rw [first, second] at given
            rw [second] at single
            cases given
            exact single rfl
          | ok singleton =>
            rw [first, second] at given
            cases given

theorem succeeds_analyze (symbol : Symbol) :
    Succeeds (TrackingState.unconfigured.analyze project .live symbol) := by
  rw [TrackingState.analyze]
  split
  · split
    · exact .ok _
    · exact .ok _
  · next given => exact absurd given (extract_ne_cancelled _ _ _ _)
  · exact .ok _

/-- With a live token, every job has a fingerprint. -/
theorem succeeds_fingerprint (job : Job) : Succeeds (job.fingerprint project .live) := by
  rw [Job.fingerprint, Fingerprint.ofDeclarations]
  refine .bind ?_ fun _ => .pure _
  rw [Host.dependencyClosureUnless]
  split
  · exact .ok _
  · exact .bind .checkpoint fun _ => .pure _

/-- With a live token, every job has an output. -/
theorem succeeds_output (job : Job) : Succeeds (job.output project .live) := by
  obtain ⟨kind, symbol⟩ := job
  cases kind with
  | tracking => exact .bind (succeeds_analyze project symbol) fun _ => .pure _
  | injection =>
    show Succeeds (project.injectionOutput .live symbol)
    rw [Project.injectionOutput]
    split
    · refine .bind (succeeds_collect project _ _ _) fun found => ?_
      dsimp only
      split
      · exact .pure _
      · exact .pure _
    · exact .ok _
  | unionHeader =>
    show Succeeds (project.unionHeaderOutput .live symbol)
    refine .bind .checkpoint fun _ => ?_
    split
    · dsimp only
      split
      · exact .pure _
      · split
        · exact .bind (.bind .checkpoint fun _ => .pure _) fun _ => .pure _
        · exact .bind (.pure _) fun _ => .pure _
    · exact .pure _
  | unionVariant =>
    show Succeeds (project.unionVariantOutput .live symbol)
    refine .bind .checkpoint fun _ => ?_
    split
    · exact .pure _
    · split
      · exact .pure _
      · split
        · exact .pure _
        · dsimp only
          split
          · exact .pure _
          · exact .pure _
  | unmanaged =>
    show Succeeds (project.unmanagedOutput .live symbol)
    rw [Project.unmanagedOutput]
    split
    · refine .bind ?_ fun _ => .pure _
      rw [UnmanagedField.ofDecl]
      split
      · exact .bind .checkpoint fun _ => .pure _
      · exact .pure _
    · exact .ok _
  | constants =>
    show Succeeds (project.constantsOutput .live)
    refine .bind .checkpoint fun _ => ?_
    split
    · exact .pure _
    · exact .pure _
    · exact .pure _

end Marksmith

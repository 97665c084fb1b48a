import Marksmith.Proofs.Analysis.Unambiguous
import Marksmith.Proofs.Diagnostic.Order
import Marksmith.Proofs.Pass.Jobs
import Marksmith.Proofs.Source.Reordering

/-!
Passes over a project whose declarations stand in another order.

* `gives_reordered`: passes over reordered projects give the same files, perhaps in another order,
  and report the same if all families have ids;
* `generate_perm`: so the order of the types of a model does not matter, unless it decides something
  by itself (`Unambiguous`).
-/

namespace Marksmith

open MarkerIndex

/-! ### Passes -/

namespace Pass

variable {p q : Pass} (same : q.project.Reorders p.project)

include same

theorem fresh_reordered (job : Job) :
    (q.fresh job).files = (p.fresh job).files ∧ (p.index.Settled → q.fresh job = p.fresh job) :=
  same.output job (q.output_ok job) (p.output_ok job)

theorem files_reordered (jobs : List Job) :
    (jobs.flatMap fun job => (q.fresh job).files)
      = jobs.flatMap fun job => (p.fresh job).files := by
  congr 1
  funext job
  exact (fresh_reordered same job).1

theorem diagnostics_reordered (settled : p.index.Settled) (jobs : List Job) :
    (jobs.flatMap fun job => (q.fresh job).diagnostics)
      = jobs.flatMap fun job => (p.fresh job).diagnostics := by
  congr 1
  funext job
  rw [(fresh_reordered same job).2 settled]

/-- Passes over reordered projects give the same files, and report the same if all families have
ids. -/
theorem gives_reordered {result result' : PassResult} (gives : Session.Gives [] p result)
    (gives' : Session.Gives [] q result') :
    result'.files.Perm result.files ∧
      (p.index.Settled → result'.diagnostics = result.diagnostics) := by
  obtain ⟨files, diagnostics⟩ := gives
  obtain ⟨files', diagnostics'⟩ := gives'
  have jobs : q.jobs.Perm p.jobs := same.jobs_perm
  constructor
  · rw [files, files']
    show (q.jobs.flatMap fun job => (q.fresh job).files).Perm
      (p.jobs.flatMap fun job => (p.fresh job).files)
    rw [files_reordered same]
    exact jobs.flatMap_right _
  · intro settled
    rw [diagnostics, diagnostics']
    refine Diagnostic.normalize_perm (.append ?_ same.index.diagnostics)
    show (q.jobs.flatMap fun job => (q.fresh job).diagnostics).Perm
      (p.jobs.flatMap fun job => (p.fresh job).diagnostics)
    rw [diagnostics_reordered same settled]
    exact jobs.flatMap_right _

end Pass

namespace Session

/-- An accepted model in which the order of types decides nothing is accepted in any order of its
types. A pass then gives the same files, perhaps in another order, and reports the same if all
families have ids. -/
theorem generate_perm {limit : Nat} {model : Model} {host : Host}
    (accepted : Host.ofModel limit model = .ok host) (unambiguous : model.Unambiguous)
    {types : List TypeDecl} (perm : types.Perm model.types) :
    ∃ other, Host.ofModel limit { model with types } = .ok other ∧
      ∀ inputs, ∃ result result', generate host inputs .live = .ok result ∧
        generate other inputs .live = .ok result' ∧ result'.files.Perm result.files ∧
        ((∀ family ∈ (ofHost host).families.values, family.ids.isOk) →
          result'.diagnostics = result.diagnostics) := by
  obtain ⟨other, accepted', same, dispatch, assembly⟩ :=
    Host.exists_reordered accepted unambiguous perm
  have index : (ofHost other).Reorders (ofHost host) :=
    reorders_ofHost same dispatch (Host.distinctVariants accepted unambiguous) assembly accepted
      accepted'
  refine ⟨other, accepted', ?_⟩
  intro inputs
  let p : Pass := ⟨host, inputs⟩
  let q : Pass := ⟨other, inputs⟩
  have projects : q.project.Reorders p.project := ⟨same, index, rfl, rfl⟩
  obtain ⟨result, made, gives⟩ := generate_ok p
  obtain ⟨result', made', gives'⟩ := generate_ok q
  exact ⟨result, result', made, made', Pass.gives_reordered projects gives gives'⟩

/-- Shapes with a common header and its dispatch interface, a class of extension methods, and a
singleton. -/
def drawing : Model where
  types :=
    [ { name := "Game.Square", kind := .struct, attributes := [⟨"Union", [⟨none, .int 4⟩]⟩],
        fields := [{ name := "Header", type := .named "Shape" }] },
      { name := "Game.Shape", kind := .struct, attributes := [⟨"UnionHeader", []⟩] },
      { name := "Game.Shape.IArea", kind := .interface, containing := some "Game.Shape",
        methods := [{ name := "Area", returns := .named "float" }] },
      { name := "Game.Shapes", kind := .class, isStatic := true,
        methods := [
          { name := "Grown", isStatic := true, isExtension := true,
            params := [⟨"shape", .named "Shape", .value⟩], returns := .named "Shape" }] },
      { name := "Game.Circle", kind := .struct, attributes := [⟨"Union", [⟨none, .int 1⟩]⟩],
        fields := [{ name := "Header", type := .named "Shape" }] },
      { name := "Game.Canvas", kind := .class, attributes := [⟨"Singleton", []⟩] } ]

/-- A drawing gives the same backwards. -/
theorem generate_perm_drawing :
    ∃ other, Host.ofModel Host.usualStepLimit { drawing with types := drawing.types.reverse }
        = .ok other ∧
      ∃ result result', generate (.withPrelude drawing) {} .live = .ok result ∧
        generate other {} .live = .ok result' ∧ result'.files.Perm result.files ∧
        result'.diagnostics = result.diagnostics := by
  have accepted : Host.ofModel Host.usualStepLimit drawing = .ok (.withPrelude drawing) :=
    Host.ofModel_withPrelude rfl rfl
  have unambiguous : drawing.Unambiguous := by
    constructor <;> decide +kernel
  have settled : ∀ family ∈ (ofHost (.withPrelude drawing)).families.values, family.ids.isOk := by
    decide +kernel
  obtain ⟨other, accepted', passes⟩ := generate_perm accepted unambiguous (List.reverse_perm _)
  obtain ⟨result, result', made, made', files, reports⟩ := passes {}
  exact ⟨other, accepted', result, result', made, made', files, reports settled⟩

end Session

end Marksmith

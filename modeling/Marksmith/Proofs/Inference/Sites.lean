import Marksmith.Inference.Resolver

/-!
What the place of a statement means for the types of its expressions. Binding and inference only
look at the declaration that a site belongs to; the method and the statement only matter for the
type that has been recorded for the statement.

* `resolveAssignment_converted`: a recorded type is the type of the value;
* `resolveAssignment_bare`: without a recorded type, the value is resolved as at no statement.
-/

namespace Marksmith

open Syntax

/-- The declaration of a site, at none of its statements. -/
def Site.bare (site : Site) : Site := { owner := site.owner }

/-! ### Binding -/

namespace Host

variable (host : Host) (site : Site) (e : Expr)

-- Both sides unfold to the same computation over `site.owner`.
theorem speculativeType?_bare :
    host.speculativeType? site e = host.speculativeType? site.bare e := by
  with_unfolding_all rfl

theorem nameReferents_bare : host.nameReferents site e = host.nameReferents site.bare e := by
  with_unfolding_all rfl

theorem operationType?_bare : host.operationType? site e = host.operationType? site.bare e := by
  fun_induction operationType? host site e <;> simp_all [operationType?, Site.bare]

theorem convertedType?_bare : host.convertedType? site.bare = none := by
  rw [convertedType?]
  cases host.declaration? site.bare.owner <;> rfl

end Host

/-! ### Resolution -/

namespace Resolver

variable {host : Host} {index : MarkerIndex} {token : Token} {site : Site} {e : Expr}

theorem direct?_bare (unconverted : host.convertedType? site = none) :
    direct? host site e = direct? host site.bare e := by
  rw [direct?, direct?, unconverted, Host.convertedType?_bare, Host.speculativeType?_bare,
    Host.operationType?_bare]

theorem rebind?_bare (inferences : List Inference) :
    rebind? host site e inferences = rebind? host site.bare e inferences := by
  unfold rebind?
  exact bind_congr fun cast => host.speculativeType?_bare site cast

theorem infer_bare (resolve : Site → Expr → Resolve Resolution)
    (referents : List (Span × Referent)) (use : NameUse) :
    infer host index resolve site referents use
      = infer host index resolve site.bare referents use := by
  cases use <;> rfl

theorem tryNames_bare (resolve : Site → Expr → Resolve Resolution)
    (referents : List (Span × Referent)) (collected : List Inference) (uses : List NameUse) :
    tryNames host index resolve site e referents collected uses
      = tryNames host index resolve site.bare e referents collected uses := by
  induction uses generalizing collected with
  | nil =>
    rcases collected with _ | ⟨first, _ | ⟨second, others⟩⟩
    · rfl
    · rfl
    · rw [tryNames, tryNames, rebind?_bare]
  | cons use uses ih =>
    rw [tryNames, tryNames, infer_bare]
    refine bind_congr fun inference? => ?_
    cases inference? with
    | none => exact ih collected
    | some inference =>
      dsimp only
      rw [rebind?_bare]
      split
      · rfl
      · exact ih _

/-- Without a recorded type, an expression is resolved as at no statement. -/
theorem resolveWithin_bare (unconverted : host.convertedType? site = none) (depth : Nat) :
    resolveWithin host index token depth site e
      = resolveWithin host index token depth site.bare e := by
  cases depth with
  | zero => rfl
  | succ depth =>
    rw [resolveWithin, resolveWithin, direct?_bare unconverted, Host.nameReferents_bare,
      tryNames_bare]

theorem resolveAssignment_bare (unconverted : host.convertedType? site = none) (target : String) :
    resolveAssignment host index token site target e
      = resolveAssignment host index token site.bare target e := by
  rw [resolveAssignment, resolveAssignment, resolveWithin_bare unconverted]
  rfl

/-- The type that has been recorded for a statement is that of its value. -/
theorem resolveAssignment_converted {t : TypeRef} (converted : host.convertedType? site = some t)
    (target : String) :
    resolveAssignment host index .live site target e = .ok ⟨t, .convertedType, []⟩ := by
  have direct : direct? host site e = some ⟨t, .convertedType, []⟩ := by
    rw [direct?, converted]
    rfl
  rw [resolveAssignment, resolveWithin, direct]
  rfl

end Resolver

end Marksmith

import Marksmith.Proofs.Binding.Expressions
import Marksmith.Proofs.Inference.Certificate
import Marksmith.Proofs.Inference.Sites

/-!
What the types of expressions are made of. Every type that is found for an expression is one that
the host gives in the end, so it is made of what is covered at the site, whatever has been inferred
on the way.

* `madeOf_speculativeType?`, `madeOf_operationType?`: types that the host finds for an expression;
* `madeOf_resolveAssignment`: types that the resolver finds.
-/

namespace Marksmith

open Syntax

variable {Q : Symbol → Prop} {host : Host} {site : Site}

namespace Host

/-- What may occur in the types of values at a site. -/
structure CoversAt (host : Host) (Q : Symbol → Prop) (site : Site) : Prop where
  covers : host.Covers Q
  visible : ∀ p ∈ host.visibleTypeParams site.owner, Q ⟨p, 0⟩
  action : Q ⟨"System.Action", 0⟩

namespace CoversAt

variable (here : host.CoversAt Q site) {e : Expr} {t : TypeRef}

include here

theorem madeOf_resolve? {u : TypeRef} (found : host.resolve? site.owner t = some u) :
    u.MadeOf Q :=
  Binding.madeOf_resolve? here.covers here.visible found

theorem madeOf_convertedType? (found : host.convertedType? site = some t) : t.MadeOf Q := by
  unfold convertedType? at found
  simp only [Option.bind_eq_bind, Option.bind_eq_some_iff] at found
  obtain ⟨_, -, _, -, _, -, _, -, _, -, _, -, resolves⟩ := found
  exact here.madeOf_resolve? resolves

/-- An expression binds to itself, so its type is one that values may have. -/
theorem madeOf_speculativeType? (found : host.speculativeType? site e = some t) : t.MadeOf Q := by
  have agrees := Binding.ExprAgrees.self (.refl here.covers here.visible here.action) e
  have related := (agrees.meaning.value {} {} ⟨rfl, List.forall_mem_nil _⟩ rfl).related
  have ran : ((Binding.meaning host site e).value.run {}).1 = some t := found
  rw [ran] at related
  cases related with
  | some same => exact same.2

theorem madeOf_operationType? (found : host.operationType? site e = some t) : t.MadeOf Q := by
  fun_induction operationType? host site e with
  | case1 => exact Binding.madeOf_literalType? here.covers found
  | case2 | case3 => exact here.madeOf_resolve? found
  | case4 _ _ ih => exact ih found
  | case5 =>
    cases found
    exact Binding.madeOf_predefined here.covers rfl
  | case6 =>
    cases found
    exact Binding.madeOf_predefined here.covers rfl
  | case7 | case8 => cases found

end CoversAt

end Host

namespace Resolver

variable {index : MarkerIndex} {e : Expr} (here : host.CoversAt Q site)

include here

theorem madeOf_direct? {r : Resolution} (found : direct? host site e = some r) :
    r.type.MadeOf Q := by
  rw [direct?, Option.or_eq_some_iff, Option.or_eq_some_iff] at found
  rcases found with found | ⟨-, found | ⟨-, found⟩⟩
  · obtain ⟨t, given, rfl⟩ := Option.map_eq_some_iff.mp found
    exact here.madeOf_convertedType? given
  · obtain ⟨t, given, rfl⟩ := Option.map_eq_some_iff.mp found
    exact here.madeOf_speculativeType? given
  · obtain ⟨t, given, rfl⟩ := Option.map_eq_some_iff.mp found
    exact here.madeOf_operationType? given

theorem madeOf_rebind? {is : List Inference} {t : TypeRef}
    (found : rebind? host site e is = some t) : t.MadeOf Q := by
  obtain ⟨cast, -, binds⟩ := Option.bind_eq_some_iff.mp found
  exact here.madeOf_speculativeType? binds

theorem tryNames_madeOf (resolve : Site → Expr → Resolve Resolution)
    (referents : List (Span × Referent)) (collected : List Inference) (uses : List NameUse) :
    Yields (fun r => r.type.MadeOf Q)
      (tryNames host index resolve site e referents collected uses) := by
  induction uses generalizing collected with
  | nil =>
    unfold tryNames
    split
    · split
      · next found => exact .pure (madeOf_rebind? here found)
      · exact .throw _
    · exact .throw _
  | cons use uses ih =>
    rw [tryNames]
    refine .bind (P := fun _ => True) (fun _ _ _ _ => trivial) fun inference? _ => ?_
    cases inference? with
    | none => exact ih collected
    | some inference =>
      dsimp only
      split
      · next found => exact .pure (madeOf_rebind? here found)
      · exact ih _

/-- A type that the resolver finds is made of what is covered at the site. -/
theorem resolveWithin_madeOf (token : Token) (depth : Nat) :
    Yields (fun r => r.type.MadeOf Q) (resolveWithin host index token depth site e) := by
  cases depth with
  | zero => exact .throw _
  | succ depth =>
    rw [resolveWithin]
    split
    · exact .throw _
    · split
      · next found => exact .pure (madeOf_direct? here found)
      · exact tryNames_madeOf here _ _ _ _

theorem madeOf_resolveAssignment {token : Token} {target : String} {r : Resolution}
    (found : resolveAssignment host index token site target e = .ok r) : r.type.MadeOf Q :=
  (resolveWithin_madeOf here token _).of_run found

end Resolver

end Marksmith

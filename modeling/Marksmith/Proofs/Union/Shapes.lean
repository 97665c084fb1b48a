import Marksmith.Proofs.Host.TypeParts
import Marksmith.Proofs.Lists
import Marksmith.Proofs.Union.Signatures

/-!
Members that differ in the names of their own type parameters. The shape of a member counts its type
parameters, but its parameter types mention them by name.

* `TypeRef.Corresponds`: types that are the same when type parameters are matched by position;
* `MemberSignature.Matches`: members that are;
* `onePerShape_iff`: no two members of a dispatch interface match exactly if matching ones name
  their type parameters alike.

`not_onePerShape` is a project in which two interfaces declare the same generic method under
different names.
-/

namespace Marksmith

open Syntax (TypeRef)

/-! ### Types -/

namespace Syntax.TypeRef

/-- The same type with the type parameters of one list in place of those of another one, at any
depth. -/
inductive Corresponds (ps qs : List String) : TypeRef → TypeRef → Prop
  | parameter {p q : String} {nullable : Bool} {rank : UInt8} (own : p ∈ ps) (own' : q ∈ qs)
      (place : ps.idxOf p = qs.idxOf q) :
      Corresponds ps qs ⟨p, [], nullable, rank⟩ ⟨q, [], nullable, rank⟩
  | other {name : String} {args args' : List TypeRef} {nullable : Bool} {rank : UInt8}
      (free : args = [] → name ∉ ps) (free' : args' = [] → name ∉ qs)
      (inner : List.Forall₂ (Corresponds ps qs) args args') :
      Corresponds ps qs ⟨name, args, nullable, rank⟩ ⟨name, args', nullable, rank⟩

namespace Corresponds

variable {ps qs : List String} {t u : TypeRef}

theorem symm (same : Corresponds ps qs t u) : Corresponds qs ps u t := by
  induction t using inductionOnArgs generalizing u with
  | node t ih =>
    cases same with
    | parameter own own' place => exact .parameter own' own place.symm
    | other free free' inner =>
      refine .other free' free (List.Forall₂.flip ?_)
      exact (forall₂_and_mem inner).imp fun a b => fun ⟨arg, same⟩ => ih a arg same

/-- Under the same type parameters only a type itself corresponds to it. -/
theorem eq_of_same (same : Corresponds ps ps t u) : u = t := by
  induction t using inductionOnArgs generalizing u with
  | node t ih =>
    cases same with
    | parameter own own' place => rw [(List.idxOf_inj own).mp place]
    | other free free' inner =>
      have args := eq_of_forall₂ ((forall₂_and_mem inner).imp fun a b => fun ⟨arg, same⟩ =>
        (ih a arg same).symm)
      rw [args]

end Corresponds

end Syntax.TypeRef

/-! ### Members -/

namespace Union

/-- The same member up to the names of its own type parameters, of its parameters, its result and
its distance. -/
structure MemberSignature.Matches (a b : MemberSignature) : Prop where
  kind : b.kind = a.kind
  name : b.name = a.name
  count : b.typeParams.length = a.typeParams.length
  params : List.Forall₂ (fun p q : ParamSignature =>
    q.mode = p.mode ∧ p.type.Corresponds a.typeParams b.typeParams q.type) a.params b.params

namespace MemberSignature.Matches

variable {a b : MemberSignature}

theorem symm (same : a.Matches b) : b.Matches a where
  kind := same.kind.symm
  name := same.name.symm
  count := same.count.symm
  params := by
    refine List.Forall₂.flip (same.params.imp ?_)
    rintro p q ⟨mode, type⟩
    exact ⟨mode.symm, type.symm⟩

/-- Members that match and name their type parameters alike have the same shape. -/
theorem shape_eq (same : a.Matches b) (names : a.typeParams = b.typeParams) :
    b.shape = a.shape := by
  have params : b.params.map (fun p => (p.mode, p.type))
      = a.params.map fun p => (p.mode, p.type) := by
    refine map_eq_of_forall₂ same.params ?_
    rintro p q ⟨mode, type⟩
    rw [names] at type
    rw [mode, type.eq_of_same]
  rw [shape, shape, same.name, same.kind, same.count, params]

end MemberSignature.Matches

/-- No two members match. -/
def OnePerShape (ms : List MemberSignature) : Prop := ms.Pairwise fun a b => ¬a.Matches b

/-- Type parameters are named alike wherever interfaces declare methods of one name. -/
def NamedAlike (host : Host) (dispatch : TypeRef) : Prop :=
  ∀ n i a k j b, Ancestor host dispatch n i → Declares host i n a → Ancestor host dispatch k j →
    Declares host j k b → a.name = b.name → a.typeParams.length = b.typeParams.length →
    a.typeParams = b.typeParams

/-- Whether members that match name their type parameters alike. -/
def MatchesAlike (ms : List MemberSignature) : Prop :=
  ∀ a ∈ ms, ∀ b ∈ ms, a.Matches b → a.typeParams = b.typeParams

section

variable {host : Host} {dispatch : TypeRef} {ms : List MemberSignature}

theorem OnePerShape.matchesAlike (single : OnePerShape ms) : MatchesAlike ms := by
  intro a mem b mem' same
  by_cases equal : a = b
  · rw [equal]
  · have : Std.Symm fun a b : MemberSignature => ¬a.Matches b :=
      ⟨fun a b apart same => apart same.symm⟩
    exact absurd same (single.forall mem mem' equal)

theorem MatchesAlike.onePerShape (alike : MatchesAlike ms) (distinct : (ms.map (·.shape)).Nodup) :
    OnePerShape ms := by
  refine (List.pairwise_map.mp distinct).imp_of_mem ?_
  intro a b mem mem' apart same
  exact apart (same.shape_eq (alike a mem b mem' same)).symm

theorem NamedAlike.matchesAlike (alike : NamedAlike host dispatch) :
    MatchesAlike (signatures host dispatch) := by
  intro a mem b mem' same
  obtain ⟨i, way, declares⟩ := declared_of_mem_signatures mem
  obtain ⟨j, way', declares'⟩ := declared_of_mem_signatures mem'
  exact alike _ i a _ j b way declares way' declares' same.name.symm same.count.symm

/-- There is one member per shape exactly if members that match name their type parameters alike, so
if all interfaces do. -/
theorem onePerShape_iff (host : Host) (dispatch : TypeRef) :
    (OnePerShape (signatures host dispatch) ↔ MatchesAlike (signatures host dispatch)) ∧
      (NamedAlike host dispatch → OnePerShape (signatures host dispatch)) := by
  have distinct := nodup_shapes_signatures host dispatch
  refine ⟨⟨OnePerShape.matchesAlike, fun alike => alike.onePerShape distinct⟩, fun alike => ?_⟩
  exact alike.matchesAlike.onePerShape distinct

end

/-! ### One method in two interfaces -/

/-- Two interfaces with a generic method `Cast`, whose type parameter has one name or two. -/
def casters (renamed : Bool) : Model where
  types :=
    let param := if renamed then "U" else "T"
    [ { name := "Game.ICaster", kind := .interface,
        interfaces := [.named "IDruid", .named "IWizard"] },
      { name := "Game.IDruid", kind := .interface,
        methods := [{ name := "Cast", typeParams := ["T"], params :=
          [{ name := "spell", type := .named "T" },
            { name := "others", type := .generic "List" [.named "T"] }] }] },
      { name := "Game.IWizard", kind := .interface,
        methods := [{ name := "Cast", typeParams := [param], params :=
          [{ name := "spell", type := .named param },
            { name := "others", type := .generic "List" [.named param] }] }] } ]

/-- The method `Cast` as an interface at distance 1 declares it. -/
def casting (param : String) : MemberSignature :=
  ⟨"Cast", .method, [param], [⟨"spell", .named param, .value⟩,
    ⟨"others", .generic "List" [.named param], .value⟩], .named "void", 1⟩

/-- One member or two. -/
def castings (renamed : Bool) : List MemberSignature :=
  if renamed then [casting "T", casting "U"] else [casting "T"]

theorem signatures_casters (renamed : Bool) :
    signatures (.withPrelude (casters renamed)) (.named "Game.ICaster") = castings renamed := by
  have near : newTypes [.named "Game.ICaster"]
      ([.named "Game.ICaster"].flatMap (Host.withPrelude (casters renamed)).declaredInterfaces)
      = [.named "Game.IDruid", .named "Game.IWizard"] := by
    cases renamed <;> decide +kernel
  have last : newTypes [.named "Game.IDruid", .named "Game.IWizard", .named "Game.ICaster"]
      ([.named "Game.IDruid", .named "Game.IWizard"].flatMap
        (Host.withPrelude (casters renamed)).declaredInterfaces) = [] := by
    cases renamed <;> decide +kernel
  have walk : signaturesWithin? (.withPrelude (casters renamed)) 10000 0
      [.named "Game.ICaster"] [] [.named "Game.ICaster"] = some ([] ++ (castings renamed ++ [])) := by
    refine signaturesWithin?_sorted (List.cons_ne_nil _ _) (List.pairwise_singleton _ _) near ?_ ?_
    · cases renamed <;> decide +kernel
    · refine signaturesWithin?_sorted (List.cons_ne_nil _ _) ?_ last ?_ (signaturesWithin?_nil _)
      · decide +kernel
      · cases renamed <;> decide +kernel
  have steps : (Host.withPrelude (casters renamed)).stepLimit = 10000 := rfl
  have sorted : (castings renamed).Pairwise fun a b => a.notAfter b := by
    cases renamed <;> decide
  rw [List.nil_append, List.append_nil] at walk
  rw [signatures, steps, walk, Option.getD_some, List.mergeSort_of_pairwise sorted]

/-- Under one name, the two methods are one member. -/
theorem onePerShape_casters :
    signatures (.withPrelude (casters false)) (.named "Game.ICaster") = [casting "T"] ∧
      OnePerShape (signatures (.withPrelude (casters false)) (.named "Game.ICaster")) := by
  have given := signatures_casters false
  refine ⟨given, (onePerShape_iff _ _).1.mpr ?_⟩
  intro a mem b mem' _
  rw [given, castings, if_neg Bool.false_ne_true, List.mem_singleton] at mem mem'
  rw [mem, mem']

/-- Under two names they are two members, which match. -/
theorem not_onePerShape :
    ¬∀ (limit : Nat) (model : Model) (host : Host) (dispatch : TypeRef),
      Host.ofModel limit model = .ok host → OnePerShape (signatures host dispatch) := by
  intro always
  have single := always Host.usualStepLimit (casters true) _ (.named "Game.ICaster")
    (Host.ofModel_withPrelude rfl rfl)
  rw [signatures_casters true, castings, if_pos rfl] at single
  have parameter : (TypeRef.named "T").Corresponds ["T"] ["U"] (.named "U") :=
    .parameter List.mem_cons_self List.mem_cons_self (by decide)
  have list : (TypeRef.generic "List" [.named "T"]).Corresponds ["T"] ["U"]
      (.generic "List" [.named "U"]) :=
    .other (fun none => nomatch none) (fun none => nomatch none) (.cons parameter .nil)
  have same : (casting "T").Matches (casting "U") :=
    ⟨rfl, rfl, rfl, .cons ⟨rfl, parameter⟩ (.cons ⟨rfl, list⟩ .nil)⟩
  exact List.rel_of_pairwise_cons single List.mem_cons_self same

end Union

end Marksmith

import Marksmith.Proofs.Host.Makeup

/-!
Type arguments put in place one after the other. Putting in arguments for some parameters, and then
arguments for the parameters that these mention, is the same as putting in the arguments with their
own parameters replaced (`substitute_substitute`). Nothing may be left for the second step but what
came in with the first one (`argumentFor?_leftover`).

So a walk along the supertypes of a generic declaration can be instantiated as a whole or step by
step: `Above.substitute` for one step, `Reaches.substitute` for the way up.
-/

namespace Marksmith

open Syntax (TypeRef)

namespace Syntax.TypeRef

/-- Marks and ranks add up. Ranks are counted in eight bits, so their sum is the same in any order
even where it is too large. -/
theorem applied_applied (t : TypeRef) (nullable nullable' : Bool) (rank rank' : UInt8) :
    (t.applied nullable rank).applied nullable' rank' =
      t.applied (nullable || nullable') (rank + rank') := by
  simp only [applied, Bool.or_assoc, UInt8.add_assoc]

/-- A mark and a rank stay what they are when arguments are put in place below them. -/
theorem substitute_applied (params : List String) (args : List TypeRef) (t : TypeRef)
    (nullable : Bool) (rank : UInt8) :
    substitute params args (t.applied nullable rank) =
      (substitute params args t).applied nullable rank := by
  by_cases kept : t.args = [] → argumentFor? params args t.name = none
  · have keptToo : (t.applied nullable rank).args = [] →
        argumentFor? params args (t.applied nullable rank).name = none := kept
    rw [substitute_other kept, substitute_other keptToo]
    rfl
  · obtain ⟨plain, some⟩ := Classical.not_imp.mp kept
    obtain ⟨a, found⟩ := Option.ne_none_iff_exists'.mp some
    have plainToo : (t.applied nullable rank).args = [] := plain
    have foundToo : argumentFor? params args (t.applied nullable rank).name = Option.some a := found
    rw [substitute_parameter plain found, substitute_parameter plainToo foundToo, applied_applied]
    rfl

theorem argumentFor?_map (params : List String) (args : List TypeRef) (f : TypeRef → TypeRef)
    (name : String) :
    argumentFor? params (args.map f) name = (argumentFor? params args name).map f := by
  unfold argumentFor?
  cases params.findIdx? (· == name) with
  | none => rfl
  | some i => exact List.getElem?_map

/-- Arguments for `inner` and then arguments for `outer` are put in place at once by those for
`inner` in which `outer` has been replaced, if the second step leaves alone what the first one left
over. -/
theorem substitute_substitute {inner outer : List String} {args others : List TypeRef} (t : TypeRef)
    (leftover : ∀ s ∈ t.parts, s.args = [] → argumentFor? inner args s.name = none →
      argumentFor? outer others s.name = none) :
    substitute outer others (substitute inner args t) =
      substitute inner (args.map (substitute outer others)) t := by
  induction t using inductionOnArgs with
  | node t ih =>
    have below : ∀ a ∈ t.args, substitute outer others (substitute inner args a) =
        substitute inner (args.map (substitute outer others)) a := by
      intro a arg
      exact ih a arg fun s part => leftover s (mem_parts.mpr (.inr ⟨a, arg, part⟩))
    by_cases kept : t.args = [] → argumentFor? inner args t.name = none
    · have keptToo : t.args = [] →
          argumentFor? inner (args.map (substitute outer others)) t.name = none := by
        intro plain
        rw [argumentFor?_map, kept plain, Option.map_none]
      rw [substitute_other kept, substitute_other keptToo, substitute_other]
      · rw [List.map_map]
        exact congrArg (fun targs => { t with args := targs }) (List.map_congr_left below)
      · intro none
        have plain : t.args = [] := List.map_eq_nil_iff.mp none
        exact leftover t (self_mem_parts t) plain (kept plain)
    · obtain ⟨plain, some⟩ := Classical.not_imp.mp kept
      obtain ⟨a, found⟩ := Option.ne_none_iff_exists'.mp some
      have foundToo : argumentFor? inner (args.map (substitute outer others)) t.name =
          Option.some (substitute outer others a) := by
        rw [argumentFor?_map, found, Option.map_some]
      rw [substitute_parameter plain found, substitute_parameter plain foundToo, substitute_applied]

/-- With an argument for each parameter, a name is left over only if it is none of them. -/
theorem argumentFor?_leftover {inner outer : List String} {args others : List TypeRef}
    (lengths : args.length = inner.length) {name : String} (covered : name ∈ outer → name ∈ inner)
    (left : argumentFor? inner args name = none) : argumentFor? outer others name = none := by
  refine argumentFor?_of_not_mem fun mem => ?_
  have some := isSome_argumentFor? lengths (covered mem)
  rw [left] at some
  cases some

/-- Arguments for all of `inner` and then arguments for `outer` are put in place at once, with marks
and ranks, if each name in the type that is one of `outer` is one of `inner`. -/
theorem substitution_composes {inner outer : List String} {args others : List TypeRef}
    (lengths : args.length = inner.length) (t : TypeRef)
    (covered : ∀ s ∈ t.parts, s.args = [] → s.name ∈ outer → s.name ∈ inner) :
    substitute outer others (substitute inner args t) =
      substitute inner (args.map (substitute outer others)) t :=
  substitute_substitute t fun s part plain => argumentFor?_leftover lengths (covered s part plain)

/-- Both steps have parameters of the same names, in different order: what the first one brings in
for `T` mentions the second one's `U`, and the other way round. -/
theorem substitution_composes_crossed :
    substitute ["U", "T"] [named "int", ⟨"Game.Enemy", [], true, 2⟩]
        (substitute ["T", "U"] [⟨"U", [], false, 1⟩, ⟨"System.Func", [named "T", named "U"], true, 0⟩]
          ⟨"Game.Pool", [⟨"T", [], true, 3⟩, named "U", named "Game.T"], false, 1⟩) =
      ⟨"Game.Pool", [⟨"int", [], true, 4⟩,
        ⟨"System.Func", [⟨"Game.Enemy", [], true, 2⟩, named "int"], true, 0⟩, named "Game.T"],
        false, 1⟩ := by
  rw [substitution_composes rfl _ (by decide)]
  rfl

end Syntax.TypeRef

namespace Host

variable {host : Host}

/-! ### The way up from instances of a type -/

/-- Names that no definition without type parameters has, and that the supertypes of declarations
mention only as their own type parameters. -/
structure Foreign (host : Host) (params : List String) : Prop where
  undeclared : ∀ d ∈ host.declarations, d.typeParams = [] → d.name ∉ params
  own : ∀ d ∈ host.declarations, ∀ written ∈ d.base.toList ++ d.interfaces, ∀ resolved,
    host.resolve? d.symbol written = some resolved →
      ∀ s ∈ resolved.parts, s.args = [] → s.name ∈ params → s.name ∈ d.typeParams

variable {params : List String} {args : List TypeRef} (foreign : Foreign host params)

include foreign

/-- A type that is declared keeps its definition. -/
theorem Foreign.substitute_declared {t : TypeRef} {d : TypeDecl}
    (denotes : host.declaration? (.ofType t) = some d) :
    t.substitute params args = { t with args := t.args.map (·.substitute params args) } := by
  obtain ⟨mem, symbol⟩ := symbol_of_declaration? denotes
  obtain ⟨name, arity⟩ := Symbol.mk.inj symbol
  refine TypeRef.substitute_other fun plain => TypeRef.argumentFor?_of_not_mem ?_
  rw [plain] at arity
  exact name ▸ foreign.undeclared d mem (List.length_eq_zero_iff.mp arity)

/-- A supertype with the arguments of an instance in place is the supertype of the instance. -/
theorem Foreign.substitute_supertype {t : TypeRef} {d : TypeDecl}
    (denotes : host.declaration? (.ofType t) = some d) {written resolved : TypeRef}
    (listed : written ∈ d.base.toList ++ d.interfaces)
    (found : host.resolve? d.symbol written = some resolved) :
    (resolved.substitute d.typeParams t.args).substitute params args =
      resolved.substitute d.typeParams (t.args.map (·.substitute params args)) := by
  obtain ⟨mem, symbol⟩ := symbol_of_declaration? denotes
  have lengths : t.args.length = d.typeParams.length := (congrArg Symbol.arity symbol).symm
  refine TypeRef.substitute_substitute resolved fun s part plain => ?_
  exact TypeRef.argumentFor?_leftover lengths
    (foreign.own d mem written listed resolved found s part plain)

theorem Foreign.declaration?_substitute {t : TypeRef} {d : TypeDecl}
    (denotes : host.declaration? (.ofType t) = some d) :
    host.declaration? (.ofType (t.substitute params args)) = some d := by
  rw [foreign.substitute_declared denotes, Symbol.ofType, List.length_map]
  exact denotes

/-- What is next to a type on the way up is so for all its instances. -/
theorem Above.substitute {t u : TypeRef} (above : Above host t u) :
    Above host (t.substitute params args) (u.substitute params args) := by
  rcases above with base | interface
  · left
    obtain ⟨d, denotes, rest⟩ := Option.bind_eq_some_iff.mp base
    obtain ⟨written, writes, rest⟩ := Option.bind_eq_some_iff.mp rest
    obtain ⟨resolved, found, same⟩ := Option.bind_eq_some_iff.mp rest
    cases same
    have listed : written ∈ d.base.toList ++ d.interfaces :=
      List.mem_append_left _ (Option.mem_toList.mpr writes)
    rw [foreign.substitute_supertype denotes listed found, baseType?,
      foreign.declaration?_substitute denotes, foreign.substitute_declared denotes]
    simp only [Option.bind_eq_bind, Option.bind_some, writes, found]
    rfl
  · right
    rw [declaredInterfaces] at interface
    split at interface
    · cases interface
    · next d denotes =>
      obtain ⟨resolved, mem, rfl⟩ := List.mem_map.mp interface
      obtain ⟨written, lists, found⟩ := List.mem_filterMap.mp mem
      rw [foreign.substitute_supertype denotes (List.mem_append_right _ lists) found,
        declaredInterfaces, foreign.declaration?_substitute denotes,
        foreign.substitute_declared denotes]
      exact List.mem_map.mpr ⟨resolved, mem, rfl⟩

/-- The way up from an instance of a type is the way up from the type with the arguments of the
instance in place. -/
theorem Reaches.substitute {t u : TypeRef} (up : Reaches host t u) :
    Reaches host (t.substitute params args) (u.substitute params args) := by
  induction up with
  | refl => exact .refl
  | tail _ above ih => exact ih.tail (above.substitute foreign)

end Host

end Marksmith

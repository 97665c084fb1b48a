import Marksmith.Proofs.Host.TypeTexts

/-!
Resolved types are canonical: resolving one again leaves it as it is, also in another context. A
qualified name is looked up as it stands before the scopes around the context are tried, so nothing
that is declared in an inner scope can redirect it; only type parameters come before it.

* `Settled`: a name that means itself in a context;
* `resolve?_of_settled`: a type that is made of settled names resolves to itself;
* `settled_of_resolve?`: what a type resolves to is made of settled names.
-/

namespace Marksmith.Host

open Syntax (TypeRef)
open Syntax.TypeRef

variable {host : Host} {context : Symbol}

/-! ### Names without an alias -/

/-- Whether a name begins with the alias of the global namespace. -/
def Aliased (name : String) : Prop := "global::".toList <+: name.toList

instance (name : String) : Decidable (Aliased name) := inferInstanceAs (Decidable (_ <+: _))

theorem withoutAlias_eq_self {name : String} (plain : ¬Aliased name) : withoutAlias name = name := by
  have other : ¬"global::".toList.isPrefixOf name.toList = true :=
    fun starts => plain (List.isPrefixOf_iff_prefix.mp starts)
  rw [withoutAlias, Marker.dropBeginning?, if_neg other, Option.getD_none]

/-- Behind the alias stand colons. -/
theorem not_aliased_of_unpunctuated {name : String} (plain : Text.Unpunctuated name) :
    ¬Aliased name := fun starts => (plain ':' (starts.mem (by decide))).2 rfl

/-- The prelude adds no names with an alias to those of a project. -/
theorem unaliased_of_ofModel {limit : Nat} {model : Model} (accepted : ofModel limit model = .ok host)
    (plain : ∀ d ∈ model.types, ¬Aliased d.name) : ∀ d ∈ host.declarations, ¬Aliased d.name := by
  obtain ⟨-, -, rfl⟩ := ofModel_eq_ok_iff.mp accepted
  intro d mem
  rcases List.mem_append.mp mem with own | visible
  · exact plain d own
  · have prelude := unpunctuated_prelude d (List.mem_filter.mp visible).1
    exact not_aliased_of_unpunctuated (prelude d.name List.mem_cons_self)

/-! ### Settled names -/

/-- A name that means itself in a context: a predefined type or a visible type parameter, or a
definition under its qualified name. -/
def Settled (host : Host) (context s : Symbol) : Prop :=
  s.arity = 0 ∧ (Engine.isPredefinedType s.name = true ∨ s.name ∈ host.visibleTypeParams context) ∨
    ∃ d ∈ host.declarations, d.symbol = s ∧ ¬Aliased d.name

/-- A qualified name denotes its definition in every context. -/
theorem resolveDefinition?_of_declared {d : TypeDecl} (mem : d ∈ host.declarations)
    (plain : ¬Aliased d.name) (context : Symbol) :
    host.resolveDefinition? context d.name d.typeParams.length = some d.name := by
  have known : (host.lookup? d.name d.typeParams.length).isSome := by
    rw [lookup?, List.find?_isSome]
    exact ⟨d, mem, symbol_eq_iff.mpr rfl⟩
  simp only [resolveDefinition?, withoutAlias_eq_self plain, if_pos known]

theorem resolveAll?_eq_self {extra : List String} {ts : List TypeRef}
    (each : ∀ t ∈ ts, host.resolveWith? context extra t = some t) :
    host.resolveAll? context extra ts = some ts := by
  induction ts with
  | nil => rfl
  | cons t ts ih =>
    rw [List.forall_mem_cons] at each
    rw [resolveAll?, each.1, ih each.2]
    rfl

/-- A type that is made of settled names resolves to itself. -/
theorem resolve?_of_settled {t : TypeRef} (settled : t.MadeOf (Settled host context)) :
    host.resolve? context t = some t := by
  induction t using inductionOnArgs with
  | node t ih =>
    obtain ⟨own, inner⟩ := madeOf_iff.mp settled
    have args := resolveAll?_eq_self fun a arg => ih a arg (inner a arg)
    obtain ⟨name, targs, nullable, rank⟩ := t
    rw [resolve?, resolveWith?, args, Option.bind_eq_bind, Option.bind_some]
    split
    · rfl
    · next other =>
      rcases own with ⟨bare, itself⟩ | ⟨d, mem, symbol, plain⟩
      · -- Predefined types and type parameters are tried before definitions.
        refine absurd ?_ other
        rw [Bool.and_eq_true, List.isEmpty_iff, Bool.or_eq_true, Bool.or_eq_true,
          List.contains_iff_mem, List.contains_iff_mem]
        exact ⟨List.length_eq_zero_iff.mp bare, itself.imp_left .inl⟩
      · obtain ⟨rfl, arity⟩ := Symbol.mk.inj symbol
        dsimp only at arity
        rw [← arity, resolveDefinition?_of_declared mem plain context]
        rfl

/-- What a type resolves to is made of settled names. -/
theorem settled_of_resolve? (unaliased : ∀ d ∈ host.declarations, ¬Aliased d.name) {t r : TypeRef}
    (found : host.resolve? context t = some r) : r.MadeOf (Settled host context) := by
  refine madeOf_resolveWith? (fun d mem => .inr ⟨d, mem, rfl, unaliased d mem⟩)
    (fun name predefined => .inl ⟨rfl, .inl predefined⟩) ?_ found
  rintro p (none | visible)
  · cases none
  · exact .inl ⟨rfl, .inr visible⟩

/-- What is settled in one context is settled in another one, unless it is a type parameter of the
first one only. -/
theorem Settled.elsewhere {other s : Symbol} (settled : Settled host context s)
    (visible : s.arity = 0 → s.name ∈ host.visibleTypeParams context →
      s.name ∈ host.visibleTypeParams other) : Settled host other s := by
  rcases settled with ⟨bare, predefined | parameter⟩ | declared
  · exact .inl ⟨bare, .inl predefined⟩
  · exact .inl ⟨bare, .inr (visible bare parameter)⟩
  · exact .inr declared

/-! ### Resolving again -/

/-- Resolution is idempotent, and what a type resolves to keeps its meaning in every context, if it
mentions no type parameter that is visible in one of both. -/
theorem resolve?_canonical {limit : Nat} {model : Model} (accepted : ofModel limit model = .ok host)
    (unaliased : ∀ d ∈ model.types, ¬Aliased d.name) {t r : TypeRef}
    (found : host.resolve? context t = some r) :
    host.resolve? context r = some r ∧
      ∀ other, (∀ s ∈ r.parts, s.args = [] →
          s.name ∉ host.visibleTypeParams context ∧ s.name ∉ host.visibleTypeParams other) →
        host.resolve? other r = some r := by
  have settled := settled_of_resolve? (unaliased_of_ofModel accepted unaliased) found
  refine ⟨resolve?_of_settled settled, fun other apart => resolve?_of_settled ?_⟩
  intro s part
  refine (settled s part).elsewhere fun bare visible => ?_
  exact absurd visible (apart s part (List.length_eq_zero_iff.mp bare)).1

/-- Pools of statistics, and in another namespace types whose names end like those. -/
def arenas : Model where
  types :=
    [ { name := "Game.Pool", kind := .class, typeParams := ["T"] },
      { name := "Game.Enemy", kind := .class },
      { name := "Game.Enemy.Stats", kind := .struct, containing := some "Game.Enemy" },
      { name := "Arena.Match", kind := .class, typeParams := ["T"] },
      { name := "Arena.Game.Pool", kind := .class, typeParams := ["T"] },
      { name := "Arena.Match.Game.Enemy.Stats", kind := .struct } ]

/-- The pool of statistics as it is meant in `Game.Enemy` is no other one in `Arena.Match`, where
inner scopes declare both names. -/
theorem resolve?_canonical_arenas :
    ofModel usualStepLimit arenas = .ok (.withPrelude arenas) ∧
      (Host.withPrelude arenas).resolve? ⟨"Game.Enemy", 0⟩ ⟨"Pool", [⟨"Stats", [], true, 1⟩], false, 0⟩ =
        some ⟨"Game.Pool", [⟨"Game.Enemy.Stats", [], true, 1⟩], false, 0⟩ ∧
      (Host.withPrelude arenas).resolve? ⟨"Arena.Match", 1⟩
          ⟨"Game.Pool", [⟨"Game.Enemy.Stats", [], true, 1⟩], false, 0⟩ =
        some ⟨"Game.Pool", [⟨"Game.Enemy.Stats", [], true, 1⟩], false, 0⟩ := by
  have accepted : ofModel usualStepLimit arenas = .ok (.withPrelude arenas) :=
    ofModel_withPrelude rfl rfl
  have found : (Host.withPrelude arenas).resolve? ⟨"Game.Enemy", 0⟩
      ⟨"Pool", [⟨"Stats", [], true, 1⟩], false, 0⟩ =
        some ⟨"Game.Pool", [⟨"Game.Enemy.Stats", [], true, 1⟩], false, 0⟩ := by
    decide +kernel
  refine ⟨accepted, found, (resolve?_canonical accepted (by decide +kernel) found).2 _ ?_⟩
  decide +kernel

end Marksmith.Host

import Marksmith.Binding.Binder
import Marksmith.Proofs.Host.Makeup
import Marksmith.Proofs.Host.Counterparts

/-!
Other names for the type parameters of a method. Values are made of definitions and type parameters
that `Q` admits; a type parameter gets another name only if values are made of neither name.

* `Renames`: new names for type parameters that fit this;
* `Respelled`, `Retabled`: a type of the signature, and what has been inferred, under the new names;
* `Respelled.unify?`, `Respelled.withInferred`, `Respelled.lambdaShape?`, `Respelled.mentions_eq`:
  what a call does with the one it does with the other;
* `Respelled.eq_of_not_mentions`: once no type parameter is left, both are the same type.
-/

namespace Marksmith

open Syntax (TypeRef)

namespace Syntax.TypeRef

mutual

/-- A type with other names for type parameters. -/
def renamed (params : List String) (ρ : String → String) : TypeRef → TypeRef
  | ⟨name, args, nullable, rank⟩ =>
    ⟨if args.isEmpty && params.contains name then ρ name else name, renamedAll params ρ args,
      nullable, rank⟩

/-- Several types with other names for type parameters. -/
def renamedAll (params : List String) (ρ : String → String) : List TypeRef → List TypeRef
  | [] => []
  | t :: ts => renamed params ρ t :: renamedAll params ρ ts

end

theorem renamedAll_eq (params : List String) (ρ : String → String) (ts : List TypeRef) :
    renamedAll params ρ ts = ts.map (renamed params ρ) := by
  induction ts with
  | nil => rfl
  | cons t ts ih => rw [renamedAll, ih, List.map_cons]

theorem eta (t : TypeRef) : (⟨t.name, t.args, t.nullable, t.rank⟩ : TypeRef) = t := by
  cases t
  rfl

/-- Type parameters get other names. -/
theorem renamed_parameter {params : List String} {ρ : String → String} {t : TypeRef}
    (plain : t.args = []) (parameter : t.name ∈ params) :
    t.renamed params ρ = { t with name := ρ t.name } := by
  obtain ⟨name, args, nullable, rank⟩ := t
  cases plain
  have found : params.contains name = true := List.contains_iff_mem.mpr parameter
  rw [renamed, List.isEmpty_nil, Bool.true_and, if_pos found]
  rfl

/-- Everything else keeps its name. -/
theorem renamed_other {params : List String} {ρ : String → String} {t : TypeRef}
    (other : ¬(t.args = [] ∧ t.name ∈ params)) :
    t.renamed params ρ = { t with args := t.args.map (renamed params ρ) } := by
  obtain ⟨name, args, nullable, rank⟩ := t
  have kept : ¬(args.isEmpty && params.contains name) = true := by
    rw [Bool.and_eq_true, List.isEmpty_iff, List.contains_iff_mem]
    exact other
  rw [renamed, if_neg kept, renamedAll_eq]

theorem renamed_args (params : List String) (ρ : String → String) (t : TypeRef) :
    (t.renamed params ρ).args = t.args.map (renamed params ρ) := by
  obtain ⟨name, args, nullable, rank⟩ := t
  rw [renamed, renamedAll_eq]

theorem renamed_nullable (params : List String) (ρ : String → String) (t : TypeRef) :
    (t.renamed params ρ).nullable = t.nullable := by
  cases t
  rfl

theorem renamed_rank (params : List String) (ρ : String → String) (t : TypeRef) :
    (t.renamed params ρ).rank = t.rank := by
  cases t
  rfl

/-- Marks and ranks have nothing to do with names. -/
theorem renamed_applied {params : List String} {ρ : String → String} {a : TypeRef}
    (fixed : a.renamed params ρ = a) (nullable : Bool) (rank : UInt8) :
    (a.applied nullable rank).renamed params ρ = a.applied nullable rank := by
  obtain ⟨name, args, mark, suffixes⟩ := a
  rw [renamed, TypeRef.mk.injEq] at fixed
  rw [applied, renamed, fixed.1, fixed.2.1]

/-- Type arguments that stay as they are come in place of type parameters under their new names. -/
theorem renamed_substitute {params before after : List String} {ρ : String → String}
    {args : List TypeRef} (fixed : ∀ a ∈ args, a.renamed params ρ = a) {t : TypeRef}
    (same : ∀ s ∈ t.parts, s.args = [] → argumentFor? after args (s.renamed params ρ).name
      = argumentFor? before args s.name) :
    (t.renamed params ρ).substitute after args = (t.substitute before args).renamed params ρ := by
  induction t using inductionOnArgs with
  | node t ih =>
    have inner : ∀ a ∈ t.args, (a.renamed params ρ).substitute after args
        = (a.substitute before args).renamed params ρ := fun a arg =>
      ih a arg fun s part => same s (mem_parts.mpr (.inr ⟨a, arg, part⟩))
    have here := same t (self_mem_parts t)
    by_cases replaced : t.args = [] ∧ (argumentFor? before args t.name).isSome
    · obtain ⟨a, found⟩ := Option.isSome_iff_exists.mp replaced.2
      have bare : (t.renamed params ρ).args = [] := by rw [renamed_args, replaced.1, List.map_nil]
      rw [substitute_parameter replaced.1 found,
        substitute_parameter bare ((here replaced.1).trans found), renamed_nullable, renamed_rank]
      exact (renamed_applied (fixed a (mem_of_argumentFor? found)) t.nullable t.rank).symm
    · have kept : t.args = [] → argumentFor? before args t.name = none := by
        intro plain
        exact Option.not_isSome_iff_eq_none.mp fun found => replaced ⟨plain, found⟩
      have still : (t.renamed params ρ).args = [] →
          argumentFor? after args (t.renamed params ρ).name = none := by
        intro plain
        rw [renamed_args, List.map_eq_nil_iff] at plain
        exact (here plain).trans (kept plain)
      have inside : (t.renamed params ρ).args.map (substitute after args)
          = (t.args.map (substitute before args)).map (renamed params ρ) := by
        rw [renamed_args, List.map_map, List.map_map]
        exact List.map_congr_left inner
      rw [substitute_other kept, substitute_other still, inside]
      obtain ⟨name, targs, nullable, rank⟩ := t
      rw [renamed, renamed, renamedAll_eq, renamedAll_eq, List.isEmpty_map]

theorem mentionsAny_eq (params : List String) (ts : List TypeRef) :
    mentionsAny params ts = ts.any (mentions params) := by
  induction ts with
  | nil => rfl
  | cons t ts ih => rw [mentionsAny, ih, List.any_cons]

theorem mentions_eq (params : List String) (t : TypeRef) :
    t.mentions params
      = ((t.args.isEmpty && params.contains t.name) || t.args.any (mentions params)) := by
  obtain ⟨name, args, nullable, rank⟩ := t
  rw [mentions, mentionsAny_eq]

end Syntax.TypeRef

namespace Binding

open Syntax.TypeRef

/-- What signatures are made of: what values are made of, and type parameters of the method. -/
def Over (Q : Symbol → Prop) (params : List String) (s : Symbol) : Prop :=
  Q s ∨ s.arity = 0 ∧ s.name ∈ params

/-- New names for type parameters. Values are made neither of a name that is given up nor of the one
in its place. -/
structure Renames (Q : Symbol → Prop) (params : List String) (ρ : String → String) : Prop where
  injective : ∀ p ∈ params, ∀ q ∈ params, ρ p = ρ q → p = q
  hidden : ∀ p ∈ params, ρ p ≠ p → ¬Q ⟨p, 0⟩ ∧ ¬Q ⟨ρ p, 0⟩

variable {Q : Symbol → Prop} {params : List String} {ρ : String → String}

theorem Renames.keep (Q : Symbol → Prop) (params : List String) : Renames Q params id where
  injective _ _ _ _ same := same
  hidden _ _ moved := absurd rfl moved

namespace Renames

variable (names : Renames Q params ρ)

include names

theorem fixed {p : String} (mem : p ∈ params) (either : Q ⟨p, 0⟩ ∨ Q ⟨ρ p, 0⟩) : ρ p = p := by
  by_contra moved
  obtain ⟨old, new⟩ := names.hidden p mem moved
  exact either.elim old new

/-- A name in a signature is a type parameter under the new names if it has been one. -/
theorem not_mem_map {n : String} (either : Over Q params ⟨n, 0⟩) (other : n ∉ params) :
    n ∉ params.map ρ := by
  intro mem
  obtain ⟨p, parameter, rfl⟩ := List.mem_map.mp mem
  have value : Q ⟨ρ p, 0⟩ := either.resolve_right fun own => other own.2
  exact other ((names.fixed parameter (.inr value)).symm ▸ parameter)

/-- The types of values stay as they are. -/
theorem renamed_eq_self {t : TypeRef} (made : t.MadeOf Q) : t.renamed params ρ = t := by
  induction t using inductionOnArgs with
  | node t ih =>
    by_cases parameter : t.args = [] ∧ t.name ∈ params
    · have value := (madeOf_iff.mp made).1
      rw [Symbol.ofType, parameter.1] at value
      rw [renamed_parameter parameter.1 parameter.2, names.fixed parameter.2 (.inl value), eta]
    · have same : t.args.map (renamed params ρ) = t.args.map id :=
        List.map_congr_left fun a arg => ih a arg (made.arg arg)
      rw [renamed_other parameter, same, List.map_id, eta]

/-- Only the types of values become types of values. -/
theorem eq_of_madeOf_renamed {t : TypeRef} (made : (t.renamed params ρ).MadeOf Q) :
    t.renamed params ρ = t := by
  induction t using inductionOnArgs with
  | node t ih =>
    by_cases parameter : t.args = [] ∧ t.name ∈ params
    · rw [renamed_parameter parameter.1 parameter.2] at made ⊢
      have value := (madeOf_iff.mp made).1
      rw [Symbol.ofType] at value
      dsimp only at value
      rw [parameter.1] at value
      rw [names.fixed parameter.2 (.inr value), eta]
    · rw [renamed_other parameter] at made ⊢
      have same : t.args.map (renamed params ρ) = t.args.map id :=
        List.map_congr_left fun a arg => ih a arg (made.arg (List.mem_map_of_mem arg))
      rw [same, List.map_id, eta]

theorem eq_renamed_iff {v t : TypeRef} (made : v.MadeOf Q) : v = t.renamed params ρ ↔ v = t := by
  constructor
  · rintro rfl
    exact names.eq_of_madeOf_renamed made
  · rintro rfl
    exact (names.renamed_eq_self made).symm

end Renames

/-! ### Types of signatures -/

/-- A type without type parameters of the method is that of a value. -/
theorem madeOf_of_not_mentions {t : TypeRef} (made : t.MadeOf (Over Q params))
    (free : t.mentions params = false) : t.MadeOf Q := by
  induction t using inductionOnArgs with
  | node t ih =>
    rw [TypeRef.mentions_eq, Bool.or_eq_false_iff, List.any_eq_false] at free
    obtain ⟨here, below⟩ := madeOf_iff.mp made
    refine madeOf_iff.mpr ⟨?_, fun a arg => ?_⟩
    · refine here.resolve_right ?_
      rintro ⟨plain, own⟩
      have bare : t.args = [] := List.length_eq_zero_iff.mp plain
      have found : params.contains t.name = true := List.contains_iff_mem.mpr own
      rw [bare, found] at free
      exact Bool.noConfusion free.1
    · exact ih a arg (below a arg) (Bool.eq_false_iff.mpr (free.2 a arg))

/-- A type of a signature, and the same type under the new names. -/
structure Respelled (Q : Symbol → Prop) (params : List String) (ρ : String → String)
    (t t' : TypeRef) : Prop where
  made : t.MadeOf (Over Q params)
  eq : t' = t.renamed params ρ

namespace Respelled

variable (names : Renames Q params ρ) {t t' : TypeRef}

theorem ofValue {Q : Symbol → Prop} {params : List String} {ρ : String → String}
    (names : Renames Q params ρ) {v : TypeRef} (made : v.MadeOf Q) : Respelled Q params ρ v v :=
  ⟨made.imp fun _ => .inl, (names.renamed_eq_self made).symm⟩

theorem args (spelled : Respelled Q params ρ t t') :
    List.Forall₂ (Respelled Q params ρ) t.args t'.args := by
  rw [spelled.eq, renamed_args, List.forall₂_map_right_iff]
  exact List.forall₂_same.mpr fun a arg => ⟨spelled.made.arg arg, rfl⟩

/-- A type parameter is one under the new names. -/
theorem parameter (spelled : Respelled Q params ρ t t') (plain : t.args = [])
    (own : t.name ∈ params) : t'.args = [] ∧ t'.name = ρ t.name := by
  rw [spelled.eq, renamed_parameter plain own]
  exact ⟨plain, rfl⟩

include names

/-- Nothing else becomes one. -/
theorem other (spelled : Respelled Q params ρ t t') (other : ¬(t.args = [] ∧ t.name ∈ params)) :
    t'.name = t.name ∧ ¬(t'.args = [] ∧ t'.name ∈ params.map ρ) := by
  have same : t'.name = t.name := by rw [spelled.eq, renamed_other other]
  refine ⟨same, ?_⟩
  rintro ⟨plain, own⟩
  have bare : t.args = [] := by
    rw [spelled.eq, renamed_args] at plain
    exact List.map_eq_nil_iff.mp plain
  have either := (madeOf_iff.mp spelled.made).1
  rw [Symbol.ofType, bare] at either
  refine names.not_mem_map either (fun old => other ⟨bare, old⟩) ?_
  rwa [← same]

theorem isParameter_eq (spelled : Respelled Q params ρ t t') :
    (t'.args.isEmpty && (params.map ρ).contains t'.name)
      = (t.args.isEmpty && params.contains t.name) := by
  rw [Bool.eq_iff_iff, Bool.and_eq_true, Bool.and_eq_true, List.isEmpty_iff, List.isEmpty_iff,
    List.contains_iff_mem, List.contains_iff_mem]
  by_cases own : t.args = [] ∧ t.name ∈ params
  · obtain ⟨plain, name⟩ := spelled.parameter own.1 own.2
    exact iff_of_true ⟨plain, name ▸ List.mem_map_of_mem own.2⟩ own
  · exact iff_of_false (spelled.other names own).2 own

/-- The same type parameters are left. -/
theorem mentions_eq (spelled : Respelled Q params ρ t t') :
    t'.mentions (params.map ρ) = t.mentions params := by
  induction t using inductionOnArgs generalizing t' with
  | node t ih =>
    have here := spelled.isParameter_eq names
    have below : t'.args.any (mentions (params.map ρ)) = t.args.any (mentions params) := by
      rw [spelled.eq, renamed_args, List.any_map, Bool.eq_iff_iff, List.any_eq_true,
        List.any_eq_true]
      refine exists_congr fun a => and_congr_right fun arg => ?_
      rw [Function.comp, ih a arg ⟨spelled.made.arg arg, rfl⟩]
    rw [TypeRef.mentions_eq, TypeRef.mentions_eq, here, below]

/-- Without type parameters it is the same type under the new names. -/
theorem eq_of_not_mentions (spelled : Respelled Q params ρ t t')
    (free : t.mentions params = false) :
    t' = t := by
  rw [spelled.eq]
  exact names.renamed_eq_self (madeOf_of_not_mentions spelled.made free)

/-- The same for several types. -/
theorem mentionsAny_eq {ts ts' : List TypeRef} (each : List.Forall₂ (Respelled Q params ρ) ts ts') :
    mentionsAny (params.map ρ) ts' = mentionsAny params ts := by
  induction each with
  | nil => rfl
  | cons first _ ih => rw [mentionsAny, mentionsAny, first.mentions_eq names, ih]

theorem eq_of_not_mentionsAny {ts ts' : List TypeRef}
    (each : List.Forall₂ (Respelled Q params ρ) ts ts') (free : mentionsAny params ts = false) :
    ts' = ts ∧ ∀ t ∈ ts, t.MadeOf Q := by
  induction each with
  | nil => exact ⟨rfl, List.forall_mem_nil _⟩
  | cons first _ ih =>
    rw [mentionsAny, Bool.or_eq_false_iff] at free
    obtain ⟨same, made⟩ := ih free.2
    rw [same, first.eq_of_not_mentions names free.1]
    exact ⟨rfl, List.forall_mem_cons.mpr ⟨madeOf_of_not_mentions first.made free.1, made⟩⟩

end Respelled

/-! ### What has been inferred -/

/-- What has been inferred for type parameters, and the same under the new names. -/
structure Retabled (Q : Symbol → Prop) (params : List String) (ρ : String → String)
    (i i' : Host.Inferred) : Prop where
  made : ∀ b ∈ i, b.1 ∈ params ∧ b.2.MadeOf Q
  eq : i' = i.map fun b => (ρ b.1, b.2)

namespace Retabled

variable {i i' : Host.Inferred}

theorem nil : Retabled Q params ρ [] [] := ⟨List.forall_mem_nil _, rfl⟩

theorem cons (tables : Retabled Q params ρ i i') {p : String} (mem : p ∈ params) {v : TypeRef}
    (made : v.MadeOf Q) : Retabled Q params ρ ((p, v) :: i) ((ρ p, v) :: i') :=
  ⟨List.forall_mem_cons.mpr ⟨⟨mem, made⟩, tables.made⟩, by rw [tables.eq, List.map_cons]⟩

theorem lookup_made (tables : Retabled Q params ρ i i') {p : String} {v : TypeRef}
    (found : i.lookup p = some v) : v.MadeOf Q := by
  obtain ⟨before, after, rfl, -⟩ := List.lookup_eq_some_iff.mp found
  exact (tables.made (p, v) (List.mem_append_right _ List.mem_cons_self)).2

/-- Type parameters have the same type arguments under the new names. -/
theorem lookup_eq (names : Renames Q params ρ) (tables : Retabled Q params ρ i i') {p : String}
    (mem : p ∈ params) : i'.lookup (ρ p) = i.lookup p := by
  obtain ⟨made, rfl⟩ := tables
  induction i with
  | nil => rfl
  | cons b i ih =>
    obtain ⟨⟨own, -⟩, rest⟩ := List.forall_mem_cons.mp made
    rw [List.map_cons, List.lookup_cons, List.lookup_cons, ih rest]
    have same : (ρ p == ρ b.1) = (p == b.1) := by
      rw [Bool.eq_iff_iff, beq_iff_eq, beq_iff_eq]
      exact ⟨names.injective p mem b.1 own, congrArg ρ⟩
    rw [same]

end Retabled

section Inference

variable (names : Renames Q params ρ) {host : Host} {i i' : Host.Inferred}

include names

theorem inferParam?_rel (tables : Retabled Q params ρ i i') {p : String} (mem : p ∈ params)
    {v : TypeRef} (made : v.MadeOf Q) :
    Option.Rel (Retabled Q params ρ) (host.inferParam? i p v) (host.inferParam? i' (ρ p) v) := by
  rw [Host.inferParam?, Host.inferParam?, tables.lookup_eq names mem]
  cases i.lookup p with
  | none => exact .some (tables.cons mem made)
  | some bound =>
    dsimp only
    split
    · exact .some tables
    · exact .none

/-- A parameter's type takes the same conversions under the new names. -/
theorem convertible_respelled (covers : host.Covers Q) {t t' v : TypeRef}
    (spelled : Respelled Q params ρ t t') (other : ¬(t.args = [] ∧ t.name ∈ params))
    (made : v.MadeOf Q) : host.convertible v t' = host.convertible v t := by
  have same : decide (v = t') = decide (v = t) := by
    rw [decide_eq_decide, spelled.eq]
    exact names.eq_renamed_iff made
  have above : (host.supertypes v).contains t' = (host.supertypes v).contains t := by
    rw [Bool.eq_iff_iff, List.contains_iff_mem, List.contains_iff_mem, spelled.eq]
    constructor
    · intro mem
      rwa [← (names.eq_renamed_iff (covers.madeOf_supertypes made mem)).mp rfl]
    · intro mem
      rwa [← (names.eq_renamed_iff (covers.madeOf_supertypes made mem)).mpr rfl]
  simp only [Host.convertible, same, above, (spelled.other names other).1]

end Inference

section Matching

variable {host : Host}

/-- Matching a type parameter: what is inferred for it, perhaps for the elements of an array. -/
theorem unify?_parameter {name : String} (own : name ∈ params) (nullable : Bool) (rank : UInt8)
    (i : Host.Inferred) (v : TypeRef) :
    host.unify? params i ⟨name, [], nullable, rank⟩ v
      = if rank = 0 then host.inferParam? i name v
        else if rank = v.rank then host.inferParam? i name { v with rank := 0 } else none := by
  have found : params.contains name = true := List.contains_iff_mem.mpr own
  rw [Host.unify?, found]
  by_cases bare : rank = 0
  · simp [bare]
  · by_cases ranks : rank = v.rank
    · simp [bare, ← ranks]
    · simp [bare, ranks]

/-- Matching any other type: by the nearest supertype of the same definition, or else by
conversion. -/
theorem unify?_other {name : String} {args : List TypeRef} (other : ¬(args = [] ∧ name ∈ params))
    (nullable : Bool) (rank : UInt8) (i : Host.Inferred) (v : TypeRef) :
    host.unify? params i ⟨name, args, nullable, rank⟩ v
      = if rank ≠ v.rank then if name == "object" && rank = 0 then some i else none
        else if name == "object" then some i
        else ((host.supertypes { v with rank := 0 }).find? fun u =>
            Symbol.ofType u = ⟨name, args.length⟩).elim
          (if host.convertible { v with rank := 0 } ⟨name, args, nullable, 0⟩ then some i else none)
          fun u => host.unifyAll? params i args u.args := by
  have isOther : (args.isEmpty && params.contains name) = false := by
    rw [Bool.eq_false_iff, ne_eq, Bool.and_eq_true, List.isEmpty_iff, List.contains_iff_mem]
    exact other
  rw [Host.unify?, isOther, Bool.and_false, if_neg Bool.false_ne_true, if_neg Bool.false_ne_true]
  cases (host.supertypes { v with rank := 0 }).find? fun u =>
    Symbol.ofType u = ⟨name, args.length⟩ <;> rfl

mutual

/-- A type of the signature matches the same argument types under the new names. -/
theorem unify?_rel (names : Renames Q params ρ) (covers : host.Covers Q) :
    ∀ {t t' v : TypeRef} {i i' : Host.Inferred}, Respelled Q params ρ t t' → v.MadeOf Q →
      Retabled Q params ρ i i' →
      Option.Rel (Retabled Q params ρ) (host.unify? params i t v)
        (host.unify? (params.map ρ) i' t' v)
  | ⟨name, args, nullable, rank⟩, t', v, i, i', spelled, made, tables => by
    have element : (⟨v.name, v.args, v.nullable, 0⟩ : TypeRef).MadeOf Q := made.marked v.nullable 0
    by_cases own : args = [] ∧ name ∈ params
    · obtain ⟨rfl, mem⟩ := own
      rw [spelled.eq, renamed_parameter rfl mem, unify?_parameter mem,
        unify?_parameter (List.mem_map_of_mem mem)]
      split
      · exact inferParam?_rel names tables mem made
      · split
        · exact inferParam?_rel names tables mem element
        · exact .none
    · have each := spelled.args
      obtain ⟨-, kept⟩ := spelled.other names own
      have bare : Respelled Q params ρ ⟨name, args, nullable, 0⟩ ⟨name, t'.args, nullable, 0⟩ := by
        refine ⟨spelled.made.marked nullable 0, ?_⟩
        rw [renamed_other own, spelled.eq, renamed_other own]
      have converts := convertible_respelled names covers bare own element
      rw [spelled.eq, renamed_other own] at each kept converts ⊢
      rw [unify?_other own, unify?_other kept, converts, List.length_map]
      split
      · split
        · exact .some tables
        · exact .none
      · split
        · exact .some tables
        · cases found : (host.supertypes { v with rank := 0 }).find? fun u =>
              Symbol.ofType u = ⟨name, args.length⟩ with
          | none =>
            dsimp only [Option.elim_none]
            split
            · exact .some tables
            · exact .none
          | some u =>
            have above := covers.madeOf_supertypes element (List.mem_of_find?_eq_some found)
            exact unifyAll?_rel names covers each (fun a => above.arg) tables

theorem unifyAll?_rel (names : Renames Q params ρ) (covers : host.Covers Q) :
    ∀ {ts ts' vs : List TypeRef} {i i' : Host.Inferred},
      List.Forall₂ (Respelled Q params ρ) ts ts' →
      (∀ v ∈ vs, v.MadeOf Q) → Retabled Q params ρ i i' →
      Option.Rel (Retabled Q params ρ) (host.unifyAll? params i ts vs)
        (host.unifyAll? (params.map ρ) i' ts' vs)
  | [], [], vs, i, i', _, _, tables => by
    cases vs <;> exact .some tables
  | t :: ts, t' :: ts', [], i, i', _, _, tables => .some tables
  | t :: ts, t' :: ts', v :: vs, i, i', each, made, tables => by
    obtain ⟨first, rest⟩ := List.forall₂_cons.mp each
    obtain ⟨here, others⟩ := List.forall_mem_cons.mp made
    rw [Host.unifyAll?, Host.unifyAll?]
    exact rel_bind (unify?_rel names covers first here tables) fun j j' further =>
      unifyAll?_rel names covers rest others further

end

end Matching

/-! ### What has been inferred in place -/

section Placing

variable (names : Renames Q params ρ)

include names

theorem findIdx?_map_eq {bound : List String} (within : ∀ p ∈ bound, p ∈ params) {n : String}
    (own : n ∈ params) : (bound.map ρ).findIdx? (· == ρ n) = bound.findIdx? (· == n) := by
  induction bound with
  | nil => rfl
  | cons p bound ih =>
    obtain ⟨first, rest⟩ := List.forall_mem_cons.mp within
    have same : (ρ p == ρ n) = (p == n) := by
      rw [Bool.eq_iff_iff, beq_iff_eq, beq_iff_eq]
      exact ⟨names.injective p first n own, congrArg ρ⟩
    rw [List.map_cons, List.findIdx?_cons, List.findIdx?_cons, same, ih rest]

/-- Type parameters have the same arguments under the new names. -/
theorem argumentFor?_renamed {bound : List String} (within : ∀ p ∈ bound, p ∈ params)
    {args : List TypeRef} {s : TypeRef} (plain : s.args = [])
    (either : Over Q params (.ofType s)) :
    argumentFor? (bound.map ρ) args (s.renamed params ρ).name = argumentFor? bound args s.name := by
  by_cases own : s.name ∈ params
  · rw [renamed_parameter plain own, argumentFor?, argumentFor?, findIdx?_map_eq names within own]
  · have other : ¬(s.args = [] ∧ s.name ∈ params) := fun both => own both.2
    rw [Symbol.ofType, plain] at either
    have unbound : s.name ∉ bound := fun mem => own (within _ mem)
    have still : s.name ∉ bound.map ρ := fun mem =>
      names.not_mem_map either own (List.map_subset ρ within mem)
    rw [renamed_other other, argumentFor?_of_not_mem unbound, argumentFor?_of_not_mem still]

/-- A type with what has been inferred in place, under the new names. -/
theorem Respelled.withInferred {t t' : TypeRef} (spelled : Respelled Q params ρ t t')
    {i i' : Host.Inferred} (tables : Retabled Q params ρ i i') :
    Respelled Q params ρ (t.withInferred params i) (t'.withInferred (params.map ρ) i') := by
  let bound := params.filter fun p => (i.lookup p).isSome
  have within : ∀ p ∈ bound, p ∈ params := fun p mem => List.mem_of_mem_filter mem
  have made : ∀ a ∈ bound.filterMap fun p => i.lookup p, a.MadeOf Q := by
    intro a mem
    obtain ⟨p, -, found⟩ := List.mem_filterMap.mp mem
    exact tables.lookup_made found
  have sameBound : (params.map ρ).filter (fun p => (i'.lookup p).isSome) = bound.map ρ := by
    rw [List.filter_map]
    refine congrArg _ (List.filter_congr fun p mem => ?_)
    rw [Function.comp, tables.lookup_eq names mem]
  have sameArgs : (bound.map ρ).filterMap (fun p => i'.lookup p)
      = bound.filterMap fun p => i.lookup p := by
    rw [List.filterMap_map]
    exact List.filterMap_congr fun p mem => tables.lookup_eq names (within p mem)
  rw [TypeRef.withInferred, TypeRef.withInferred]
  rw [sameBound, sameArgs]
  refine ⟨madeOf_substitute (fun a mem => (made a mem).imp fun _ => .inl)
    (spelled.made.imp fun _ => .inl), ?_⟩
  rw [spelled.eq]
  refine renamed_substitute (fun a mem => names.renamed_eq_self (made a mem)) fun s part plain => ?_
  exact argumentFor?_renamed names within plain (spelled.made s part)

/-- The shape of a lambda that is wanted, under the new names. -/
structure SameShape (Q : Symbol → Prop) (params : List String) (ρ : String → String) (count : Nat)
    (shape shape' : List TypeRef × Option TypeRef) : Prop where
  length : shape.1.length = count
  inputs : List.Forall₂ (Respelled Q params ρ) shape.1 shape'.1
  result : Option.Rel (Respelled Q params ρ) shape.2 shape'.2

omit names in
theorem lambdaShape?_of_plain {t : TypeRef} (plain : t.args = []) (count : Nat) :
    lambdaShape? t count
      = if t.name == "System.Action" && count = 0 then some ([], none) else none := by
  by_cases isFunction : t.name = "System.Func"
  · simp [lambdaShape?, plain, isFunction]
  · by_cases isAction : t.name = "System.Action"
    · simp [lambdaShape?, plain, isAction, eq_comm]
    · simp [lambdaShape?, isFunction, isAction]

/-- Where a lambda is wanted, one of the same shape is wanted under the new names. -/
theorem Respelled.lambdaShape? {t t' : TypeRef} (spelled : Respelled Q params ρ t t')
    (action : Q ⟨"System.Action", 0⟩) (count : Nat) :
    Option.Rel (SameShape Q params ρ count) (lambdaShape? t count) (lambdaShape? t' count) := by
  have each : ∀ as : List TypeRef, (∀ a ∈ as, a ∈ t.args) →
      List.Forall₂ (Respelled Q params ρ) as (as.map (renamed params ρ)) := by
    intro as inside
    rw [List.forall₂_map_right_iff]
    exact List.forall₂_same.mpr fun a arg => ⟨spelled.made.arg (inside a arg), rfl⟩
  by_cases own : t.args = [] ∧ t.name ∈ params
  · -- A type parameter is no delegate, unless it is spelled like the one without parameters.
    obtain ⟨plain, name⟩ := spelled.parameter own.1 own.2
    have same : (t'.name == "System.Action") = (t.name == "System.Action") := by
      rw [name, Bool.eq_iff_iff, beq_iff_eq, beq_iff_eq]
      constructor
      · intro isAction
        rwa [← names.fixed own.2 (.inr (isAction ▸ action))]
      · intro isAction
        rwa [names.fixed own.2 (.inl (isAction ▸ action))]
    rw [lambdaShape?_of_plain own.1, lambdaShape?_of_plain plain, same]
    split
    · next both =>
      rw [Bool.and_eq_true, decide_eq_true_iff] at both
      exact .some ⟨both.2.symm, .nil, .none⟩
    · exact .none
  · rw [spelled.eq, renamed_other own]
    simp only [Binding.lambdaShape?, List.getLast?_map, List.length_map]
    split
    · cases last : t.args.getLast? with
      | none => exact .none
      | some result =>
        rw [Option.map_some]
        dsimp only
        split
        · next number =>
          have arg := List.mem_of_getLast? last
          refine .some ⟨List.length_dropLast.trans number, ?_, .some ⟨spelled.made.arg arg, rfl⟩⟩
          rw [← List.map_dropLast]
          exact each _ fun a mem => List.dropLast_subset _ mem
        · exact .none
    · split
      · split
        · next number => exact .some ⟨number, each _ fun a mem => mem, .none⟩
        · exact .none
      · exact .none

end Placing

end Binding

end Marksmith

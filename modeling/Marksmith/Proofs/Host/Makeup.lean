import Marksmith.Proofs.Host.Ascent
import Marksmith.Proofs.Host.TypeParts

/-!
What types are made of: the definitions and type parameters in them, whatever marks and ranks they
have.

* `MadeOf`: every part of a type is of a given kind;
* `madeOf_substitute`: type arguments in place bring in what they are made of themselves;
* `Covers`: enough for the types that a host gives for declared members, whose own type parameters
  are replaced by the arguments of the type that has them;
* `Covers.madeOf_placed`, `Covers.madeOf_supertypes`: members and supertypes of types that are made
  of what is covered are so, too.
-/

namespace Marksmith

open Syntax (TypeRef)

namespace Syntax.TypeRef

/-- Every part of the type is of a given kind. -/
def MadeOf (Q : Symbol → Prop) (t : TypeRef) : Prop := ∀ s ∈ t.parts, Q (.ofType s)

variable {Q : Symbol → Prop}

theorem madeOf_iff {t : TypeRef} : t.MadeOf Q ↔ Q (.ofType t) ∧ ∀ a ∈ t.args, a.MadeOf Q := by
  constructor
  · intro made
    refine ⟨made t (self_mem_parts t), fun a arg s part => ?_⟩
    exact made s (mem_parts.mpr (.inr ⟨a, arg, part⟩))
  · rintro ⟨own, inner⟩ s part
    rcases mem_parts.mp part with rfl | ⟨a, arg, inside⟩
    · exact own
    · exact inner a arg s inside

theorem MadeOf.imp {R : Symbol → Prop} {t : TypeRef} (made : t.MadeOf Q) (weaker : ∀ s, Q s → R s) :
    t.MadeOf R :=
  fun s part => weaker _ (made s part)

theorem madeOf_named {name : String} (own : Q ⟨name, 0⟩) : (named name).MadeOf Q :=
  madeOf_iff.mpr ⟨own, fun _ none => absurd none List.not_mem_nil⟩

theorem MadeOf.arg {t a : TypeRef} (made : t.MadeOf Q) (arg : a ∈ t.args) : a.MadeOf Q :=
  (madeOf_iff.mp made).2 a arg

/-- Marks and ranks do not count. -/
theorem MadeOf.marked {t : TypeRef} (made : t.MadeOf Q) (nullable : Bool) (rank : UInt8) :
    (⟨t.name, t.args, nullable, rank⟩ : TypeRef).MadeOf Q := by
  rw [madeOf_iff] at made ⊢
  exact made

/-! ### Arguments in place of parameters -/

theorem isSome_argumentFor? {params : List String} {args : List TypeRef} {name : String}
    (lengths : args.length = params.length) (parameter : name ∈ params) :
    (argumentFor? params args name).isSome := by
  have placed : (params.findIdx? (· == name)).isSome :=
    List.findIdx?_isSome.trans (List.any_eq_true.mpr ⟨name, parameter, beq_self_eq_true name⟩)
  obtain ⟨i, place⟩ := Option.isSome_iff_exists.mp placed
  have inside : i < args.length := lengths ▸ (List.findIdx?_eq_some_iff_getElem.mp place).1
  rw [argumentFor?, place]
  exact Option.isSome_iff_exists.mpr ⟨args[i], List.getElem?_eq_getElem inside⟩

/-- With a type argument for every parameter in it, a type is made of what is left of it and of what
the arguments are made of. -/
theorem madeOf_substitute {params : List String} {args : List TypeRef} {t : TypeRef}
    (inner : ∀ a ∈ args, a.MadeOf Q)
    (own : t.MadeOf fun s => Q s ∨ s.arity = 0 ∧ (argumentFor? params args s.name).isSome) :
    (substitute params args t).MadeOf Q := by
  induction t using inductionOnArgs with
  | node t ih =>
    obtain ⟨here, below⟩ := madeOf_iff.mp own
    by_cases replaced : t.args = [] ∧ (argumentFor? params args t.name).isSome
    · obtain ⟨a, found⟩ := Option.isSome_iff_exists.mp replaced.2
      rw [substitute_parameter replaced.1 found]
      exact (inner a (mem_of_argumentFor? found)).marked _ _
    · have kept : t.args = [] → argumentFor? params args t.name = none := by
        intro plain
        exact Option.not_isSome_iff_eq_none.mp fun found => replaced ⟨plain, found⟩
      rw [substitute_other kept, madeOf_iff]
      constructor
      · have same : Symbol.ofType { t with args := t.args.map (substitute params args) }
            = Symbol.ofType t := by
          rw [Symbol.ofType, Symbol.ofType, List.length_map]
        rw [same]
        refine here.resolve_right fun parameter => replaced ?_
        exact ⟨List.length_eq_zero_iff.mp parameter.1, parameter.2⟩
      · exact List.forall_mem_map.mpr fun a arg => ih a arg (below a arg)

end Syntax.TypeRef

namespace Host

open Syntax.TypeRef

variable {host : Host} {Q : Symbol → Prop}

/-! ### Resolution -/

/-- A name that denotes a definition is that of a declaration. -/
theorem declared_of_resolveDefinition? {context : Symbol} {name definition : String} {arity : Nat}
    (found : host.resolveDefinition? context name arity = some definition) :
    ∃ d ∈ host.declarations, d.symbol = ⟨definition, arity⟩ := by
  have denoted : ∀ n, (host.lookup? n arity).isSome →
      ∃ d ∈ host.declarations, d.symbol = ⟨n, arity⟩ := by
    intro n known
    obtain ⟨d, declares⟩ := Option.isSome_iff_exists.mp known
    exact ⟨d, symbol_of_declaration? (s := ⟨n, arity⟩) declares⟩
  unfold resolveDefinition? at found
  dsimp only at found
  split at found
  · next known =>
    cases found
    exact denoted _ known
  · cases first : (scopes context.name).find? fun scope =>
        (host.lookup? (scope ++ "." ++ withoutAlias name) arity).isSome with
    | some scope =>
      rw [first] at found
      cases found
      have known := List.find?_some first
      exact denoted _ known
    | none =>
      rw [first] at found
      dsimp only at found
      split at found
      · cases found
      · cases suiting : host.declarations.filter fun d =>
            d.typeParams.length == arity && d.simpleName == withoutAlias name with
        | nil =>
          rw [suiting] at found
          cases found
        | cons d others =>
          rw [suiting] at found
          cases others with
          | cons => cases found
          | nil =>
            cases found
            obtain ⟨there, suits⟩ := List.mem_filter.mp (suiting ▸ List.mem_singleton_self d)
            rw [Bool.and_eq_true, beq_iff_eq] at suits
            exact ⟨d, there, by rw [TypeDecl.symbol, suits.1]⟩

mutual

/-- A type that resolves is made of declared definitions, predefined types, and type parameters that
are visible. -/
theorem madeOf_resolveWith? {context : Symbol} {extra : List String}
    (declared : ∀ d ∈ host.declarations, Q d.symbol)
    (predefined : ∀ name, Engine.isPredefinedType name = true → Q ⟨name, 0⟩)
    (visible : ∀ p, p ∈ extra ∨ p ∈ host.visibleTypeParams context → Q ⟨p, 0⟩) :
    ∀ {t resolved : TypeRef}, host.resolveWith? context extra t = some resolved → resolved.MadeOf Q
  | ⟨name, args, nullable, rank⟩, resolved, found => by
    rw [resolveWith?] at found
    obtain ⟨inner, all, rest⟩ := Option.bind_eq_some_iff.mp found
    obtain ⟨each, lengths⟩ := madeOf_resolveAll? declared predefined visible all
    split at rest
    · next bare =>
      cases rest
      rw [Bool.and_eq_true, Bool.or_eq_true, Bool.or_eq_true, List.isEmpty_iff, List.contains_iff_mem,
        List.contains_iff_mem, or_assoc] at bare
      obtain ⟨rfl, parameter⟩ := bare
      refine madeOf_iff.mpr ⟨?_, each⟩
      rw [Symbol.ofType, lengths]
      exact parameter.elim (predefined name) (visible name)
    · obtain ⟨definition, denotes, same⟩ := Option.bind_eq_some_iff.mp rest
      cases same
      obtain ⟨d, mem, symbol⟩ := declared_of_resolveDefinition? denotes
      refine madeOf_iff.mpr ⟨?_, each⟩
      rw [Symbol.ofType, lengths, ← symbol]
      exact declared d mem

theorem madeOf_resolveAll? {context : Symbol} {extra : List String}
    (declared : ∀ d ∈ host.declarations, Q d.symbol)
    (predefined : ∀ name, Engine.isPredefinedType name = true → Q ⟨name, 0⟩)
    (visible : ∀ p, p ∈ extra ∨ p ∈ host.visibleTypeParams context → Q ⟨p, 0⟩) :
    ∀ {ts resolved : List TypeRef}, host.resolveAll? context extra ts = some resolved →
      (∀ t ∈ resolved, t.MadeOf Q) ∧ resolved.length = ts.length
  | [], resolved, found => by
    cases found
    exact ⟨List.forall_mem_nil _, rfl⟩
  | t :: ts, resolved, found => by
    rw [resolveAll?] at found
    obtain ⟨first, one, rest⟩ := Option.bind_eq_some_iff.mp found
    obtain ⟨others, all, same⟩ := Option.bind_eq_some_iff.mp rest
    cases same
    obtain ⟨each, lengths⟩ := madeOf_resolveAll? declared predefined visible all
    have here := madeOf_resolveWith? declared predefined visible one
    refine ⟨List.forall_mem_cons.mpr ⟨here, each⟩, ?_⟩
    rw [List.length_cons, lengths, List.length_cons]

end

/-! ### Members and supertypes -/

/-- What the types of members are made of: declared definitions, predefined types, and type
parameters that stay as they are when a declaration's own ones are replaced. Extension methods are
met over the type parameters of their declarations. -/
structure Covers (host : Host) (Q : Symbol → Prop) : Prop where
  declared : ∀ d ∈ host.declarations, Q d.symbol
  predefined : ∀ name, Engine.isPredefinedType name = true → Q ⟨name, 0⟩
  around : ∀ d ∈ host.declarations, ∀ p ∈ host.visibleTypeParams d.symbol, p ∉ d.typeParams →
    Q ⟨p, 0⟩
  extending : ∀ c ∈ host.extensionMethods, ∀ p ∈ c.1.typeParams, Q ⟨p, 0⟩

namespace Covers

variable (covers : host.Covers Q)

include covers

/-- A type that a declaration writes, with arguments for its type parameters. Further type parameters
may be visible. -/
theorem madeOf_placed {d : TypeDecl} (mem : d ∈ host.declarations) {extra : List String}
    {t resolved : TypeRef} (found : host.resolveWith? d.symbol extra t = some resolved)
    {args : List TypeRef} (lengths : args.length = d.typeParams.length)
    (inner : ∀ a ∈ args, a.MadeOf Q) :
    (resolved.substitute d.typeParams args).MadeOf fun s => Q s ∨ s.arity = 0 ∧ s.name ∈ extra := by
  refine madeOf_substitute (fun a arg => (inner a arg).imp fun _ => .inl) ?_
  refine madeOf_resolveWith? (fun e there => .inl (.inl (covers.declared e there)))
    (fun name plain => .inl (.inl (covers.predefined name plain))) ?_ found
  rintro p (further | visible)
  · exact .inl (.inr ⟨rfl, further⟩)
  · by_cases own : p ∈ d.typeParams
    · exact .inr ⟨rfl, isSome_argumentFor? lengths own⟩
    · exact .inl (.inl (covers.around d mem p visible own))

/-- The same for types that mention no further type parameters. -/
theorem madeOf_member {t : TypeRef} (made : t.MadeOf Q) {d : TypeDecl}
    (denotes : host.declaration? (.ofType t) = some d) {declared resolved : TypeRef}
    (found : host.resolve? d.symbol declared = some resolved) :
    (resolved.substitute d.typeParams t.args).MadeOf Q := by
  obtain ⟨mem, symbol⟩ := symbol_of_declaration? denotes
  have lengths : t.args.length = d.typeParams.length := (congrArg Symbol.arity symbol).symm
  refine (covers.madeOf_placed mem found lengths fun a => made.arg).imp fun s either => ?_
  exact either.resolve_right fun further => List.not_mem_nil further.2

theorem madeOf_above {t u : TypeRef} (made : t.MadeOf Q) (above : Above host t u) : u.MadeOf Q := by
  rcases above with base | interface
  · obtain ⟨d, denotes, rest⟩ := Option.bind_eq_some_iff.mp base
    obtain ⟨written, _, rest⟩ := Option.bind_eq_some_iff.mp rest
    obtain ⟨resolved, found, same⟩ := Option.bind_eq_some_iff.mp rest
    cases same
    exact covers.madeOf_member made denotes found
  · rw [declaredInterfaces] at interface
    split at interface
    · cases interface
    · next d denotes =>
      obtain ⟨resolved, mem, rfl⟩ := List.mem_map.mp interface
      obtain ⟨written, _, found⟩ := List.mem_filterMap.mp mem
      exact covers.madeOf_member made denotes found

theorem madeOf_reaches {t u : TypeRef} (made : t.MadeOf Q) (up : Reaches host t u) : u.MadeOf Q := by
  induction up with
  | refl => exact made
  | tail _ above ih => exact covers.madeOf_above ih above

/-- Supertypes are made of what the type is made of and of what is covered. -/
theorem madeOf_supertypes {t u : TypeRef} (made : t.MadeOf Q) (mem : u ∈ host.supertypes t) :
    u.MadeOf Q :=
  covers.madeOf_reaches (made.marked false t.rank) (reaches_of_mem_supertypes mem)

end Covers

end Host

end Marksmith

import Marksmith.Proofs.Binding.Reordering
import Marksmith.Proofs.Host.Makeup
import Marksmith.Proofs.Host.Counterparts

/-!
The types of values that binding gives.

* `Host.SameOutline.member?_eq` and so on: members are found and arguments are matched without
  reading methods;
* `member?_cases`: where the type of a member comes from;
* `madeOf_ownerType?`, `madeOf_member?` and so on: what is covered at a site is all that the types of
  values are made of.
-/

namespace Marksmith

open Syntax (TypeRef)

namespace Host.SameOutline

open Syntax Binding

variable {host host' : Host} (outline : host.SameOutline host')

include outline

theorem convertible_eq : host'.convertible = host.convertible := by
  funext source target
  simp only [Host.convertible, outline.supertypes_eq]

theorem unify?_eq : host'.unify? = host.unify? := by
  funext params inferred t arg
  refine Reorders.unify?_of outline.convertible_eq outline.supertypes_eq ?_ params t inferred arg
  funext inferred param arg
  simp only [Host.inferParam?, outline.convertible_eq]

theorem signature?_eq : signature? host' = signature? host := by
  funext site c written receiver count
  simp only [signature?, writtenTypeArgs?, outline.resolveWith?_eq, outline.resolve?_eq,
    outline.unify?_eq]

theorem resolve_eq : resolve host' = resolve host := by
  funext site t
  simp only [resolve, outline.resolve?_eq]

theorem nestedType?_eq : nestedType? host' = nestedType? host := by
  funext site t n
  simp only [nestedType?, outline.resolve?_eq]

theorem ownerType?_eq : ownerType? host' = ownerType? host := by
  funext site
  rw [ownerType?, ownerType?]
  have found := outline.declaration?_rel site.owner
  generalize host.declaration? site.owner = d, host'.declaration? site.owner = d' at found
  cases found with
  | none => rfl
  | some same => exact congrArg some same.selfType_eq

omit outline in
/-- The same member, declared in the same outline. -/
structure FoundMember (x x' : TypeRef × TypeDecl × TypeRef × Bool) : Prop where
  current : x'.1 = x.1
  decl : x.2.1.SameOutline x'.2.1
  member : x'.2.2 = x.2.2

theorem member?_eq : member? host' = member? host := by
  funext t name
  rw [member?, member?, outline.supertypes_eq, outline.resolve?_eq]
  by_cases array : t.rank > 0
  · rw [if_pos array, if_pos array]
  · rw [if_neg array, if_neg array]
    refine (rel_eq_iff.mp (rel_bind (r := FoundMember) (findSome?_rel fun current _ =>
      rel_bind (outline.declaration?_rel (.ofType current)) ?_) ?_)).symm
    · rintro d _ ⟨methods⟩
      change Option.Rel _ ((declaredMember? d name).bind _) ((declaredMember? d name).bind _)
      cases declaredMember? d name with
      | none => exact .none
      | some found => exact .some ⟨rfl, .methods methods, rfl⟩
    · rintro ⟨current, d, declared, isField⟩ ⟨current', d', declared', isField'⟩
        ⟨same, outline, member⟩
      dsimp only at same outline member
      cases same
      cases member
      obtain ⟨methods⟩ := outline
      exact rel_eq_iff.mpr rfl

theorem elementType?_eq : elementType? host' = elementType? host := by
  funext t
  simp only [elementType?, outline.member?_eq]

end Host.SameOutline

namespace Binding

open Syntax Syntax.TypeRef

variable {Q : Symbol → Prop} {site : Site} {host : Host}

/-! ### Members -/

/-- A member is the length of an array, or what the declaration of a supertype writes for it. -/
theorem member?_cases {t u : TypeRef} {name : String} {referent : Referent}
    (found : member? host t name = some (referent, u)) :
    (0 < t.rank ∧ u = .named "int") ∨
      (¬0 < t.rank ∧ ∃ current ∈ host.supertypes t, ∃ d declared resolved,
        host.declaration? (.ofType current) = some d ∧
        (declaredMember? d name).map (·.1) = some declared ∧
        host.resolve? d.symbol declared = some resolved ∧
        u = resolved.substitute d.typeParams current.args) := by
  rw [member?] at found
  split at found
  · next array =>
    split at found
    · cases found
      exact .inl ⟨array, rfl⟩
    · cases found
  · next plain =>
    obtain ⟨⟨current, d, declared, isField⟩, first, rest⟩ := Option.bind_eq_some_iff.mp found
    obtain ⟨resolved, means, same⟩ := Option.bind_eq_some_iff.mp rest
    cases same
    obtain ⟨_, mem, here⟩ := List.exists_of_findSome?_eq_some first
    obtain ⟨_, denotes, rest⟩ := Option.bind_eq_some_iff.mp here
    obtain ⟨_, declares, same⟩ := Option.bind_eq_some_iff.mp rest
    cases same
    have written := congrArg (Option.map (·.1)) declares
    exact .inr ⟨plain, current, mem, d, _, resolved, denotes, written, means, rfl⟩

/-! ### What values are made of -/

theorem isPredefinedType_of_numericRank? {name : String} {rank : Nat}
    (found : numericRank? name = some rank) : Engine.isPredefinedType name = true := by
  unfold numericRank? at found
  split at found
  case h_13 => cases found
  all_goals rfl

section Made

variable (covers : host.Covers Q)

include covers

theorem madeOf_resolve? (visible : ∀ p ∈ host.visibleTypeParams site.owner, Q ⟨p, 0⟩)
    {t u : TypeRef}
    (found : host.resolve? site.owner t = some u) : u.MadeOf Q :=
  Host.madeOf_resolveWith? covers.declared covers.predefined
    (fun p either => visible p (either.resolve_left List.not_mem_nil)) found

theorem madeOf_predefined {name : String} (predefined : Engine.isPredefinedType name = true) :
    (TypeRef.named name).MadeOf Q :=
  madeOf_named (covers.predefined name predefined)

theorem madeOf_ownerType? (visible : ∀ p ∈ host.visibleTypeParams site.owner, Q ⟨p, 0⟩)
    {t : TypeRef} (found : ownerType? host site = some t) : t.MadeOf Q := by
  obtain ⟨d, denotes, rfl⟩ := Option.map_eq_some_iff.mp found
  obtain ⟨mem, symbol⟩ := Host.symbol_of_declaration? denotes
  have own : ∀ p ∈ d.typeParams, p ∈ host.visibleTypeParams site.owner := by
    intro p parameter
    rw [Host.visibleTypeParams, denotes]
    exact List.mem_flatMap.mpr ⟨d, List.mem_cons_self, parameter⟩
  refine madeOf_iff.mpr ⟨?_, ?_⟩
  · rw [TypeDecl.ofType_selfType]
    exact covers.declared d mem
  · exact List.forall_mem_map.mpr fun p parameter => madeOf_named (visible p (own p parameter))

theorem madeOf_member? {t u : TypeRef} {name : String} {referent : Referent} (made : t.MadeOf Q)
    (found : member? host t name = some (referent, u)) : u.MadeOf Q := by
  rcases member?_cases found with
    ⟨-, rfl⟩ | ⟨-, current, mem, d, _, resolved, denotes, -, means, rfl⟩
  · exact madeOf_predefined covers rfl
  · exact covers.madeOf_member (covers.madeOf_supertypes made mem) denotes means

theorem madeOf_elementType? {t u : TypeRef} (made : t.MadeOf Q)
    (found : elementType? host t = some u) :
    u.MadeOf Q := by
  rw [elementType?] at found
  split at found
  · cases found
    exact made.marked t.nullable (t.rank - 1)
  · obtain ⟨⟨referent, v⟩, item, rfl⟩ := Option.map_eq_some_iff.mp found
    exact madeOf_member? covers made item

theorem madeOf_literalType? {value : Literal} {t : TypeRef} (found : literalType? value = some t) :
    t.MadeOf Q := by
  cases value with
  | null => cases found
  | float text =>
    rw [literalType?] at found
    split at found <;> cases found <;> exact madeOf_predefined covers rfl
  | int _ | string _ | bool _ =>
    cases found
    exact madeOf_predefined covers rfl

theorem madeOf_operationResult? {op : BinaryOp} {l r : Option TypeRef} {t : TypeRef}
    (left : ∀ u ∈ l, u.MadeOf Q) (right : ∀ u ∈ r, u.MadeOf Q)
    (found : operationResult? op l r = some t) : t.MadeOf Q := by
  have arithmetic : (do
      let a ← l
      let b ← r
      if a.name == "string" || b.name == "string" then return .named "string"
      else promote? a b : Option TypeRef) = some t → t.MadeOf Q := by
    intro found
    obtain ⟨a, _, found⟩ := Option.bind_eq_some_iff.mp found
    obtain ⟨b, _, found⟩ := Option.bind_eq_some_iff.mp found
    split at found
    · cases found
      exact madeOf_predefined covers rfl
    · obtain ⟨i, first, found⟩ := Option.bind_eq_some_iff.mp found
      obtain ⟨j, second, same⟩ := Option.bind_eq_some_iff.mp found
      cases same
      have winner : ∀ name, (numericRank? name).isSome → (if numericRank? name = some 1
          then TypeRef.named "int" else .named name).MadeOf Q := by
        intro name known
        obtain ⟨k, rank⟩ := Option.isSome_iff_exists.mp known
        split
        · exact madeOf_predefined covers rfl
        · exact madeOf_predefined covers (isPredefinedType_of_numericRank? rank)
      refine winner _ ?_
      split
      · exact Option.isSome_iff_exists.mpr ⟨i, first⟩
      · exact Option.isSome_iff_exists.mpr ⟨j, second⟩
  cases op with
  | coalesce =>
    obtain ⟨u, either, rfl⟩ := Option.map_eq_some_iff.mp found
    have made : u.MadeOf Q := by
      rcases Option.or_eq_some_iff.mp either with here | ⟨_, there⟩
      · exact left u here
      · exact right u there
    exact made.marked false u.rank
  | _ => exact arithmetic found

end Made

end Binding

end Marksmith

import Marksmith.Proofs.Analysis.Unambiguous
import Marksmith.Proofs.Binding.Expressions

/-!
Binding and the names of methods' type parameters.

* `Model.renameTypeParams`: a model with other names for the type parameters of one method;
* `Host.Unused`: names that mean nothing in a model yet;
* `Host.Seen`: names that types of values at a site may consist of. A call takes a type that is
  spelled like one of the method's type parameters for that type parameter, so names that are seen
  at a site are not just names there;
* `speculativeType?_renameTypeParams`: the names do not matter at sites where they are not seen.
-/

namespace Marksmith

open Syntax (TypeRef Expr SimpleName)

/-- The model with other names for the type parameters of the `j`-th method of the `i`-th type. -/
def Model.renameTypeParams (m : Model) (i j : Nat) (ρ : String → String) : Model :=
  { m with types := m.types.modify i fun d =>
      { d with methods := d.methods.modify j (·.renamed ρ) } }

namespace Host

/-- An identifier that is no declared type, no predefined type and no type parameter. -/
@[mk_iff]
structure Unused (host : Host) (name : String) : Prop where
  identifier : '.' ∉ name.toList
  predefined : Engine.isPredefinedType name = false
  declared : ∀ d ∈ host.declarations, d.name ≠ name ∧ d.simpleName ≠ name
  typeParam : ∀ d ∈ host.declarations, name ∉ d.typeParams ∧ ∀ m ∈ d.methods, name ∉ m.typeParams

/-- What the types of values at a site may consist of, apart from types with type arguments: defined
types, type parameters that are visible at the site, those around a nested declaration, and those of
declarations that have extension methods. -/
@[mk_iff]
inductive Seen (host : Host) (site : Site) (name : String) : Prop
  | qualified (dotted : '.' ∈ name.toList)
  | predefined (known : Engine.isPredefinedType name = true)
  | declared (found : (host.lookup? name 0).isSome = true)
  | visible (mem : name ∈ host.visibleTypeParams site.owner)
  | around {d : TypeDecl} (there : d ∈ host.declarations)
      (mem : name ∈ host.visibleTypeParams d.symbol) (other : name ∉ d.typeParams)
  | extending {c : TypeDecl × MethodDecl} (there : c ∈ host.extensionMethods)
      (mem : name ∈ c.1.typeParams)

/-- The type parameters of a method are mere names at a site: they are not seen there, nor hidden by
those of the declaration, and no type of the signature is written with one of the new names. -/
structure MereNames (host : Host) (site : Site) (d : TypeDecl) (m : MethodDecl)
    (ρ : String → String) : Prop where
  unseen : ∀ p ∈ m.typeParams, ¬host.Seen site p
  unshadowed : ∀ p ∈ m.typeParams, p ∉ d.typeParams
  unwritten : ∀ t ∈ m.signatureTypes, ∀ s ∈ t.parts, s.args = [] → s.name ∉ m.typeParams.map ρ

variable {host : Host} {site : Site}

/-! ### Names that are not seen -/

/-- A name without a meaning is not seen anywhere. -/
theorem Unused.unseen {name : String} (unused : host.Unused name) : ¬host.Seen site name := by
  have noTypeParam : ¬∃ d ∈ host.declarations, name ∈ d.typeParams := by
    rintro ⟨d, there, own⟩
    exact (unused.typeParam d there).1 own
  intro seen
  cases seen with
  | qualified dotted => exact unused.identifier dotted
  | predefined known => exact absurd known (Bool.eq_false_iff.mp unused.predefined)
  | declared found =>
    obtain ⟨d, lookup⟩ := Option.isSome_iff_exists.mp found
    have same := List.find?_some lookup
    rw [Bool.and_eq_true, beq_iff_eq] at same
    exact (unused.declared d (List.mem_of_find?_eq_some lookup)).1 same.1
  | visible mem => exact noTypeParam (exists_of_mem_visibleTypeParams mem)
  | around _ mem => exact noTypeParam (exists_of_mem_visibleTypeParams mem)
  | @extending c there mem =>
    obtain ⟨d, declared, inside⟩ := List.mem_flatMap.mp there
    obtain ⟨m, -, rfl⟩ := List.mem_map.mp inside
    exact noTypeParam ⟨d, declared, mem⟩

/-- Types of values at a site are made of definitions and of names that are seen there. -/
def Met (host : Host) (site : Site) (s : Symbol) : Prop := s.arity = 0 → host.Seen site s.name

theorem covers_met (host : Host) (site : Site) : host.Covers (host.Met site) where
  declared d there := by
    intro plain
    refine .declared (List.find?_isSome.mpr ⟨d, there, ?_⟩)
    rw [Bool.and_eq_true, beq_iff_eq, beq_iff_eq]
    exact ⟨rfl, plain⟩
  predefined _ known := fun _ => .predefined known
  around _ there _ mem other := fun _ => .around there mem other
  extending _ there _ mem := fun _ => .extending there mem

/-! ### The renamed model -/

/-- A model is accepted with any methods. -/
theorem ofModel_sameOutline {limit : Nat} {model : Model} {types : List TypeDecl}
    (accepted : ofModel limit model = .ok host)
    (same : List.Forall₂ TypeDecl.SameOutline model.types types) :
    ofModel limit { model with types }
      = .ok ⟨{ model with types := types ++ visiblePrelude model.types }, limit⟩ :=
  ofModel_counterparts accepted .refl (fun _ _ => TypeDecl.SameOutline.sameNames) same

variable {d : TypeDecl} {m : MethodDecl} {ρ : String → String}

/-- New names for a method's type parameters, which mean nothing yet and are all different. -/
structure Introduces (host : Host) (m : MethodDecl) (ρ : String → String) : Prop where
  injective : ∀ p ∈ m.typeParams, ∀ q ∈ m.typeParams, ρ p = ρ q → p = q
  unused : ∀ p ∈ m.typeParams, host.Unused (ρ p)

/-- Mere names are new names for one and the same method. -/
theorem MereNames.respells (mere : host.MereNames site d m ρ) (there : d ∈ host.declarations)
    (new : host.Introduces m ρ) : Binding.Respells (host.Met site) d m ρ where
  names := {
    injective := new.injective
    hidden := fun p mem _ =>
      ⟨fun met => mere.unseen p mem (met rfl), fun met => (new.unused p mem).unseen (met rfl)⟩ }
  unshadowed p mem _ := ⟨mere.unshadowed p mem, ((new.unused p mem).typeParam d there).1⟩
  unwritten t typed s part plain other := absurd other (mere.unwritten t typed s part plain)

/-- Binding does not depend on the names of a method's type parameters where they are mere names. -/
theorem speculativeType?_renameTypeParams {limit : Nat} {model : Model}
    (accepted : ofModel limit model = .ok host) {i j : Nat} (type : model.types[i]? = some d)
    (method : d.methods[j]? = some m) (new : host.Introduces m ρ)
    (mere : host.MereNames site d m ρ) :
    ∃ host', ofModel limit (model.renameTypeParams i j ρ) = .ok host' ∧
      ∀ e, host'.speculativeType? site e = host.speculativeType? site e := by
  obtain ⟨-, -, whole⟩ := ofModel_eq_ok_iff.mp accepted
  have declarations : host.declarations = model.types ++ visiblePrelude model.types := by
    rw [whole, Host.declarations]
  have there : d ∈ host.declarations := by
    rw [declarations]
    exact List.mem_append_left _ (List.mem_of_getElem? type)
  have own : List.Forall₂ (TypeDecl.Reissued (host.Met site)) model.types
      (model.renameTypeParams i j ρ).types := by
    refine forall₂_modify (.refl _) fun e found => ?_
    cases type.symm.trans found
    refine .methods (forall₂_modify (.refl _ d) fun k found => ?_)
    cases method.symm.trans found
    exact ⟨ρ, mere.respells there new, rfl⟩
  have accepted' := ofModel_sameOutline accepted (own.imp fun _ _ => TypeDecl.Reissued.outline)
  refine ⟨_, accepted', fun e => ?_⟩
  refine (Binding.ExprAgrees.self (Q := host.Met site) ?_ e).speculativeType?_eq
  constructor
  case stepLimit => rw [whole]
  case declarations =>
    rw [declarations]
    exact List.rel_append own (List.forall₂_same.mpr fun d _ => .refl _ d)
  case covers => exact host.covers_met site
  case visible => exact fun _ mem _ => .visible mem
  case action => exact fun _ => .qualified (by decide)

/-! ### Two calls -/

/-- The method `T Id<T>(T x)`. -/
def identity : MethodDecl where
  name := "Id"
  typeParams := ["T"]
  params := [{ name := "x", type := .named "T" }]
  returns := .named "T"
  isStatic := true

/-- A generic class `Box<T>` with a field of type `T`, and a class with a generic method. -/
def boxes : Model where
  types := [
    { name := "Game.Box", kind := .class, typeParams := ["T"],
      fields := [{ name := "item", type := .named "T" }] },
    { name := "Game.Util", kind := .class, methods := [identity] }]

theorem boxes_accepted : ofModel usualStepLimit boxes = .ok (.withPrelude boxes) :=
  ofModel_withPrelude rfl rfl

theorem boxes_introduces : (withPrelude boxes).Introduces identity fun _ => "U" where
  injective p mem q mem' _ := by rw [List.mem_singleton.mp mem, List.mem_singleton.mp mem']
  unused _ _ := by
    rw [unused_iff]
    decide +kernel

/-- The call `Util.Id(item)`. -/
def itemCall : Expr :=
  .invoke ⟨0, 13⟩ (.member ⟨0, 7⟩ (.name ⟨0, 4⟩ ⟨"Util", []⟩) ⟨⟨"Id", []⟩, ⟨5, 7⟩⟩)
    [.name ⟨8, 12⟩ ⟨"item", []⟩]

/-- Seen from `Util`, the type parameter of its method is a mere name. -/
theorem speculativeType?_boxes :
    ∃ host', ofModel usualStepLimit (boxes.renameTypeParams 1 0 fun _ => "U") = .ok host' ∧
      ∀ e, host'.speculativeType? { owner := ⟨"Game.Util", 0⟩ } e
        = (withPrelude boxes).speculativeType? { owner := ⟨"Game.Util", 0⟩ } e := by
  refine speculativeType?_renameTypeParams boxes_accepted rfl rfl boxes_introduces ?_
  constructor
  case unseen =>
    intro p mem
    rw [List.mem_singleton.mp mem, seen_iff]
    decide +kernel
  case unshadowed => decide
  case unwritten => decide

/-- In `Box`, the type of `item` is taken for the type parameter of `Id`, so that the call does not
bind. With another name for this type parameter it does. -/
theorem not_speculativeType?_renameTypeParams :
    ¬∀ (host host' : Host) (model : Model) (limit i j : Nat) (d : TypeDecl) (m : MethodDecl)
      (ρ : String → String), ofModel limit model = .ok host → model.types[i]? = some d →
      d.methods[j]? = some m → host.Introduces m ρ →
      ofModel limit (model.renameTypeParams i j ρ) = .ok host' →
      ∀ site e, host'.speculativeType? site e = host.speculativeType? site e := by
  intro always
  have same := always _ (.withPrelude (boxes.renameTypeParams 1 0 fun _ => "U")) boxes _ 1 0 _ _ _
    boxes_accepted rfl rfl boxes_introduces (ofModel_withPrelude rfl rfl)
    { owner := ⟨"Game.Box", 1⟩ } itemCall
  have before : (withPrelude boxes).speculativeType? { owner := ⟨"Game.Box", 1⟩ } itemCall
      = none := by
    simp only [Host.speculativeType?, itemCall, Binding.meaning, Binding.arguments]
    decide +kernel
  have after : (withPrelude (boxes.renameTypeParams 1 0 fun _ => "U")).speculativeType?
      { owner := ⟨"Game.Box", 1⟩ } itemCall = some (.named "T") := by
    simp only [Host.speculativeType?, itemCall, Binding.meaning, Binding.arguments]
    decide +kernel
  rw [before, after] at same
  cases same

end Host

end Marksmith

import Marksmith.Cache.Closure
import Marksmith.Proofs.Host.Counterparts

/-!
Hosts without method bodies. `silenced` drops the statements of every method and keeps everything
else; whatever reads no statements gives the same on the silenced host. So hosts that differ in
their statements alone agree on it.

* `declaration?_silenced`: lookups give the silenced declarations;
* `outline_silenced`: outside of their methods the declarations are the same, so resolution,
  supertypes and layout do not notice;
* `successors_silenced`, `closureWithin_silenced`: nor does the search for dependencies, once it has
  begun.
-/

namespace Marksmith

open Syntax (TypeRef)

/-- The method without its body. -/
def MethodDecl.silenced (m : MethodDecl) : MethodDecl := { m with body := [] }

/-- The declaration without its method bodies. -/
def TypeDecl.silenced (d : TypeDecl) : TypeDecl :=
  { d with methods := d.methods.map MethodDecl.silenced }

namespace TypeDecl

@[simp] theorem symbol_silenced (d : TypeDecl) : d.silenced.symbol = d.symbol := rfl

@[simp] theorem selfType_silenced (d : TypeDecl) : d.silenced.selfType = d.selfType := rfl

@[simp] theorem memberNames_silenced (d : TypeDecl) : d.silenced.memberNames = d.memberNames := by
  have names : d.silenced.methods.map (·.name) = d.methods.map (·.name) := List.map_map
  rw [memberNames, names]
  rfl

@[simp] theorem declaresMember_silenced (d : TypeDecl) (name : String) :
    d.silenced.declaresMember name = d.declaresMember name := by
  rw [declaresMember, declaresMember, memberNames_silenced]

@[simp] theorem referencedTypes_silenced (d : TypeDecl) :
    d.silenced.referencedTypes = d.referencedTypes := by
  have types : d.silenced.methods.flatMap (fun m => m.returns :: m.params.map (·.type))
      = d.methods.flatMap fun m => m.returns :: m.params.map (·.type) := List.flatMap_map _ _ _
  rw [referencedTypes, types]
  rfl

end TypeDecl

namespace Host

/-- The host without method bodies. -/
def silenced (host : Host) : Host :=
  ⟨{ host.model with types := host.model.types.map TypeDecl.silenced }, host.stepLimit⟩

variable (host : Host)

/-! ### Declarations -/

theorem declarations_silenced : host.silenced.declarations = host.declarations.map .silenced := rfl

theorem lookup?_silenced (name : String) (arity : Nat) :
    host.silenced.lookup? name arity = (host.lookup? name arity).map .silenced :=
  List.find?_map

theorem isSome_lookup?_silenced (name : String) (arity : Nat) :
    (host.silenced.lookup? name arity).isSome = (host.lookup? name arity).isSome := by
  rw [lookup?_silenced, Option.isSome_map]

theorem declaration?_silenced (s : Symbol) :
    host.silenced.declaration? s = (host.declaration? s).map .silenced :=
  host.lookup?_silenced s.name s.arity

/-! ### Resolution, supertypes and fields -/

/-- A silenced host has the same declarations apart from their methods. -/
theorem outline_silenced : host.SameOutline host.silenced := by
  refine ⟨rfl, ?_⟩
  rw [declarations_silenced, List.forall₂_map_right_iff]
  exact List.forall₂_same.mpr fun d _ => .methods (d.methods.map .silenced)

theorem resolve?_silenced : host.silenced.resolve? = host.resolve? :=
  host.outline_silenced.resolve?_eq

theorem instanceFields_silenced : host.silenced.instanceFields = host.instanceFields :=
  host.outline_silenced.instanceFields_eq

theorem implements_silenced : host.silenced.implements = host.implements :=
  host.outline_silenced.implements_eq

theorem estimateSize_silenced : host.silenced.estimateSize = host.estimateSize :=
  host.outline_silenced.estimateSize_eq

/-! ### Dependencies -/

mutual

theorem declaredIn_silenced : ∀ t : TypeRef, host.silenced.declaredIn t = host.declaredIn t
  | ⟨name, args, nullable, rank⟩ => by
    rw [declaredIn, declaredIn, isSome_lookup?_silenced, declaredInAll_silenced args]

theorem declaredInAll_silenced :
    ∀ ts : List TypeRef, host.silenced.declaredInAll ts = host.declaredInAll ts
  | [] => rfl
  | t :: ts => by
    rw [declaredInAll, declaredInAll, declaredIn_silenced t, declaredInAll_silenced ts]

end

theorem reachedBy_silenced : host.silenced.reachedBy = host.reachedBy := by
  funext context t
  rw [reachedBy, reachedBy, resolve?_silenced]
  cases host.resolve? context t with
  | none => rfl
  | some resolved => exact host.declaredIn_silenced resolved

theorem successors_silenced : host.silenced.successors = host.successors := by
  funext s
  rw [successors, successors, declaration?_silenced]
  cases host.declaration? s with
  | none => rfl
  | some d =>
    rw [Option.map_some]
    dsimp only
    rw [TypeDecl.referencedTypes_silenced, reachedBy_silenced]
    rfl

theorem extensionOwners_silenced : host.silenced.extensionOwners = host.extensionOwners := by
  have owners : host.silenced.declarations.filter (fun d => d.methods.any (·.isExtension))
      = (host.declarations.filter fun d => d.silenced.methods.any (·.isExtension)).map .silenced :=
    List.filter_map
  have extensions (d : TypeDecl) :
      d.silenced.methods.any (·.isExtension) = d.methods.any (·.isExtension) := List.any_map
  simp only [extensions] at owners
  rw [extensionOwners, owners, List.map_map]
  rfl

theorem closureWithin_silenced : host.silenced.closureWithin = host.closureWithin := by
  funext rounds
  induction rounds with
  | zero => rfl
  | succ rounds ih =>
    funext found frontier
    rw [closureWithin, closureWithin, successors_silenced, ih]

end Host

end Marksmith

import Marksmith.Proofs.Analysis.Unambiguous
import Marksmith.Proofs.Host.Reordering
import Marksmith.Proofs.Lists

/-!
Hosts whose declarations correspond to each other place by place, under the same names. What else
corresponding declarations have in common is left open.

* `TypeDecl.SameNames`: the names by which declarations are found;
* `Counterparts`: lookups give corresponding declarations, and types mean the same;
* `ofModel_counterparts`: a model is accepted with corresponding declarations;
* `SameOutline`: declarations that differ in their methods alone. Resolution, the walk over
  supertypes and the layout of values read no methods, so they give the same on both.
-/

namespace Marksmith

open Syntax (TypeRef)

/-- Declarations that are found under the same names, in the same declaration. -/
structure TypeDecl.SameNames (d d' : TypeDecl) : Prop where
  name : d'.name = d.name
  typeParams : d'.typeParams = d.typeParams
  containing : d'.containing = d.containing

namespace TypeDecl.SameNames

variable {d d' : TypeDecl} (same : d.SameNames d')

include same

theorem symbol_eq : d'.symbol = d.symbol := by
  rw [symbol, symbol, same.name, same.typeParams]

theorem simpleName_eq : d'.simpleName = d.simpleName := by
  rw [simpleName, simpleName, same.name]

end TypeDecl.SameNames

namespace Host

/-- Hosts whose declarations are related place by place, under the same names. -/
structure Counterparts (R : TypeDecl → TypeDecl → Prop) (host host' : Host) : Prop where
  declarations : List.Forall₂ R host.declarations host'.declarations
  names : ∀ d d', R d d' → d.SameNames d'

variable {R : TypeDecl → TypeDecl → Prop}

namespace Counterparts

variable {host host' : Host} (pairs : Counterparts R host host')

include pairs

/-! ### Declarations -/

theorem lookup?_rel (name : String) (arity : Nat) :
    Option.Rel R (host.lookup? name arity) (host'.lookup? name arity) := by
  refine find?_of_forall₂ pairs.declarations ?_
  intro d d' related
  rw [(pairs.names d d' related).name, (pairs.names d d' related).typeParams]

theorem isSome_lookup?_eq (name : String) (arity : Nat) :
    (host'.lookup? name arity).isSome = (host.lookup? name arity).isSome := by
  have found := pairs.lookup?_rel name arity
  generalize host.lookup? name arity = d, host'.lookup? name arity = d' at found
  cases found <;> rfl

theorem declaration?_rel (s : Symbol) :
    Option.Rel R (host.declaration? s) (host'.declaration? s) :=
  pairs.lookup?_rel s.name s.arity

theorem findSome?_lookup?_rel (outer : String) (arities : List Nat) :
    Option.Rel R (arities.findSome? (host.lookup? outer))
      (arities.findSome? (host'.lookup? outer)) :=
  findSome?_rel fun arity _ => pairs.lookup?_rel outer arity

theorem containing?_rel {d d' : TypeDecl} (related : R d d') :
    Option.Rel R (host.containing? d) (host'.containing? d') := by
  rw [containing?, containing?, (pairs.names d d' related).containing]
  cases d.containing with
  | none => exact .none
  | some outer => exact pairs.findSome?_lookup?_rel outer _

theorem enclosing_rel (limit : Nat) {d d' : TypeDecl} (related : R d d') :
    List.Forall₂ R (host.enclosing limit d) (host'.enclosing limit d') := by
  induction limit generalizing d d' with
  | zero => exact .nil
  | succ limit ih =>
    rw [enclosing, enclosing]
    have around := pairs.containing?_rel related
    generalize host.containing? d = outer, host'.containing? d' = outer' at around
    cases around with
    | none => exact .cons related .nil
    | some above => exact .cons related (ih above)

/-! ### Resolution -/

theorem visibleTypeParams_eq : host'.visibleTypeParams = host.visibleTypeParams := by
  funext context
  rw [visibleTypeParams, visibleTypeParams]
  have found := pairs.declaration?_rel context
  generalize host.declaration? context = d, host'.declaration? context = d' at found
  cases found with
  | none => rfl
  | some related =>
    exact flatMap_eq_of_forall₂ (pairs.enclosing_rel maxNesting related)
      fun d d' related => (pairs.names d d' related).typeParams

theorem resolveDefinition?_eq : host'.resolveDefinition? = host.resolveDefinition? := by
  funext context name arity
  have suiting : List.Forall₂ R
      (host.declarations.filter fun d =>
        d.typeParams.length == arity && d.simpleName == withoutAlias name)
      (host'.declarations.filter fun d =>
        d.typeParams.length == arity && d.simpleName == withoutAlias name) := by
    refine List.rel_filter ?_ pairs.declarations
    intro d d' related
    have same := pairs.names d d' related
    simp only [same.simpleName_eq, same.typeParams]
  simp only [resolveDefinition?, pairs.isSome_lookup?_eq]
  generalize List.filter _ host.declarations = ds, List.filter _ host'.declarations = ds'
    at suiting ⊢
  rcases suiting with _ | ⟨related, _ | _⟩
  · rfl
  · simp only [(pairs.names _ _ related).name]
  · rfl

theorem resolveWith?_eq : host'.resolveWith? = host.resolveWith? := by
  funext context extra t
  exact Reorders.resolveWith?_of pairs.visibleTypeParams_eq pairs.resolveDefinition?_eq
    context extra t

theorem resolve?_eq : host'.resolve? = host.resolve? := by
  funext context t
  rw [resolve?, resolve?, pairs.resolveWith?_eq]

end Counterparts

/-! ### Models -/

/-- The prelude is hidden by symbols. -/
theorem visiblePrelude_eq_of_symbols {types types' : List TypeDecl}
    (each : List.Forall₂ R types types') (symbols : ∀ d d', R d d' → d'.symbol = d.symbol) :
    visiblePrelude types' = visiblePrelude types := by
  have defined (s : Symbol) : (types'.any fun t => t.symbol = s) = types.any fun t => t.symbol = s :=
    any_eq_of_forall₂ each fun d d' related => by rw [symbols d d' related]
  simp only [visiblePrelude, defined]

/-- A model is accepted with corresponding declarations. -/
theorem ofModel_counterparts {host : Host} {limit : Nat} {model : Model} {types : List TypeDecl}
    (accepted : ofModel limit model = .ok host) (refl : ∀ d, R d d)
    (names : ∀ d d', R d d' → d.SameNames d') (each : List.Forall₂ R model.types types) :
    ofModel limit { model with types }
      = .ok ⟨{ model with types := types ++ visiblePrelude model.types }, limit⟩ := by
  obtain ⟨unique, contained, -⟩ := ofModel_eq_ok_iff.mp accepted
  have symbols : types.map TypeDecl.symbol = model.types.map TypeDecl.symbol :=
    map_eq_of_forall₂ each fun d d' related => (names d d' related).symbol_eq
  have hidden : visiblePrelude types = visiblePrelude model.types :=
    visiblePrelude_eq_of_symbols each fun d d' related => (names d d' related).symbol_eq
  have whole : List.Forall₂ R (model.types ++ visiblePrelude model.types)
      (types ++ visiblePrelude model.types) :=
    List.rel_append each (List.forall₂_same.mpr fun d _ => refl d)
  refine ofModel_eq_ok_iff.mpr ⟨?_, ?_, by rw [hidden]⟩
  · refine firstDuplicate?_eq_none ?_ fun _ known => absurd known List.not_mem_nil
    rw [symbols]
    exact (nodup_of_firstDuplicate? unique).1
  · rw [firstUnknownContaining?_eq_none_iff] at contained ⊢
    show ∀ d ∈ types ++ visiblePrelude types, _
    rw [hidden]
    intro d' mem outer inside
    obtain ⟨d, there, related⟩ := exists_of_forall₂ whole mem
    have named : (types ++ visiblePrelude model.types).any (·.name == outer)
        = (model.types ++ visiblePrelude model.types).any (·.name == outer) :=
      any_eq_of_forall₂ whole fun d d' related => by rw [(names d d' related).name]
    rw [(names d d' related).containing] at inside
    exact named.trans (contained d there outer inside)

end Host

/-! ### Declarations with other methods -/

/-- The declaration with other methods. -/
inductive TypeDecl.SameOutline (d : TypeDecl) : TypeDecl → Prop
  | methods (methods : List MethodDecl) : SameOutline d { d with methods }

namespace TypeDecl.SameOutline

theorem refl (d : TypeDecl) : d.SameOutline d := .methods d.methods

variable {d d' : TypeDecl} (same : d.SameOutline d')

include same

theorem sameNames : d.SameNames d' := by
  obtain ⟨methods⟩ := same
  exact ⟨rfl, rfl, rfl⟩

theorem symbol_eq : d'.symbol = d.symbol := same.sameNames.symbol_eq

theorem typeParams_eq : d'.typeParams = d.typeParams := same.sameNames.typeParams

theorem selfType_eq : d'.selfType = d.selfType := by
  cases same
  rfl

end TypeDecl.SameOutline

namespace Host

/-- The same declarations place by place, apart from their methods. -/
structure SameOutline (host host' : Host) : Prop where
  stepLimit : host'.stepLimit = host.stepLimit
  declarations : List.Forall₂ TypeDecl.SameOutline host.declarations host'.declarations

namespace SameOutline

theorem refl (host : Host) : host.SameOutline host :=
  ⟨rfl, List.forall₂_same.mpr fun d _ => .refl d⟩

variable {host host' : Host} (outline : host.SameOutline host')

include outline

theorem counterparts : Counterparts TypeDecl.SameOutline host host' :=
  ⟨outline.declarations, fun _ _ => TypeDecl.SameOutline.sameNames⟩

theorem declaration?_rel (s : Symbol) :
    Option.Rel TypeDecl.SameOutline (host.declaration? s) (host'.declaration? s) :=
  outline.counterparts.declaration?_rel s

theorem resolveWith?_eq : host'.resolveWith? = host.resolveWith? :=
  outline.counterparts.resolveWith?_eq

theorem resolve?_eq : host'.resolve? = host.resolve? := outline.counterparts.resolve?_eq

/-! ### Supertypes and fields -/

theorem baseType?_eq : host'.baseType? = host.baseType? := by
  funext t
  rw [baseType?, baseType?, outline.resolve?_eq]
  have found := outline.declaration?_rel (.ofType t)
  generalize host.declaration? (.ofType t) = d, host'.declaration? (.ofType t) = d' at found
  cases found with
  | none => rfl
  | some same =>
    obtain ⟨methods⟩ := same
    rfl

theorem declaredInterfaces_eq : host'.declaredInterfaces = host.declaredInterfaces := by
  funext t
  rw [declaredInterfaces, declaredInterfaces, outline.resolve?_eq]
  have found := outline.declaration?_rel (.ofType t)
  generalize host.declaration? (.ofType t) = d, host'.declaration? (.ofType t) = d' at found
  cases found with
  | none => rfl
  | some same =>
    obtain ⟨methods⟩ := same
    rfl

theorem instanceFields_eq : host'.instanceFields = host.instanceFields := by
  funext t
  rw [instanceFields, instanceFields, outline.resolve?_eq]
  have found := outline.declaration?_rel (.ofType t)
  generalize host.declaration? (.ofType t) = d, host'.declaration? (.ofType t) = d' at found
  cases found with
  | none => rfl
  | some same =>
    obtain ⟨methods⟩ := same
    rfl

theorem implements_eq : host'.implements = host.implements := by
  funext t target
  rw [implements, implements, outline.stepLimit,
    Reorders.implementsWithin?_of outline.baseType?_eq outline.declaredInterfaces_eq]

theorem supertypes_eq : host'.supertypes = host.supertypes := by
  funext t
  rw [supertypes, supertypes, outline.stepLimit,
    Reorders.supertypesWithin?_of outline.baseType?_eq outline.declaredInterfaces_eq]

theorem kindOf?_eq : host'.kindOf? = host.kindOf? := by
  funext t
  rw [kindOf?, kindOf?]
  have found := outline.declaration?_rel (.ofType t)
  generalize host.declaration? (.ofType t) = d, host'.declaration? (.ofType t) = d' at found
  cases found with
  | none => rfl
  | some same =>
    obtain ⟨methods⟩ := same
    rfl

theorem estimateSize_eq : host'.estimateSize = host.estimateSize := by
  funext t
  rw [estimateSize, estimateSize, outline.stepLimit,
    Reorders.sizeWithin?_of outline.kindOf?_eq outline.instanceFields_eq]

end SameOutline

end Host

end Marksmith

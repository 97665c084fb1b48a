import Marksmith.Analysis.Facts
import Marksmith.Analysis.Layout
import Marksmith.Proofs.Host.Declarations
import Marksmith.Proofs.Lists
import Marksmith.Source.File

/-!
Hosts whose declarations stand in another order.

* `mergeSort_perm_eq`: lists with the same elements are the same once they are sorted;
* `Reorders`: one host has the declarations of another one in some order, and extension methods are
  met in the same order;
* the rest are congruences: whatever is read off a host by looking up names is read off a reordered
  one with the same outcome. This covers resolution, walks over supertypes, layout, and text.
-/

namespace Marksmith

open Syntax (TypeRef)

/-! ### Lists in another order -/

/-- A list in another order is the same one, unless it has several elements. -/
theorem eq_or_several {α : Type} {as bs : List α} (perm : as.Perm bs) :
    as = bs ∨ ∃ a a' as' b b' bs', as = a :: a' :: as' ∧ bs = b :: b' :: bs' := by
  rcases bs with _ | ⟨b, _ | ⟨b', bs'⟩⟩
  · exact .inl perm.eq_nil
  · exact .inl perm.eq_singleton
  · have lengths := perm.length_eq
    rcases as with _ | ⟨a, _ | ⟨a', as'⟩⟩
    · simp at lengths
    · simp at lengths
    · exact .inr ⟨a, a', as', b, b', bs', rfl, rfl⟩

/-- Lists with the same elements are the same once they are sorted, if elements that may stand on
either side of each other are the same. -/
theorem mergeSort_perm_eq {α : Type} {le : α → α → Bool} {as bs : List α}
    (trans : ∀ a b c, le a b → le b c → le a c) (total : ∀ a b, (le a b || le b a) = true)
    (antisymm : ∀ a b, a ∈ bs → b ∈ bs → le a b → le b a → a = b) (perm : as.Perm bs) :
    as.mergeSort le = bs.mergeSort le := by
  have first := List.mergeSort_perm as le
  have second := List.mergeSort_perm bs le
  refine ((first.trans perm).trans second.symm).eq_of_pairwise ?_
    (List.pairwise_mergeSort trans total as) (List.pairwise_mergeSort trans total bs)
  intro a b aMem bMem
  exact antisymm a b (perm.mem_iff.mp (first.mem_iff.mp aMem)) (second.mem_iff.mp bMem)

namespace Host

/-- A host that has the declarations of another one, perhaps in another order. Extension methods,
which are tried in order, are met in the same order. -/
structure Reorders (other host : Host) : Prop where
  stepLimit : other.stepLimit = host.stepLimit
  perm : other.declarations.Perm host.declarations
  lookup? : other.lookup? = host.lookup?
  extensionMethods : other.extensionMethods = host.extensionMethods

namespace Reorders

variable {other host : Host}

/-! ### Types by their arguments -/

mutual

theorem resolveWith?_of (visible : other.visibleTypeParams = host.visibleTypeParams)
    (definitions : other.resolveDefinition? = host.resolveDefinition?) (context : Symbol)
    (extra : List String) :
    ∀ t, other.resolveWith? context extra t = host.resolveWith? context extra t
  | ⟨name, args, nullable, rank⟩ => by
    rw [Host.resolveWith?, Host.resolveWith?, visible, definitions,
      resolveAll?_of visible definitions context extra args]

theorem resolveAll?_of (visible : other.visibleTypeParams = host.visibleTypeParams)
    (definitions : other.resolveDefinition? = host.resolveDefinition?) (context : Symbol)
    (extra : List String) :
    ∀ ts, other.resolveAll? context extra ts = host.resolveAll? context extra ts
  | [] => rfl
  | t :: ts => by
    rw [Host.resolveAll?, Host.resolveAll?, resolveWith?_of visible definitions context extra t,
      resolveAll?_of visible definitions context extra ts]

end

mutual

theorem qualifiedType_of (names : other.qualifiedName = host.qualifiedName) :
    ∀ t, other.qualifiedType t = host.qualifiedType t
  | ⟨name, args, nullable, rank⟩ => by
    rw [Host.qualifiedType, Host.qualifiedType, names, qualifiedArgs_of names args]

theorem qualifiedArgs_of (names : other.qualifiedName = host.qualifiedName) :
    ∀ ts, other.qualifiedArgs ts = host.qualifiedArgs ts
  | [] => rfl
  | t :: ts => by
    rw [Host.qualifiedArgs, Host.qualifiedArgs, qualifiedType_of names t, qualifiedMore_of names ts]

theorem qualifiedMore_of (names : other.qualifiedName = host.qualifiedName) :
    ∀ ts, other.qualifiedMore ts = host.qualifiedMore ts
  | [] => rfl
  | t :: ts => by
    rw [Host.qualifiedMore, Host.qualifiedMore, qualifiedType_of names t, qualifiedMore_of names ts]

end

/-! ### Walks by what they meet -/

theorem implementsWithin?_of (bases : other.baseType? = host.baseType?)
    (interfaces : other.declaredInterfaces = host.declaredInterfaces) :
    other.implementsWithin? = host.implementsWithin? := by
  funext target steps
  induction steps with
  | zero =>
    funext visited stack
    cases stack <;> rfl
  | succ steps ih =>
    funext visited stack
    cases stack with
    | nil => rfl
    | cons t stack => simp only [Host.implementsWithin?, bases, interfaces, ih]

theorem supertypesWithin?_of (bases : other.baseType? = host.baseType?)
    (interfaces : other.declaredInterfaces = host.declaredInterfaces) :
    other.supertypesWithin? = host.supertypesWithin? := by
  funext steps
  induction steps with
  | zero =>
    funext seen queue
    cases queue <;> rfl
  | succ steps ih =>
    funext seen queue
    cases queue with
    | nil => rfl
    | cons t queue => simp only [Host.supertypesWithin?, bases, interfaces, ih]

theorem sizeWithin?_of (kinds : other.kindOf? = host.kindOf?)
    (fields : other.instanceFields = host.instanceFields) :
    other.sizeWithin? = host.sizeWithin? := by
  funext depth
  induction depth with
  | zero => rfl
  | succ depth ih =>
    funext around t
    simp only [Host.sizeWithin?, kinds, fields, ih]

variable (same : other.Reorders host)

include same

/-! ### Declarations -/

theorem declaration? : other.declaration? = host.declaration? := by
  funext s
  simp only [Host.declaration?, same.lookup?]

theorem containing? : other.containing? = host.containing? := by
  funext d
  simp only [Host.containing?, same.lookup?]

theorem enclosing : other.enclosing = host.enclosing := by
  funext limit
  induction limit with
  | zero => rfl
  | succ limit ih =>
    funext d
    simp only [Host.enclosing, same.containing?, ih]

theorem namespace? : other.namespace? = host.namespace? := by
  funext s
  simp only [Host.namespace?, same.declaration?, same.enclosing]

/-! ### Resolution -/

theorem visibleTypeParams : other.visibleTypeParams = host.visibleTypeParams := by
  funext context
  simp only [Host.visibleTypeParams, same.declaration?, same.enclosing]

theorem resolveDefinition? : other.resolveDefinition? = host.resolveDefinition? := by
  funext context name arity
  have suiting := same.perm.filter fun d : TypeDecl =>
    d.typeParams.length == arity && d.simpleName == withoutAlias name
  simp only [Host.resolveDefinition?, same.lookup?]
  rcases eq_or_several suiting with equal | ⟨a, a', as, b, b', bs, several, several'⟩
  · rw [equal]
  · rw [several, several']

theorem resolveWith? : other.resolveWith? = host.resolveWith? := by
  funext context extra t
  exact resolveWith?_of same.visibleTypeParams same.resolveDefinition? context extra t

theorem resolve? : other.resolve? = host.resolve? := by
  funext context t
  simp only [Host.resolve?, same.resolveWith?]

/-! ### Supertypes and fields -/

theorem baseType? : other.baseType? = host.baseType? := by
  funext t
  simp only [Host.baseType?, same.declaration?, same.resolve?]

theorem declaredInterfaces : other.declaredInterfaces = host.declaredInterfaces := by
  funext t
  simp only [Host.declaredInterfaces, same.declaration?, same.resolve?]

theorem instanceFields : other.instanceFields = host.instanceFields := by
  funext t
  simp only [Host.instanceFields, same.declaration?, same.resolve?]

theorem implementsWithin? : other.implementsWithin? = host.implementsWithin? :=
  implementsWithin?_of same.baseType? same.declaredInterfaces

theorem implements : other.implements = host.implements := by
  funext t target
  simp only [Host.implements, same.implementsWithin?, same.stepLimit]

theorem supertypesWithin? : other.supertypesWithin? = host.supertypesWithin? :=
  supertypesWithin?_of same.baseType? same.declaredInterfaces

theorem supertypes : other.supertypes = host.supertypes := by
  funext t
  simp only [Host.supertypes, same.supertypesWithin?, same.stepLimit]

theorem baseChainFrom : other.baseChainFrom = host.baseChainFrom := by
  funext steps
  induction steps with
  | zero => rfl
  | succ steps ih =>
    funext before t
    simp only [Host.baseChainFrom, same.baseType?, ih]

theorem baseChain : other.baseChain = host.baseChain := by
  funext t
  simp only [Host.baseChain, same.baseChainFrom, same.perm.length_eq]

theorem allInterfacesWithin? : other.allInterfacesWithin? = host.allInterfacesWithin? := by
  funext steps
  induction steps with
  | zero =>
    funext seen queue
    cases queue <;> rfl
  | succ steps ih =>
    funext seen queue
    cases queue with
    | nil => rfl
    | cons t queue =>
      simp only [Host.allInterfacesWithin?, same.baseType?, same.declaredInterfaces, ih]

theorem allInterfaces : other.allInterfaces = host.allInterfaces := by
  funext t
  simp only [Host.allInterfaces, same.allInterfacesWithin?, same.stepLimit]

/-! ### Layout -/

theorem kindOf? : other.kindOf? = host.kindOf? := by
  funext t
  simp only [Host.kindOf?, same.declaration?]

theorem isUnmanagedWithin? : other.isUnmanagedWithin? = host.isUnmanagedWithin? := by
  funext depth
  induction depth with
  | zero => rfl
  | succ depth ih =>
    funext around t
    simp only [Host.isUnmanagedWithin?, same.kindOf?, same.instanceFields, ih]

theorem isUnmanaged : other.isUnmanaged = host.isUnmanaged := by
  funext t
  simp only [Host.isUnmanaged, same.isUnmanagedWithin?, same.stepLimit]

theorem sizeWithin? : other.sizeWithin? = host.sizeWithin? :=
  sizeWithin?_of same.kindOf? same.instanceFields

theorem estimateSize : other.estimateSize = host.estimateSize := by
  funext t
  simp only [Host.estimateSize, same.sizeWithin?, same.stepLimit]

/-! ### Places and texts -/

theorem outerDecls : other.outerDecls = host.outerDecls := by
  funext d
  simp only [Host.outerDecls, same.enclosing]

theorem nesting : other.nesting = host.nesting := by
  funext d
  simp only [Host.nesting, same.outerDecls]

theorem effectiveAccessibility : other.effectiveAccessibility = host.effectiveAccessibility := by
  funext d
  simp only [Host.effectiveAccessibility, same.outerDecls]

theorem qualifiedName : other.qualifiedName = host.qualifiedName := by
  funext name arity
  simp only [Host.qualifiedName, same.lookup?]

theorem typeText : other.typeText = host.typeText := by
  funext t
  rw [Host.typeText, Host.typeText, qualifiedType_of same.qualifiedName]

theorem nameText : other.nameText = host.nameText := by
  funext s
  simp only [Host.nameText, same.typeText]

theorem selfText : other.selfText = host.selfText := by
  funext d
  simp only [Host.selfText, same.typeText]

theorem scopeOf : SourceFile.scopeOf other = SourceFile.scopeOf host := by
  funext d
  simp only [SourceFile.scopeOf, same.namespace?, same.nesting]

end Reorders

end Host

end Marksmith

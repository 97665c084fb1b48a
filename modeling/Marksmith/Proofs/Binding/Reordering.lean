import Marksmith.Binding.Binder
import Marksmith.Inference.Resolver
import Marksmith.Proofs.Host.Reordering

/-!
Binding and inference under a reordered host.

Names are looked up, members are searched along supertypes, and candidates of a call are tried in the
order of methods within one declaration or in the order of the extension methods. So a reordered host
binds every expression in the same way. Of the index only the tables of tracked types and singletons
are read, so with the same tables the resolver gives every expression the same type, in the same way.
-/

namespace Marksmith.Host.Reorders

open Syntax Binding

variable {other host : Host}

/-! ### Type arguments -/

mutual

theorem unify?_of (converts : other.convertible = host.convertible)
    (supertypes : other.supertypes = host.supertypes)
    (infers : other.inferParam? = host.inferParam?) (params : List String) :
    ∀ t inferred arg, other.unify? params inferred t arg = host.unify? params inferred t arg
  | ⟨name, args, nullable, rank⟩, inferred, arg => by
    simp only [Host.unify?, converts, supertypes, infers,
      unifyAll?_of converts supertypes infers params args]

theorem unifyAll?_of (converts : other.convertible = host.convertible)
    (supertypes : other.supertypes = host.supertypes)
    (infers : other.inferParam? = host.inferParam?) (params : List String) :
    ∀ ps inferred as, other.unifyAll? params inferred ps as = host.unifyAll? params inferred ps as
  | [], _, [] | [], _, _ :: _ | _ :: _, _, [] => by
    simp only [Host.unifyAll?]
  | p :: ps, inferred, a :: as => by
    simp only [Host.unifyAll?, unify?_of converts supertypes infers params p,
      unifyAll?_of converts supertypes infers params ps]

end

/-! ### Operations -/

theorem operationType?_of (resolves : other.resolve? = host.resolve?) (site : Site) :
    ∀ e, other.operationType? site e = host.operationType? site e
  | .cast .. | .new .. => by rw [Host.operationType?, Host.operationType?, resolves]
  | .paren _ inner => by
    rw [Host.operationType?, Host.operationType?, operationType?_of resolves site inner]
  | .unary _ .not _ | .unary _ .neg _ | .binary .. | .literal .. | .this _ | .name .. | .member ..
  | .invoke .. | .index .. | .lambda .. => by
    simp only [Host.operationType?]

section

variable (same : other.Reorders host)

include same

/-! ### Conversion and inference of type arguments -/

theorem convertedType? : other.convertedType? = host.convertedType? := by
  funext site
  simp only [Host.convertedType?, same.declaration?, same.resolve?]

theorem operationType? : other.operationType? = host.operationType? := by
  funext site e
  exact operationType?_of same.resolve? site e

theorem convertible : other.convertible = host.convertible := by
  funext source target
  simp only [Host.convertible, same.supertypes]

theorem inferParam? : other.inferParam? = host.inferParam? := by
  funext inferred param arg
  simp only [Host.inferParam?, same.convertible]

theorem unify? : other.unify? = host.unify? := by
  funext params inferred t arg
  exact unify?_of same.convertible same.supertypes same.inferParam? params t inferred arg

/-! ### Names -/

theorem ownerType? : ownerType? other = ownerType? host := by
  funext site
  simp only [Binding.ownerType?, same.declaration?]

theorem resolve : resolve other = resolve host := by
  funext site t
  simp only [Binding.resolve, same.resolve?]

theorem member? : member? other = member? host := by
  funext t name
  simp only [Binding.member?, same.supertypes, same.declaration?, same.resolve?]

theorem bindValueName : bindValueName other = bindValueName host := by
  funext site span n
  simp only [Binding.bindValueName, same.ownerType?, same.member?]

theorem bindName : bindName other = bindName host := by
  funext site span n
  simp only [Binding.bindName, same.bindValueName, same.resolve]

theorem bindPath : bindPath other = bindPath host := by
  funext site span path
  simp only [Binding.bindPath, same.resolve]

theorem bindMember : bindMember other = bindMember host := by
  funext site span n target
  simp only [Binding.bindMember, Binding.bindMember.access, Binding.nestedType?, same.member?,
    same.resolve?]

/-! ### Calls -/

theorem methodsOf : methodsOf other = methodsOf host := by
  funext t name
  simp only [Binding.methodsOf, same.supertypes, same.declaration?]

theorem extensionsOf : extensionsOf other = extensionsOf host := by
  funext name
  simp only [Binding.extensionsOf, same.extensionMethods]

theorem signature? : signature? other = signature? host := by
  funext site c written receiver count
  simp only [Binding.signature?, Binding.writtenTypeArgs?, same.resolveWith?, same.resolve?,
    same.unify?]

theorem fitPlain : fitPlain other = fitPlain host := by
  funext typeParams inferred params args
  fun_induction Binding.fitPlain host typeParams inferred params args <;>
    simp_all [Binding.fitPlain, same.unify?]

theorem fitLambdas : fitLambdas other = fitLambdas host := by
  funext typeParams inferred params args
  fun_induction Binding.fitLambdas host typeParams inferred params args <;>
    simp_all [Binding.fitLambdas, same.unify?]

theorem tryCall : tryCall other = tryCall host := by
  funext site c written receiver args
  simp only [Binding.tryCall, same.signature?, same.fitPlain, same.fitLambdas]

theorem callCandidate : callCandidate other = callCandidate host := by
  funext site n receiver args c
  simp only [Binding.callCandidate, same.tryCall]

theorem callOn : callOn other = callOn host := by
  funext site t n args
  simp only [Binding.callOn, same.methodsOf, same.callCandidate]

theorem callMember : callMember other = callMember host := by
  funext site n args q
  cases q <;> simp only [Binding.callMember, Binding.callExtension, same.callOn, same.extensionsOf,
    same.callCandidate]

theorem elementType? : elementType? other = elementType? host := by
  funext t
  simp only [Binding.elementType?, same.member?]

end

/-! ### Expressions -/

mutual

theorem meaning_apply (same : other.Reorders host) (site : Site) :
    ∀ e, meaning other site e = meaning host site e
  | .literal _ value => by rw [meaning, meaning]
  | .this _ => by rw [meaning, meaning, same.ownerType?]
  | .name span n => by rw [meaning, meaning, same.bindName]
  | .member span target n => by
    rw [meaning, meaning, meaning_apply same site target, same.bindMember, same.bindPath]
  | .invoke _ (.name span n) args => by
    rw [meaning, meaning, arguments_apply same site args, same.ownerType?, same.callOn]
  | .invoke _ (.member _ target n) args => by
    rw [meaning, meaning, meaning_apply same site target, arguments_apply same site args,
      same.callMember]
  | .invoke _ (.literal ..) _ | .invoke _ (.this ..) _ | .invoke _ (.invoke ..) _
  | .invoke _ (.index ..) _ | .invoke _ (.cast ..) _ | .invoke _ (.new ..) _
  | .invoke _ (.lambda ..) _ | .invoke _ (.unary ..) _ | .invoke _ (.binary ..) _
  | .invoke _ (.paren ..) _ => by
    simp only [meaning]
  | .index _ target args => by
    rw [meaning, meaning, meaning_apply same site target, arguments_apply same site args,
      same.elementType?]
  | .cast _ type operand => by
    rw [meaning, meaning, meaning_apply same site operand, same.resolve]
  | .new _ type args => by
    rw [meaning, meaning, arguments_apply same site args, same.resolve]
  | .lambda .. => by rw [meaning, meaning]
  | .unary _ .not operand => by rw [meaning, meaning, meaning_apply same site operand]
  | .unary _ .neg operand => by rw [meaning, meaning, meaning_apply same site operand]
  | .binary _ left op right => by
    rw [meaning, meaning, operand_apply same site left, operand_apply same site right]
  | .paren _ inner => by rw [meaning, meaning, meaning_apply same site inner]

theorem operand_apply (same : other.Reorders host) (site : Site) :
    ∀ e, operand other site e = operand host site e
  | e => by
    unfold operand
    split
    · rfl
    · rw [meaning_apply same site e]

theorem arguments_apply (same : other.Reorders host) (site : Site) :
    ∀ es, Binding.arguments other site es = Binding.arguments host site es
  | [] => by rw [Binding.arguments, Binding.arguments]
  | e :: es => by
    rw [Binding.arguments.eq_def, Binding.arguments.eq_def host]
    split
    · rfl
    · next es rest =>
      cases rest
      rw [arguments_apply same site es]
    · next body es rest =>
      cases rest
      rw [arguments_apply same site es, meaning_apply same site body]
    · next e es _ _ rest =>
      cases rest
      rw [arguments_apply same site es, meaning_apply same site e]

end

theorem speculativeType? (same : other.Reorders host) :
    other.speculativeType? = host.speculativeType? := by
  funext site e
  rw [Host.speculativeType?, Host.speculativeType?, meaning_apply same site e]

theorem nameReferents (same : other.Reorders host) : other.nameReferents = host.nameReferents := by
  funext site e
  rw [Host.nameReferents, Host.nameReferents, meaning_apply same site e]

end Marksmith.Host.Reorders

/-! ### Inference -/

namespace Marksmith.Host.Reorders

open Syntax Resolver

variable {other host : Host} {index' index : MarkerIndex}

section

variable (same : other.Reorders host)

include same

theorem direct? : direct? other = direct? host := by
  funext site e
  simp only [Resolver.direct?, same.convertedType?, same.speculativeType?, same.operationType?]

theorem rebind? : rebind? other = rebind? host := by
  funext site e inferences
  simp only [Resolver.rebind?, same.speculativeType?]

theorem accessedType? : accessedType? other = accessedType? host := by
  funext site referents use
  cases use <;> simp only [Resolver.accessedType?, same.declaration?]

theorem targets : targets other = targets host := by
  funext site
  simp only [Resolver.targets, same.declaration?]

end

variable (same : other.Reorders host) (tracked : index'.tracked = index.tracked)
  (singletons : index'.singletons = index.singletons)

include same tracked singletons

theorem infer : infer other index' = infer host index := by
  funext resolve site referents use
  have patterns : pattern? index' = pattern? index := by
    funext ident t
    simp only [pattern?, tracked, singletons]
  simp only [Resolver.infer, same.accessedType?, patterns, same.declaration?]

theorem tryNames : tryNames other index' = tryNames host index := by
  funext resolve site e referents collected uses
  induction uses generalizing collected with
  | nil => simp only [Resolver.tryNames, same.rebind?]
  | cons use uses ih =>
    simp only [Resolver.tryNames, same.infer tracked singletons, same.rebind?, ih]

theorem resolveWithin : resolveWithin other index' = resolveWithin host index := by
  funext token depth
  induction depth with
  | zero => rfl
  | succ depth ih =>
    funext site e
    simp only [Resolver.resolveWithin, same.direct?, same.nameReferents,
      same.tryNames tracked singletons, ih]

theorem resolveAssignment : resolveAssignment other index' = resolveAssignment host index := by
  funext token site target e
  simp only [Resolver.resolveAssignment, same.targets, same.resolveWithin tracked singletons]

end Marksmith.Host.Reorders

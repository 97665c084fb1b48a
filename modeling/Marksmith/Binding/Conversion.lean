import Marksmith.Binding.Site

/-!
Types of literals and operators, implicit conversions, and the matching of parameter types with
argument types by which the type arguments of a generic method are inferred.
-/

namespace Marksmith

open Syntax

/-- The type of a literal; `null` has none. -/
def literalType? : Literal → Option TypeRef
  | .int _ => some (.named "int")
  | .float text =>
    match text.toList.getLast? with
    | some 'f' | some 'F' => some (.named "float")
    | some 'm' | some 'M' => some (.named "decimal")
    | _ => some (.named "double")
  | .string _ => some (.named "string")
  | .bool _ => some (.named "bool")
  | .null => none

/-- The place of a number type in the order of widening conversions. -/
def numericRank? (name : String) : Option Nat :=
  match name with
  | "byte" | "sbyte" | "short" | "ushort" | "char" | "int" => some 1
  | "uint" => some 2
  | "long" | "ulong" => some 3
  | "float" => some 4
  | "double" => some 5
  | "decimal" => some 6
  | _ => none

/-- The type of an arithmetic operation on numbers: the wider one, and at least `int`. -/
def promote? (left right : TypeRef) : Option TypeRef := do
  let l ← numericRank? left.name
  let r ← numericRank? right.name
  let winner := if l ≥ r then left else right
  return if numericRank? winner.name = some 1 then .named "int" else .named winner.name

/-- The type of an operation whose result is no truth value. An operand without a type is `null`. -/
def operationResult? (op : BinaryOp) (left right : Option TypeRef) : Option TypeRef :=
  match op with
  | .coalesce => (left.or right).map Host.stripNullable
  | _ => do
    let l ← left
    let r ← right
    if l.name == "string" || r.name == "string" then return .named "string" else promote? l r

namespace Host

variable (host : Host)

/-- The type that an expression has by its outermost operation alone. -/
def operationType? (site : Site) : Expr → Option TypeRef
  | .literal _ value => literalType? value
  | .cast _ type _ | .new _ type _ => host.resolve? site.owner type.node
  | .paren _ inner => operationType? site inner
  | .unary _ .not _ => some (.named "bool")
  | .binary _ _ op _ => if op.isBoolean then some (.named "bool") else none
  | _ => none

/-- Whether a value of one type is accepted where another is wanted: equal types, any value as an
object, a number as a number at least as wide, and a subtype as its supertype. -/
def convertible (source target : TypeRef) : Bool :=
  if source = target || target.name == "object" then true
  else
    match numericRank? source.name, numericRank? target.name with
    | some f, some t => f ≤ t
    | some _, none | none, some _ => false
    | none, none => (host.supertypes source).contains target

/-- Type arguments inferred so far. -/
abbrev Inferred := List (String × TypeRef)

/-- Infers a type parameter from an argument, or checks the argument against what it is already. -/
def inferParam? (inferred : Inferred) (param : String) (arg : TypeRef) : Option Inferred :=
  match inferred.lookup param with
  | some bound => if bound = arg || host.convertible arg bound then some inferred else none
  | none => some ((param, arg) :: inferred)

mutual

/-- Matches a parameter's type, which may mention the type parameters `params`, with an argument's
type. -/
def unify? (params : List String) (inferred : Inferred) : TypeRef → TypeRef → Option Inferred
  | ⟨name, args, nullable, rank⟩, arg =>
    let isParam := args.isEmpty && params.contains name
    if rank = 0 && isParam then host.inferParam? inferred name arg
    else if rank ≠ arg.rank then
      if name == "object" && rank = 0 then some inferred else none
    else
      let element := { arg with rank := 0 }
      if isParam then host.inferParam? inferred name element
      else if name == "object" then some inferred
      else
        match (host.supertypes element).find? fun t => Symbol.ofType t = ⟨name, args.length⟩ with
        | some t => unifyAll? params inferred args t.args
        | none => if host.convertible element ⟨name, args, nullable, 0⟩ then some inferred else none

/-- Matches type arguments one by one. -/
def unifyAll? (params : List String) (inferred : Inferred) :
    List TypeRef → List TypeRef → Option Inferred
  | p :: ps, a :: as => do unifyAll? params (← unify? params inferred p a) ps as
  | _, _ => some inferred

end

end Host

namespace Syntax.TypeRef

mutual

/-- Whether one of the type parameters occurs in a type. -/
def mentions (params : List String) : TypeRef → Bool
  | ⟨name, args, _, _⟩ => (args.isEmpty && params.contains name) || mentionsAny params args

/-- Whether one of the type parameters occurs in one of the types. -/
def mentionsAny (params : List String) : List TypeRef → Bool
  | [] => false
  | t :: ts => mentions params t || mentionsAny params ts

end

/-- A type with what has been inferred in place of type parameters. -/
def withInferred (params : List String) (inferred : Host.Inferred) (t : TypeRef) : TypeRef :=
  let bound := params.filter fun p => (inferred.lookup p).isSome
  t.substitute bound (bound.filterMap fun p => inferred.lookup p)

end Syntax.TypeRef

end Marksmith

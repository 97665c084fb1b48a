import Marksmith.Host.Host
import Marksmith.Vocabulary.Engine

/-!
Resolution of type names and substitution of type arguments. A resolved type carries the qualified
names of definitions; type parameters and predefined types keep their bare names. A name is looked
up as it stands, then in the scopes around its context from the inside out, and last by its simple
name if that is unambiguous.
-/

namespace Marksmith

open Syntax (TypeRef)

namespace Syntax.TypeRef

/-- The type argument that stands for a type parameter. -/
def argumentFor? (params : List String) (args : List TypeRef) (name : String) : Option TypeRef := do
  let position ← params.findIdx? (· == name)
  args[position]?

/-- A type argument in place of a parameter that is written with a nullable mark and a rank. -/
def applied (arg : TypeRef) (nullable : Bool) (rank : UInt8) : TypeRef :=
  { arg with nullable := arg.nullable || nullable, rank := arg.rank + rank }

mutual

/-- A type with arguments in place of type parameters. -/
def substitute (params : List String) (args : List TypeRef) : TypeRef → TypeRef
  | ⟨name, targs, nullable, rank⟩ =>
    if params.isEmpty || args.isEmpty then ⟨name, targs, nullable, rank⟩
    else
      match if targs.isEmpty then argumentFor? params args name else none with
      | some arg => arg.applied nullable rank
      | none => ⟨name, substituteAll params args targs, nullable, rank⟩

/-- Several types with arguments in place of type parameters. -/
def substituteAll (params : List String) (args : List TypeRef) : List TypeRef → List TypeRef
  | [] => []
  | t :: ts => substitute params args t :: substituteAll params args ts

end

theorem substituteAll_eq (params : List String) (args ts : List TypeRef) :
    substituteAll params args ts = ts.map (substitute params args) := by
  induction ts with
  | nil => rfl
  | cons t ts ih => simp [substituteAll, ih]

end Syntax.TypeRef

namespace Host

variable (host : Host)

/-- The type parameters that are visible in a declaration: its own and those of the types around
it. -/
def visibleTypeParams (context : Symbol) : List String :=
  match host.declaration? context with
  | none => []
  | some d => (host.enclosing maxNesting d).flatMap (·.typeParams)

/-- A dotted name and its qualifiers, longest first. -/
def scopesFrom (read : List Char) : List Char → List (List Char)
  | [] => [read.reverse]
  | c :: s =>
    if c = '.' then scopesFrom (c :: read) s ++ [read.reverse]
    else scopesFrom (c :: read) s

/-- The scopes around a context, innermost first. -/
def scopes (name : String) : List String := (scopesFrom [] name.toList).map String.ofList

/-- A name without the alias of the global namespace. -/
def withoutAlias (name : String) : String := (Marker.dropBeginning? "global::" name).getD name

/-- The qualified name of the definition that a name denotes in a context. -/
def resolveDefinition? (context : Symbol) (name : String) (arity : Nat) : Option String :=
  let name := withoutAlias name
  if (host.lookup? name arity).isSome then some name
  else
    let declares (scope : String) := (host.lookup? (scope ++ "." ++ name) arity).isSome
    match (scopes context.name).find? declares with
    | some scope => some (scope ++ "." ++ name)
    | none =>
      if name.toList.contains '.' then none
      else
        let suits (d : TypeDecl) := d.typeParams.length == arity && d.simpleName == name
        match host.declarations.filter suits with
        | [d] => some d.name
        | _ => none

mutual

/-- A type as it is meant in a context, where further type parameters may be visible. -/
def resolveWith? (context : Symbol) (extra : List String) : TypeRef → Option TypeRef
  | ⟨name, args, nullable, rank⟩ => do
    let resolved ← resolveAll? context extra args
    if args.isEmpty && (Engine.isPredefinedType name || extra.contains name ||
        (host.visibleTypeParams context).contains name) then
      return ⟨name, resolved, nullable, rank⟩
    else
      let definition ← host.resolveDefinition? context name args.length
      return ⟨definition, resolved, nullable, rank⟩

/-- Several types as they are meant in a context. -/
def resolveAll? (context : Symbol) (extra : List String) : List TypeRef → Option (List TypeRef)
  | [] => some []
  | t :: ts => do
    let first ← resolveWith? context extra t
    let rest ← resolveAll? context extra ts
    return first :: rest

end

/-- A type as it is meant in a context. -/
def resolve? (context : Symbol) (t : TypeRef) : Option TypeRef := host.resolveWith? context [] t

/-! ### Supertypes and fields -/

/-- The base type, with type arguments in place. -/
def baseType? (t : TypeRef) : Option TypeRef := do
  let d ← host.declaration? (.ofType t)
  let base ← host.resolve? d.symbol (← d.base)
  return base.substitute d.typeParams t.args

/-- The interfaces that a type's declaration lists, with type arguments in place. -/
def declaredInterfaces (t : TypeRef) : List TypeRef :=
  match host.declaration? (.ofType t) with
  | none => []
  | some d =>
    (d.interfaces.filterMap (host.resolve? d.symbol)).map (·.substitute d.typeParams t.args)

/-- The fields of a type that are neither static nor constant, with their types if they resolve. -/
def instanceFields (t : TypeRef) : List (String × Option TypeRef) :=
  match host.declaration? (.ofType t) with
  | none => []
  | some d =>
    (d.fields.filter fun f => !f.isStatic && !f.isConst).map fun f =>
      (f.name, (host.resolve? d.symbol f.type).map (·.substitute d.typeParams t.args))

/-- The walk of `implements`, over the types still to be visited, last one first; nothing if the
steps do not suffice. -/
def implementsWithin? (target : Symbol) :
    (steps : Nat) → (visited stack : List TypeRef) → Option Bool
  | _, _, [] => some false
  | 0, _, _ :: _ => none
  | steps + 1, visited, t :: stack =>
    if Symbol.ofType t = target then some true
    else if t ∈ visited then implementsWithin? target steps visited stack
    else
      implementsWithin? target steps (t :: visited)
        ((host.baseType? t).toList ++ ((host.declaredInterfaces t).reverse ++ stack))

/-- Whether a type is, derives from or implements a definition. -/
def implements (t : TypeRef) (target : Symbol) : Bool :=
  (host.implementsWithin? target host.stepLimit [] [t]).getD false

/-- The walk of `supertypes`, breadth first; nothing if the steps do not suffice. -/
def supertypesWithin? : (steps : Nat) → (seen queue : List TypeRef) → Option (List TypeRef)
  | _, _, [] => some []
  | 0, _, _ :: _ => none
  | steps + 1, seen, t :: queue =>
    if t ∈ seen then supertypesWithin? steps seen queue
    else
      (supertypesWithin? steps (t :: seen)
        (queue ++ (host.baseType? t).toList ++ host.declaredInterfaces t)).map (t :: ·)

/-- A type without its nullable mark. -/
def stripNullable (t : TypeRef) : TypeRef := { t with nullable := false }

/-- A type and its supertypes, nearest first. -/
def supertypes (t : TypeRef) : List TypeRef :=
  (host.supertypesWithin? host.stepLimit [] [stripNullable t]).getD []

end Host

end Marksmith

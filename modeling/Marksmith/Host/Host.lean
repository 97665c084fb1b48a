import Marksmith.Host.Symbol
import Marksmith.Model.Prelude

/-!
The host: the declarations of a project together with those of the prelude. A model is accepted if
no type is declared twice and every containing type is declared; a declaration of the project hides
the prelude's declaration of the same symbol.
-/

namespace Marksmith

open Syntax (TypeRef)

/-- The symbol that a declaration defines. -/
def TypeDecl.symbol (d : TypeDecl) : Symbol := ⟨d.name, d.typeParams.length⟩

/-- Why a model is not accepted. -/
inductive ModelError where
  | duplicateType (symbol : Symbol)
  | unknownContainingType (nested containing : String)
deriving DecidableEq, Repr

/-- The wording of a model error. -/
def ModelError.message : ModelError → String
  | duplicateType symbol => "type `" ++ symbol.text ++ "` is declared more than once"
  | unknownContainingType nested containing =>
    "type `" ++ nested ++ "` names unknown containing type `" ++ containing ++ "`"

/-- A project with everything it can see. -/
structure Host where
  /-- The model; its types include those of the prelude. -/
  model : Model
  /-- The number of types that a walk over a type graph may visit. Generic declarations that mention
  themselves with ever larger type arguments have no end otherwise. -/
  stepLimit : Nat
deriving Inhabited

namespace Host

/-- The first symbol that an earlier declaration defines already. -/
def firstDuplicate? (seen : List Symbol) : List TypeDecl → Option Symbol
  | [] => none
  | d :: ds => if d.symbol ∈ seen then some d.symbol else firstDuplicate? (d.symbol :: seen) ds

/-- The prelude's declarations that a project does not hide. -/
def visiblePrelude (types : List TypeDecl) : List TypeDecl :=
  Prelude.types.filter fun d => !(types.any fun t => t.symbol = d.symbol)

/-- The first declaration whose containing type is not declared. -/
def firstUnknownContaining? (types : List TypeDecl) : Option (String × String) :=
  types.findSome? fun d =>
    match d.containing with
    | none => none
    | some outer => if types.any (·.name == outer) then none else some (d.name, outer)

/-- A number of steps that no project's types come near. -/
def usualStepLimit : Nat := 10000

/-- The host of a model, if it is accepted. -/
def ofModel (stepLimit : Nat) (model : Model) : Except ModelError Host :=
  match firstDuplicate? [] model.types with
  | some symbol => .error (.duplicateType symbol)
  | none =>
    let types := model.types ++ visiblePrelude model.types
    match firstUnknownContaining? types with
    | some (nested, containing) => .error (.unknownContainingType nested containing)
    | none => .ok ⟨{ model with types }, stepLimit⟩

variable (host : Host)

/-- Every declaration: the project's own in order, then the prelude's. -/
def declarations : List TypeDecl := host.model.types

/-- The declaration of a name with a number of type parameters. -/
def lookup? (name : String) (arity : Nat) : Option TypeDecl :=
  host.declarations.find? fun d => d.name == name && d.typeParams.length == arity

/-- The declaration of a symbol. -/
def declaration? (s : Symbol) : Option TypeDecl := host.lookup? s.name s.arity

/-- Whether a type's definition is declared. -/
def declares (t : TypeRef) : Bool := (host.declaration? (.ofType t)).isSome

/-- The numbers of type parameters that are tried where only a name is known. -/
def maxArity : Nat := 8

/-- The number of types that may be nested in one another. -/
def maxNesting : Nat := 16

/-- The declaration around a nested one. -/
def containing? (d : TypeDecl) : Option TypeDecl := do
  let outer ← d.containing
  (List.range (maxArity + 1)).findSome? fun arity => host.lookup? outer arity

/-- A declaration and those around it, innermost first, at most `limit` of them. -/
def enclosing : (limit : Nat) → TypeDecl → List TypeDecl
  | 0, _ => []
  | limit + 1, d =>
    d :: (match host.containing? d with
      | some outer => enclosing limit outer
      | none => [])

/-- Everything before the last point of a dotted name. -/
def qualifier? (name : String) : Option String :=
  match name.toList.reverse.dropWhile (· != '.') with
  | [] => none
  | _ :: before => some (String.ofList before.reverse)

/-- The namespace of a declaration: the qualifier of the outermost type around it. -/
def namespace? (s : Symbol) : Option String := do
  let d ← host.declaration? s
  let outermost ← (host.enclosing (maxNesting + 1) d).getLast?
  qualifier? outermost.name

/-- Extension methods with the types that declare them. A method without a receiver is none. -/
def extensionMethods : List (TypeDecl × MethodDecl) :=
  host.declarations.flatMap fun d =>
    (d.methods.filter fun m => m.isExtension && !m.params.isEmpty).map fun m => (d, m)

end Host

end Marksmith

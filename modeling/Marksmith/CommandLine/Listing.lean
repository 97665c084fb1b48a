import Marksmith.Inference.Resolver
import Marksmith.Union.Case

/-!
Listings: the ids of union variants, and how the assignments of a method resolve.
-/

namespace Marksmith

open Syntax

/-- The name of a strategy in listings. -/
def Strategy.text : Strategy → String
  | convertedType => "ConvertedType"
  | speculativeBinding => "SpeculativeBinding"
  | operationType => "OperationType"
  | instancesPattern => "InstancesPattern"
  | instancePattern => "InstancePattern"
  | siblingAssignment => "SiblingAssignment"

namespace Listing

/-- A number with blanks in front, at least three characters wide. -/
def alignedNumber (n : Nat) : String :=
  let digits := toString n
  String.ofList (List.replicate (3 - digits.length) ' ') ++ digits

/-- The line of a variant. -/
def variantLine (id : Nat) (v : UnionVariant) : String :=
  "  " ++ alignedNumber id ++ "  " ++ v.symbol.text ++
    (if v.forcedId.isSome then " (forced)" else "")

/-- The lines of a family: its root header, and its variants by id or the error. -/
def familyLines (family : UnionFamily) : List String :=
  family.root.text ::
    match family.ids with
    | .ok ids => (UnionFamily.byId ids family.variants).map fun (id, v) => variantLine id v
    | .error e => ["  error: " ++ e.message]

/-- The lines about all unions. -/
def unionLines (index : MarkerIndex) : List String :=
  index.families.values.flatMap familyLines ++
    index.orphanVariants.map fun s => s.text ++ ": no union header"

/-- Lines as a text. -/
def textOf (lines : List String) : String := String.join (lines.map (· ++ "\n"))

/-- Why there is no listing of a method. -/
inductive MethodError where
  | unknownType (name : String)
  | unknownMethod (type method : String)
deriving DecidableEq, Repr

/-- The wording of a method error. -/
def MethodError.message : MethodError → String
  | unknownType name => "Type '" ++ name ++ "' is not declared in the model"
  | unknownMethod type method => "'" ++ type ++ "' has no method '" ++ method ++ "'"

variable (host : Host) (index : MarkerIndex) (token : Token)

/-- The line of a statement; an expression that is not assigned has none. -/
def statementLine? (owner : Symbol) (method : String) (place : Nat) (s : BodyStatement) :
    Option String :=
  match parseStatement s.text with
  | .error e => some (s.text ++ ": parse error: " ++ e.message)
  | .ok (.expr _) => none
  | .ok (.assign _ target value) =>
    match Resolver.resolveAssignment host index token ⟨owner, some method, some place⟩ target.node
        value with
    | .ok r => some (target.node ++ " = " ++ r.type.text ++ "  [" ++ r.strategy.text ++ "]")
    | .error e => some (target.node ++ ": " ++ e.message)

/-- The lines about the assignments of a method. Type and method are the first ones of their
names. -/
def methodLines (typeName method : String) : Except MethodError (List String) :=
  match host.declarations.find? (·.name == typeName) with
  | none => .error (.unknownType typeName)
  | some d =>
    match d.methods.find? (·.name == method) with
    | none => .error (.unknownMethod typeName method)
    | some m => .ok (m.body.zipIdx.filterMap fun (s, i) =>
        statementLine? host index token d.symbol method i s)

end Listing

end Marksmith

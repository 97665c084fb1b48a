import Marksmith.Analysis.Cancellation
import Marksmith.Host.Resolve

/-!
Signatures of a dispatch interface: its abstract members and those of the interfaces it extends, by
distance. Of members of the same shape the nearest one counts.
-/

namespace Marksmith

open Syntax (TypeRef)

namespace Union

/-- The kinds of members that can be dispatched. -/
inductive MemberKind where
  | method | property
deriving DecidableEq, Repr

structure ParamSignature where
  name : String
  type : TypeRef
  mode : PassMode
deriving DecidableEq, Repr

/-- A member that can be dispatched. -/
structure MemberSignature where
  name : String
  kind : MemberKind
  typeParams : List String
  params : List ParamSignature
  returns : TypeRef
  /-- The distance from the dispatch interface. -/
  depth : Nat
deriving DecidableEq, Repr

/-- What tells members apart: a member of the same shape needs no dispatcher of its own. -/
structure MemberShape where
  name : String
  kind : MemberKind
  typeParamCount : Nat
  params : List (PassMode × TypeRef)
deriving DecidableEq, Repr

namespace MemberSignature

/-- The shape of a member. -/
def shape (m : MemberSignature) : MemberShape :=
  ⟨m.name, m.kind, m.typeParams.length, m.params.map fun p => (p.mode, p.type)⟩

/-- Whether a member gives no value. -/
def isVoid (m : MemberSignature) : Bool := m.returns.name == "void" && m.returns.args.isEmpty

/-- Members are ordered by distance and name. -/
def notAfter (a b : MemberSignature) : Bool :=
  ((Ord.compare a.depth b.depth).then (Ord.compare a.name b.name)).isLE

end MemberSignature

section

variable (host : Host)

/-- A type in a member of an interface with type arguments. A type that does not resolve stays as it
is written. -/
def memberType (d : TypeDecl) (i : TypeRef) (methodParams : List String) (t : TypeRef) : TypeRef :=
  if t.args.isEmpty && methodParams.contains t.name then t
  else
    match host.resolve? d.symbol t with
    | some resolved => resolved.substitute d.typeParams i.args
    | none => t

/-- The abstract members that an interface declares. -/
def declaredMembers (d : TypeDecl) (i : TypeRef) (depth : Nat) : List MemberSignature :=
  (d.properties.filter fun p => !p.isStatic && !p.hasBody).map (fun p =>
    ⟨p.name, .property, [], [], memberType host d i [] p.type, depth⟩) ++
  (d.methods.filter fun m => !m.isStatic && m.body.isEmpty).map (fun m =>
    ⟨m.name, .method, m.typeParams,
      m.params.map (fun p => ⟨p.name, memberType host d i m.typeParams p.type, p.mode⟩),
      memberType host d i m.typeParams m.returns, depth⟩)

/-- The abstract members of an interface, if it is declared. -/
def membersOf (depth : Nat) (i : TypeRef) : List MemberSignature :=
  match host.declaration? (.ofType i) with
  | some d => declaredMembers host d i depth
  | none => []

/-- The members whose shapes are not found already, each shape once. -/
def newShapes (found : List MemberShape) : List MemberSignature → List MemberSignature
  | [] => []
  | m :: ms =>
    if m.shape ∈ found then newShapes found ms else m :: newShapes (m.shape :: found) ms

/-- The types of a list that have not been seen, each once. -/
def newTypes (seen : List TypeRef) : List TypeRef → List TypeRef
  | [] => []
  | t :: ts => if t ∈ seen then newTypes seen ts else t :: newTypes (t :: seen) ts

/-- Whether a type may stand before another one, by their texts. -/
def textNotAfter (a b : TypeRef) : Bool := (Ord.compare a.text b.text).isLE

/-- The walk of `signatures`, level by level; nothing if the levels do not suffice. -/
def signaturesWithin? : (levels depth : Nat) → (seen : List TypeRef) → (found : List MemberShape) →
    (level : List TypeRef) → Option (List MemberSignature)
  | _, _, _, _, [] => some []
  | 0, _, _, _, _ :: _ => none
  | levels + 1, depth, seen, found, i :: is =>
    let level := (i :: is).mergeSort textNotAfter
    let members := newShapes found (level.flatMap (membersOf host depth))
    let next := newTypes seen (level.flatMap host.declaredInterfaces)
    (signaturesWithin? levels (depth + 1) (next ++ seen) (members.map (·.shape) ++ found) next).map
      (members ++ ·)

/-- The members that a dispatch interface and the interfaces it extends ask for, by distance and
name. -/
def signatures (dispatch : TypeRef) : List MemberSignature :=
  ((signaturesWithin? host host.stepLimit 0 [dispatch] [] [dispatch]).getD []).mergeSort
    MemberSignature.notAfter

/-- The members of a dispatch interface, unless the walk is cancelled. -/
def signaturesUnless (token : Token) (dispatch : TypeRef) :
    Except Cancelled (List MemberSignature) := do
  token.checkpoint
  return signatures host dispatch

end

end Union

end Marksmith

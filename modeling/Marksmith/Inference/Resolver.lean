import Marksmith.Analysis.Index
import Marksmith.Binding.Binder
import Marksmith.Syntax.Expr.Cast
import Marksmith.Syntax.Expr.Names
import Marksmith.Syntax.Parser
import Marksmith.Syntax.Printer
import Marksmith.Vocabulary.Runtime

/-!
Types of expressions that mention members which are only about to be generated. The host is asked
first. If it has no answer, a type is inferred for the names that are bound to nothing, in source
order: `Instances` of a tracked type, `Instance` of a singleton, or the type of a sibling assignment
to the name. The expression is bound again with a cast around the inferred name; the first name
whose cast gives a type decides, and otherwise all casts together.

A sibling assignment is resolved in turn. The targets on the way are guarded, so that none is
resolved for the sake of itself; the guard is left as it was found.
-/

namespace Marksmith

open Syntax

/-- The step that gave a type. -/
inductive Strategy where
  | convertedType | speculativeBinding | operationType
  /-- `Instances` of a tracked type. -/
  | instancesPattern
  /-- `Instance` of a singleton. -/
  | instancePattern
  /-- The assignment of a sibling. -/
  | siblingAssignment
deriving DecidableEq, Repr

/-- A type inferred for a name, with the span that the cast is put around. -/
structure Inference where
  ident : String
  span : Span
  type : TypeRef
  strategy : Strategy
deriving DecidableEq, Repr

/-- The type of an expression, with the inferences that gave it. -/
structure Resolution where
  type : TypeRef
  strategy : Strategy
  inferences : List Inference
deriving DecidableEq, Repr

/-- Why an expression has no type. -/
inductive ResolveError where
  | undetermined (expression : String)
  | cancelled
deriving DecidableEq, Repr

/-- The wording of a resolve error. -/
def ResolveError.message : ResolveError → String
  | undetermined expression => "could not determine expression type of `" ++ expression ++ "`"
  | cancelled => Cancelled.cancelled.message

namespace Resolver

/-- A computation over the guarded targets. -/
abbrev Resolve := ExceptT ResolveError (StateM (List String))

section

variable (host : Host) (index : MarkerIndex)

/-- The type that the host gives an expression: the recorded type of the statement, the type that
binding finds, or the type of the operation. -/
def direct? (site : Site) (e : Expr) : Option Resolution :=
  ((host.convertedType? site).map fun t => ⟨t, .convertedType, []⟩).or <|
    ((host.speculativeType? site e).map fun t => ⟨t, .speculativeBinding, []⟩).or <|
      (host.operationType? site e).map fun t => ⟨t, .operationType, []⟩

/-- Whether a name refers to something. -/
def isBound (referents : List (Span × Referent)) (use : NameUse) : Bool :=
  let known (span : Span) := (referents.lookup span).isSome
  match use with
  | .bare _ span => known span
  | .member _ span _ access => known span || known access

/-- The expression with all inferred casts. -/
def withCasts? (e : Expr) : List Inference → Option Expr
  | [] => some e
  | i :: is => do withCasts? (← e.insertCast? i.span i.type) is

/-- The type of the expression with casts around inferred names. -/
def rebind? (site : Site) (e : Expr) (inferences : List Inference) : Option TypeRef := do
  host.speculativeType? site (← withCasts? e inferences)

/-- The type that a name's access is made on: the qualifier, or the owner of a bare name. -/
def accessedType? (site : Site) (referents : List (Span × Referent)) : NameUse → Option TypeRef
  | .bare _ _ => (host.declaration? site.owner).map (·.selfType)
  | .member _ _ target _ =>
    match referents.lookup target.span with
    | some (.type t) => some t
    | _ => none

/-- The span that a cast for a name is put around. -/
def castSpan : NameUse → Span
  | .bare _ span => span
  | .member _ _ _ access => access

/-- The type of a member that tracking or a singleton will add to a type. -/
def pattern? (ident : String) (t : TypeRef) : Option (TypeRef × Strategy) :=
  if ident == "Instances" && index.tracked.containsType t then
    some (.generic Runtime.trackedInstances [t], .instancesPattern)
  else if ident == "Instance" && index.singletons.containsType t then some (t, .instancePattern)
  else none

/-- Whether a name is a member of the owner itself: a bare name, or one behind `this`. -/
def isOwnMember : NameUse → Bool
  | .bare _ _ => true
  | .member _ _ (.this _) _ => true
  | .member .. => false

/-- The assignments in a method body, each with its place in the body. -/
def assignmentsOf (m : MethodDecl) : List (Nat × Located String × Expr) :=
  m.body.zipIdx.filterMap fun (statement, i) =>
    match parseStatement statement.text with
    | .ok (.assign _ target value) => some (i, target, value)
    | _ => none

/-- The assignments in all methods of a type that are marked for injection. -/
def siblings (d : TypeDecl) : List (MethodDecl × Nat × Located String × Expr) :=
  (d.methods.filter fun m => (Attribute.find? .inject m.attributes).isSome).flatMap fun m =>
    (assignmentsOf m).map fun a => (m, a)

/-- The first assignment to a name, with its site. -/
def sibling? (owner : Symbol) (d : TypeDecl) (ident : String) : Option (Site × Expr) :=
  ((siblings d).find? fun (_, _, target, _) => target.node == ident).map
    fun (m, i, _, value) => (⟨owner, some m.name, some i⟩, value)

/-- Runs a computation with a target guarded; nothing if the target is guarded already. -/
def guarding (ident : String) (r : Resolve (Option TypeRef)) : Resolve (Option TypeRef) :=
  ExceptT.mk do
    if (← get).contains ident then return .ok none
    modify (ident :: ·)
    let result ← r.run
    modify (·.erase ident)
    return result

/-- The type of a sibling's assignment, if it has one. -/
def siblingType (r : Resolve Resolution) : Resolve (Option TypeRef) := ExceptT.mk do
  match ← r.run with
  | .ok resolution => return .ok (some resolution.type)
  | .error (.undetermined _) => return .ok none
  | .error .cancelled => return .error .cancelled

/-- The inference for an unbound name; `resolve` resolves sibling assignments. -/
def infer (resolve : Site → Expr → Resolve Resolution) (site : Site)
    (referents : List (Span × Referent)) (use : NameUse) : Resolve (Option Inference) :=
  let found (t : TypeRef) (s : Strategy) : Inference := ⟨use.ident, castSpan use, t, s⟩
  match (accessedType? host site referents use).bind (pattern? index use.ident) with
  | some (t, strategy) => return some (found t strategy)
  | none =>
    match host.declaration? site.owner with
    | none => return none
    | some owner =>
      if isOwnMember use then do
        let type? ← guarding use.ident
          (match sibling? site.owner owner use.ident with
          | none => return none
          | some (sibling, value) => siblingType (resolve sibling value))
        return type?.map fun t => found t .siblingAssignment
      else return none

/-- Tries the unbound names from the left; `collected` are the inferences that did not suffice on
their own. -/
def tryNames (resolve : Site → Expr → Resolve Resolution) (site : Site) (e : Expr)
    (referents : List (Span × Referent)) (collected : List Inference) :
    List NameUse → Resolve Resolution
  | [] =>
    match collected with
    | first :: _ :: _ =>
      match rebind? host site e collected with
      | some t => return ⟨t, first.strategy, collected⟩
      | none => throw (.undetermined e.text)
    | _ => throw (.undetermined e.text)
  | use :: uses => do
    match ← infer host index resolve site referents use with
    | none => tryNames resolve site e referents collected uses
    | some inference =>
      match rebind? host site e [inference] with
      | some t => return ⟨t, inference.strategy, [inference]⟩
      | none => tryNames resolve site e referents (collected ++ [inference]) uses

/-- Resolves an expression at a site. Sibling assignments are followed `depth` levels deep, which
suffices if it is more than the number of targets that are not guarded. -/
def resolveWithin (token : Token) : (depth : Nat) → Site → Expr → Resolve Resolution
  | 0, _, e => throw (.undetermined e.text)
  | depth + 1, site, e =>
    if token.cancelled then throw .cancelled
    else
      match direct? host site e with
      | some resolution => return resolution
      | none =>
        let referents := host.nameReferents site e
        tryNames host index (resolveWithin token depth) site e referents []
          (e.names.filter fun use => !isBound referents use)

/-- The targets that the owner of a site assigns to. -/
def targets (site : Site) : List String :=
  match host.declaration? site.owner with
  | none => []
  | some d => ((siblings d).map fun (_, _, target, _) => target.node).eraseDups

/-- Resolves an expression at a site. -/
def resolve (token : Token) (site : Site) (e : Expr) : Except ResolveError Resolution :=
  ((resolveWithin host index token ((targets host site).length + 1) site e).run.run []).1

/-- Resolves the value of an assignment to `target`, which is never inferred from itself. -/
def resolveAssignment (token : Token) (site : Site) (target : String) (e : Expr) :
    Except ResolveError Resolution :=
  ((resolveWithin host index token ((targets host site).length + 1) site e).run.run [target]).1

end

end Resolver

end Marksmith

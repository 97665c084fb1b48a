import Marksmith.Analysis.Cancellation
import Marksmith.Host.Resolve
import Marksmith.Syntax.Expr.Names
import Marksmith.Syntax.Parser

/-!
Dependencies: every declaration that generating for some roots can read. From a declaration one gets
to the types that it mentions and to the type around it; from a root also to the types that its
method bodies mention and, if there are any statements, to every declaration of extension methods.
-/

namespace Marksmith

open Syntax

/-- The types that a body statement can bind to: those that are written, and every name. -/
def BodyStatement.mentions (s : BodyStatement) : List TypeRef :=
  match parseStatement s.text with
  | .ok parsed => parsed.value.types ++ parsed.value.names.map fun use => .named use.ident
  | .error _ => []

/-- The types in the signature of a declaration. -/
def TypeDecl.referencedTypes (d : TypeDecl) : List TypeRef :=
  d.base.toList ++ d.interfaces ++ d.fields.map (·.type) ++ d.properties.map (·.type) ++
    d.methods.flatMap fun m => m.returns :: m.params.map (·.type)

namespace Host

variable (host : Host)

mutual

/-- The declared definitions in a type, type arguments included. -/
def declaredIn : TypeRef → List Symbol
  | ⟨name, args, _, _⟩ =>
    (if (host.lookup? name args.length).isSome then [⟨name, args.length⟩] else []) ++
      declaredInAll args

/-- The declared definitions in several types. -/
def declaredInAll : List TypeRef → List Symbol
  | [] => []
  | t :: ts => declaredIn t ++ declaredInAll ts

end

/-- The declared definitions in a type as it is meant in a context. -/
def reachedBy (context : Symbol) (t : TypeRef) : List Symbol :=
  match host.resolve? context t with
  | some resolved => host.declaredIn resolved
  | none => []

/-- The definitions that a declaration mentions. -/
def successors (s : Symbol) : List Symbol :=
  match host.declaration? s with
  | none => []
  | some d =>
    (d.containing.toList.map TypeRef.named ++ d.referencedTypes).flatMap (host.reachedBy s)

/-- The statements in the bodies of a symbol's methods. -/
def bodiesOf (s : Symbol) : List BodyStatement :=
  match host.declaration? s with
  | none => []
  | some d => d.methods.flatMap (·.body)

/-- The definitions that the method bodies of a root mention. -/
def bodySuccessors (s : Symbol) : List Symbol :=
  (host.bodiesOf s).flatMap fun statement => statement.mentions.flatMap (host.reachedBy s)

/-- The declarations of extension methods. -/
def extensionOwners : List Symbol :=
  (host.declarations.filter fun d => d.methods.any (·.isExtension)).map (·.symbol)

/-- Where the search for dependencies begins. -/
def closureStart (roots : List Symbol) : List Symbol :=
  roots ++ roots.flatMap host.bodySuccessors ++
    (if roots.all fun r => (host.bodiesOf r).isEmpty then [] else host.extensionOwners)

/-- A sorted set of symbols with more symbols, and those that are new. -/
def addSymbols (found : List Symbol) : List Symbol → List Symbol × List Symbol
  | [] => (found, [])
  | s :: ss =>
    if s ∈ found then addSymbols found ss
    else
      let (all, new) := addSymbols (s.insertSorted found) ss
      (all, s :: new)

/-- The search in rounds: in each round the symbols that are new are followed. -/
def closureWithin : (rounds : Nat) → (found frontier : List Symbol) → List Symbol
  | 0, found, _ => found
  | rounds + 1, found, frontier =>
    match addSymbols found frontier with
    | (all, []) => all
    | (all, new) => closureWithin rounds all (new.flatMap host.successors)

/-- The dependencies of some roots, sorted. Every round but the first finds a declaration that no
earlier one has found, so the rounds suffice. -/
def dependencyClosure (roots : List Symbol) : List Symbol :=
  host.closureWithin (host.declarations.length + 2) [] (host.closureStart roots)

/-- The dependencies of some roots, unless the search is cancelled. -/
def dependencyClosureUnless (token : Token) (roots : List Symbol) :
    Except Cancelled (List Symbol) :=
  if (host.closureStart roots).isEmpty then .ok []
  else do
    token.checkpoint
    return host.dependencyClosure roots

end Host

end Marksmith

import Marksmith.Host.Resolve
import Marksmith.Syntax.Expr

/-!
Where an expression is bound, and what its names refer to.
-/

namespace Marksmith

open Syntax

/-- The place of an expression: a statement of a method of a declaration. -/
structure Site where
  owner : Symbol
  method : Option String := none
  statement : Option Nat := none
deriving DecidableEq, Repr

/-- What a name refers to. -/
inductive Referent where
  /-- A type that qualifies what follows. -/
  | type (t : TypeRef)
  | field (owner : Symbol) (name : String) (t : TypeRef)
  | property (owner : Symbol) (name : String) (t : TypeRef)
  | method (owner : Symbol) (name : String) (returns : TypeRef)
  /-- A lambda parameter. -/
  | local (name : String) (t : TypeRef)
deriving DecidableEq, Repr

namespace Host

/-- The type that the compiler has recorded for the value of the statement at a site. -/
def convertedType? (host : Host) (site : Site) : Option TypeRef := do
  let d ← host.declaration? site.owner
  let name ← site.method
  let method ← d.methods.find? (·.name == name)
  let statement ← method.body[← site.statement]?
  host.resolve? site.owner (← statement.annotation)

end Host

end Marksmith

import Marksmith.Syntax.Expr

/-!
The names and types that occur in an expression, in source order. Lambda parameters are declarations
and are not listed; their uses are.
-/

namespace Marksmith.Syntax

/-- An occurrence of a name: on its own, or behind the point of a member access. -/
inductive NameUse where
  | bare (name : SimpleName) (span : Span)
  | member (name : SimpleName) (span : Span) (target : Expr) (access : Span)
deriving Repr

namespace NameUse

/-- The identifier of the name. -/
def ident : NameUse → String
  | bare name _ | member name _ _ _ => name.ident

/-- The span of the name itself. -/
def span : NameUse → Span
  | bare _ span | member _ span _ _ => span

end NameUse

namespace Expr

mutual

/-- The names that occur in an expression, in source order. -/
def names : Expr → List NameUse
  | name s n => [.bare n s]
  | literal _ _ | this _ => []
  | member s target n => names target ++ [.member n.node n.span target s]
  | invoke _ callee args | index _ callee args => names callee ++ namesList args
  | cast _ _ operand | unary _ _ operand | paren _ operand | lambda _ _ operand => names operand
  | new _ _ args => namesList args
  | binary _ left _ right => names left ++ names right

/-- The names that occur in several expressions. -/
def namesList : List Expr → List NameUse
  | [] => []
  | e :: es => names e ++ namesList es

end

theorem namesList_eq (es : List Expr) : namesList es = es.flatMap names := by
  induction es with
  | nil => rfl
  | cons e es ih => simp [namesList, ih]

/-- The types written at a node itself. -/
def ownTypes : Expr → List TypeRef
  | name _ n => n.typeArgs
  | member _ _ n => n.node.typeArgs
  | cast _ type _ | new _ type _ => [type.node]
  | _ => []

/-- The types written in an expression: those of a node stand before those of its parts. -/
def types (e : Expr) : List TypeRef := e.nodes.flatMap ownTypes

end Expr

end Marksmith.Syntax

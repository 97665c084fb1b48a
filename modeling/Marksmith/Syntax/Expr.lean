import Marksmith.Syntax.Span
import Marksmith.Syntax.Token
import Marksmith.Syntax.TypeRef

/-!
Expressions and statements of method bodies. Every node of an expression carries the span it was
read from. `Expr.children` lists the direct parts of a node in source order, and `Expr.nodes` all
nodes of a tree. Operators have marks, precedence and associativity.
-/

namespace Marksmith.Syntax

/-! ### Operators -/

/-- Operators in front of an operand. -/
inductive UnaryOp where
  | not | neg
deriving DecidableEq, Repr

namespace UnaryOp

/-- The mark of a unary operator. -/
def punct : UnaryOp → Punct
  | not => .bang
  | neg => .minus

/-- The unary operator that a mark denotes. -/
def ofPunct? : Punct → Option UnaryOp
  | .bang => some not
  | .minus => some neg
  | _ => none

theorem ofPunct?_eq_some_iff {p : Punct} {op : UnaryOp} :
    ofPunct? p = some op ↔ p = op.punct := by
  cases p <;> cases op <;> simp [ofPunct?, punct]

end UnaryOp

/-- Operators between two operands. -/
inductive BinaryOp where
  | coalesce | or | and | eq | notEq | lt | gt | ltEq | gtEq | add | sub | mul | div
deriving DecidableEq, Repr

namespace BinaryOp

/-- The mark of a binary operator. -/
def punct : BinaryOp → Punct
  | coalesce => .questionQuestion
  | or => .orOr
  | and => .andAnd
  | eq => .eqEq
  | notEq => .notEq
  | lt => .lt
  | gt => .gt
  | ltEq => .ltEq
  | gtEq => .gtEq
  | add => .plus
  | sub => .minus
  | mul => .star
  | div => .slash

/-- The binary operator that a mark denotes. -/
def ofPunct? : Punct → Option BinaryOp
  | .questionQuestion => some coalesce
  | .orOr => some or
  | .andAnd => some and
  | .eqEq => some eq
  | .notEq => some notEq
  | .lt => some lt
  | .gt => some gt
  | .ltEq => some ltEq
  | .gtEq => some gtEq
  | .plus => some add
  | .minus => some sub
  | .star => some mul
  | .slash => some div
  | _ => none

theorem ofPunct?_eq_some_iff {p : Punct} {op : BinaryOp} :
    ofPunct? p = some op ↔ p = op.punct := by
  cases p <;> cases op <;> simp [ofPunct?, punct]

/-- How tightly an operator binds; higher binds tighter. -/
def precedence : BinaryOp → Nat
  | coalesce => 1
  | or => 2
  | and => 3
  | eq | notEq => 4
  | lt | gt | ltEq | gtEq => 5
  | add | sub => 6
  | mul | div => 7

/-- `??` groups to the right, every other operator to the left. -/
def groupsRight (op : BinaryOp) : Bool := op == coalesce

/-- The least precedence of an operator in the right operand that needs no parentheses. -/
def rightBound (op : BinaryOp) : Nat :=
  if op.groupsRight then op.precedence else op.precedence + 1

/-- Whether the result is a truth value, whatever the operands are. -/
def isBoolean : BinaryOp → Bool
  | coalesce | add | sub | mul | div => false
  | _ => true

end BinaryOp

/-! ### Expressions -/

/-- An identifier with explicit type arguments, such as `GetComponent<Rigidbody>`. -/
structure SimpleName where
  ident : String
  typeArgs : List TypeRef
deriving DecidableEq, Repr

/-- Literals. Real numbers keep the text they were written with. -/
inductive Literal where
  | int (value : Nat)
  | float (text : String)
  | string (value : String)
  | bool (value : Bool)
  | null
deriving DecidableEq, Repr

/-- Expressions. -/
inductive Expr where
  | name (span : Span) (name : SimpleName)
  | literal (span : Span) (value : Literal)
  | this (span : Span)
  | member (span : Span) (target : Expr) (name : Located SimpleName)
  | invoke (span : Span) (callee : Expr) (args : List Expr)
  | index (span : Span) (target : Expr) (args : List Expr)
  | cast (span : Span) (type : Located TypeRef) (operand : Expr)
  | new (span : Span) (type : Located TypeRef) (args : List Expr)
  | lambda (span : Span) (params : List (Located String)) (body : Expr)
  | unary (span : Span) (op : UnaryOp) (operand : Expr)
  | binary (span : Span) (left : Expr) (op : BinaryOp) (right : Expr)
  | paren (span : Span) (inner : Expr)
deriving Repr

namespace Expr

/-- The span an expression was read from. -/
def span : Expr → Span
  | name s _ | literal s _ | this s | member s _ _ | invoke s _ _ | index s _ _ | cast s _ _
  | new s _ _ | lambda s _ _ | unary s _ _ | binary s _ _ _ | paren s _ => s

/-- The direct parts of an expression in source order. -/
def children : Expr → List Expr
  | name _ _ | literal _ _ | this _ => []
  | member _ target _ => [target]
  | invoke _ callee args => callee :: args
  | index _ target args => target :: args
  | cast _ _ operand | unary _ _ operand => [operand]
  | new _ _ args => args
  | lambda _ _ body => [body]
  | binary _ left _ right => [left, right]
  | paren _ inner => [inner]

mutual

/-- An expression and all its parts, each before its own parts. -/
def nodes : Expr → List Expr
  | name s n => [name s n]
  | literal s v => [literal s v]
  | this s => [this s]
  | member s target n => member s target n :: nodes target
  | invoke s callee args => invoke s callee args :: (nodes callee ++ nodesList args)
  | index s target args => index s target args :: (nodes target ++ nodesList args)
  | cast s type operand => cast s type operand :: nodes operand
  | new s type args => new s type args :: nodesList args
  | lambda s params body => lambda s params body :: nodes body
  | unary s op operand => unary s op operand :: nodes operand
  | binary s left op right => binary s left op right :: (nodes left ++ nodes right)
  | paren s inner => paren s inner :: nodes inner

/-- The nodes of several expressions. -/
def nodesList : List Expr → List Expr
  | [] => []
  | e :: es => nodes e ++ nodesList es

end

theorem nodesList_eq (es : List Expr) : nodesList es = es.flatMap nodes := by
  induction es with
  | nil => rfl
  | cons e es ih => simp [nodesList, ih]

/-- The nodes of an expression are itself and the nodes of its parts. -/
theorem nodes_eq (e : Expr) : e.nodes = e :: e.children.flatMap nodes := by
  cases e <;> simp [nodes, children, nodesList_eq]

end Expr

/-- A statement: an assignment to a plain name, or an expression. -/
inductive Statement where
  | assign (span : Span) (target : Located String) (value : Expr)
  | expr (value : Expr)
deriving Repr

namespace Statement

/-- The span a statement was read from. -/
def span : Statement → Span
  | assign s _ _ => s
  | expr value => value.span

/-- The expression of a statement. -/
def value : Statement → Expr
  | assign _ _ value | expr value => value

end Statement

end Marksmith.Syntax

import Marksmith.Syntax.Expr

/-!
Canonical text of expressions and statements. Parts are written with single blanks, parentheses of
the source are kept, and an operand is parenthesised where its own operator would otherwise bind
outwards.
-/

namespace Marksmith.Syntax

/-- The canonical text of a name with its type arguments. -/
def SimpleName.written (n : SimpleName) : List Char :=
  n.ident.toList ++ TypeRef.writtenArgs n.typeArgs

/-- A character inside a string literal. -/
def escapeInString (c : Char) : List Char :=
  match c with
  | '"' => ['\\', '"']
  | '\\' => ['\\', '\\']
  | '\n' => ['\\', 'n']
  | '\t' => ['\\', 't']
  | '\r' => ['\\', 'r']
  | '\x00' => ['\\', '0']
  | c => [c]

/-- The canonical text of a literal. -/
def Literal.written : Literal → List Char
  | int value => Nat.toDigits 10 value
  | float text => text.toList
  | string value => '"' :: (value.toList.flatMap escapeInString ++ ['"'])
  | bool true => "true".toList
  | bool false => "false".toList
  | null => "null".toList

/-- Texts behind one another, separated by a comma and a blank. -/
def separated : List (List Char) → List Char
  | [] => []
  | [s] => s
  | s :: t :: rest => s ++ ',' :: ' ' :: separated (t :: rest)

/-- A text in parentheses. -/
def parenthesized (s : List Char) : List Char := '(' :: (s ++ [')'])

namespace Expr

/-- Whether an operand of `parent` needs parentheses: a lambda does, and so does an operation that
binds less tightly, or as tightly on the side that the parent does not group to. -/
def needsParens (parent : BinaryOp) (onRight : Bool) : Expr → Bool
  | binary _ _ child _ =>
    child.precedence < parent.precedence ||
      (child.precedence == parent.precedence && onRight != parent.groupsRight)
  | lambda .. => true
  | _ => false

/-- An operand's text, in parentheses where they are needed. -/
def operandWritten (parens : Bool) (s : List Char) : List Char :=
  if parens then parenthesized s else s

/-- The head of a lambda: a single parameter stands without parentheses. -/
def lambdaHeadWritten : List (Located String) → List Char
  | [p] => p.node.toList
  | ps => parenthesized (separated (ps.map (·.node.toList)))

mutual

/-- The canonical text of an expression. -/
def written : Expr → List Char
  | name _ n => n.written
  | literal _ v => v.written
  | this _ => "this".toList
  | member _ target n => written target ++ '.' :: n.node.written
  | invoke _ callee args => written callee ++ '(' :: (writtenArgs args ++ [')'])
  | index _ target args => written target ++ '[' :: (writtenArgs args ++ [']'])
  | cast _ type operand => parenthesized type.node.written ++ written operand
  | new _ type args => "new ".toList ++ type.node.written ++ '(' :: (writtenArgs args ++ [')'])
  | lambda _ params body => lambdaHeadWritten params ++ " => ".toList ++ written body
  | unary _ op operand => op.punct.chars ++ written operand
  | binary _ left op right =>
    operandWritten (left.needsParens op false) (written left) ++
      ' ' :: (op.punct.chars ++ ' ' :: operandWritten (right.needsParens op true) (written right))
  | paren _ inner => parenthesized (written inner)

/-- Arguments, separated by commas. -/
def writtenArgs : List Expr → List Char
  | [] => []
  | e :: es => written e ++ writtenMore es

/-- The arguments behind the first one. -/
def writtenMore : List Expr → List Char
  | [] => []
  | e :: es => ',' :: ' ' :: (written e ++ writtenMore es)

end

/-- The canonical text of an expression. -/
def text (e : Expr) : String := String.ofList e.written

end Expr

namespace Statement

/-- The canonical text of a statement. -/
def written : Statement → List Char
  | assign _ target value => target.node.toList ++ " = ".toList ++ value.written
  | expr value => value.written

/-- The canonical text of a statement. -/
def text (s : Statement) : String := String.ofList s.written

end Statement

end Marksmith.Syntax

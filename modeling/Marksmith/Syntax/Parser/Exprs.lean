import Marksmith.Syntax.Expr
import Marksmith.Syntax.Parser.Types

/-!
Parsing of expressions. The ladder is: lambda, operations by precedence, unary operators and casts,
the suffixes `.name`, `(…)` and `[…]`, and primary expressions. A lambda is recognised by its head
alone, and a cast by a type in parentheses with the beginning of an operand behind it.
-/

namespace Marksmith.Syntax

/-- The parameters of a lambda up to the closing parenthesis, at least one. -/
def lambdaParams : (ts : List Token) → Option (Step (List (Located String)) 2 ts)
  | ⟨.ident name, span⟩ :: ⟨.punct .rparen, _⟩ :: rest => some (.nextTwo [⟨name, span⟩] _ _ rest)
  | ⟨.ident name, span⟩ :: ⟨.punct .comma, _⟩ :: rest =>
    (lambdaParams rest).map fun more =>
      ⟨⟨name, span⟩ :: more.value, more.rest, by have := more.bound; simp; omega⟩
  | _ => none

/-- The head of a lambda, with its arrow: one parameter, or any number in parentheses. -/
def lambdaHead? : (ts : List Token) → Option (Step (List (Located String)) 2 ts)
  | ⟨.ident name, span⟩ :: ⟨.punct .arrow, _⟩ :: rest => some (.nextTwo [⟨name, span⟩] _ _ rest)
  | ⟨.punct .lparen, _⟩ :: ⟨.punct .rparen, _⟩ :: ⟨.punct .arrow, _⟩ :: rest =>
    some ⟨[], rest, by simp⟩
  | ⟨.punct .lparen, _⟩ :: inner => do
    let params ← lambdaParams inner
    let arrow ← accept? .arrow params.rest
    return ⟨params.value, arrow.rest, by have := params.bound; have := arrow.bound; simp; omega⟩
  | _ => none

/-- The binary operator at the front. -/
def binaryOp? : (ts : List Token) → Option (Step BinaryOp 1 ts)
  | ⟨.punct p, _⟩ :: rest => (BinaryOp.ofPunct? p).map fun op => .next op _ rest
  | _ => none

/-- The unary operator at the front. -/
def unaryOp? : (ts : List Token) → Option (Step UnaryOp 1 ts)
  | ⟨.punct p, _⟩ :: rest => (UnaryOp.ofPunct? p).map fun op => .next op _ rest
  | _ => none

/-- Whether a lexeme behind a type in parentheses begins the operand of a cast. -/
def beginsOperand : Lexeme → Bool
  | .ident _ | .int _ | .float _ | .string _ => true
  | .keyword k => k ∈ [.this, .new, .true, .false, .null]
  | .punct p => p ∈ [.lparen, .bang]
  | .eof => false

/-- The type of a cast with its parentheses, if an operand begins behind it. -/
def castHead? (ts : List Token) : Option (Step (Located TypeRef) 3 ts) := do
  let opening ← accept? .lparen ts
  let type ← (typeRef opening.rest).toOption
  let closing ← accept? .rparen type.rest
  if beginsOperand (front closing.rest) then
    return ⟨type.value, closing.rest, by
      have := opening.bound; have := type.bound; have := closing.bound; omega⟩
  else
    none

/-- The literal that a lexeme is. -/
def Literal.ofLexeme? : Lexeme → Option Literal
  | .int value => some (.int value)
  | .float text => some (.float text)
  | .string value => some (.string value)
  | .keyword .true => some (.bool true)
  | .keyword .false => some (.bool false)
  | .keyword .null => some .null
  | _ => none

/-- The literal or `this` at the front. -/
def atom? : (ts : List Token) → Option (Step Expr 1 ts)
  | ⟨.keyword .this, span⟩ :: rest => some (.next (.this span) _ rest)
  | ⟨lexeme, span⟩ :: rest =>
    (Literal.ofLexeme? lexeme).map fun value => .next (.literal span value) _ rest
  | [] => none

/-- A name behind an optional alias qualifier. -/
def nameExpr (ts : List Token) : Parsed Expr 1 ts := do
  let skipped := skipAlias ts
  let name ← simpleName skipped.rest
  let (ident, typeArgs) := name.value.node
  return ⟨.name ((frontSpan ts).merge name.value.span) ⟨ident, typeArgs⟩, name.rest, by
    have := skipped.bound; have := name.bound; omega⟩

mutual

/-- An expression. -/
def expression (ts : List Token) : Parsed Expr 1 ts :=
  match lambdaHead? ts with
  | some head => do
    have := head.bound
    let body ← expression head.rest
    return ⟨.lambda ((frontSpan ts).merge body.value.span) head.value body.value, body.rest, by
      have := body.bound; omega⟩
  | none => operation 0 ts
termination_by 8 * ts.length + 5

/-- Operands joined by operators of at least the given precedence. -/
def operation (least : Nat) (ts : List Token) : Parsed Expr 1 ts := do
  let left ← unary ts
  have := left.bound
  let whole ← operators least left.value left.rest
  return left.after whole
termination_by 8 * ts.length + 4

/-- The operators of at least the given precedence behind `left`, with their right operands. -/
def operators (least : Nat) (left : Expr) (ts : List Token) : Parsed Expr 0 ts :=
  match binaryOp? ts with
  | none => .ok (.stay left ts)
  | some op =>
    if op.value.precedence < least then .ok (.stay left ts)
    else do
      have := op.bound
      let right ← operation op.value.rightBound op.rest
      have := right.bound
      let whole ← operators least
        (.binary (left.span.merge right.value.span) left op.value right.value) right.rest
      return op.followed (right.followed whole)
termination_by 8 * ts.length

/-- An operand with the operators and casts in front of it. -/
def unary (ts : List Token) : Parsed Expr 1 ts :=
  match unaryOp? ts with
  | some op => do
    have := op.bound
    let operand ← unary op.rest
    return ⟨.unary ((frontSpan ts).merge operand.value.span) op.value operand.value,
      operand.rest, by have := operand.bound; omega⟩
  | none =>
    match castHead? ts with
    | some type => do
      have := type.bound
      let operand ← unary type.rest
      return ⟨.cast ((frontSpan ts).merge operand.value.span) type.value operand.value,
        operand.rest, by have := operand.bound; omega⟩
    | none => do
      let target ← primary ts
      have := target.bound
      let whole ← suffixes target.value target.rest
      return target.after whole
termination_by 8 * ts.length + 3

/-- The suffixes behind `target`. -/
def suffixes (target : Expr) (ts : List Token) : Parsed Expr 0 ts :=
  match accept? .dot ts with
  | some dot => do
    have := dot.bound
    let name ← simpleName dot.rest
    have := name.bound
    let (ident, typeArgs) := name.value.node
    let whole ← suffixes
      (.member (target.span.merge name.value.span) target ⟨⟨ident, typeArgs⟩, name.value.span⟩)
      name.rest
    return dot.followed (name.followed whole)
  | none =>
    match accept? .lparen ts with
    | some opening => do
      have := opening.bound
      let args ← arguments .rparen opening.rest
      have := args.bound
      let whole ← suffixes (.invoke (target.span.merge args.value.2) target args.value.1) args.rest
      return opening.followed (args.followed whole)
    | none =>
      match accept? .lbracket ts with
      | some opening => do
        have := opening.bound
        let args ← arguments .rbracket opening.rest
        have := args.bound
        let whole ← suffixes (.index (target.span.merge args.value.2) target args.value.1) args.rest
        return opening.followed (args.followed whole)
      | none => .ok (.stay target ts)
termination_by 8 * ts.length

/-- Arguments up to the closing mark, whose span is returned with them. -/
def arguments (close : Punct) (ts : List Token) : Parsed (List Expr × Span) 1 ts :=
  match accept? close ts with
  | some closing => .ok (closing.map fun span => ([], span))
  | none => argumentList close ts
termination_by 8 * ts.length + 7

/-- At least one argument, and the closing mark. -/
def argumentList (close : Punct) (ts : List Token) : Parsed (List Expr × Span) 1 ts := do
  let first ← expression ts
  match accept? close first.rest with
  | some closing =>
    return ⟨([first.value], closing.value), closing.rest, by
      have := first.bound; have := closing.bound; omega⟩
  | none =>
    let comma ← expect .comma .argumentSeparator first.rest
    have := first.bound
    have := comma.bound
    let more ← argumentList close comma.rest
    return ⟨(first.value :: more.value.1, more.value.2), more.rest, by have := more.bound; omega⟩
termination_by 8 * ts.length + 6

/-- A literal, `this`, a name, an object creation or an expression in parentheses. -/
def primary (ts : List Token) : Parsed Expr 1 ts :=
  match atom? ts with
  | some atom => .ok atom
  | none =>
    match ts with
    | ⟨.keyword .new, start⟩ :: rest => do
      let type ← typeRef rest
      let opening ← expect .lparen .argumentsAfterType type.rest
      have := type.bound
      have := opening.bound
      let args ← arguments .rparen opening.rest
      return ⟨.new (start.merge args.value.2) type.value args.value.1, args.rest, by
        have := args.bound; simp; omega⟩
    | ⟨.punct .lparen, start⟩ :: rest => do
      let inner ← expression rest
      let closing ← expect .rparen .closingParen inner.rest
      return ⟨.paren (start.merge closing.value) inner.value, closing.rest, by
        have := inner.bound; have := closing.bound; simp; omega⟩
    | ⟨.ident name, span⟩ :: rest => nameExpr (⟨.ident name, span⟩ :: rest)
    | ts => .error (unexpected .expression ts)
termination_by 8 * ts.length + 2

end

end Marksmith.Syntax

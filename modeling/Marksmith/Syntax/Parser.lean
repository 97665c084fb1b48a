import Marksmith.Syntax.Lexer
import Marksmith.Syntax.Parser.Exprs

/-!
Reading a whole text as an expression, a statement or a type. A semicolon at the end is allowed, and
nothing may stand behind it.
-/

namespace Marksmith.Syntax

/-- The target of an assignment, `name =` or `this.name =`. -/
def assignmentHead? : (ts : List Token) → Option (Step (Located String) 2 ts)
  | ⟨.ident name, span⟩ :: ⟨.punct .assign, _⟩ :: rest => some (.nextTwo ⟨name, span⟩ _ _ rest)
  | ⟨.keyword .this, _⟩ :: ⟨.punct .dot, _⟩ :: ⟨.ident name, span⟩ :: ⟨.punct .assign, _⟩ :: rest =>
    some ((Step.nextTwo () _ _ _).after (.nextTwo ⟨name, span⟩ _ _ rest))
  | _ => none

/-- A statement. -/
def statement (ts : List Token) : Parsed Statement 1 ts :=
  match assignmentHead? ts with
  | some head => do
    let value ← expression head.rest
    return ⟨.assign ((frontSpan ts).merge value.value.span) head.value value.value, value.rest, by
      have := head.bound; have := value.bound; omega⟩
  | none => do
    let value ← expression ts
    return value.map .expr

/-- Nothing but an optional semicolon remains. -/
def expectEnd (ts : List Token) : Except SyntaxError Unit :=
  let rest := ((accept? .semicolon ts).map (·.rest)).getD ts
  if front rest = .eof then .ok () else .error (unexpected .endOfInput rest)

/-- Reads a whole text with a parser. -/
def parseAll {α : Type} (parser : (ts : List Token) → Parsed α 1 ts) (text : String) :
    Except SyntaxError α := do
  let tokens ← lex text
  let result ← parser tokens
  expectEnd result.rest
  return result.value

/-- Reads an expression. -/
def parseExpr (text : String) : Except SyntaxError Expr := parseAll expression text

/-- Reads a statement. -/
def parseStatement (text : String) : Except SyntaxError Statement := parseAll statement text

/-- Reads a type reference. -/
def parseType (text : String) : Except SyntaxError TypeRef := do
  return (← parseAll typeRef text).node

end Marksmith.Syntax

import Marksmith.Syntax.Token

/-!
Steps of the parser. A step over a token list returns a value and the tokens that remain, with the
least number of tokens it has consumed; recursion on the remaining tokens ends for that reason. Past
the last token the input reads as `eof` for ever.
-/

namespace Marksmith.Syntax

/-- A value read from the front of `ts`, with the tokens behind it. At least `least` tokens are
consumed. -/
structure Step (α : Type) (least : Nat) (ts : List Token) where
  value : α
  rest : List Token
  bound : rest.length + least ≤ ts.length

/-- The outcome of a parser that consumes at least `least` tokens of `ts`. -/
abbrev Parsed (α : Type) (least : Nat) (ts : List Token) := Except SyntaxError (Step α least ts)

namespace Step

variable {α β : Type} {m n : Nat} {ts us : List Token}

/-- A step that consumes nothing. -/
def stay (value : α) (ts : List Token) : Step α 0 ts := ⟨value, ts, by simp⟩

/-- A step past the next token. -/
def next (value : α) (t : Token) (rest : List Token) : Step α 1 (t :: rest) :=
  ⟨value, rest, by simp⟩

/-- A step past the next two tokens. -/
def nextTwo (value : α) (t u : Token) (rest : List Token) : Step α 2 (t :: u :: rest) :=
  ⟨value, rest, by simp⟩

/-- The same step with another value. -/
def map (f : α → β) (s : Step α n ts) : Step β n ts := ⟨f s.value, s.rest, s.bound⟩

/-- A step behind another one, as one step with the value of the second. -/
def after (s : Step α m ts) (t : Step β n s.rest) : Step β m ts :=
  ⟨t.value, t.rest, by have := s.bound; have := t.bound; omega⟩

/-- A step behind another one, as one step with the value and the bound of the second. -/
def followed (s : Step α m ts) (t : Step β n s.rest) : Step β n ts :=
  ⟨t.value, t.rest, by have := s.bound; have := t.bound; omega⟩

end Step

/-- The next lexeme. -/
def front (ts : List Token) : Lexeme :=
  match ts with
  | [] => .eof
  | t :: _ => t.lexeme

/-- The span of the next token. -/
def frontSpan (ts : List Token) : Span :=
  match ts with
  | [] => ⟨0, 0⟩
  | t :: _ => t.span

/-- The error at the next token when the grammar asks for something else. -/
def unexpected (expected : Expected) (ts : List Token) : SyntaxError :=
  ⟨.unexpected expected (front ts), frontSpan ts⟩

/-- The span of a mark, if the next token is this mark. -/
def accept? (p : Punct) : (ts : List Token) → Option (Step Span 1 ts)
  | ⟨.punct q, span⟩ :: rest => if q = p then some (.next span _ rest) else none
  | _ => none

/-- The span of a mark that must come next. -/
def expect (p : Punct) (expected : Expected) (ts : List Token) : Parsed Span 1 ts :=
  match accept? p ts with
  | some step => .ok step
  | none => .error (unexpected expected ts)

/-- The identifier that must come next. -/
def identifier : (ts : List Token) → Parsed (Located String) 1 ts
  | ⟨.ident name, span⟩ :: rest => .ok (.next ⟨name, span⟩ _ rest)
  | ts => .error (unexpected .identifier ts)

/-- What follows an optional alias qualifier, `global` with a double colon. -/
def skipAlias : (ts : List Token) → Step Unit 0 ts
  | ⟨.ident "global", _⟩ :: ⟨.punct .colonColon, _⟩ :: rest => ⟨(), rest, by simp; omega⟩
  | ts => .stay () ts

end Marksmith.Syntax

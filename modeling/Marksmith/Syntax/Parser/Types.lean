import Marksmith.Syntax.Parser.Step
import Marksmith.Syntax.TypeRef

/-!
Parsing of type references, and of the type arguments behind a name in an expression. Such arguments
are taken only if the whole list is well formed and the token behind it cannot continue a
comparison.
-/

namespace Marksmith.Syntax

/-- The name segments behind points, joined to what has been read. A point without an identifier
behind it is left alone. -/
def segments (name : String) (span : Span) : (ts : List Token) → Step (Located String) 0 ts
  | ⟨.punct .dot, _⟩ :: ⟨.ident segment, last⟩ :: rest =>
    let more := segments (name ++ "." ++ segment) (span.merge last) rest
    ⟨more.value, more.rest, by have := more.bound; simp; omega⟩
  | ts => .stay ⟨name, span⟩ ts

/-- A dotted name behind an optional alias qualifier. The span covers the qualifier. -/
def dottedName (ts : List Token) : Parsed (Located String) 1 ts := do
  let start := frontSpan ts
  let skipped := skipAlias ts
  let first ← identifier skipped.rest
  let all := segments first.value.node (start.merge first.value.span) first.rest
  return ⟨all.value, all.rest, by
    have := skipped.bound; have := first.bound; have := all.bound; omega⟩

/-- Array suffixes: their number, and the span that covers what was read and them. -/
def arraySuffixes (rank : UInt8) (span : Span) : (ts : List Token) → Step (UInt8 × Span) 0 ts
  | ⟨.punct .lbracket, _⟩ :: ⟨.punct .rbracket, last⟩ :: rest =>
    let more := arraySuffixes (TypeRef.nextRank rank) (span.merge last) rest
    ⟨more.value, more.rest, by have := more.bound; simp; omega⟩
  | ts => .stay (rank, span) ts

/-- The nullable mark and the array suffixes behind a name with its arguments. -/
def typeSuffixes (name : String) (args : List TypeRef) (span : Span) (ts : List Token) :
    Step (Located TypeRef) 0 ts :=
  match accept? .question ts with
  | some mark =>
    let suffixes := arraySuffixes 0 (span.merge mark.value) mark.rest
    ⟨⟨⟨name, args, true, suffixes.value.1⟩, suffixes.value.2⟩, suffixes.rest, by
      have := mark.bound; have := suffixes.bound; omega⟩
  | none =>
    (arraySuffixes 0 span ts).map fun (rank, span) => ⟨⟨name, args, false, rank⟩, span⟩

mutual

/-- A type reference. -/
def typeRef (ts : List Token) : Parsed (Located TypeRef) 1 ts := do
  let name ← dottedName ts
  match accept? .lt name.rest with
  | none => return name.after (typeSuffixes name.value.node [] name.value.span name.rest)
  | some opening =>
    have := name.bound
    have := opening.bound
    let args ← typeList opening.rest
    let closing ← expect .gt .typeArgumentsEnd args.rest
    let type := typeSuffixes name.value.node args.value (name.value.span.merge closing.value)
      closing.rest
    return ⟨type.value, type.rest, by
      have := args.bound; have := closing.bound; have := type.bound; omega⟩
termination_by 2 * ts.length

/-- Type references separated by commas. -/
def typeList (ts : List Token) : Parsed (List TypeRef) 1 ts := do
  let first ← typeRef ts
  match accept? .comma first.rest with
  | none => return first.map fun type => [type.node]
  | some comma =>
    have := first.bound
    have := comma.bound
    let more ← typeList comma.rest
    return ⟨first.value.node :: more.value, more.rest, by have := more.bound; omega⟩
termination_by 2 * ts.length + 1

end

/-- Whether a lexeme behind `<…>` shows that these are type arguments and no comparison. -/
def endsTypeArgs : Lexeme → Bool
  | .eof => true
  | .punct p => p ∈ [.lparen, .rparen, .rbracket, .dot, .comma, .semicolon, .eqEq, .notEq, .andAnd,
      .orOr, .questionQuestion, .question, .lbracket]
  | _ => false

/-- The type arguments at the front with the span of the closing bracket, if there are any. -/
def typeArgs? (ts : List Token) : Option (Step (List TypeRef × Span) 2 ts) := do
  let opening ← accept? .lt ts
  let args ← (typeList opening.rest).toOption
  let closing ← accept? .gt args.rest
  if endsTypeArgs (front closing.rest) then
    return ⟨(args.value, closing.value), closing.rest, by
      have := opening.bound; have := args.bound; have := closing.bound; omega⟩
  else
    none

/-- An identifier with its type arguments. -/
def simpleName (ts : List Token) : Parsed (Located (String × List TypeRef)) 1 ts := do
  let ident ← identifier ts
  match typeArgs? ident.rest with
  | none => return ident.map fun name => ⟨(name.node, []), name.span⟩
  | some args =>
    return ⟨⟨(ident.value.node, args.value.1), ident.value.span.merge args.value.2⟩, args.rest, by
      have := ident.bound; have := args.bound; omega⟩

end Marksmith.Syntax

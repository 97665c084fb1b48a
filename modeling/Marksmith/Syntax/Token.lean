import Marksmith.Syntax.Span
import Marksmith.Text.Quoted

/-!
Tokens of the expression language. A lexeme is what was read, a token is a lexeme with its span.
`>>` is no lexeme, so nested type argument lists close without look-ahead.

A `SyntaxError` says why a text is not an expression, statement or type. The causes are data;
`SyntaxError.message` is their wording.
-/

namespace Marksmith.Syntax

/-- The reserved words. -/
inductive Keyword where
  | new | this | true | false | null | ref | out | in
deriving DecidableEq, Repr

namespace Keyword

def all : List Keyword := [.new, .this, .true, .false, .null, .ref, .out, .in]

/-- The spelling of a reserved word. -/
def text : Keyword → String
  | new => "new"
  | this => "this"
  | true => "true"
  | false => "false"
  | null => "null"
  | ref => "ref"
  | out => "out"
  | .in => "in"

/-- The name of a reserved word in messages. -/
def label : Keyword → String
  | new => "New"
  | this => "This"
  | true => "True"
  | false => "False"
  | null => "Null"
  | ref => "Ref"
  | out => "Out"
  | .in => "In"

/-- The reserved word that a text spells. -/
def ofText? (s : String) : Option Keyword := all.find? fun k => k.text == s

end Keyword

/-- The punctuation marks. -/
inductive Punct where
  | dot | comma | lparen | rparen | lbracket | rbracket | lt | gt | ltEq | gtEq | assign | eqEq
  | notEq | arrow | question | questionQuestion | bang | plus | minus | star | slash | andAnd | orOr
  | semicolon | colonColon
deriving DecidableEq, Repr

namespace Punct

/-- The characters of a punctuation mark. -/
def chars : Punct → List Char
  | dot => ['.']
  | comma => [',']
  | lparen => ['(']
  | rparen => [')']
  | lbracket => ['[']
  | rbracket => [']']
  | lt => ['<']
  | gt => ['>']
  | ltEq => ['<', '=']
  | gtEq => ['>', '=']
  | assign => ['=']
  | eqEq => ['=', '=']
  | notEq => ['!', '=']
  | arrow => ['=', '>']
  | question => ['?']
  | questionQuestion => ['?', '?']
  | bang => ['!']
  | plus => ['+']
  | minus => ['-']
  | star => ['*']
  | slash => ['/']
  | andAnd => ['&', '&']
  | orOr => ['|', '|']
  | semicolon => [';']
  | colonColon => [':', ':']

/-- Every mark, those of two characters first, so that the first match is the longest. -/
def all : List Punct :=
  [.ltEq, .gtEq, .eqEq, .notEq, .arrow, .questionQuestion, .andAnd, .orOr, .colonColon,
   .dot, .comma, .lparen, .rparen, .lbracket, .rbracket, .lt, .gt, .assign, .question, .bang,
   .plus, .minus, .star, .slash, .semicolon]

/-- The name of a mark in messages. -/
def label : Punct → String
  | dot => "Dot"
  | comma => "Comma"
  | lparen => "LParen"
  | rparen => "RParen"
  | lbracket => "LBracket"
  | rbracket => "RBracket"
  | lt => "Lt"
  | gt => "Gt"
  | ltEq => "LtEq"
  | gtEq => "GtEq"
  | assign => "Assign"
  | eqEq => "EqEq"
  | notEq => "NotEq"
  | arrow => "Arrow"
  | question => "Question"
  | questionQuestion => "QuestionQuestion"
  | bang => "Bang"
  | plus => "Plus"
  | minus => "Minus"
  | star => "Star"
  | slash => "Slash"
  | andAnd => "AndAnd"
  | orOr => "OrOr"
  | semicolon => "Semicolon"
  | colonColon => "ColonColon"

/-- The longest mark at the front of a text. -/
def atFront? (s : List Char) : Option Punct := all.find? fun p => p.chars.isPrefixOf s

end Punct

/-- What a token is. Integer literals hold their value, which fits 63 bits; other number literals
keep the text they were written with. -/
inductive Lexeme where
  | keyword (k : Keyword)
  | punct (p : Punct)
  | ident (name : String)
  | int (value : Nat)
  | float (text : String)
  | string (value : String)
  | eof
deriving DecidableEq, Repr

/-- A lexeme as a message names what was found. -/
def Lexeme.describe : Lexeme → String
  | keyword k => "Keyword(" ++ k.label ++ ")"
  | punct p => "Punct(" ++ p.label ++ ")"
  | ident name => "identifier '" ++ name ++ "'"
  | int value => "Int(" ++ toString value ++ ")"
  | float text => "Float(" ++ Text.quoted text ++ ")"
  | string value => "String(" ++ Text.quoted value ++ ")"
  | eof => "end of input"

/-- A lexeme with the span it was read from. -/
structure Token where
  lexeme : Lexeme
  span : Span
deriving DecidableEq, Repr

/-! ### Errors -/

/-- What the grammar asks for at the place of an unexpected token. -/
inductive Expected where
  | identifier
  | expression
  | typeArgumentsEnd
  | argumentSeparator
  | argumentsAfterType
  | closingParen
  | endOfInput
deriving DecidableEq, Repr

/-- The wording of an expectation. -/
def Expected.text : Expected → String
  | identifier => "identifier"
  | expression => "expression"
  | typeArgumentsEnd => "'>' to close type arguments"
  | argumentSeparator => "',' between arguments"
  | argumentsAfterType => "'(' after type in object creation"
  | closingParen => "')'"
  | endOfInput => "end of input"

/-- The causes of a syntax error. -/
inductive SyntaxFault where
  /-- No token starts with this character. -/
  | unexpectedCharacter (c : Char)
  /-- An `@` without an identifier behind it. -/
  | missingEscapedName
  /-- The value of an integer literal does not fit 63 bits. -/
  | integerOutOfRange (digits : String)
  | unterminatedString
  | unterminatedEscape
  /-- A token that the grammar does not allow here. -/
  | unexpected (expected : Expected) (found : Lexeme)
deriving DecidableEq, Repr

/-- A cause with the span it is reported at. -/
structure SyntaxError where
  fault : SyntaxFault
  span : Span
deriving DecidableEq, Repr

/-- The wording of a cause. -/
def SyntaxFault.message : SyntaxFault → String
  | unexpectedCharacter c => "unexpected character '" ++ c.toString ++ "'"
  | missingEscapedName => "expected identifier after '@'"
  | integerOutOfRange digits => "integer literal '" ++ digits ++ "' is out of range"
  | unterminatedString => "unterminated string literal"
  | unterminatedEscape => "unterminated escape sequence"
  | unexpected expected found => "expected " ++ expected.text ++ ", found " ++ found.describe

/-- The wording of a syntax error. -/
def SyntaxError.message (e : SyntaxError) : String := e.fault.message

end Marksmith.Syntax

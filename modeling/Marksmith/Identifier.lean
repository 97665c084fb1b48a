import Marksmith.Text.Alphabetic
import Marksmith.Text.Case

/-!
Identifiers of the target language: its keywords, identifiers made from any text, and names of
backing fields.
-/

namespace Marksmith.Identifier

open Text

/-- The reserved words of the target language. -/
def keywords : List String :=
  ["abstract", "as", "base", "bool", "break", "byte", "case", "catch", "char", "checked", "class",
   "const", "continue", "decimal", "default", "delegate", "do", "double", "else", "enum", "event",
   "explicit", "extern", "false", "finally", "fixed", "float", "for", "foreach", "goto", "if",
   "implicit", "in", "int", "interface", "internal", "is", "lock", "long", "namespace", "new",
   "null", "object", "operator", "out", "override", "params", "private", "protected", "public",
   "readonly", "ref", "return", "sbyte", "sealed", "short", "sizeof", "stackalloc", "static",
   "string", "struct", "switch", "this", "throw", "true", "try", "typeof", "uint", "ulong",
   "unchecked", "unsafe", "ushort", "using", "virtual", "void", "volatile", "while"]

def isKeyword (s : String) : Bool := keywords.contains s

/-- The characters of an identifier that a text contributes: letters, digits and underscores are
kept, everything else is dropped, and the character behind a dropped one is raised unless it is the
first. `raise` tells whether the next character is raised, and `begun` whether one has been kept. -/
def keptChars (raise begun : Bool) : List Char → List Char
  | [] => []
  | c :: s =>
    if isAlphanumeric c || c == '_' then
      (if raise then toUpper c else [c]) ++ keptChars false true s
    else
      keptChars begun begun s

/-- A leading digit gets an underscore in front. -/
def guardDigit (s : List Char) : List Char :=
  if s.head?.any Char.isDigit then '_' :: s else s

/-- A reserved word gets an `@` in front. -/
def guardKeyword (s : List Char) : List Char :=
  if isKeyword (String.ofList s) then '@' :: s else s

/-- The identifier made from a text; nothing if no character can be kept. -/
def sanitize (text : String) : Option String :=
  match keptChars false false text.toList with
  | [] => none
  | kept => some (String.ofList (guardKeyword (guardDigit kept)))

/-- A name with its first character in lower case. -/
def lowerFirst (s : String) : String :=
  match s.toList with
  | [] => ""
  | c :: rest => String.ofList (toLower c ++ rest)

end Marksmith.Identifier

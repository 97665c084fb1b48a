import Marksmith.Text.Lines
import Marksmith.Vocabulary.Runtime

/-!
Pages of generated text. What is put on a page is a list of pieces; `Page.put` keeps the
indentation, and separates members by single empty lines. Documentation pieces show only on a page
with documentation, so that the same pieces give the text with and without comments.
-/

namespace Marksmith.Source

/-- A piece of a page. -/
inductive Piece where
  /-- Text within a line. -/
  | text (s : String)
  /-- Text up to the end of a line. -/
  | line (s : String)
  | newline
  /-- One empty line between members. -/
  | blankLine
  /-- A header, and an opening brace on a line of its own; what follows is indented. -/
  | openBlock (header : String)
  /-- A closing brace with what stands behind it. -/
  | closeBlock (behind : String)
  | indent
  | dedent
  /-- A summary comment. -/
  | doc (summary : String)
deriving DecidableEq, Repr

/-- A page that is being written. -/
structure Page where
  /-- What has been written, read from the end. -/
  written : List Char := []
  /-- The number of levels of indentation. -/
  level : Nat := 0
  /-- Nothing has been written on the current line. -/
  atLineStart : Bool := true
  /-- Summary comments are written. -/
  documentation : Bool := true
deriving DecidableEq, Repr

namespace Page

/-- The number of blanks of a level of indentation. -/
def indentWidth : Nat := 4

/-- The blanks in front of a line. -/
def margin (level : Nat) : List Char := List.replicate (level * indentWidth) ' '

variable (page : Page)

/-- The text of a page. -/
def text : String := String.ofList page.written.reverse

/-- Writes text within a line. -/
def write (s : List Char) : Page :=
  if s.isEmpty then page
  else
    let front := if page.atLineStart then margin page.level else []
    { page with written := s.reverse ++ front ++ page.written, atLineStart := false }

/-- Ends the line. -/
def newline : Page := { page with written := '\n' :: page.written, atLineStart := true }

/-- Writes text up to the end of a line. -/
def writeLine (s : List Char) : Page := (page.write s).newline

/-- Ends a line that has begun. -/
def endLine : Page := if page.atLineStart then page else page.newline

/-- Whether an empty line is out of place here: on an empty page, behind an empty line, and behind
an opening brace. -/
def isOpened : List Char → Bool
  | [] => true
  | '\n' :: '\n' :: _ => true
  | '\n' :: '\x7b' :: _ => true
  | _ => false

/-- Writes an empty line unless it is out of place. -/
def blankLine : Page :=
  let page := page.endLine
  if isOpened page.written then page else page.newline

def indent : Page := { page with level := page.level + 1 }

def dedent : Page := { page with level := page.level - 1 }

/-- Writes a header and an opening brace. -/
def openBlock (header : List Char) : Page :=
  ((page.writeLine header).writeLine ['\x7b']).indent

/-- Writes a closing brace with what stands behind it. -/
def closeBlock (behind : List Char) : Page :=
  (page.endLine.dedent.write ['\x7d']).writeLine behind

/-- A summary comment, line by line. -/
def docLines (summary : List Char) : List (List Char) :=
  "/// <summary>".toList :: (Text.lines summary).map ("/// ".toList ++ ·) ++
    ["/// </summary>".toList]

/-- Writes a summary comment on a page with documentation. -/
def doc (summary : List Char) : Page :=
  if page.documentation then (docLines summary).foldl writeLine page else page

/-- Puts a piece on a page. -/
def put : Piece → Page
  | .text s => page.write s.toList
  | .line s => page.writeLine s.toList
  | .newline => page.newline
  | .blankLine => page.blankLine
  | .openBlock header => page.openBlock header.toList
  | .closeBlock behind => page.closeBlock behind.toList
  | .indent => page.indent
  | .dedent => page.dedent
  | .doc summary => page.doc summary.toList

/-- The page of some pieces. -/
def ofPieces (documentation : Bool) (pieces : List Piece) : Page :=
  pieces.foldl put { documentation }

end Page

namespace Piece

/-- A block with pieces inside. -/
def block (header : String) (inside : List Piece) : List Piece :=
  openBlock header :: (inside ++ [closeBlock ""])

/-- Pieces inside of blocks in one another, outermost first. -/
def within (headers : List String) (inside : List Piece) : List Piece :=
  headers.foldr block inside

/-- Pieces one level further in. -/
def indented (inside : List Piece) : List Piece := indent :: (inside ++ [dedent])

/-- Members, each behind an empty line. -/
def members (ms : List (List Piece)) : List Piece := ms.flatMap (blankLine :: ·)

end Piece

/-! ### Members of generated declarations -/

namespace Piece

/-- An attribute on a line of its own. -/
def attributeLine (name : String) : Piece := line ("[" ++ name ++ "]")

/-- A field that is not serialized. -/
def privateField (declaration : String) : List Piece :=
  [attributeLine Runtime.nonSerialized, line (declaration ++ ";")]

/-- The getter of a property. -/
def getter (value : String) : List Piece :=
  [attributeLine Runtime.aggressiveInlining, line ("get => " ++ value ++ ";")]

/-- A property with a getter only. -/
def property (signature value : String) : List Piece := block signature (getter value)

/-- A summary's reference to a declaration. -/
def reference (name : String) : String := "<see cref=\"" ++ name ++ "\"/>"

end Piece

end Marksmith.Source

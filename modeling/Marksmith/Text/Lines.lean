/-!
Lines of a text. A line ends at a line feed, which may have a carriage return before it; the last
line needs no end.
-/

namespace Marksmith.Text

/-- A line without the carriage return at its end; the line is read from its end. -/
def withoutReturn : List Char → List Char
  | '\r' :: s => s
  | s => s

/-- The lines of a text, with the line begun so far read from its end. -/
def linesFrom (begun : List Char) : List Char → List (List Char)
  | [] => if begun.isEmpty then [] else [begun.reverse]
  | c :: s =>
    if c = '\n' then (withoutReturn begun).reverse :: linesFrom [] s
    else linesFrom (c :: begun) s

/-- The lines of a text. -/
def lines (s : List Char) : List (List Char) := linesFrom [] s

end Marksmith.Text

import Marksmith.Proofs.Text.Comments
import Marksmith.Source.File
import Mathlib.Data.List.Chain

/-!
Pages only grow. No piece takes back what has been written (`written_suffix_put`). So a line that is
put on a page stands in its text (`line_infix_text`) and in the file with this text
(`shows_of_mem`), and pages that differ after as many characters stay different, whatever is put on
them afterwards (`text_ofPieces_ne`).

Empty lines only separate what is on a page (`Collapsed`). A line ends behind text, or where an
empty line is in place (`Spaced`), and no piece without line breaks of its own changes this
(`Tidy.put`, `collapsed_ofPieces`).
-/

namespace Marksmith

namespace Source

namespace Page

variable (page : Page)

/-! ### Pages grow -/

theorem written_suffix_write (s : List Char) : page.written <:+ (page.write s).written := by
  rw [write]
  split
  · exact List.suffix_refl _
  · exact List.suffix_append _ _

theorem written_suffix_newline : page.written <:+ page.newline.written := List.suffix_cons _ _

theorem written_suffix_writeLine (s : List Char) : page.written <:+ (page.writeLine s).written :=
  (page.written_suffix_write s).trans (written_suffix_newline _)

theorem written_suffix_endLine : page.written <:+ page.endLine.written := by
  rw [endLine]
  split
  · exact List.suffix_refl _
  · exact page.written_suffix_newline

theorem written_suffix_blankLine : page.written <:+ page.blankLine.written := by
  rw [blankLine]
  split
  · exact page.written_suffix_endLine
  · exact page.written_suffix_endLine.trans (written_suffix_newline _)

theorem written_suffix_foldl_writeLine (lines : List (List Char)) :
    page.written <:+ (lines.foldl writeLine page).written := by
  induction lines generalizing page with
  | nil => exact List.suffix_refl _
  | cons line lines ih => exact (page.written_suffix_writeLine line).trans (ih _)

/-- What has been written stays at the front of the page. -/
theorem written_suffix_put (piece : Piece) : page.written <:+ (page.put piece).written := by
  cases piece with
  | text s => exact page.written_suffix_write _
  | line s => exact page.written_suffix_writeLine _
  | newline => exact page.written_suffix_newline
  | blankLine => exact page.written_suffix_blankLine
  | openBlock header =>
    exact (page.written_suffix_writeLine _).trans (written_suffix_writeLine _ _)
  | closeBlock behind =>
    exact (page.written_suffix_endLine.trans (written_suffix_write page.endLine.dedent _)).trans
      (written_suffix_writeLine _ _)
  | indent => exact List.suffix_refl _
  | dedent => exact List.suffix_refl _
  | doc summary =>
    show page.written <:+ (page.doc summary.toList).written
    rw [doc]
    split
    · exact page.written_suffix_foldl_writeLine _
    · exact List.suffix_refl _

theorem written_suffix_foldl_put (pieces : List Piece) :
    page.written <:+ (pieces.foldl put page).written := by
  induction pieces generalizing page with
  | nil => exact List.suffix_refl _
  | cons piece pieces ih => exact (page.written_suffix_put piece).trans (ih _)

/-! ### Lines -/

theorem line_prefix_writeLine (s : List Char) :
    (s ++ ['\n']).reverse <+: (page.writeLine s).written := by
  rw [List.reverse_append, List.reverse_singleton, List.singleton_append, writeLine, newline,
    List.cons_prefix_cons]
  refine ⟨rfl, ?_⟩
  rw [write]
  split
  · next empty =>
    rw [List.isEmpty_iff.mp empty]
    exact List.nil_prefix
  · exact ⟨_, (List.append_assoc _ _ _).symm⟩

/-- Whether a piece puts a line on the page. -/
def IsLine (s : String) (piece : Piece) : Prop := piece = .line s ∨ piece = .openBlock s

theorem line_infix_put {s : String} {piece : Piece} (isLine : IsLine s piece) :
    (s.toList ++ ['\n']).reverse <:+: (page.put piece).written := by
  have written := (page.line_prefix_writeLine s.toList).isInfix
  rcases isLine with rfl | rfl
  · exact written
  · exact written.trans ((page.writeLine s.toList).written_suffix_writeLine _).isInfix

/-- A line that is put on a page stands in its text. -/
theorem line_infix_text {documentation : Bool} {pieces : List Piece} {piece : Piece}
    (mem : piece ∈ pieces) {s : String} (isLine : IsLine s piece) :
    s.toList ++ ['\n'] <:+: (ofPieces documentation pieces).text.toList := by
  obtain ⟨front, back, rfl⟩ := List.append_of_mem mem
  have there := ((front.foldl put { documentation }).line_infix_put isLine).trans
    (written_suffix_foldl_put _ back).isInfix
  rw [text, String.toList_ofList, ofPieces, List.foldl_append, List.foldl_cons]
  simpa using List.reverse_infix.mpr there

/-! ### Different beginnings -/

end Page

namespace Piece

theorem mem_within {piece : Piece} {inside : List Piece} (mem : piece ∈ inside)
    (headers : List String) : piece ∈ within headers inside := by
  induction headers with
  | nil => exact mem
  | cons header headers ih => exact List.mem_cons_of_mem _ (List.mem_append_left _ ih)

/-! ### Empty lines -/

/-- Whether a piece brings no line break but the ends of the lines that it writes, and writes no
line without text. -/
def IsUnbroken : Piece → Prop
  | text s | line s | openBlock s => s ≠ "" ∧ '\n' ∉ s.toList
  | closeBlock behind => '\n' ∉ behind.toList
  | newline => False
  | blankLine | indent | dedent | doc _ => True

end Piece

namespace Page

/-- Empty lines only separate: none is the first line, and none follows another empty line or a line
that ends in an opening brace. -/
structure Collapsed (text : List Char) : Prop where
  first : (Text.rows text).head? ≠ some ['\n']
  others : (Text.rows text).IsChain fun row next =>
    next = ['\n'] → row ≠ ['\n'] ∧ ¬['\x7b', '\n'] <:+ row

/-- Every line break of a text that is read from its end stands behind text, or where an empty line
is in place. -/
def Spaced (written : List Char) : Prop :=
  ∀ before, '\n' :: before <:+ written → isOpened before = false

theorem spaced_nil : Spaced [] := by
  intro before suffix
  cases List.suffix_nil.mp suffix

theorem Spaced.cons {written : List Char} (spaced : Spaced written) {c : Char}
    (inPlace : c = '\n' → isOpened written = false) : Spaced (c :: written) := by
  intro before suffix
  rcases List.suffix_cons_iff.mp suffix with whole | within
  · obtain ⟨rfl, rfl⟩ := List.cons.inj whole
    exact inPlace rfl
  · exact spaced before within

theorem Spaced.append {written : List Char} (spaced : Spaced written) {s : List Char}
    (unbroken : '\n' ∉ s) : Spaced (s ++ written) := by
  induction s with
  | nil => exact spaced
  | cons c s ih =>
    rw [List.mem_cons, not_or] at unbroken
    exact (ih unbroken.2).cons fun break? => absurd break?.symm unbroken.1

/-- Empty lines in place only separate. -/
theorem Spaced.collapsed {written : List Char} (spaced : Spaced written) :
    Collapsed written.reverse := by
  -- An empty line at any place of the text is one that the page has checked.
  have checked : ∀ front back : List (List Char),
      Text.rows written.reverse = front ++ ['\n'] :: back →
        isOpened front.flatten.reverse = false := by
    intro front back split
    refine spaced _ ⟨back.flatten.reverse, ?_⟩
    have whole := congrArg List.flatten split
    rw [Text.flatten_rows] at whole
    rw [← List.reverse_reverse written, whole]
    simp
  refine ⟨?_, List.isChain_iff_forall_rel_of_append_cons_cons.mpr ?_⟩
  · intro first
    obtain ⟨back, split⟩ := List.head?_eq_some_iff.mp first
    exact absurd (checked [] back split) (by decide)
  · rintro row _ front back split rfl
    have opened := checked (front ++ [row]) back (by rw [split, List.append_assoc]; rfl)
    rw [List.flatten_append, List.flatten_singleton, List.reverse_append] at opened
    constructor
    · rintro rfl
      rcases Text.endsRow_flatten split with none | last
      · exact absurd (checked front _ split) (by rw [none]; decide)
      · obtain ⟨rest, ends⟩ := List.getLast?_eq_some_iff.mp last
        rw [ends, List.reverse_append] at opened
        cases opened
    · rintro ⟨rest, rfl⟩
      rw [List.reverse_append] at opened
      cases opened

/-- A page on which empty lines are in place. A line that has begun has text in it. -/
structure Tidy (page : Page) : Prop where
  spaced : Spaced page.written
  begun : page.atLineStart = false → isOpened page.written = false

theorem isOpened_cons {c : Char} (text : c ≠ '\n') (written : List Char) :
    isOpened (c :: written) = false := by
  unfold isOpened
  split
  · next whole => cases whole
  · next whole => exact absurd (List.cons.inj whole).1 text
  · next whole => exact absurd (List.cons.inj whole).1 text
  · rfl

theorem atLineStart_write {page : Page} {s : List Char} (some : s ≠ []) :
    (page.write s).atLineStart = false := by
  rw [write, if_neg (by simpa using some)]

namespace Tidy

variable {page : Page} (tidy : Tidy page)

include tidy

theorem write {s : List Char} (unbroken : '\n' ∉ s) : Tidy (page.write s) := by
  rw [Page.write]
  split
  · exact tidy
  · next some =>
    obtain ⟨c, rest, last⟩ :=
      List.exists_cons_of_ne_nil (List.reverse_ne_nil_iff.mpr (by simpa using some))
    have plain : '\n' ∉ s.reverse := by rwa [List.mem_reverse]
    have margins : '\n' ∉ (if page.atLineStart then margin page.level else []) := by
      split
      · exact fun mem => absurd (List.eq_of_mem_replicate mem) (by decide)
      · exact List.not_mem_nil
    have spaced := (tidy.spaced.append margins).append plain
    rw [← List.append_assoc] at spaced
    refine ⟨spaced, fun _ => ?_⟩
    rw [last] at plain
    dsimp only
    rw [last, List.cons_append, List.cons_append]
    exact isOpened_cons (Ne.symm (List.ne_of_not_mem_cons plain)) _

theorem newline (begun : page.atLineStart = false) : Tidy page.newline :=
  ⟨tidy.spaced.cons fun _ => tidy.begun begun, fun start => Bool.noConfusion start⟩

/-- A line with text. -/
theorem writeLine {s : List Char} (some : s ≠ []) (unbroken : '\n' ∉ s) : Tidy (page.writeLine s) :=
  (tidy.write unbroken).newline (atLineStart_write some)

theorem endLine : Tidy page.endLine := by
  rw [Page.endLine]
  split
  · exact tidy
  · next begun => exact tidy.newline (Bool.eq_false_iff.mpr begun)

theorem blankLine : Tidy page.blankLine := by
  rw [Page.blankLine]
  split
  · exact tidy.endLine
  · next place =>
    exact ⟨tidy.endLine.spaced.cons fun _ => Bool.eq_false_iff.mpr place,
      fun start => Bool.noConfusion start⟩

theorem indented : Tidy page.indent := ⟨tidy.spaced, tidy.begun⟩

theorem dedent : Tidy page.dedent := ⟨tidy.spaced, tidy.begun⟩

theorem openBlock {header : List Char} (some : header ≠ []) (unbroken : '\n' ∉ header) :
    Tidy (page.openBlock header) :=
  ((tidy.writeLine some unbroken).writeLine (List.cons_ne_nil _ _) (by decide)).indented

theorem closeBlock {behind : List Char} (unbroken : '\n' ∉ behind) :
    Tidy (page.closeBlock behind) := by
  have brace := tidy.endLine.dedent.write (s := ['\x7d']) (by decide)
  refine (brace.write unbroken).newline ?_
  rw [Page.write]
  split <;> rfl

theorem writeLines {lines : List (List Char)} (each : ∀ line ∈ lines, line ≠ [] ∧ '\n' ∉ line) :
    Tidy (lines.foldl Page.writeLine page) := by
  induction lines generalizing page with
  | nil => exact tidy
  | cons line lines ih =>
    obtain ⟨⟨some, unbroken⟩, later⟩ := List.forall_mem_cons.mp each
    exact ih (tidy.writeLine some unbroken) later

theorem doc (summary : List Char) : Tidy (page.doc summary) := by
  rw [Page.doc]
  split
  · refine tidy.writeLines ?_
    rw [docLines, List.forall_mem_append, List.forall_mem_cons, List.forall_mem_map,
      List.forall_mem_singleton]
    refine ⟨⟨by decide, fun line mem => ⟨List.cons_ne_nil _ _, ?_⟩⟩, by decide⟩
    rw [List.mem_append, not_or]
    exact ⟨by decide, Text.notMem_of_mem_lines line mem⟩
  · exact tidy

/-- A piece without line breaks of its own leaves empty lines in place. -/
theorem put {piece : Piece} (unbroken : piece.IsUnbroken) : Tidy (page.put piece) := by
  cases piece with
  | text s => exact tidy.write unbroken.2
  | line s => exact tidy.writeLine (by simpa using unbroken.1) unbroken.2
  | newline => exact unbroken.elim
  | blankLine => exact tidy.blankLine
  | openBlock header => exact tidy.openBlock (by simpa using unbroken.1) unbroken.2
  | closeBlock behind => exact tidy.closeBlock unbroken
  | indent => exact tidy.indented
  | dedent => exact tidy.dedent
  | doc summary => exact tidy.doc _

end Tidy

/-- On a page that is made of pieces without line breaks of their own, empty lines only separate. -/
theorem collapsed_ofPieces {documentation : Bool} {pieces : List Piece}
    (unbroken : ∀ piece ∈ pieces, piece.IsUnbroken) :
    Collapsed (ofPieces documentation pieces).text.toList := by
  have tidy : ∀ {page : Page}, Tidy page → Tidy (pieces.foldl put page) := by
    induction pieces with
    | nil => exact id
    | cons piece pieces ih =>
      obtain ⟨here, later⟩ := List.forall_mem_cons.mp unbroken
      exact fun tidy => ih later (tidy.put here)
  rw [text, String.toList_ofList]
  exact (tidy ⟨spaced_nil, fun start => Bool.noConfusion start⟩).spaced.collapsed

/-- A block with empty lines asked for in front of it, at its front, behind a line that has begun,
and twice. -/
def blockPieces : List Piece :=
  [.blankLine, .openBlock "class A", .blankLine, .doc "One.\n\nTwo.", .text "int a;", .blankLine,
    .blankLine, .line "int b;", .closeBlock ";"]

theorem collapsed_blockPieces : (∀ piece ∈ blockPieces, piece.IsUnbroken) ∧
    Collapsed (ofPieces true blockPieces).text.toList := by
  have unbroken : ∀ piece ∈ blockPieces, piece.IsUnbroken := by
    simp [blockPieces, Piece.IsUnbroken]
  exact ⟨unbroken, collapsed_ofPieces unbroken⟩

example : (ofPieces false blockPieces).text =
    "class A\n\x7b\n    int a;\n\n    int b;\n\x7d;\n" := by
  decide

end Page

end Source

namespace SourceFile

open Source (Page Piece)

/-- The text of a file has a line. -/
def Shows (file : SourceFile) (line : String) : Prop :=
  line.toList ++ ['\n'] <:+: file.text.toList

/-- A file that reopens a declaration shows the lines of the members in it. -/
theorem shows_of_mem {name : String} {settings : Settings} {scope : List String}
    {inside : List Piece} {piece : Piece} (mem : piece ∈ inside) {line : String}
    (isLine : Page.IsLine line piece) :
    Shows ⟨name, textOf settings (Piece.within scope inside)⟩ line :=
  Page.line_infix_text (List.mem_append_right _ (Piece.mem_within mem scope)) isLine

end SourceFile

end Marksmith

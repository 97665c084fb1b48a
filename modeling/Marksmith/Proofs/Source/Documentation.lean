import Marksmith.Proofs.Text.Comments
import Marksmith.Source.File

/-!
Pages with and without documentation. A summary is written as rows of its own, and the next empty
line is written or not by what stands in front of it; so it matters that each summary stands in
front of a line with text.

* `Page.put_eq`: what a piece adds to a page, if it stands at the start of a line;
* `Page.Documents.foldl`: well placed pieces give a page with documentation that is the page
  without it, up to comments;
* `Page.Bare.foldl`: a page without documentation has a comment exactly if one of its pieces brings
  one;
* `SourceFile.withoutComments_textOf`, `SourceFile.withoutComments_textOf_eq_iff`: both for the texts
  of files.
-/

namespace Marksmith

open Text

namespace Source

/-! ### Pieces -/

namespace Piece

/-- Whether a piece begins a line with text. -/
def Opens : Piece → Prop
  | line s | openBlock s => s ≠ ""
  | _ => False

/-- What may follow a piece: a line with text behind a summary. No line is put together from parts. -/
def FitsBefore : Piece → List Piece → Prop
  | text _, _ => False
  | doc _, pieces => ∃ next ∈ pieces.head?, next.Opens
  | _, _ => True

/-- Whether each piece may be followed by those behind it. -/
def WellPlaced : List Piece → Prop
  | [] => True
  | piece :: pieces => piece.FitsBefore pieces ∧ WellPlaced pieces

theorem FitsBefore.append {piece : Piece} {pieces : List Piece} (fits : piece.FitsBefore pieces)
    (more : List Piece) : piece.FitsBefore (pieces ++ more) := by
  cases piece with
  | doc summary =>
    obtain ⟨next, first, opens⟩ := fits
    obtain ⟨rest, rfl⟩ := List.head?_eq_some_iff.mp first
    exact ⟨next, rfl, opens⟩
  | _ => exact fits

theorem WellPlaced.append {pieces more : List Piece} (first : WellPlaced pieces)
    (second : WellPlaced more) : WellPlaced (pieces ++ more) := by
  induction pieces with
  | nil => exact second
  | cons piece pieces ih => exact ⟨first.1.append more, ih first.2⟩

/-- A piece that neither is a summary nor stands within a line. -/
def IsPlain : Piece → Prop
  | text _ | doc _ => False
  | _ => True

theorem WellPlaced.block {inside : List Piece} (placed : WellPlaced inside) (header : String) :
    WellPlaced (block header inside) :=
  ⟨trivial, placed.append ⟨trivial, trivial⟩⟩

theorem WellPlaced.indented {inside : List Piece} (placed : WellPlaced inside) :
    WellPlaced (indented inside) :=
  ⟨trivial, placed.append ⟨trivial, trivial⟩⟩

theorem WellPlaced.within {inside : List Piece} (placed : WellPlaced inside)
    (headers : List String) : WellPlaced (within headers inside) := by
  induction headers with
  | nil => exact placed
  | cons header headers ih => exact ih.block header

/-- A summary in front of a block. -/
theorem WellPlaced.documented {header : String} {inside : List Piece} (summary : String)
    (placed : WellPlaced inside) (text : header ≠ "") :
    WellPlaced (doc summary :: Piece.block header inside) :=
  ⟨⟨_, rfl, text⟩, placed.block header⟩

/-- Whether a piece brings no comments of its own. -/
def IsUncommented : Piece → Prop
  | line s | openBlock s => Uncommented (s.toList ++ ['\n'])
  | closeBlock behind => Uncommented ('\x7d' :: behind.toList ++ ['\n'])
  | text _ | newline | blankLine | indent | dedent | doc _ => True

end Piece

namespace Page

/-! ### What pieces add -/

/-- A line of its own. -/
def ownLine (level : Nat) (s : List Char) : List Char :=
  (if s.isEmpty then [] else margin level ++ s) ++ ['\n']

/-- What a piece that is no summary adds to a page, at a level of indentation; `opened` tells whether
an empty line is out of place. -/
def added (level : Nat) (opened : Bool) : Piece → List Char
  | .line s => ownLine level s.toList
  | .newline => ['\n']
  | .blankLine => if opened then [] else ['\n']
  | .openBlock header => ownLine level header.toList ++ ownLine level ['\x7b']
  | .closeBlock behind => margin (level - 1) ++ '\x7d' :: behind.toList ++ ['\n']
  | .text _ | .indent | .dedent | .doc _ => []

/-- What a summary adds to a page. -/
def summaryRows (page : Page) (summary : String) : List Char :=
  if page.documentation then (docLines summary.toList).flatMap (ownLine page.level) else []

/-- The level of indentation behind a piece. -/
def levelAfter (level : Nat) : Piece → Nat
  | .openBlock _ | .indent => level + 1
  | .closeBlock _ | .dedent => level - 1
  | _ => level

variable {page : Page}

theorem reverse_margin (level : Nat) : (margin level).reverse = margin level :=
  List.reverse_replicate

theorem writeLine_eq (start : page.atLineStart = true) (s : List Char) :
    page.writeLine s
      = { page with written := (ownLine page.level s).reverse ++ page.written } := by
  rw [writeLine, write, ownLine]
  split
  · simp [newline, start]
  · simp [newline, start, reverse_margin]

theorem foldl_writeLine_eq (start : page.atLineStart = true) (lines : List (List Char)) :
    lines.foldl writeLine page = { page with
      written := (lines.flatMap (ownLine page.level)).reverse ++ page.written } := by
  induction lines generalizing page with
  | nil => rfl
  | cons line lines ih =>
    rw [List.foldl_cons, ih (by rw [writeLine_eq start]; exact start), writeLine_eq start]
    simp

/-- What a piece that is no summary adds to a page at the start of a line. -/
theorem put_eq (start : page.atLineStart = true) {piece : Piece} (plain : piece.IsPlain) :
    page.put piece = { page with
      written := (added page.level (isOpened page.written) piece).reverse ++ page.written
      level := levelAfter page.level piece } := by
  obtain ⟨written, level, _, documentation⟩ := page
  cases start
  cases piece with
  | text s | doc summary => exact plain.elim
  | line s => exact writeLine_eq rfl _
  | newline | indent | dedent => rfl
  | blankLine =>
    simp only [put, blankLine, endLine, if_true, added, levelAfter]
    split <;> rfl
  | openBlock header =>
    rw [put, openBlock, writeLine_eq rfl, writeLine_eq rfl]
    simp [indent, added, levelAfter]
  | closeBlock behind =>
    simp only [put, closeBlock, endLine, if_true, dedent, write, writeLine, newline, added,
      levelAfter]
    split
    · next none => simp_all [reverse_margin]
    · simp [reverse_margin]

theorem put_doc_eq (start : page.atLineStart = true) (summary : String) :
    page.put (.doc summary) = { page with
      written := (page.summaryRows summary).reverse ++ page.written } := by
  rw [put, doc, summaryRows]
  split
  · exact foldl_writeLine_eq start _
  · rfl

/-! ### Rows -/

theorem endsRow_ownLine (level : Nat) (s : List Char) : EndsRow (ownLine level s) :=
  endsRow_append_newline _

theorem endsRow_added (level : Nat) (opened : Bool) (piece : Piece) :
    EndsRow (added level opened piece) := by
  cases piece with
  | line s => exact endsRow_ownLine _ _
  | newline => exact endsRow_append_newline []
  | blankLine =>
    cases opened with
    | true => exact .inl rfl
    | false => exact endsRow_append_newline []
  | openBlock header => exact (endsRow_ownLine _ _).append (endsRow_ownLine _ _)
  | closeBlock behind => exact endsRow_append_newline _
  | text _ | indent | dedent | doc _ => exact .inl rfl

theorem newline_notMem_margin (level : Nat) : '\n' ∉ margin level := fun mem =>
  absurd (List.eq_of_mem_replicate mem) (by decide)

theorem withoutComments_ownLine {s : List Char} (line : '\n' ∉ s) (level : Nat) :
    withoutComments (ownLine level s) = if isComment s then [] else ownLine level s := by
  cases s with
  | nil => rfl
  | cons c s =>
    have whole : '\n' ∉ margin level ++ c :: s := by
      rw [List.mem_append, not_or]
      exact ⟨newline_notMem_margin level, line⟩
    have comment : isComment (margin level ++ c :: s ++ ['\n']) = isComment (c :: s) := by
      rw [margin, List.append_assoc, isComment_spaces]
      cases plain : isComment (c :: s) with
      | true =>
        obtain ⟨rest, slashes⟩ := List.isPrefixOf_iff_prefix.mp plain
        rw [isComment, List.dropWhile_append, ← slashes]
        rfl
      | false => exact isComment_append_eq_false plain (by decide)
    rw [ownLine, if_neg (by simp), withoutComments_line whole, comment]

theorem isComment_of_mem_docLines {summary : List Char} :
    ∀ line ∈ docLines summary, '\n' ∉ line ∧ isComment line = true := by
  rw [docLines, List.forall_mem_append, List.forall_mem_cons, List.forall_mem_map,
    List.forall_mem_singleton]
  refine ⟨⟨⟨by decide, rfl⟩, fun line mem => ⟨?_, rfl⟩⟩, by decide, rfl⟩
  rw [List.mem_append, not_or]
  exact ⟨by decide, notMem_of_mem_lines line mem⟩

theorem withoutComments_ownLines {lines : List (List Char)}
    (comments : ∀ line ∈ lines, '\n' ∉ line ∧ isComment line = true) (level : Nat) :
    withoutComments (lines.flatMap (ownLine level)) = [] := by
  induction lines with
  | nil => rfl
  | cons line lines ih =>
    obtain ⟨⟨whole, comment⟩, later⟩ := List.forall_mem_cons.mp comments
    rw [List.flatMap_cons, withoutComments_append (endsRow_ownLine level line),
      withoutComments_ownLine whole, if_pos comment, ih later, List.nil_append]

theorem endsRow_ownLines (level : Nat) (lines : List (List Char)) :
    EndsRow (lines.flatMap (ownLine level)) := by
  induction lines with
  | nil => exact .inl rfl
  | cons line lines ih => exact (endsRow_ownLine level line).append ih

theorem withoutComments_summaryRows (page : Page) (summary : String) :
    withoutComments (page.summaryRows summary) = [] := by
  rw [summaryRows]
  split
  · exact withoutComments_ownLines isComment_of_mem_docLines page.level
  · rfl

theorem endsRow_summaryRows (page : Page) (summary : String) :
    EndsRow (page.summaryRows summary) := by
  rw [summaryRows]
  split
  · exact endsRow_ownLines page.level _
  · exact .inl rfl

/-! ### Two pages -/

/-- Whether the next empty line is written alike on two pages, and the one behind it. -/
structure Alike (d p : Page) : Prop where
  empty : d.written = [] ↔ p.written = []
  opened : isOpened d.written = isOpened p.written

/-- Two pages at the start of a line that are the same up to comments. -/
structure Documents (d p : Page) : Prop where
  level : d.level = p.level
  start : d.atLineStart = true ∧ p.atLineStart = true
  ends : EndsRow d.written.reverse ∧ EndsRow p.written.reverse
  text : withoutComments d.written.reverse = withoutComments p.written.reverse

theorem isOpened_newline {written : List Char} (ends : EndsRow written.reverse) :
    isOpened ('\n' :: written) = !written.isEmpty := by
  cases written with
  | nil => rfl
  | cons c written =>
    rw [EndsRow, List.getLast?_reverse] at ends
    rcases ends with none | last
    · simp at none
    · cases last
      rfl

theorem isOpened_cons_cons (a b : Char) (written : List Char) :
    isOpened (a :: b :: written) = (a == '\n' && (b == '\n' || b == '\x7b')) := by
  unfold isOpened
  split <;> simp_all

/-- The last two characters decide whether an empty line is out of place. -/
theorem isOpened_append {s : List Char} (two : 2 ≤ s.length) (written written' : List Char) :
    isOpened (s.reverse ++ written) = isOpened (s.reverse ++ written') := by
  rw [← List.length_reverse] at two
  obtain ⟨a, rest, first⟩ := List.exists_cons_of_length_pos (Nat.lt_of_lt_of_le Nat.two_pos two)
  rw [first, List.length_cons, Nat.succ_le_succ_iff] at two
  obtain ⟨b, rest, rfl⟩ := List.exists_cons_of_length_pos two
  rw [first, List.cons_append, List.cons_append, List.cons_append, List.cons_append,
    isOpened_cons_cons, isOpened_cons_cons]

theorem two_le_length_ownLine (level : Nat) {s : String} (text : s ≠ "") :
    2 ≤ (ownLine level s.toList).length := by
  have solid : 0 < s.toList.length :=
    List.length_pos_iff.mpr fun none => text (String.toList_eq_nil_iff.mp none)
  rw [ownLine, if_neg (by simpa using text)]
  simp only [List.length_append, List.length_singleton]
  omega

/-- The same added to two pages, at least two characters of it, makes them alike. -/
theorem alike_of_added {d p d' p' : Page} {s : List Char} (two : 2 ≤ s.length)
    (here : d'.written = s.reverse ++ d.written) (there : p'.written = s.reverse ++ p.written) :
    Alike d' p' := by
  have solid : s.reverse ≠ [] := by
    rw [ne_eq, List.reverse_eq_nil_iff]
    rintro rfl
    exact absurd two (by decide)
  constructor
  · rw [here, there]
    simp [solid]
  · rw [here, there, isOpened_append two]

theorem alike_of_newline {d p d' p' : Page} (same : Documents d p) (alike : Alike d p)
    (here : d'.written = '\n' :: d.written) (there : p'.written = '\n' :: p.written) :
    Alike d' p' := by
  constructor
  · rw [here, there]
    simp
  · rw [here, there, isOpened_newline same.ends.1, isOpened_newline same.ends.2, Bool.eq_iff_iff]
    simp [alike.empty]

namespace Documents

variable {d p : Page} {piece : Piece}

/-- Two pages at the start of a line get the same from a piece, if they are alike or the piece begins
a line with text. -/
theorem added_eq (same : Documents d p) (ready : Alike d p ∨ piece.Opens) :
    added d.level (isOpened d.written) piece = added p.level (isOpened p.written) piece := by
  rw [same.level]
  rcases ready with alike | opens
  · rw [alike.opened]
  · cases piece with
    | line s | openBlock header => rfl
    | _ => exact opens.elim

theorem put (same : Documents d p) (plain : piece.IsPlain) (ready : Alike d p ∨ piece.Opens) :
    Documents (d.put piece) (p.put piece) := by
  rw [put_eq same.start.1 plain, put_eq same.start.2 plain, same.added_eq ready]
  constructor
  · exact congrArg (levelAfter · piece) same.level
  · exact same.start
  · simp only [List.reverse_append, List.reverse_reverse]
    exact ⟨same.ends.1.append (endsRow_added _ _ _), same.ends.2.append (endsRow_added _ _ _)⟩
  · simp only [List.reverse_append, List.reverse_reverse]
    rw [withoutComments_append same.ends.1, withoutComments_append same.ends.2, same.text]

theorem alike_put (same : Documents d p) (plain : piece.IsPlain) (ready : Alike d p ∨ piece.Opens) :
    Alike (d.put piece) (p.put piece) := by
  have here := congrArg Page.written (put_eq same.start.1 plain)
  have there := congrArg Page.written (put_eq same.start.2 plain)
  rw [← same.added_eq ready] at there
  dsimp only at here there
  cases piece with
  | text s | doc summary => exact plain.elim
  | line s =>
    by_cases text : s = ""
    · subst text
      exact alike_of_newline same (ready.resolve_right fun opens => opens rfl) here there
    · exact alike_of_added (two_le_length_ownLine _ text) here there
  | openBlock header =>
    refine alike_of_added (Nat.le_trans ?_ (List.length_append ▸ Nat.le_add_left _ _)) here there
    exact two_le_length_ownLine d.level (s := "\x7b") (by decide)
  | closeBlock behind => exact alike_of_added (by simp [added]; omega) here there
  | newline => exact alike_of_newline same (ready.resolve_right id) here there
  | blankLine =>
    have alike := ready.resolve_right id
    cases opened : isOpened d.written with
    | true =>
      rw [opened] at here there
      exact ⟨by rw [here, there]; exact alike.empty, by rw [here, there]; exact alike.opened⟩
    | false =>
      rw [opened] at here there
      exact alike_of_newline same alike here there
  | indent | dedent =>
    have alike := ready.resolve_right id
    exact ⟨by rw [here, there]; exact alike.empty, by rw [here, there]; exact alike.opened⟩

/-- A summary keeps two pages the same up to comments, wherever it is written. -/
theorem put_doc (same : Documents d p) (summary : String) :
    Documents (d.put (.doc summary)) (p.put (.doc summary)) := by
  rw [put_doc_eq same.start.1, put_doc_eq same.start.2]
  constructor
  · exact same.level
  · exact same.start
  · simp only [List.reverse_append, List.reverse_reverse]
    exact ⟨same.ends.1.append (endsRow_summaryRows d summary),
      same.ends.2.append (endsRow_summaryRows p summary)⟩
  · simp only [List.reverse_append, List.reverse_reverse]
    rw [withoutComments_append same.ends.1, withoutComments_append same.ends.2,
      withoutComments_summaryRows, withoutComments_summaryRows, same.text]

/-- Well placed pieces keep two pages the same up to comments. -/
theorem foldl {pieces : List Piece} (placed : Piece.WellPlaced pieces) (same : Documents d p)
    (ready : Alike d p ∨ ∃ next ∈ pieces.head?, next.Opens) :
    Documents (pieces.foldl Page.put d) (pieces.foldl Page.put p) := by
  induction pieces generalizing d p with
  | nil => exact same
  | cons piece pieces ih =>
    obtain ⟨fits, later⟩ := placed
    have plainly (plain : piece.IsPlain) :
        Documents ((piece :: pieces).foldl Page.put d) ((piece :: pieces).foldl Page.put p) := by
      have ready : Alike d p ∨ piece.Opens := ready.imp_right fun ⟨next, first, opens⟩ => by
        cases first
        exact opens
      exact ih later (same.put plain ready) (.inl (same.alike_put plain ready))
    cases piece with
    | text s => exact fits.elim
    | doc summary => exact ih later (same.put_doc summary) (.inr fits)
    | _ => exact plainly trivial

end Documents

/-! ### Pages without comments -/

theorem uncommented_margin (level : Nat) (s : List Char) :
    Uncommented (margin level ++ s) ↔ Uncommented s :=
  uncommented_spaces _ s

theorem uncommented_newline : Uncommented ['\n'] := by
  rw [Uncommented, rows_newline, List.forall_mem_cons]
  exact ⟨rfl, List.forall_mem_nil _⟩

theorem uncommented_ownLine (level : Nat) (s : List Char) :
    Uncommented (ownLine level s) ↔ Uncommented (s ++ ['\n']) := by
  cases s with
  | nil => rfl
  | cons c s => rw [ownLine, if_neg (by simp), List.append_assoc, uncommented_margin]

theorem uncommented_added (level : Nat) (opened : Bool) (piece : Piece) :
    Uncommented (added level opened piece) ↔ piece.IsUncommented := by
  have nothing : Uncommented [] := List.forall_mem_nil _
  cases piece with
  | line s => exact uncommented_ownLine level s.toList
  | openBlock header =>
    have brace : Uncommented (ownLine level ['\x7b']) :=
      (uncommented_ownLine level _).mpr ((uncommented_line (by decide)).mpr rfl)
    rw [added, uncommented_append (endsRow_ownLine _ _), and_iff_left brace]
    exact uncommented_ownLine level header.toList
  | closeBlock behind =>
    rw [added, List.append_assoc, uncommented_margin]
    rfl
  | newline => exact iff_of_true uncommented_newline trivial
  | blankLine =>
    cases opened with
    | true => exact iff_of_true nothing trivial
    | false => exact iff_of_true uncommented_newline trivial
  | text _ | indent | dedent | doc _ => exact iff_of_true nothing trivial

/-- A page at the start of a line, without documentation. -/
structure Bare (page : Page) : Prop where
  start : page.atLineStart = true
  documentation : page.documentation = false
  ends : EndsRow page.written.reverse

/-- A piece brings its own comments to a page, and no others. -/
theorem Bare.put (bare : page.Bare) {piece : Piece} (apart : ∀ s, piece ≠ .text s) :
    (page.put piece).Bare ∧ (Uncommented (page.put piece).written.reverse ↔
      Uncommented page.written.reverse ∧ piece.IsUncommented) := by
  have plainly (plain : piece.IsPlain) : (page.put piece).Bare ∧
      (Uncommented (page.put piece).written.reverse ↔
        Uncommented page.written.reverse ∧ piece.IsUncommented) := by
    rw [put_eq bare.start plain]
    refine ⟨⟨bare.start, bare.documentation, ?_⟩, ?_⟩
    · rw [List.reverse_append, List.reverse_reverse]
      exact bare.ends.append (endsRow_added _ _ _)
    · rw [List.reverse_append, List.reverse_reverse, uncommented_append bare.ends,
        uncommented_added]
  cases piece with
  | text s => exact absurd rfl (apart s)
  | doc summary =>
    have unwritten : page.put (.doc summary) = page := by
      rw [Page.put, doc, bare.documentation]
      rfl
    rw [unwritten]
    exact ⟨bare, (and_iff_left trivial).symm⟩
  | _ => exact plainly trivial

/-- Pieces bring their own comments to a page, and no others. -/
theorem Bare.foldl {pieces : List Piece} (placed : Piece.WellPlaced pieces) (bare : page.Bare) :
    Uncommented (pieces.foldl Page.put page).written.reverse ↔
      Uncommented page.written.reverse ∧ ∀ piece ∈ pieces, piece.IsUncommented := by
  induction pieces generalizing page with
  | nil => exact (and_iff_left (List.forall_mem_nil _)).symm
  | cons piece pieces ih =>
    obtain ⟨fits, later⟩ := placed
    have apart : ∀ s, piece ≠ .text s := by
      rintro s rfl
      exact fits
    obtain ⟨next, comments⟩ := bare.put apart
    rw [List.foldl_cons, ih later next, comments, List.forall_mem_cons, and_assoc]

end Page

end Source

/-! ### Files -/

namespace SourceFile

open Source (Page Piece)

theorem toList_textOf (settings : Settings) (pieces : List Piece) :
    (textOf settings pieces).toList
      = (Page.ofPieces settings.emitDocumentation (header ++ pieces)).written.reverse := by
  rw [textOf, Page.text, String.toList_ofList]

/-- Without documentation, leaving out the comments leaves a text alone exactly if none of its pieces
brings one. -/
theorem withoutComments_textOf_eq_iff {settings : Settings}
    (plain : settings.emitDocumentation = false) {pieces : List Piece}
    (placed : Piece.WellPlaced pieces) :
    withoutComments (textOf settings pieces).toList = (textOf settings pieces).toList ↔
      ∀ piece ∈ pieces, piece.IsUncommented := by
  have bare : Page.Bare ⟨[], 0, true, settings.emitDocumentation⟩ := ⟨rfl, plain, .inl rfl⟩
  have whole : Piece.WellPlaced (header ++ pieces) :=
    Piece.WellPlaced.append ⟨trivial, trivial, trivial, trivial, trivial⟩ placed
  have front : ∀ piece ∈ header, piece.IsUncommented := by
    simp only [header, List.forall_mem_cons]
    refine ⟨?_, ?_, ?_, trivial, List.forall_mem_nil _⟩ <;>
      exact (uncommented_line (by decide)).mpr (by decide)
  rw [withoutComments_eq_self_iff, toList_textOf, Page.ofPieces, bare.foldl whole,
    List.forall_mem_append]
  exact ⟨fun clean => clean.2.2, fun clean => ⟨List.forall_mem_nil _, front, clean⟩⟩

end SourceFile

end Marksmith

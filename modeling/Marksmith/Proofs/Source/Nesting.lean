import Marksmith.Proofs.Source.Documentation
import Marksmith.Proofs.Text.Braces

/-!
Pages of nested pieces. Blocks open and close braces, and a page keeps as many levels of indentation
as there are open braces, except between the pieces of `Piece.indented`. So these hold lines only.

* `Piece.Nested`: pieces whose blocks are closed and that bring no braces of their own;
* `Page.Nests.foldl`: they keep the braces of a page nested;
* `SourceFile.wellNested_textOf`: the text of a file of nested pieces is well nested.
-/

namespace Marksmith

open Text

namespace Source

/-! ### Pieces -/

namespace Piece

/-- Whether a piece brings whole rows without braces. -/
def IsBraceless : Piece → Prop
  | line s | doc s => Unbraced s
  | newline | blankLine => True
  | text _ | openBlock _ | closeBlock _ | indent | dedent => False

/-- Pieces whose blocks are closed. There are no braces but those of blocks, and no blocks in what is
indented further. -/
inductive Nested : List Piece → Prop
  | nil : Nested []
  | braceless {piece : Piece} (less : piece.IsBraceless) : Nested [piece]
  | append {pieces more : List Piece} (first : Nested pieces) (second : Nested more) :
    Nested (pieces ++ more)
  | block {header : String} {inside : List Piece} (less : Unbraced header)
    (inner : Nested inside) : Nested (block header inside)
  | indented {inside : List Piece} (less : ∀ piece ∈ inside, piece.IsBraceless) :
    Nested (indented inside)

theorem Nested.cons {piece : Piece} {pieces : List Piece} (less : piece.IsBraceless)
    (nested : Nested pieces) : Nested (piece :: pieces) :=
  (braceless less).append nested

theorem nested_flatMap {α : Type} {f : α → List Piece} {as : List α}
    (each : ∀ a ∈ as, Nested (f a)) : Nested (as.flatMap f) := by
  induction as with
  | nil => exact .nil
  | cons a as ih =>
    obtain ⟨here, later⟩ := List.forall_mem_cons.mp each
    exact here.append (ih later)

/-- Lines without braces are nested. -/
theorem nested_lines {α : Type} {f : α → String} {as : List α}
    (each : ∀ a ∈ as, Unbraced (f a)) : Nested (as.map fun a => line (f a)) := by
  rw [List.map_eq_flatMap]
  exact nested_flatMap fun a mem => .braceless (each a mem)

theorem nested_members {ms : List (List Piece)} (each : ∀ m ∈ ms, Nested m) :
    Nested (members ms) :=
  nested_flatMap fun m mem => .cons trivial (each m mem)

theorem Nested.within {headers : List String} (less : ∀ header ∈ headers, Unbraced header)
    {inside : List Piece} (nested : Nested inside) : Nested (within headers inside) := by
  induction headers with
  | nil => exact nested
  | cons header headers ih =>
    obtain ⟨here, later⟩ := List.forall_mem_cons.mp less
    exact .block here (ih later)

end Piece

/-! ### Pages -/

namespace Page

variable {page : Page} {depth : Nat}

/-- A page at the start of a line, with nested braces of which `depth` are open. -/
structure Nests (depth : Nat) (page : Page) : Prop where
  start : page.atLineStart = true
  text : Text.Nests 0 page.written.reverse depth

theorem margin_eq (level : Nat) : margin level = List.replicate (4 * level) ' ' := by
  rw [margin, indentWidth, Nat.mul_comm]

theorem braceless_ownLine {s : List Char} (less : Braceless s) (level : Nat) :
    Braceless (ownLine level s) := by
  rw [ownLine, braceless_append]
  refine ⟨?_, by decide⟩
  split
  · exact List.forall_mem_nil _
  · exact braceless_append.mpr ⟨margin_eq level ▸ braceless_spaces _, less⟩

theorem braceless_summaryRows {summary : String} (less : Unbraced summary) :
    Braceless (page.summaryRows summary) := by
  have lines : ∀ line ∈ docLines summary.toList, Braceless line := by
    rw [docLines, List.forall_mem_append, List.forall_mem_cons, List.forall_mem_map,
      List.forall_mem_singleton]
    refine ⟨⟨by decide, fun line mem => ?_⟩, by decide⟩
    exact braceless_append.mpr ⟨by decide, braceless_of_mem_lines less line mem⟩
  rw [summaryRows]
  split
  · intro c mem
    obtain ⟨line, listed, inside⟩ := List.mem_flatMap.mp mem
    exact braceless_ownLine (lines line listed) page.level c inside
  · exact List.forall_mem_nil _

namespace Nests

variable {piece : Piece}

/-- Nested rows on a page with nested braces. -/
theorem add (nests : page.Nests depth) {s : List Char} {behind level : Nat}
    (rows : Text.Nests depth s behind) :
    ({ page with written := s.reverse ++ page.written, level } : Page).Nests behind where
  start := nests.start
  text := by
    rw [List.reverse_append, List.reverse_reverse]
    exact nests.text.append rows

/-- A piece without braces leaves the open braces and the level as they are. -/
theorem put (nests : page.Nests depth) (less : piece.IsBraceless) :
    (page.put piece).Nests depth ∧ (page.put piece).level = page.level := by
  have plainly (plain : piece.IsPlain) (level : levelAfter page.level piece = page.level)
      (rows : Braceless (added page.level (isOpened page.written) piece)) :
      (page.put piece).Nests depth ∧ (page.put piece).level = page.level := by
    rw [put_eq nests.start plain]
    exact ⟨nests.add (nests_of_braceless (endsRow_added _ _ _) rows depth), level⟩
  cases piece with
  | line s => exact plainly trivial rfl (braceless_ownLine less page.level)
  | newline => exact plainly trivial rfl (show Braceless ['\n'] by decide)
  | blankLine =>
    refine plainly trivial rfl ?_
    rw [added]
    split <;> decide
  | doc summary =>
    rw [put_doc_eq nests.start]
    have rows := nests_of_braceless (endsRow_summaryRows page summary)
      (braceless_summaryRows less) depth
    exact ⟨nests.add rows, rfl⟩
  | text s | openBlock s | closeBlock s | indent | dedent => exact less.elim

theorem foldl_braceless {pieces : List Piece} (nests : page.Nests depth)
    (less : ∀ piece ∈ pieces, piece.IsBraceless) :
    (pieces.foldl Page.put page).Nests depth ∧
      (pieces.foldl Page.put page).level = page.level := by
  induction pieces generalizing page with
  | nil => exact ⟨nests, rfl⟩
  | cons piece pieces ih =>
    obtain ⟨here, later⟩ := List.forall_mem_cons.mp less
    obtain ⟨next, level⟩ := nests.put here
    obtain ⟨last, levels⟩ := ih next later
    exact ⟨last, levels.trans level⟩

theorem openBlock (nests : page.Nests page.level) {header : String} (less : Unbraced header) :
    (page.put (.openBlock header)).Nests (page.level + 1) ∧
      (page.put (.openBlock header)).level = page.level + 1 := by
  have plain : (Piece.openBlock header).IsPlain := trivial
  rw [put_eq nests.start plain]
  refine ⟨nests.add ?_, rfl⟩
  have row : ownLine page.level ['\x7b']
      = List.replicate (4 * page.level) ' ' ++ ['\x7b', '\n'] := by
    rw [ownLine, margin_eq]
    simp
  rw [added, row]
  exact (nests_of_braceless (endsRow_ownLine _ _) (braceless_ownLine less page.level) _).append
    (nests_opening page.level)

theorem closeBlock (nests : page.Nests (depth + 1)) (level : page.level = depth + 1) :
    (page.put (.closeBlock "")).Nests depth ∧ (page.put (.closeBlock "")).level = depth := by
  have outer : page.level - 1 = depth := by rw [level, Nat.add_sub_cancel]
  have plain : (Piece.closeBlock "").IsPlain := trivial
  rw [put_eq nests.start plain]
  refine ⟨nests.add ?_, outer⟩
  rw [added, outer, margin_eq]
  simpa using nests_closing depth

/-- Nested pieces keep the braces of a page nested, and leave the level as it is. -/
theorem foldl {pieces : List Piece} (nested : Piece.Nested pieces) (nests : page.Nests page.level) :
    (pieces.foldl Page.put page).Nests page.level ∧
      (pieces.foldl Page.put page).level = page.level := by
  induction nested generalizing page with
  | nil => exact ⟨nests, rfl⟩
  | braceless less => exact nests.put less
  | append _ _ first second =>
    rw [List.foldl_append]
    obtain ⟨middle, level⟩ := first nests
    obtain ⟨last, levels⟩ := second (level.symm ▸ middle)
    exact ⟨level ▸ last, levels.trans level⟩
  | block less _ inner =>
    obtain ⟨opened, deeper⟩ := nests.openBlock less
    obtain ⟨inside, level⟩ := inner (deeper.symm ▸ opened)
    rw [Piece.block, List.foldl_cons, List.foldl_append]
    exact closeBlock (deeper ▸ inside) (level.trans deeper)
  | indented less =>
    have further : (page.put .indent).Nests page.level := ⟨nests.start, nests.text⟩
    obtain ⟨inside, level⟩ := further.foldl_braceless less
    rw [Piece.indented, List.foldl_cons, List.foldl_append]
    refine ⟨⟨inside.start, inside.text⟩, ?_⟩
    show Page.level _ - 1 = page.level
    rw [level]
    rfl

end Nests

end Page

end Source

/-! ### Files -/

namespace SourceFile

open Source (Page Piece)

theorem nested_header : Piece.Nested header :=
  .cons (.ofList (by decide)) <| .cons (.ofList (by decide)) <| .cons (.ofList (by decide)) <|
    .braceless trivial

/-- The text of a file of nested pieces is well nested. -/
theorem wellNested_textOf {pieces : List Piece} (nested : Piece.Nested pieces)
    (settings : Settings) : WellNested (textOf settings pieces).toList := by
  have empty : Page.Nests 0 ⟨[], 0, true, settings.emitDocumentation⟩ :=
    ⟨rfl, nests_of_braceless (.inl rfl) (List.forall_mem_nil _) 0⟩
  rw [toList_textOf]
  exact (empty.foldl (nested_header.append nested)).1.text

end SourceFile

end Marksmith

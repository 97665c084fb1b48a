import Mathlib.Data.List.Basic
import Mathlib.Data.List.Flatten
import Marksmith.Text.Lines

/-!
Rows of a text and the comments among them. A row is a line together with the line feed at its end,
so a text is its rows one behind the other, and rows can be left out.

* `withoutComments_append`: comments are left out of two texts one by one, if the first one ends at
  the end of a row;
* `withoutComments_eq_self_iff`: leaving out the comments leaves a text alone exactly if there are
  none;
* `isComment_append_eq_false`: text behind what is no comment makes none of it, unless it goes on
  with a slash.
-/

namespace Marksmith.Text

variable {s t : List Char}

/-! ### Rows -/

/-- The rows of a text: its lines, each with the line feed at its end. The last one may have none. -/
def rows : List Char → List (List Char)
  | [] => []
  | c :: s =>
    if c = '\n' then ['\n'] :: rows s
    else
      match rows s with
      | [] => [[c]]
      | row :: more => (c :: row) :: more

theorem rows_newline (s : List Char) : rows ('\n' :: s) = ['\n'] :: rows s := by
  rw [rows, if_pos rfl]

/-- A character in front of a text goes into its first row. -/
theorem rows_cons {c : Char} (inside : c ≠ '\n') {row : List Char} {more : List (List Char)}
    (split : rows s = row :: more) : rows (c :: s) = (c :: row) :: more := by
  rw [rows, if_neg inside, split]

theorem exists_rows_cons (c : Char) (s : List Char) : ∃ row more, rows (c :: s) = row :: more := by
  by_cases break? : c = '\n'
  · exact ⟨_, _, break? ▸ rows_newline s⟩
  · cases split : rows s with
    | nil => exact ⟨[c], [], by rw [rows, if_neg break?, split]⟩
    | cons row more => exact ⟨_, _, rows_cons break? split⟩

/-- A text is its rows one behind the other. -/
theorem flatten_rows (s : List Char) : (rows s).flatten = s := by
  induction s with
  | nil => rfl
  | cons c s ih =>
    by_cases break? : c = '\n'
    · rw [break?, rows_newline, List.flatten_cons, ih, List.singleton_append]
    · cases s with
      | nil => rw [rows, if_neg break?]; rfl
      | cons d s =>
        obtain ⟨row, more, split⟩ := exists_rows_cons d s
        rw [split] at ih
        rw [rows_cons break? split, List.flatten_cons, List.cons_append, ← List.flatten_cons, ih]

/-- The end of a text is the end of a row. -/
def EndsRow (s : List Char) : Prop := s = [] ∨ s.getLast? = some '\n'

theorem endsRow_append_newline (s : List Char) : EndsRow (s ++ ['\n']) := .inr (by simp)

theorem rows_append_newline (s t : List Char) :
    rows (s ++ '\n' :: t) = rows (s ++ ['\n']) ++ rows t := by
  induction s with
  | nil => rw [List.nil_append, List.nil_append, rows_newline, rows_newline]; rfl
  | cons c s ih =>
    by_cases break? : c = '\n'
    · rw [break?, List.cons_append, List.cons_append, rows_newline, rows_newline, ih,
        List.cons_append]
    · obtain ⟨row, more, split⟩ : ∃ row more, rows (s ++ ['\n']) = row :: more := by
        cases s with
        | nil => exact ⟨_, _, rows_newline []⟩
        | cons d s => exact exists_rows_cons d _
      rw [split] at ih
      rw [List.cons_append, List.cons_append, rows_cons break? split, rows_cons break? ih]
      rfl

/-- Behind the end of a row stand other rows. -/
theorem rows_append (ends : EndsRow s) (t : List Char) : rows (s ++ t) = rows s ++ rows t := by
  rcases ends with rfl | last
  · rfl
  · obtain ⟨front, rfl⟩ := List.getLast?_eq_some_iff.mp last
    rw [List.append_assoc, List.singleton_append, rows_append_newline]

theorem EndsRow.append (first : EndsRow s) (second : EndsRow t) : EndsRow (s ++ t) := by
  rcases second with rfl | last
  · rwa [List.append_nil]
  · exact .inr (by rw [List.getLast?_append, last]; rfl)

/-- A line is a row. -/
theorem rows_line (line : '\n' ∉ s) : rows (s ++ ['\n']) = [s ++ ['\n']] := by
  induction s with
  | nil => exact rows_newline []
  | cons c s ih =>
    rw [List.mem_cons, not_or] at line
    exact rows_cons (Ne.symm line.1) (ih line.2)

/-! ### Comments -/

/-- Whether the first characters of a row that are no spaces are `///`. -/
def isComment (row : List Char) : Bool := "///".toList.isPrefixOf (row.dropWhile (· == ' '))

/-- A text without its comments. -/
def withoutComments (s : List Char) : List Char :=
  ((rows s).filter fun row => !isComment row).flatten

theorem withoutComments_append (ends : EndsRow s) (t : List Char) :
    withoutComments (s ++ t) = withoutComments s ++ withoutComments t := by
  rw [withoutComments, rows_append ends, List.filter_append, List.flatten_append]
  rfl

theorem withoutComments_line (line : '\n' ∉ s) :
    withoutComments (s ++ ['\n']) = if isComment (s ++ ['\n']) then [] else s ++ ['\n'] := by
  rw [withoutComments, rows_line line, List.filter_singleton]
  cases isComment (s ++ ['\n']) <;> simp

theorem ne_nil_of_mem_rows : ∀ row ∈ rows s, row ≠ [] := by
  induction s with
  | nil => exact List.forall_mem_nil _
  | cons c s ih =>
    rw [rows]
    split
    · exact List.forall_mem_cons.mpr ⟨List.cons_ne_nil _ _, ih⟩
    · split
      · exact List.forall_mem_singleton.mpr (List.cons_ne_nil _ _)
      · next row more split =>
        rw [split] at ih
        exact List.forall_mem_cons.mpr ⟨List.cons_ne_nil _ _, (List.forall_mem_cons.mp ih).2⟩

/-- The rows in front of another one end where a row does. -/
theorem endsRow_flatten {front back : List (List Char)} {next : List Char}
    (split : rows s = front ++ next :: back) : EndsRow front.flatten := by
  induction s generalizing front with
  | nil => exact absurd split (by simp [rows])
  | cons c s ih =>
    cases front with
    | nil => exact .inl rfl
    | cons row front =>
      by_cases break? : c = '\n'
      · rw [break?, rows_newline, List.cons_append] at split
        obtain ⟨rfl, rest⟩ := List.cons.inj split
        exact (endsRow_append_newline []).append (ih rest)
      · cases inner : rows s with
        | nil =>
          rw [rows, if_neg break?, inner] at split
          exact absurd (List.cons.inj split).2 (by simp)
        | cons first more =>
          rw [rows_cons break? inner] at split
          obtain ⟨rfl, rest⟩ := List.cons.inj split
          have solid := ne_nil_of_mem_rows first (inner ▸ List.mem_cons_self)
          have whole : rows s = (first :: front) ++ next :: back :=
            inner.trans (congrArg (first :: ·) rest)
          have ends := ih whole
          rw [List.flatten_cons] at ends ⊢
          rcases ends with none | last
          · exact absurd (List.append_eq_nil_iff.mp none).1 solid
          · exact .inr (by rw [List.cons_append, List.getLast?_cons, last]; rfl)

/-- A list of texts that are not empty is no longer the same text when one is left out. -/
theorem flatten_filter_eq_iff {p : List Char → Bool} {rows : List (List Char)}
    (solid : ∀ row ∈ rows, row ≠ []) :
    (rows.filter p).flatten = rows.flatten ↔ ∀ row ∈ rows, p row = true := by
  constructor
  · intro same
    induction rows with
    | nil => exact List.forall_mem_nil _
    | cons row rows ih =>
      obtain ⟨here, later⟩ := List.forall_mem_cons.mp solid
      by_cases kept : p row = true
      · rw [List.filter_cons_of_pos kept, List.flatten_cons, List.flatten_cons] at same
        exact List.forall_mem_cons.mpr ⟨kept, ih later (List.append_cancel_left same)⟩
      · -- What is kept of the others is no longer than the others.
        rw [List.filter_cons_of_neg kept, List.flatten_cons] at same
        have length := congrArg List.length same
        have shorter : (rows.filter p).flatten.length ≤ rows.flatten.length :=
          (List.Sublist.flatten List.filter_sublist).length_le
        have solid := List.length_pos_iff.mpr here
        rw [List.length_append] at length
        omega
  · exact fun all => by rw [List.filter_eq_self.mpr all]

/-- Whether no row of a text is a comment. -/
def Uncommented (s : List Char) : Prop := ∀ row ∈ rows s, isComment row = false

/-- Leaving out the comments leaves a text alone exactly if there are none. -/
theorem withoutComments_eq_self_iff : withoutComments s = s ↔ Uncommented s := by
  conv_lhs => rhs; rw [← flatten_rows s]
  rw [withoutComments, flatten_filter_eq_iff ne_nil_of_mem_rows, Uncommented]
  simp

theorem uncommented_append (ends : EndsRow s) (t : List Char) :
    Uncommented (s ++ t) ↔ Uncommented s ∧ Uncommented t := by
  rw [Uncommented, rows_append ends, List.forall_mem_append]
  rfl

/-- Slashes at the front of a text stand at the front of its first part, if the second one does not
go on with a slash. -/
theorem slashes_prefix_of_append {count : Nat} (slashes : List.replicate count '/' <+: s ++ t)
    (other : t.head? ≠ some '/') : List.replicate count '/' <+: s := by
  rcases List.prefix_or_prefix_of_prefix slashes (List.prefix_append s t) with within | ⟨r, beyond⟩
  · exact within
  · cases r with
    | nil => exact ⟨[], by rw [← beyond, List.append_nil, List.append_nil]⟩
    | cons c r =>
      rw [← beyond, List.prefix_append_right_inj] at slashes
      have slash : c = '/' := List.eq_of_mem_replicate (n := count) (beyond ▸ by simp)
      obtain ⟨rest, rfl⟩ := slashes
      exact absurd (by rw [slash]; rfl) other

/-- Spaces in front of a row do not matter. -/
theorem isComment_spaces (count : Nat) (s : List Char) :
    isComment (List.replicate count ' ' ++ s) = isComment s := by
  rw [isComment, isComment, List.dropWhile_append_of_pos]
  intro c mem
  rw [List.eq_of_mem_replicate mem]
  rfl

/-- Text behind what is no comment makes none of it, unless it goes on with a slash. -/
theorem isComment_append_eq_false (plain : isComment s = false)
    (other : (t.dropWhile (· == ' ')).head? ≠ some '/') : isComment (s ++ t) = false := by
  have noSlash : t.head? ≠ some '/' := by
    intro slash
    obtain ⟨rest, rfl⟩ := List.head?_eq_some_iff.mp slash
    exact other rfl
  have slashes : "///".toList = List.replicate 3 '/' := rfl
  rw [isComment, Bool.eq_false_iff, ne_eq, List.isPrefixOf_iff_prefix, slashes] at plain ⊢
  rw [List.dropWhile_append]
  split
  · intro comment
    exact other (List.head?_eq_some_iff.mpr ⟨_, comment.choose_spec.symm⟩)
  · exact fun comment => plain (slashes_prefix_of_append comment noSlash)

/-- A line is without comments unless it is one. -/
theorem uncommented_line (line : '\n' ∉ s) :
    Uncommented (s ++ ['\n']) ↔ isComment s = false := by
  rw [Uncommented, rows_line line, List.forall_mem_singleton]
  constructor
  · intro plain
    rw [Bool.eq_false_iff]
    intro comment
    obtain ⟨rest, slashes⟩ := List.isPrefixOf_iff_prefix.mp comment
    rw [isComment, List.dropWhile_append, ← slashes] at plain
    cases plain
  · exact fun plain => isComment_append_eq_false plain (by decide)

theorem uncommented_space (s : List Char) : Uncommented (' ' :: s) ↔ Uncommented s := by
  have inside : ' ' ≠ '\n' := by decide
  cases s with
  | nil =>
    rw [Uncommented, rows, if_neg inside]
    exact iff_of_true (List.forall_mem_singleton.mpr rfl) (List.forall_mem_nil _)
  | cons c s =>
    obtain ⟨row, more, split⟩ := exists_rows_cons c s
    rw [Uncommented, Uncommented, rows_cons inside split, split, List.forall_mem_cons,
      List.forall_mem_cons]
    rfl

/-- Spaces in front of a text do not matter. -/
theorem uncommented_spaces (count : Nat) (s : List Char) :
    Uncommented (List.replicate count ' ' ++ s) ↔ Uncommented s := by
  induction count with
  | zero => rfl
  | succ count ih => rw [List.replicate_succ, List.cons_append, uncommented_space, ih]

theorem notMem_withoutReturn {c : Char} (none : c ∉ s) : c ∉ withoutReturn s := by
  unfold withoutReturn
  split
  · exact fun mem => none (List.mem_cons_of_mem _ mem)
  · exact none

theorem notMem_of_mem_linesFrom {begun : List Char} (none : '\n' ∉ begun) :
    ∀ line ∈ linesFrom begun s, '\n' ∉ line := by
  induction s generalizing begun with
  | nil =>
    rw [linesFrom]
    split
    · exact List.forall_mem_nil _
    · exact List.forall_mem_singleton.mpr (by simpa using none)
  | cons c s ih =>
    rw [linesFrom]
    split
    · refine List.forall_mem_cons.mpr ⟨?_, ih List.not_mem_nil⟩
      simpa using notMem_withoutReturn none
    · next inside => exact ih (by simpa [none] using Ne.symm inside)

/-- A line has no line feed in it. -/
theorem notMem_of_mem_lines : ∀ line ∈ lines s, '\n' ∉ line :=
  notMem_of_mem_linesFrom List.not_mem_nil

end Marksmith.Text

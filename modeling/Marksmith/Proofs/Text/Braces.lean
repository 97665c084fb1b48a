import Marksmith.Host.Host
import Marksmith.Identifier
import Marksmith.Proofs.Text.Comments
import Marksmith.Source.FreshNames
import Marksmith.Syntax.Lexer

/-!
Braces in a text. A text is read from the left, and the braces that are open are counted.

* `Nests`: rows in which every brace closes or is closed by another one, and stands on its row
  behind four spaces for each brace that is open around it;
* `Nests.append`, `nests_of_braceless`, `nests_opening`, `nests_closing`: how such rows are put
  together;
* `Unbraced`: names without braces;
* `unbraced_append`, `unbraced_intercalate`, `Unbraced.ofList`: texts put together from names and
  written parts have none either;
* `unbraced_of_sanitize`, `unbraced_of_allocateAll`: nor do identifiers, whatever text they are made
  from, and names that are made new.
-/

namespace Marksmith.Text

section

variable {s t : List Char} {c : Char} {depth middle behind : Nat}

def isBrace (c : Char) : Bool := c == '\x7b' || c == '\x7d'

/-- Whether there is no brace in a text. -/
def Braceless (s : List Char) : Prop := ∀ c ∈ s, isBrace c = false

instance (s : List Char) : Decidable (Braceless s) :=
  List.decidableBAll (fun c => isBrace c = false) s

@[simp] theorem braceless_append : Braceless (s ++ t) ↔ Braceless s ∧ Braceless t :=
  List.forall_mem_append

theorem braceless_spaces (count : Nat) : Braceless (List.replicate count ' ') := by
  intro c mem
  rw [List.eq_of_mem_replicate mem]
  rfl

theorem Braceless.sublist (less : Braceless t) (part : s ⊆ t) : Braceless s :=
  fun c mem => less c (part mem)

/-! ### Depths -/

/-- The number of open braces behind a character; nothing if it closes a brace that is not open. -/
def depthAfter? (depth : Nat) (c : Char) : Option Nat :=
  if c = '\x7b' then some (depth + 1)
  else if c = '\x7d' then (if depth = 0 then none else some (depth - 1))
  else some depth

/-- The number of open braces behind a text; nothing if the text closes a brace that is not open. -/
def depthBehind? (depth : Nat) (s : List Char) : Option Nat := s.foldlM depthAfter? depth

theorem depthBehind?_append (depth : Nat) (s t : List Char) :
    depthBehind? depth (s ++ t) = (depthBehind? depth s).bind (depthBehind? · t) :=
  List.foldlM_append

theorem depthBehind?_of_braceless (less : Braceless s) (depth : Nat) :
    depthBehind? depth s = some depth := by
  induction s with
  | nil => rfl
  | cons c s ih =>
    obtain ⟨here, later⟩ := List.forall_mem_cons.mp less
    rw [isBrace, Bool.or_eq_false_iff, beq_eq_false_iff_ne, beq_eq_false_iff_ne] at here
    rw [depthBehind?, List.foldlM_cons, depthAfter?, if_neg here.1, if_neg here.2]
    exact ih later

/-! ### Nested rows -/

/-- What stands in front of a brace: rows, and four spaces for each brace around it. -/
def AtMargin (depth : Nat) (front : List Char) : Prop :=
  ∃ above, EndsRow above ∧ front = above ++ List.replicate (4 * depth) ' '

/-- Rows that lead from a number of open braces to another one. No brace is closed that is not open,
and every brace stands at the margin for the braces around it. -/
structure Nests (depth : Nat) (s : List Char) (behind : Nat) : Prop where
  ends : EndsRow s
  counted : depthBehind? depth s = some behind
  opening : ∀ front back, s = front ++ '\x7b' :: back →
    ∃ around, depthBehind? depth front = some around ∧ AtMargin around front
  closing : ∀ front back, s = front ++ '\x7d' :: back →
    ∃ around, depthBehind? depth front = some (around + 1) ∧ AtMargin around front

/-- Whether all braces of a text are closed, and every line that begins with one is indented by four
spaces for each brace around it. -/
def WellNested (s : List Char) : Prop := Nests 0 s 0

/-- A character of two texts stands in the first or the second one. -/
theorem split_append {front back : List Char} (same : s ++ t = front ++ c :: back) :
    (∃ more, s = front ++ c :: more) ∨ ∃ rest, front = s ++ rest ∧ t = rest ++ c :: back := by
  rcases List.append_eq_append_iff.mp same with ⟨rest, first, second⟩ | ⟨rest, first, second⟩
  · exact .inr ⟨rest, first, second⟩
  · cases rest with
    | nil => exact .inr ⟨[], by rw [first, List.append_nil, List.append_nil], second.symm⟩
    | cons d rest =>
      cases second
      exact .inl ⟨rest, first⟩

/-- A character that occurs once in a text stands in one place. -/
theorem front_eq {front back : List Char} (before : c ∉ s) (after : c ∉ t)
    (same : s ++ c :: t = front ++ c :: back) : front = s := by
  rcases split_append same with ⟨more, early⟩ | ⟨rest, rfl, late⟩
  · exact absurd (early ▸ List.mem_append_right _ List.mem_cons_self) before
  · cases rest with
    | nil => exact List.append_nil s
    | cons d rest =>
      rw [List.cons_append, List.cons.injEq] at late
      exact absurd (late.2 ▸ List.mem_append_right _ List.mem_cons_self) after

theorem AtMargin.append {front : List Char} (ends : EndsRow s) (margin : AtMargin depth front) :
    AtMargin depth (s ++ front) := by
  obtain ⟨above, rows, rfl⟩ := margin
  exact ⟨s ++ above, ends.append rows, (List.append_assoc _ _ _).symm⟩

/-- Nested rows behind others are nested together with them. -/
theorem Nests.append (first : Nests depth s middle) (second : Nests middle t behind) :
    Nests depth (s ++ t) behind where
  ends := first.ends.append second.ends
  counted := by rw [depthBehind?_append, first.counted, Option.bind_some, second.counted]
  opening := by
    intro front back same
    rcases split_append same with ⟨more, early⟩ | ⟨rest, rfl, late⟩
    · exact first.opening front more early
    · obtain ⟨around, counted, margin⟩ := second.opening rest back late
      refine ⟨around, ?_, margin.append first.ends⟩
      rw [depthBehind?_append, first.counted, Option.bind_some, counted]
  closing := by
    intro front back same
    rcases split_append same with ⟨more, early⟩ | ⟨rest, rfl, late⟩
    · exact first.closing front more early
    · obtain ⟨around, counted, margin⟩ := second.closing rest back late
      refine ⟨around, ?_, margin.append first.ends⟩
      rw [depthBehind?_append, first.counted, Option.bind_some, counted]

/-- Rows without braces leave the depth as it is. -/
theorem nests_of_braceless (ends : EndsRow s) (less : Braceless s) (depth : Nat) :
    Nests depth s depth where
  ends := ends
  counted := depthBehind?_of_braceless less depth
  opening front back same := by
    rw [same] at less
    cases less '\x7b' (by simp)
  closing front back same := by
    rw [same] at less
    cases less '\x7d' (by simp)

theorem notMem_spaces (brace : isBrace c = true) (count : Nat) : c ∉ List.replicate count ' ' :=
  fun mem => Bool.noConfusion (brace.symm.trans (braceless_spaces count c mem))

/-- An opening brace on a row of its own, at the margin. -/
theorem nests_opening (depth : Nat) :
    Nests depth (List.replicate (4 * depth) ' ' ++ ['\x7b', '\n']) (depth + 1) where
  ends := .inr (by simp)
  counted := by
    rw [depthBehind?_append, depthBehind?_of_braceless (braceless_spaces _), Option.bind_some]
    rfl
  opening front back same := by
    rw [front_eq (notMem_spaces rfl _) (by decide) same]
    exact ⟨depth, depthBehind?_of_braceless (braceless_spaces _) depth, [], .inl rfl, rfl⟩
  closing front back same := by
    have mem : '\x7d' ∈ List.replicate (4 * depth) ' ' ++ ['\x7b', '\n'] := same ▸ by simp
    simp at mem

/-- A closing brace on a row of its own, at the margin of the brace that it closes. -/
theorem nests_closing (depth : Nat) :
    Nests (depth + 1) (List.replicate (4 * depth) ' ' ++ ['\x7d', '\n']) depth where
  ends := .inr (by simp)
  counted := by
    rw [depthBehind?_append, depthBehind?_of_braceless (braceless_spaces _), Option.bind_some]
    rfl
  opening front back same := by
    have mem : '\x7b' ∈ List.replicate (4 * depth) ' ' ++ ['\x7d', '\n'] := same ▸ by simp
    simp at mem
  closing front back same := by
    rw [front_eq (notMem_spaces rfl _) (by decide) same]
    exact ⟨depth, depthBehind?_of_braceless (braceless_spaces _) _, [], .inl rfl, rfl⟩

/-! ### Lines -/

theorem mem_of_mem_withoutReturn (mem : c ∈ withoutReturn s) : c ∈ s :=
  Classical.byContradiction fun none => notMem_withoutReturn none mem

theorem braceless_of_mem_linesFrom {begun : List Char} (front : Braceless begun)
    (less : Braceless s) : ∀ line ∈ linesFrom begun s, Braceless line := by
  induction s generalizing begun with
  | nil =>
    rw [linesFrom]
    split
    · exact List.forall_mem_nil _
    · exact List.forall_mem_singleton.mpr (front.sublist (List.reverse_subset.mpr (.refl _)))
  | cons c s ih =>
    obtain ⟨here, later⟩ := List.forall_mem_cons.mp less
    rw [linesFrom]
    split
    · refine List.forall_mem_cons.mpr ⟨?_, ih (List.forall_mem_nil _) later⟩
      refine front.sublist fun d mem => ?_
      exact mem_of_mem_withoutReturn (List.mem_reverse.mp mem)
    · exact ih (List.forall_mem_cons.mpr ⟨here, front⟩) later

/-- The lines of a text without braces have none. -/
theorem braceless_of_mem_lines (less : Braceless s) : ∀ line ∈ lines s, Braceless line :=
  braceless_of_mem_linesFrom (List.forall_mem_nil _) less

end

/-! ### Names without braces -/

variable {s t : String}

/-- Whether there is no brace in a name. -/
def Unbraced (s : String) : Prop := Braceless s.toList

instance (s : String) : Decidable (Unbraced s) := inferInstanceAs (Decidable (Braceless _))

/-- A text that is written out is the list of its characters. -/
theorem Unbraced.ofList {s : List Char} (less : Braceless s) : Unbraced (String.ofList s) := by
  rwa [Unbraced, String.toList_ofList]

/-- Leaves the parts that are written out to what discharges the conditions of a rewriting. -/
theorem Unbraced.part (less : Unbraced s) : Unbraced s := less

@[simp] theorem unbraced_append : Unbraced (s ++ t) ↔ Unbraced s ∧ Unbraced t := by
  rw [Unbraced, String.toList_append, braceless_append]
  rfl

theorem unbraced_intercalate {separator : String} (less : Unbraced separator) :
    ∀ {names : List String}, (∀ name ∈ names, Unbraced name) →
      Unbraced (separator.intercalate names)
  | [], _ => by
    rw [String.intercalate_nil]
    exact .ofList (List.forall_mem_nil _)
  | [name], each => by
    rw [String.intercalate_singleton]
    exact each name List.mem_cons_self
  | first :: second :: rest, each => by
    obtain ⟨here, later⟩ := List.forall_mem_cons.mp each
    rw [String.intercalate_cons_cons, unbraced_append, unbraced_append]
    exact ⟨⟨here, less⟩, unbraced_intercalate less later⟩

/-- Names in a row, with commas between them. -/
theorem unbraced_commas {names : List String} (each : ∀ name ∈ names, Unbraced name) :
    Unbraced (String.intercalate ", " names) :=
  unbraced_intercalate (.ofList (by decide)) each

@[simp] theorem unbraced_ite {p : Prop} [Decidable p] :
    Unbraced (if p then s else t) ↔ (p → Unbraced s) ∧ (¬p → Unbraced t) := by
  split <;> simp_all

/-! ### Numbers -/

theorem not_isBrace_of_isDigit {c : Char} (digit : c.isDigit = true) : isBrace c = false := by
  rw [isBrace, Bool.or_eq_false_iff, beq_eq_false_iff_ne, beq_eq_false_iff_ne]
  exact ⟨fun same => absurd (same ▸ digit) (by decide),
    fun same => absurd (same ▸ digit) (by decide)⟩

@[simp] theorem unbraced_toString_nat (n : Nat) : Unbraced (toString n) := by
  intro c mem
  rw [Nat.toString_eq_repr, Nat.toList_repr] at mem
  exact not_isBrace_of_isDigit (Nat.isDigit_of_mem_toDigits (by decide) (by decide) mem)

@[simp] theorem unbraced_toString_int (n : Int) : Unbraced (toString n) := by
  cases n with
  | ofNat n => exact unbraced_toString_nat n
  | negSucc n => exact unbraced_append.mpr ⟨.ofList (by decide), unbraced_toString_nat (n + 1)⟩

/-! ### Parts of names -/

theorem unbraced_lastSegment (less : Unbraced s) : Unbraced (Syntax.TypeRef.lastSegment s) := by
  refine .ofList (less.sublist fun c mem => ?_)
  exact List.mem_reverse.mp (List.takeWhile_subset _ (List.mem_reverse.mp mem))

theorem unbraced_of_qualifier? (less : Unbraced s) (found : Host.qualifier? s = some t) :
    Unbraced t := by
  rw [Host.qualifier?] at found
  split at found
  · cases found
  · next c before reversed =>
    cases found
    refine .ofList (less.sublist fun d mem => ?_)
    refine List.mem_reverse.mp ((List.dropWhile_sublist (· != '.')).subset ?_)
    rw [reversed]
    exact List.mem_cons_of_mem _ (List.mem_reverse.mp mem)

/-! ### Names that are made new -/

theorem unbraced_next {names : Source.FreshNames} (less : Unbraced s) :
    Unbraced (names.next s) := by
  rw [Source.FreshNames.next]
  split
  · rw [Source.FreshNames.numbered, unbraced_append, unbraced_append]
    exact ⟨⟨less, .ofList (by decide)⟩, unbraced_toString_nat _⟩
  · exact less

theorem unbraced_of_allocateAll {names : Source.FreshNames} {bases : List String}
    (each : ∀ base ∈ bases, Unbraced base) : ∀ name ∈ names.allocateAll bases, Unbraced name := by
  induction bases generalizing names with
  | nil => exact List.forall_mem_nil _
  | cons base bases ih =>
    obtain ⟨here, later⟩ := List.forall_mem_cons.mp each
    exact List.forall_mem_cons.mpr ⟨unbraced_next here, ih later⟩

/-! ### Upper and lower case -/

theorem isBrace_eq_false_iff {c : Char} :
    isBrace c = false ↔ ∀ n ∈ [0x7b, 0x7d], c.toNat < n ∨ n < c.toNat := by
  rw [isBrace, Bool.or_eq_false_iff, beq_eq_false_iff_ne, beq_eq_false_iff_ne]
  simp only [List.forall_mem_cons, List.not_mem_nil, false_implies, implies_true, and_true,
    ← Nat.ne_iff_lt_or_gt]
  exact and_congr (not_congr Char.toNat_inj.symm) (not_congr Char.toNat_inj.symm)

/-- A case mapping whose tables have no braces gives none for other characters. -/
theorem braceless_mapCase {expansions : List (Nat × List Nat)} {runs : List CaseRun} {c : Char}
    (several : ∀ e ∈ expansions, ∀ n ∈ e.2, ∀ brace ∈ [0x7b, 0x7d], n < brace ∨ brace < n)
    (single : ∀ r ∈ runs, ∀ brace ∈ [0x7b, 0x7d], r.Misses (brace, brace))
    (less : isBrace c = false) : Braceless (mapCase expansions runs c) := by
  intro d mem
  refine isBrace_eq_false_iff.mpr fun brace among => ?_
  have positive : ∀ brace ∈ [0x7b, 0x7d], 0 < brace := by decide
  exact mapCase_misses (q := (brace, brace)) (positive brace among)
    (fun e mem n there => several e mem n there brace among)
    (fun r mem => single r mem brace among) (isBrace_eq_false_iff.mp less brace among) d mem

theorem braceless_toUpper {c : Char} (less : isBrace c = false) : Braceless (toUpper c) :=
  braceless_mapCase (by decide +kernel) (by decide +kernel) less

theorem braceless_toLower {c : Char} (less : isBrace c = false) : Braceless (toLower c) :=
  braceless_mapCase (by decide +kernel) (by decide +kernel) less

/-! ### Identifiers -/

theorem not_isBrace_of_isIdentPart {c : Char} (part : Syntax.isIdentPart c = true) :
    isBrace c = false := by
  rw [isBrace, Bool.or_eq_false_iff, beq_eq_false_iff_ne, beq_eq_false_iff_ne]
  constructor
  · rintro rfl
    exact absurd part (by decide +kernel)
  · rintro rfl
    exact absurd part (by decide +kernel)

theorem braceless_keptChars (raise begun : Bool) (s : List Char) :
    Braceless (Identifier.keptChars raise begun s) := by
  induction s generalizing raise begun with
  | nil => exact List.forall_mem_nil _
  | cons c s ih =>
    rw [Identifier.keptChars]
    split
    · next kept =>
      have less := not_isBrace_of_isIdentPart kept
      rw [braceless_append]
      refine ⟨?_, ih false true⟩
      split
      · exact braceless_toUpper less
      · exact List.forall_mem_singleton.mpr less
    · exact ih begun begun

/-- An identifier has no braces, whatever text it is made from. -/
theorem unbraced_of_sanitize (found : Identifier.sanitize s = some t) : Unbraced t := by
  rw [Identifier.sanitize] at found
  have less := braceless_keptChars false false s.toList
  generalize Identifier.keptChars false false s.toList = kept at found less
  cases kept with
  | nil => cases found
  | cons c kept =>
    cases found
    have digit : Braceless (Identifier.guardDigit (c :: kept)) := by
      rw [Identifier.guardDigit]
      split
      · exact List.forall_mem_cons.mpr ⟨rfl, less⟩
      · exact less
    refine .ofList ?_
    rw [Identifier.guardKeyword]
    split
    · exact List.forall_mem_cons.mpr ⟨rfl, digit⟩
    · exact digit

theorem unbraced_lowerFirst (less : Unbraced s) : Unbraced (Identifier.lowerFirst s) := by
  rw [Identifier.lowerFirst]
  split
  · exact .ofList (by decide)
  · next c rest chars =>
    rw [Unbraced, chars] at less
    obtain ⟨here, later⟩ := List.forall_mem_cons.mp less
    exact .ofList (braceless_append.mpr ⟨braceless_toLower here, later⟩)

end Marksmith.Text

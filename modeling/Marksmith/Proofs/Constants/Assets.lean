import Marksmith.Constants.Source
import Mathlib.Data.List.DropRight
import Mathlib.Data.List.TakeWhile

/-!
Reading a tag manager asset inverts writing one.

An asset is written as a section for the tags and a section for the layers, in either order. A
section is a line with its key and, below it, an indented item for every entry. Lines that say
nothing may stand anywhere, lines with other keys around the sections.

* `Writes`: the lines that write an asset with these tags and these layer slots;
* `readLines_lines`: how a text is split into lines does not matter beyond the line feeds;
* `readLines_tags`, `readLines_layers`: what the items of a section add to what is read behind them;
* `ofText_written`: the tags and the named layers are read back, each layer with the number of its
  slot.
-/

namespace Marksmith

namespace Text

/-! ### White space around a text -/

variable {s : List Char}

theorem trim_eq_rdropWhile (s : List Char) :
    trim s = (s.dropWhile isBlank).rdropWhile isBlank := rfl

theorem trim_blank_append {front : List Char} (blank : ∀ c ∈ front, isBlank c = true)
    (s : List Char) : trim (front ++ s) = trim s := by
  rw [trim, List.dropWhile_append_of_pos blank, trim]

theorem trim_append_blank {back : List Char} (blank : ∀ c ∈ back, isBlank c = true)
    (s : List Char) : trim (s ++ back) = trim s := by
  have none : back.dropWhile isBlank = [] := List.dropWhile_eq_nil_iff.mpr blank
  rw [trim, trim, List.dropWhile_append]
  split
  · next empty => rw [none, List.isEmpty_iff.mp empty]
  · rw [List.reverse_append, List.dropWhile_append_of_pos fun c mem => blank c (by simpa using mem)]

/-- A mark, a gap and a trimmed text are trimmed. -/
theorem trim_mark {mark : Char} (solid : isBlank mark = false) (gap : List Char) (some : s ≠ [])
    (trimmed : trim s = s) : trim (mark :: (gap ++ s)) = mark :: (gap ++ s) := by
  have front : (mark :: (gap ++ s)).dropWhile isBlank = mark :: (gap ++ s) :=
    List.dropWhile_cons_of_neg (by simp [solid])
  have last : ¬isBlank (s.getLast some) = true := by
    have edge := List.rdropWhile_last_not isBlank (s.dropWhile isBlank)
    simp only [← trim_eq_rdropWhile, trimmed] at edge
    exact edge some
  rw [trim_eq_rdropWhile, front, List.rdropWhile_eq_self_iff]
  intro nonempty
  have same : (mark :: (gap ++ s)).getLast nonempty = s.getLast some := by
    rw [List.getLast_cons (List.append_ne_nil_of_right_ne_nil _ some),
      List.getLast_append_of_ne_nil _ some]
  rwa [same]

/-! ### Lines one below the other -/

theorem linesFrom_append {line : List Char} (unbroken : '\n' ∉ line) (begun s : List Char) :
    linesFrom begun (line ++ s) = linesFrom (line.reverse ++ begun) s := by
  induction line generalizing begun with
  | nil => rfl
  | cons c line ih =>
    obtain ⟨inside, later⟩ := not_or.mp (List.mem_cons.not.mp unbroken)
    rw [List.cons_append, linesFrom, if_neg (Ne.symm inside), ih later, List.reverse_cons,
      List.append_assoc, List.singleton_append]

theorem lines_line {line : List Char} (unbroken : '\n' ∉ line) :
    lines line = if line.isEmpty then [] else [line] := by
  have split := linesFrom_append unbroken [] []
  rw [List.append_nil, List.append_nil] at split
  rw [lines, split, linesFrom, List.isEmpty_reverse, List.reverse_reverse]

theorem lines_cons {line : List Char} (unbroken : '\n' ∉ line) (s : List Char) :
    lines (line ++ '\n' :: s) = (withoutReturn line.reverse).reverse :: lines s := by
  rw [lines, linesFrom_append unbroken, List.append_nil, linesFrom, if_pos rfl, lines]

/-- The carriage return at the end of a line is white space. -/
theorem trim_withoutReturn (line : List Char) :
    trim (withoutReturn line.reverse).reverse = trim line := by
  cases reversed : line.reverse with
  | nil => rw [List.reverse_eq_nil_iff.mp reversed]; rfl
  | cons c rest =>
    have split : line = rest.reverse ++ [c] := by
      rw [← List.reverse_cons, ← reversed, List.reverse_reverse]
    unfold withoutReturn
    split
    · next s same =>
      obtain ⟨rfl, rfl⟩ := List.cons.inj same
      rw [split, trim_append_blank (List.forall_mem_singleton.mpr (by decide))]
    · rw [List.reverse_cons, split]

end Text

namespace TagManager

open Text (trim isBlank)

/-! ### Written assets -/

/-- The line has this content, with white space around it. -/
def Pads (content line : List Char) : Prop :=
  ∃ front back, (∀ c ∈ front, isBlank c = true) ∧ (∀ c ∈ back, isBlank c = true) ∧
    line = front ++ content ++ back

/-- The line is empty, a comment, a directive or the beginning of a document. -/
def SaysNothing (line : List Char) : Prop :=
  trim line = [] ∨ ∃ mark ∈ ["#", "%", "---"], mark.toList <+: trim line

/-- The line has a key other than the two whose items are read. -/
structure HasOtherKey (line : List Char) : Prop where
  content : ¬SaysNothing line
  noItem : ¬"-".toList <+: trim line
  other : ∀ key ∈ ["tags:", "layers:"], ¬key.toList <+: trim line

/-- The item for an entry. An empty entry has a dash only. -/
def itemText : Option String → List Char
  | some name => "- ".toList ++ name.toList
  | none => "-".toList

/-- The lines list the entries, one item for each, in order. -/
inductive Lists : List (Option String) → List (List Char) → Prop where
  | nil : Lists [] []
  | skip {line : List Char} {entries : List (Option String)} {lines : List (List Char)} :
      SaysNothing line → Lists entries lines → Lists entries (line :: lines)
  | item {line : List Char} {entry : Option String} {entries : List (Option String)}
      {lines : List (List Char)} :
      Pads (itemText entry) line → Lists entries lines → Lists (entry :: entries) (line :: lines)

/-- The lines are a key and the entries below it. -/
def IsSection (key : String) (entries : List (Option String)) (lines : List (List Char)) : Prop :=
  ∃ header body, Pads key.toList header ∧ Lists entries body ∧ lines = header :: body

/-- The lines stand around sections: they say nothing or have other keys. -/
def Surrounds (lines : List (List Char)) : Prop :=
  ∀ line ∈ lines, SaysNothing line ∨ HasOtherKey line

/-- The lines write an asset with these tags and these layer slots. -/
def Writes (tags : List String) (slots : List (Option String)) (lines : List (List Char)) : Prop :=
  ∃ before between after tagLines layerLines,
    Surrounds before ∧ Surrounds between ∧ Surrounds after ∧
    IsSection "tags:" (tags.map some) tagLines ∧ IsSection "layers:" slots layerLines ∧
    (lines = before ++ (tagLines ++ (between ++ (layerLines ++ after))) ∨
      lines = before ++ (layerLines ++ (between ++ (tagLines ++ after))))

/-- The text stands between two marks. -/
def InQuotes (mark : Char) (s : List Char) : Prop := ∃ inner, s = mark :: (inner ++ [mark])

/-- A name that is written as it is: it has no white space around it and is not in quotes. -/
structure IsPlain (name : String) : Prop where
  nonempty : name ≠ ""
  trimmed : trim name.toList = name.toList
  unquoted : ∀ mark ∈ ['"', '\''], ¬InQuotes mark name.toList

/-- The named layers among slots that are numbered from `first` on, as far as there are slots. -/
def namedFrom (first : Nat) (slots : List (Option String)) : List (Nat × String) :=
  ((slots.zipIdx first).filterMap fun slot => slot.1.map fun name => (slot.2, name)).filter
    (·.1 < 32)

theorem inQuotes_iff {mark : Char} {s : List Char} :
    InQuotes mark s ↔ s.head? = some mark ∧ s.tail.getLast? = some mark := by
  cases s with
  | nil => simp [InQuotes]
  | cons c rest => simp [InQuotes, List.getLast?_eq_some_iff]

instance (mark : Char) (s : List Char) : Decidable (InQuotes mark s) :=
  decidable_of_iff _ inQuotes_iff.symm

instance (name : String) : Decidable (IsPlain name) :=
  letI := List.decidableBAll (fun mark => ¬InQuotes mark name.toList) ['"', '\'']
  decidable_of_iff (name ≠ "" ∧ trim name.toList = name.toList ∧
      ∀ mark ∈ ['"', '\''], ¬InQuotes mark name.toList)
    ⟨fun ⟨h, h', h''⟩ => ⟨h, h', h''⟩, fun ⟨h, h', h''⟩ => ⟨h, h', h''⟩⟩

instance (line : List Char) : Decidable (SaysNothing line) :=
  inferInstanceAs (Decidable (_ ∨ _))

instance (line : List Char) : Decidable (HasOtherKey line) :=
  decidable_of_iff (¬SaysNothing line ∧ ¬"-".toList <+: trim line ∧
      ∀ key ∈ ["tags:", "layers:"], ¬key.toList <+: trim line)
    ⟨fun ⟨h, h', h''⟩ => ⟨h, h', h''⟩, fun ⟨h, h', h''⟩ => ⟨h, h', h''⟩⟩

instance (lines : List (List Char)) : Decidable (Surrounds lines) :=
  inferInstanceAs (Decidable (∀ line ∈ lines, _))

/-! ### Lines -/

variable {line : List Char} {lines rest : List (List Char)} {entries slots : List (Option String)}
  {tags : List String} {name : String} {current : Section}

theorem Pads.trim_eq {content : List Char} (pads : Pads content line) :
    trim line = trim content := by
  obtain ⟨front, back, blank, blank', rfl⟩ := pads
  rw [List.append_assoc, Text.trim_blank_append blank, Text.trim_append_blank blank']

theorem lineOf_congr {line' : List Char} (same : trim line = trim line') :
    lineOf line = lineOf line' := by
  rw [lineOf, lineOf, same]

theorem lineOf_of_saysNothing (nothing : SaysNothing line) : lineOf line = .skipped := by
  rcases nothing with empty | ⟨mark, listed, front⟩
  · rw [lineOf, empty]
  · simp only [List.mem_cons, List.not_mem_nil, or_false] at listed
    rcases listed with rfl | rfl | rfl
    · obtain ⟨back, split⟩ := front
      rw [lineOf, ← split]
      rfl
    · obtain ⟨back, split⟩ := front
      rw [lineOf, ← split]
      rfl
    · obtain ⟨back, split⟩ := front
      rw [lineOf, ← split]
      rfl

/-- A line with a colon begins with the text in front of its first colon, and a colon. -/
theorem takeWhile_colon_prefix (colon : ':' ∈ line) :
    line.takeWhile (· != ':') ++ [':'] <+: line := by
  have split := List.takeWhile_append_dropWhile (p := (· != ':')) (l := line)
  cases behind : line.dropWhile (· != ':') with
  | nil =>
    have plain := List.dropWhile_eq_nil_iff.mp behind ':' colon
    exact absurd plain (by decide)
  | cons c back =>
    have edge := List.head?_dropWhile_not (· != ':') line
    rw [behind] at edge
    have first : c = ':' := by simpa using edge
    rw [behind, first] at split
    exact ⟨back, by rw [List.append_assoc, List.singleton_append, split]⟩

theorem sectionOf_of_other (other : ∀ key ∈ ["tags:", "layers:"], ¬key.toList <+: line) :
    sectionOf line = .other := by
  rw [sectionOf]
  split
  · next colon =>
    have front := takeWhile_colon_prefix (List.contains_iff_mem.mp colon)
    dsimp only
    rw [if_neg, if_neg]
    · intro same
      rw [same] at front
      exact other "layers:" (by simp) front
    · intro same
      rw [same] at front
      exact other "tags:" (by simp) front
  · rfl

theorem lineOf_of_hasOtherKey (has : HasOtherKey line) : lineOf line = .key .other := by
  obtain ⟨content, noItem, other⟩ := has
  rw [lineOf]
  split
  · next empty => exact absurd (.inl empty) content
  · next split => exact absurd (.inr ⟨"#", by simp, by rw [split]; exact ⟨_, rfl⟩⟩) content
  · next split => exact absurd (.inr ⟨"%", by simp, by rw [split]; exact ⟨_, rfl⟩⟩) content
  · next split => exact absurd (.inr ⟨"---", by simp, by rw [split]; exact ⟨_, rfl⟩⟩) content
  · next split => exact absurd (by rw [split]; exact ⟨_, rfl⟩) noItem
  · rw [sectionOf_of_other other]

theorem lineOf_of_key {key : String} {begun : Section} (is : lineOf key.toList = .key begun)
    (pads : Pads key.toList line) : lineOf line = .key begun :=
  (lineOf_congr pads.trim_eq).trans is

theorem unquoted_of_isPlain (plain : IsPlain name) : unquoted name.toList = name.toList := by
  have bare : ∀ mark ∈ ['"', '\''], ∀ rest, name.toList = mark :: rest →
      rest.getLast? ≠ some mark := by
    intro mark listed rest split last
    refine plain.unquoted mark listed (inQuotes_iff.mpr ?_)
    rw [split]
    exact ⟨rfl, last⟩
  unfold unquoted
  split
  · next rest split => rw [if_neg (bare _ (by simp) rest split)]
  · next rest split => rw [if_neg (bare _ (by simp) rest split)]
  · rfl

theorem lineOf_of_named (plain : IsPlain name) (pads : Pads (itemText (some name)) line) :
    lineOf line = .item name.toList := by
  have some : name.toList ≠ [] := by simpa using plain.nonempty
  have trimmed : trim line = '-' :: ' ' :: name.toList :=
    pads.trim_eq.trans (Text.trim_mark (by decide) [' '] some plain.trimmed)
  have value : trim (' ' :: name.toList) = name.toList :=
    (Text.trim_blank_append (List.forall_mem_singleton.mpr (by decide)) _).trans plain.trimmed
  rw [lineOf, trimmed]
  show Line.item (unquoted (trim (' ' :: name.toList))) = _
  rw [value, unquoted_of_isPlain plain]

theorem lineOf_of_unnamed (pads : Pads (itemText none) line) : lineOf line = .item [] :=
  (lineOf_congr pads.trim_eq).trans (by decide)

/-! ### Reading line by line -/

/-- What a line adds to what is read behind it, which depends on the section that it leaves. -/
def readLine (current : Section) (line : Line) (later : Section → TagManager) : TagManager :=
  match line, current with
  | .skipped, _ => later current
  | .key begun, _ => later begun
  | .item _, .other => later .other
  | .item value, .tags =>
    if value.isEmpty then later .tags
    else { later .tags with tags := String.ofList value :: (later .tags).tags }
  | .item value, .layers slot =>
    if value.isEmpty || Engine.layerCount ≤ slot then later (.layers (slot + 1))
    else
      { later (.layers (slot + 1)) with
        layers := (slot, String.ofList value) :: (later (.layers (slot + 1))).layers }

theorem readLines_cons (current : Section) (line : List Char) (rest : List (List Char)) :
    readLines current (line :: rest)
      = readLine current (lineOf line) fun next => readLines next rest := rfl

theorem readLines_skip (nothing : SaysNothing line) :
    readLines current (line :: rest) = readLines current rest := by
  rw [readLines_cons, lineOf_of_saysNothing nothing]
  rfl

theorem readLines_key {begun : Section} (is : lineOf line = .key begun) :
    readLines current (line :: rest) = readLines begun rest := by
  rw [readLines_cons, is]
  rfl

theorem readLines_tag (plain : IsPlain name) (pads : Pads (itemText (some name)) line) :
    readLines .tags (line :: rest)
      = { readLines .tags rest with tags := name :: (readLines .tags rest).tags } := by
  rw [readLines_cons, lineOf_of_named plain pads]
  show (if name.toList.isEmpty then _ else _) = _
  rw [if_neg (by simpa using plain.nonempty), String.ofList_toList]

theorem readLines_unnamedLayer {slot : Nat} (pads : Pads (itemText none) line) :
    readLines (.layers slot) (line :: rest) = readLines (.layers (slot + 1)) rest := by
  rw [readLines_cons, lineOf_of_unnamed pads]
  rfl

theorem readLines_namedLayer {slot : Nat} (plain : IsPlain name)
    (pads : Pads (itemText (some name)) line) :
    readLines (.layers slot) (line :: rest)
      = if slot < 32 then
          { readLines (.layers (slot + 1)) rest with
            layers := (slot, name) :: (readLines (.layers (slot + 1)) rest).layers }
        else readLines (.layers (slot + 1)) rest := by
  have some : name.toList.isEmpty = false := by simpa using plain.nonempty
  rw [readLines_cons, lineOf_of_named plain pads]
  show (if name.toList.isEmpty || 32 ≤ slot then _ else _) = _
  rw [some, Bool.false_or, String.ofList_toList]
  by_cases free : slot < 32
  · have inside : decide (32 ≤ slot) = false := decide_eq_false (Nat.not_le.mpr free)
    rw [if_pos free, inside, if_neg Bool.false_ne_true]
  · have outside : decide (32 ≤ slot) = true := decide_eq_true (Nat.not_lt.mp free)
    rw [if_neg free, outside, if_pos rfl]

/-- Lines around sections leave the section that comes behind them alone. -/
theorem exists_readLines_surrounds (surrounds : Surrounds lines) (current : Section)
    (rest : List (List Char)) :
    ∃ next, readLines current (lines ++ rest) = readLines next rest := by
  induction lines generalizing current with
  | nil => exact ⟨current, rfl⟩
  | cons line lines ih =>
    obtain ⟨here, later⟩ := List.forall_mem_cons.mp surrounds
    rw [List.cons_append]
    rcases here with nothing | other
    · rw [readLines_skip nothing]
      exact ih later current
    · rw [readLines_key (lineOf_of_hasOtherKey other)]
      exact ih later .other

/-- The items below the key of the tags are put in front of what is read behind them. -/
theorem readLines_tags (plain : ∀ tag ∈ tags, IsPlain tag) (lists : Lists (tags.map some) lines) :
    readLines .tags (lines ++ rest)
      = { readLines .tags rest with tags := tags ++ (readLines .tags rest).tags } := by
  generalize same : tags.map some = entries at lists
  induction lists generalizing tags with
  | nil =>
    rw [List.map_eq_nil_iff.mp same]
    rfl
  | skip nothing lists ih =>
    rw [List.cons_append, readLines_skip nothing]
    exact ih plain same
  | item pads lists ih =>
    obtain ⟨tag, tags, rfl, rfl, rfl⟩ := List.map_eq_cons_iff.mp same
    obtain ⟨here, later⟩ := List.forall_mem_cons.mp plain
    rw [List.cons_append, readLines_tag here pads, ih later rfl]
    rfl

theorem namedFrom_cons_none (first : Nat) (slots : List (Option String)) :
    namedFrom first (none :: slots) = namedFrom (first + 1) slots := rfl

theorem namedFrom_cons_some (first : Nat) (name : String) (slots : List (Option String)) :
    namedFrom first (some name :: slots)
      = if first < 32 then (first, name) :: namedFrom (first + 1) slots
        else namedFrom (first + 1) slots := by
  rw [namedFrom, List.zipIdx_cons, List.filterMap_cons, Option.map_some]
  simp only [List.filter_cons, decide_eq_true_eq]
  rfl

/-- The items below the key of the layers are put in front of what is read behind them, with the
numbers of their slots. -/
theorem readLines_layers (plain : ∀ name, some name ∈ slots → IsPlain name)
    (lists : Lists slots lines) (first : Nat) :
    readLines (.layers first) (lines ++ rest)
      = { readLines (.layers (first + slots.length)) rest with
          layers := namedFrom first slots
            ++ (readLines (.layers (first + slots.length)) rest).layers } := by
  induction lists generalizing first with
  | nil => rfl
  | skip nothing lists ih =>
    rw [List.cons_append, readLines_skip nothing]
    exact ih plain first
  | @item _ entry entries _ pads lists ih =>
    have next : first + (entry :: entries).length = first + 1 + entries.length := by
      rw [List.length_cons]
      omega
    have later := ih (fun name mem => plain name (List.mem_cons_of_mem _ mem)) (first + 1)
    rw [List.cons_append, next]
    cases entry with
    | none => rw [readLines_unnamedLayer pads, namedFrom_cons_none, later]
    | some name =>
      rw [readLines_namedLayer (plain name List.mem_cons_self) pads, namedFrom_cons_some, later]
      by_cases free : first < 32
      · rw [if_pos free, if_pos free]
        rfl
      · rw [if_neg free, if_neg free]

/-! ### Whole assets -/

/-- How lines are ended does not matter: a text is read like the lines between its line feeds. -/
theorem readLines_lines (unbroken : ∀ line ∈ lines, '\n' ∉ line) :
    readLines current (Text.lines (['\n'].intercalate lines)) = readLines current lines := by
  induction lines generalizing current with
  | nil => rfl
  | cons line lines ih =>
    obtain ⟨here, later⟩ := List.forall_mem_cons.mp unbroken
    cases lines with
    | nil =>
      rw [List.intercalate_singleton, Text.lines_line here]
      split
      · next empty =>
        have nothing : SaysNothing line := .inl (by rw [List.isEmpty_iff.mp empty]; rfl)
        rw [readLines_skip nothing]
      · rfl
    | cons next lines =>
      rw [List.intercalate_cons_cons, List.append_assoc, List.singleton_append,
        Text.lines_cons here]
      rw [readLines_cons, readLines_cons, lineOf_congr (Text.trim_withoutReturn line)]
      simp only [ih later]

theorem readLines_tagSection (plain : ∀ tag ∈ tags, IsPlain tag)
    (written : IsSection "tags:" (tags.map some) lines) :
    readLines current (lines ++ rest)
      = { readLines .tags rest with tags := tags ++ (readLines .tags rest).tags } := by
  obtain ⟨header, body, pads, lists, rfl⟩ := written
  have key : lineOf "tags:".toList = .key .tags := by decide
  rw [List.cons_append, readLines_key (lineOf_of_key key pads), readLines_tags plain lists]

theorem readLines_layerSection (plain : ∀ name, some name ∈ slots → IsPlain name)
    (written : IsSection "layers:" slots lines) :
    ∃ next, readLines current (lines ++ rest)
      = { readLines next rest with
          layers := namedFrom 0 slots ++ (readLines next rest).layers } := by
  obtain ⟨header, body, pads, lists, rfl⟩ := written
  have key : lineOf "layers:".toList = .key (.layers 0) := by decide
  refine ⟨.layers (0 + slots.length), ?_⟩
  rw [List.cons_append, readLines_key (lineOf_of_key key pads), readLines_layers plain lists]

/-- Nothing is read from what stands behind the last section. -/
theorem readLines_surrounds (surrounds : Surrounds lines) : readLines current lines = {} := by
  obtain ⟨next, same⟩ := exists_readLines_surrounds surrounds current []
  rw [List.append_nil] at same
  exact same

/-- Reading an asset gives back the tags that it was written for, and the named layers with the
numbers of their slots. -/
theorem ofText_written {lines : List String} (written : Writes tags slots (lines.map String.toList))
    (unbroken : ∀ line ∈ lines, '\n' ∉ line.toList) (plain : ∀ tag ∈ tags, IsPlain tag)
    (plain' : ∀ name, some name ∈ slots → IsPlain name) :
    ofText ("\n".intercalate lines) = ⟨tags, namedFrom 0 slots⟩ := by
  have split : ofText ("\n".intercalate lines) = readLines .other (lines.map String.toList) := by
    rw [ofText, String.toList_intercalate]
    exact readLines_lines (List.forall_mem_map.mpr unbroken)
  obtain ⟨before, between, after, tagLines, layerLines, around, amid, behind, tagged, layered,
    order⟩ := written
  rw [split]
  rcases order with lined | lined
  · obtain ⟨first, skipped⟩ := exists_readLines_surrounds around .other
      (tagLines ++ (between ++ (layerLines ++ after)))
    rw [lined, skipped, readLines_tagSection plain tagged]
    obtain ⟨second, skipped⟩ := exists_readLines_surrounds amid .tags (layerLines ++ after)
    obtain ⟨third, read⟩ := readLines_layerSection plain' layered
    rw [skipped, read, readLines_surrounds behind]
    simp
  · obtain ⟨first, skipped⟩ := exists_readLines_surrounds around .other
      (layerLines ++ (between ++ (tagLines ++ after)))
    obtain ⟨second, read⟩ := readLines_layerSection plain' layered
    rw [lined, skipped, read]
    obtain ⟨third, skipped⟩ := exists_readLines_surrounds amid second (tagLines ++ after)
    rw [skipped, readLines_tagSection plain tagged, readLines_surrounds behind]
    simp

/-- The lines of an asset whose names look like comments, keys, dashes and quotes. -/
def awkwardLines : List String :=
  ["%YAML 1.1", "TagManager:", "  layers:", "  - Default", "  # unused", "  -", "", "  - 'half",
    "  serializedVersion: 2", "  tags:", "  - #boss: 1", "  - --", "m_SortingLayers:"]

/-- All of them are read back. -/
theorem ofText_awkward :
    Writes ["#boss: 1", "--"] [some "Default", none, some "'half"]
        (awkwardLines.map String.toList) ∧
      ofText ("\n".intercalate awkwardLines)
        = ⟨["#boss: 1", "--"], [(0, "Default"), (2, "'half")]⟩ := by
  have pads (content : List Char) : Pads content ("  ".toList ++ content) :=
    ⟨"  ".toList, [], List.all_eq_true.mp (by decide), by simp, (List.append_nil _).symm⟩
  have written : Writes ["#boss: 1", "--"] [some "Default", none, some "'half"]
      (awkwardLines.map String.toList) := by
    refine ⟨["%YAML 1.1".toList, "TagManager:".toList], ["  serializedVersion: 2".toList],
      ["m_SortingLayers:".toList], ["  tags:".toList, "  - #boss: 1".toList, "  - --".toList],
      ["  layers:".toList, "  - Default".toList, "  # unused".toList, "  -".toList, [],
        "  - 'half".toList], by decide, by decide, by decide, ?tags, ?layers, .inr rfl⟩
    case tags =>
      exact ⟨_, _, pads _, .item (pads _) (.item (pads _) .nil), rfl⟩
    case layers =>
      exact ⟨_, _, pads _, .item (pads _) (.skip (by decide) (.item (pads _) (.skip (by decide)
        (.item (pads _) .nil)))), rfl⟩
  refine ⟨written, ofText_written written (by decide) (by decide) ?_⟩
  intro name mem
  simp only [List.mem_cons, Option.some.injEq, reduceCtorEq, List.not_mem_nil, or_false,
    false_or] at mem
  rcases mem with rfl | rfl
  · decide
  · decide

end TagManager

end Marksmith

import Marksmith.Proofs.Json.Tokens

/-!
Values are read again from their compact texts. What is said of a scan is what it gives and what it
leaves (`Gives`): each scan has one lemma for each way in which it goes on.

* `readValue_written`: a value is read again from its text, if its integers fit 64 bits, it has no
  real numbers and its containers are not nested too deeply (`Readable`);
* `read_text`: so a text is read as a whole.
-/

namespace Marksmith.Json

/-! ### Values -/

/-- A value is read, and what remains. -/
structure Reading.Gives {s : List Char} (r : Reading s) (d : Draft) (rest : List Char) : Prop where
  draft : r.draft = d
  rest : r.rest?.map (·.rest) = some rest

/-- The items of an array are read to their end, and what remains. -/
structure Items.Gives {s : List Char} (r : Items s) (ds : List Draft) (rest : List Char) :
    Prop where
  items : r.items = ds
  stop : r.stop = none
  rest : r.rest?.map (·.rest) = some rest

/-- The entries of an object are read to their end, and what remains. -/
structure Entries.Gives {s : List Char} (r : Entries s) (es : List (Option String × Draft))
    (rest : List Char) : Prop where
  entries : r.entries = es
  stop : r.stop = none
  rest : r.rest?.map (·.rest) = some rest

variable {level : Nat} {s behind rest : List Char}

theorem atLevel_of_lt (room : level < Draft.maxDepth) (d : Draft) : d.atLevel level = d := if_pos room

theorem readValue_array {ds : List Draft} (front : (skipBlank s).rest = '[' :: behind)
    (room : level < Draft.maxDepth) (items : (readArray (level + 1) behind).Gives ds rest) :
    (readValue level s).Gives (.array ds none) rest := by
  rw [readValue]
  dsimp only
  split <;> rename_i h <;> rw [front] at h <;> cases h
  · constructor
    · rw [atLevel_of_lt room, items.items, items.stop]
    · rw [Option.map_map, ← items.rest]
      rfl
  · next not _ _ _ _ _ => exact absurd rfl not

theorem readValue_object {es : List (Option String × Draft)}
    (front : (skipBlank s).rest = '\x7b' :: behind) (room : level < Draft.maxDepth)
    (entries : (readObject (level + 1) behind).Gives es rest) :
    (readValue level s).Gives (.object es none) rest := by
  rw [readValue]
  dsimp only
  split <;> rename_i h <;> rw [front] at h <;> cases h
  · constructor
    · rw [atLevel_of_lt room, entries.entries, entries.stop]
    · rw [Option.map_map, ← entries.rest]
      rfl
  · next not _ _ _ _ => exact absurd rfl not

theorem readValue_string {body : List Char} (front : (skipBlank s).rest = '"' :: behind)
    (read : ReadsBody behind body rest) :
    (readValue level s).Gives (.string (String.ofList body)) rest := by
  obtain ⟨bound, read⟩ := read
  rw [readValue]
  dsimp only
  split <;> rename_i h <;> rw [front] at h <;> cases h
  · rw [read]
    exact ⟨rfl, rfl⟩
  · next not _ _ _ => exact absurd rfl not

theorem readWord_append (word : List Char) (rest : List Char) :
    ∃ bound, readWord word (word ++ rest) = .ok ⟨rest, bound⟩ := by
  induction word with
  | nil => exact ⟨Nat.le_refl _, rfl⟩
  | cons w word ih =>
    obtain ⟨bound, read⟩ := ih
    rw [List.cons_append]
    refine ⟨Nat.le_succ_of_le bound, ?_⟩
    have step : readWord (w :: word) (w :: (word ++ rest))
        = (readWord word (word ++ rest)).map _ := if_pos rfl
    rw [step, read, Except.map]

theorem gives_word (letters : String) (value : Draft) {bound} :
    (readValue.word (s := s) letters value (letters.toList ++ rest) bound).Gives value rest := by
  obtain ⟨_, read⟩ := readWord_append letters.toList rest
  rw [readValue.word]
  simp only [read]
  exact ⟨rfl, rfl⟩

theorem readValue_null (front : (skipBlank s).rest = 'n' :: ("ull".toList ++ rest)) :
    (readValue level s).Gives .null rest := by
  rw [readValue]
  dsimp only
  split <;> rename_i h <;> rw [front] at h <;> cases h
  · exact gives_word "ull" .null
  · next not _ _ => exact absurd rfl not

theorem readValue_true (front : (skipBlank s).rest = 't' :: ("rue".toList ++ rest)) :
    (readValue level s).Gives (.bool true) rest := by
  rw [readValue]
  dsimp only
  split <;> rename_i h <;> rw [front] at h <;> cases h
  · exact gives_word "rue" (.bool true)
  · next not _ => exact absurd rfl not

theorem readValue_false (front : (skipBlank s).rest = 'f' :: ("alse".toList ++ rest)) :
    (readValue level s).Gives (.bool false) rest := by
  rw [readValue]
  dsimp only
  split <;> rename_i h <;> rw [front] at h <;> cases h
  · exact gives_word "alse" (.bool false)
  · next not => exact absurd rfl not

/-- An integer begins with a sign or a digit. -/
theorem intChars_front (n : Int) : ∃ c t, intChars n = c :: t ∧ (c == '-' || c.isDigit) = true := by
  cases n with
  | ofNat n =>
    obtain ⟨c, t, digits⟩ := List.exists_cons_of_ne_nil (@Nat.toDigits_ne_nil n 10)
    refine ⟨c, t, digits, ?_⟩
    rw [isDigit_of_mem (digits ▸ List.mem_cons_self : c ∈ Nat.toDigits 10 n), Bool.or_true]
  | negSucc n => exact ⟨'-', _, rfl, rfl⟩

theorem readValue_int {n : Int} (low : -0x8000000000000000 ≤ n) (high : n < 0x10000000000000000)
    (front : (skipBlank s).rest = intChars n ++ rest) (ends : EndsNumber rest) :
    (readValue level s).Gives (.number (.int n)) rest := by
  obtain ⟨_, read⟩ := readNumber_intChars n ends
  obtain ⟨c, t, text, kind⟩ := intChars_front n
  have front' : (skipBlank s).rest = c :: (t ++ rest) := by rw [front, text, List.cons_append]
  rw [readValue]
  dsimp only
  split <;> rename_i h <;> rw [front'] at h <;> cases h
  · exact absurd kind (by decide)
  · exact absurd kind (by decide)
  · exact absurd kind (by decide)
  · exact absurd kind (by decide)
  · exact absurd kind (by decide)
  · exact absurd kind (by decide)
  · have number : ∃ bound, readNumber (c :: (t ++ rest))
        = .ok (⟨decide (n < 0), Nat.toDigits 10 n.natAbs, none, none⟩, ⟨rest, bound⟩) := by
      rw [← front', front]
      exact ⟨_, read⟩
    obtain ⟨_, number⟩ := number
    rw [if_pos kind, number]
    simp only [value?_toDigits low high]
    exact ⟨rfl, rfl⟩

/-! ### Containers -/

theorem readItems_last {d : Draft} (value : (readValue level s).Gives d behind)
    (close : (skipBlank behind).rest = ']' :: rest) : (readItems level s).Gives [d] rest := by
  obtain ⟨b, some, rfl⟩ := Option.map_eq_some_iff.mp value.rest
  rw [readItems]
  dsimp only
  split
  · next none =>
    rw [none] at some
    cases some
  · next b' same =>
    rw [same] at some
    cases some
    split
    · next h =>
      rw [close] at h
      cases h
    · next h =>
      rw [close] at h
      cases h
      exact ⟨by rw [value.draft], rfl, rfl⟩
    · next h =>
      rw [close] at h
      cases h
    · next not _ => exact absurd close (not _)

theorem readItems_more {d : Draft} {ds : List Draft} {next : List Char}
    (value : (readValue level s).Gives d behind)
    (comma : (skipBlank behind).rest = ',' :: next) (more : (readItems level next).Gives ds rest) :
    (readItems level s).Gives (d :: ds) rest := by
  obtain ⟨b, some, rfl⟩ := Option.map_eq_some_iff.mp value.rest
  rw [readItems]
  dsimp only
  split
  · next none =>
    rw [none] at some
    cases some
  · next b' same =>
    rw [same] at some
    cases some
    split
    · next h =>
      rw [comma] at h
      cases h
      refine ⟨by rw [value.draft, more.items], more.stop, ?_⟩
      rw [Option.map_map, ← more.rest]
      rfl
    · next h =>
      rw [comma] at h
      cases h
    · next h =>
      rw [comma] at h
      cases h
    · next not _ _ => exact absurd comma (not _)

theorem readArray_close (close : (skipBlank s).rest = ']' :: rest) :
    (readArray level s).Gives [] rest := by
  rw [readArray]
  split
  · next h =>
    rw [close] at h
    cases h
  · next h =>
    rw [close] at h
    cases h
    exact ⟨rfl, rfl, rfl⟩
  · next not => exact absurd close (not _)

theorem readArray_items {c : Char} {t : List Char} {ds : List Draft}
    (front : (skipBlank s).rest = c :: t) (some : c ≠ ']')
    (items : (readItems level s).Gives ds rest) : (readArray level s).Gives ds rest := by
  rw [readArray]
  split
  · next h =>
    rw [front] at h
    cases h
  · next h =>
    rw [front] at h
    cases h
    exact absurd rfl some
  · exact items

theorem readsBody_quoted (s : String) (rest : List Char) :
    ReadsBody (s.toList.flatMap escapeChar ++ '"' :: rest) s.toList rest := by
  refine readsBody_escaped (x := []) ?_ s.toList rest
  intro c mem
  cases mem

/-- A key is read, and what remains behind its colon. -/
def ReadsKey (s : List Char) (key : String) (rest : List Char) : Prop :=
  ∃ k colon, readKey s = .ok k ∧ k.key = some key ∧ k.value = .ok colon ∧ colon.rest = rest

theorem readsKey_written (key : String) (rest : List Char) :
    ReadsKey (quotedChars key ++ ':' :: rest) key rest := by
  obtain ⟨bound, read⟩ := readsBody_quoted key (':' :: rest)
  have text : quotedChars key ++ ':' :: rest
      = '"' :: (key.toList.flatMap escapeChar ++ '"' :: ':' :: rest) := by
    simp [quotedChars]
  have colon : (skipBlank (':' :: rest)).rest = ':' :: rest := rfl
  rw [text, ReadsKey]
  simp only [readKey, read, bind, Except.bind, pure, Except.pure]
  split
  · next h =>
    rw [colon] at h
    cases h
    exact ⟨_, _, rfl, by simp, rfl, rfl⟩
  · next h =>
    rw [colon] at h
    cases h
  · next not _ => exact absurd colon (not _)

theorem readEntries_last {key : String} {d : Draft} {value : List Char}
    (named : ReadsKey (skipBlank s).rest key value) (read : (readValue level value).Gives d behind)
    (close : (skipBlank behind).rest = '\x7d' :: rest) :
    (readEntries level s).Gives [(some key, d)] rest := by
  obtain ⟨k, colon, readKey, name, valued, rfl⟩ := named
  obtain ⟨b, some, rfl⟩ := Option.map_eq_some_iff.mp read.rest
  rw [readEntries]
  simp only [readKey, valued]
  split
  · next none =>
    rw [none] at some
    cases some
  · next b' same =>
    rw [same] at some
    cases some
    split
    · next h =>
      rw [close] at h
      cases h
    · next h =>
      rw [close] at h
      cases h
      exact ⟨by rw [name, read.draft], rfl, rfl⟩
    · next h =>
      rw [close] at h
      cases h
    · next not _ => exact absurd close (not _)

theorem readEntries_more {key : String} {d : Draft} {es : List (Option String × Draft)}
    {value next : List Char} (named : ReadsKey (skipBlank s).rest key value)
    (read : (readValue level value).Gives d behind)
    (comma : (skipBlank behind).rest = ',' :: next)
    (more : (readEntries level next).Gives es rest) :
    (readEntries level s).Gives ((some key, d) :: es) rest := by
  obtain ⟨k, colon, readKey, name, valued, rfl⟩ := named
  obtain ⟨b, some, rfl⟩ := Option.map_eq_some_iff.mp read.rest
  rw [readEntries]
  simp only [readKey, valued]
  split
  · next none =>
    rw [none] at some
    cases some
  · next b' same =>
    rw [same] at some
    cases some
    split
    · next h =>
      rw [comma] at h
      cases h
      refine ⟨by rw [name, read.draft, more.entries], by rw [more.stop]; rfl, ?_⟩
      rw [Option.map_map, ← more.rest]
      rfl
    · next h =>
      rw [comma] at h
      cases h
    · next h =>
      rw [comma] at h
      cases h
    · next not _ _ => exact absurd comma (not _)

theorem readObject_close (close : (skipBlank s).rest = '\x7d' :: rest) :
    (readObject level s).Gives [] rest := by
  rw [readObject]
  split
  · next h =>
    rw [close] at h
    cases h
  · next h =>
    rw [close] at h
    cases h
    exact ⟨rfl, rfl, rfl⟩
  · next not => exact absurd close (not _)

theorem readObject_entries {c : Char} {t : List Char} {es : List (Option String × Draft)}
    (front : (skipBlank s).rest = c :: t) (some : c ≠ '\x7d')
    (entries : (readEntries level s).Gives es rest) : (readObject level s).Gives es rest := by
  rw [readObject]
  split
  · next h =>
    rw [front] at h
    cases h
  · next h =>
    rw [front] at h
    cases h
    exact absurd rfl some
  · exact entries

/-! ### Whole values -/

mutual

/-- Whether a value has no real numbers, and integers that fit 64 bits, and at most so many
containers stand around one another in it. -/
def Readable : (levels : Nat) → Json → Prop
  | _, .null | _, .bool _ | _, .string _ => True
  | _, .int n => -0x8000000000000000 ≤ n ∧ n < 0x10000000000000000
  | _, .real _ => False
  | levels, .array items => 0 < levels ∧ ReadableItems (levels - 1) items
  | levels, .object entries => 0 < levels ∧ ReadableEntries (levels - 1) entries

def ReadableItems : (levels : Nat) → List Json → Prop
  | _, [] => True
  | levels, item :: items => Readable levels item ∧ ReadableItems levels items

def ReadableEntries : (levels : Nat) → List (String × Json) → Prop
  | _, [] => True
  | levels, (_, value) :: entries => Readable levels value ∧ ReadableEntries levels entries

end

theorem readable_array_iff {levels : Nat} {js : List Json} :
    Readable (levels + 1) (.array js) ↔ ∀ j ∈ js, Readable levels j := by
  rw [Readable, and_iff_right (Nat.succ_pos levels), Nat.add_sub_cancel]
  induction js with
  | nil => simp [ReadableItems]
  | cons j js ih => rw [ReadableItems, ih, List.forall_mem_cons]

theorem readable_object_iff {levels : Nat} {es : List (String × Json)} :
    Readable (levels + 1) (.object es) ↔ ∀ e ∈ es, Readable levels e.2 := by
  rw [Readable, and_iff_right (Nat.succ_pos levels), Nat.add_sub_cancel]
  induction es with
  | nil => simp [ReadableEntries]
  | cons e es ih => rw [ReadableEntries, ih, List.forall_mem_cons]

theorem skipBlank_cons {c : Char} (solid : isJsonBlank c = false) (s : List Char) :
    (skipBlank (c :: s)).rest = c :: s :=
  skipBlank_of_front fun d front => by
    cases front
    exact solid

theorem endsNumber_cons {c : Char} (other : c.isDigit = false ∧ c ≠ '.' ∧ c ≠ 'e' ∧ c ≠ 'E')
    (s : List Char) : EndsNumber (c :: s) := by
  intro d front
  cases front
  exact other

/-- A text begins with neither a blank nor a bracket that closes. -/
theorem written_front (j : Json) :
    ∃ c t, j.written = c :: t ∧ isJsonBlank c = false ∧ c ≠ ']' := by
  obtain ⟨c, t, text, tells⟩ := exists_front j
  refine ⟨c, t, text, ?_, ?_⟩
  · rw [isJsonBlank, Bool.eq_false_iff]
    intro blank
    simp only [Bool.or_eq_true, beq_iff_eq] at blank
    rcases blank with ((rfl | rfl) | rfl) | rfl <;> cases tells
  · rintro rfl
    cases tells

theorem skipBlank_written (j : Json) (s : List Char) :
    (skipBlank (j.written ++ s)).rest = j.written ++ s := by
  obtain ⟨c, t, text, solid, -⟩ := written_front j
  rw [text]
  exact skipBlank_cons solid _

theorem skipBlank_quoted (s : String) (t : List Char) :
    (skipBlank (quotedChars s ++ t)).rest = quotedChars s ++ t :=
  skipBlank_cons (by decide) _

theorem endsNumber_writtenItems (items : List Json) (s : List Char) :
    EndsNumber (writtenItems items ++ ']' :: s) := by
  cases items with
  | nil => exact endsNumber_cons (by decide) _
  | cons item items =>
    rw [writtenItems]
    exact endsNumber_cons (by decide) _

theorem endsNumber_writtenEntries (entries : List (String × Json)) (s : List Char) :
    EndsNumber (writtenEntries entries ++ '\x7d' :: s) := by
  cases entries with
  | nil => exact endsNumber_cons (by decide) _
  | cons entry entries =>
    rw [writtenEntries]
    exact endsNumber_cons (by decide) _

mutual

/-- A readable value is read again from its text, if there is room for its containers. -/
theorem readValue_written : ∀ (j : Json) (levels level : Nat) (rest : List Char),
    Readable levels j → level + levels ≤ Draft.maxDepth → EndsNumber rest →
      (readValue level (j.written ++ rest)).Gives (Draft.ofJson j) rest
  | .null, levels, level, rest, readable, room, ends =>
    readValue_null (skipBlank_cons (by decide) _)
  | .bool true, levels, level, rest, readable, room, ends =>
    readValue_true (skipBlank_cons (by decide) _)
  | .bool false, levels, level, rest, readable, room, ends =>
    readValue_false (skipBlank_cons (by decide) _)
  | .int n, levels, level, rest, readable, room, ends => by
    rw [Readable] at readable
    exact readValue_int readable.1 readable.2 (skipBlank_written (.int n) rest) ends
  | .real bits, levels, level, rest, readable, room, ends => by
    rw [Readable] at readable
    exact readable.elim
  | .string s, levels, level, rest, readable, room, ends => by
    have text : Json.written (.string s) ++ rest
        = '"' :: (s.toList.flatMap escapeChar ++ '"' :: rest) := by
      simp [written, quotedChars]
    have read : (readValue level (Json.written (.string s) ++ rest)).Gives
        (.string (String.ofList s.toList)) rest :=
      readValue_string (text ▸ skipBlank_cons (by decide) _) (readsBody_quoted s rest)
    rw [String.ofList_toList] at read
    exact read
  | .array [], levels, level, rest, readable, room, ends => by
    rw [Readable] at readable
    exact readValue_array (skipBlank_cons (by decide) _) (by omega)
      (readArray_close (skipBlank_cons (by decide) _))
  | .array (item :: items), levels, level, rest, readable, room, ends => by
    rw [Readable] at readable
    obtain ⟨c, t, text, -, solid⟩ := written_front item
    have read := readItems_written item items (levels - 1) (level + 1) rest readable.2 (by omega)
    have front : (Json.array (item :: items)).written ++ rest
        = '[' :: (item.written ++ (writtenItems items ++ ']' :: rest)) := by
      simp [written]
    have first : (skipBlank (item.written ++ (writtenItems items ++ ']' :: rest))).rest
        = c :: (t ++ (writtenItems items ++ ']' :: rest)) := by
      rw [skipBlank_written, text, List.cons_append]
    rw [front]
    exact readValue_array (skipBlank_cons (by decide) _) (by omega)
      (readArray_items first solid read)
  | .object [], levels, level, rest, readable, room, ends => by
    rw [Readable] at readable
    exact readValue_object (skipBlank_cons (by decide) _) (by omega)
      (readObject_close (skipBlank_cons (by decide) _))
  | .object ((key, value) :: entries), levels, level, rest, readable, room, ends => by
    rw [Readable] at readable
    have read := readEntries_written key value entries (levels - 1) (level + 1) rest readable.2
      (by omega)
    have front : (Json.object ((key, value) :: entries)).written ++ rest
        = '\x7b' :: (quotedChars key ++ ':' :: (value.written ++
            (writtenEntries entries ++ '\x7d' :: rest))) := by
      simp [written]
    rw [front]
    refine readValue_object (skipBlank_cons (by decide) _) (by omega) ?_
    exact readObject_entries (skipBlank_cons (by decide) _) (by decide) read
termination_by j => sizeOf j

theorem readItems_written : ∀ (item : Json) (items : List Json) (levels level : Nat)
    (rest : List Char), ReadableItems levels (item :: items) → level + levels ≤ Draft.maxDepth →
      (readItems level (item.written ++ (writtenItems items ++ ']' :: rest))).Gives
        (Draft.ofItems (item :: items)) rest
  | item, [], levels, level, rest, readable, room => by
    rw [ReadableItems] at readable
    have value := readValue_written item levels level (']' :: rest) readable.1 room
      (endsNumber_cons (by decide) _)
    exact readItems_last value (skipBlank_cons (by decide) _)
  | item, next :: items, levels, level, rest, readable, room => by
    rw [ReadableItems] at readable
    have value := readValue_written item levels level
      (writtenItems (next :: items) ++ ']' :: rest) readable.1 room
      (endsNumber_writtenItems _ _)
    have more := readItems_written next items levels level rest readable.2 room
    refine readItems_more value ?_ more
    rw [writtenItems, List.cons_append, List.append_assoc]
    exact skipBlank_cons (by decide) _
termination_by item items => 1 + sizeOf item + sizeOf items

theorem readEntries_written : ∀ (key : String) (value : Json) (entries : List (String × Json))
    (levels level : Nat) (rest : List Char), ReadableEntries levels ((key, value) :: entries) →
      level + levels ≤ Draft.maxDepth →
        (readEntries level (quotedChars key ++ ':' :: (value.written ++
          (writtenEntries entries ++ '\x7d' :: rest)))).Gives
            (Draft.ofEntries ((key, value) :: entries)) rest
  | key, value, [], levels, level, rest, readable, room => by
    rw [ReadableEntries] at readable
    have named := readsKey_written key (value.written ++ ('\x7d' :: rest))
    have read := readValue_written value levels level ('\x7d' :: rest) readable.1 room
      (endsNumber_cons (by decide) _)
    refine readEntries_last ?_ read (skipBlank_cons (by decide) _)
    rw [skipBlank_quoted]
    exact named
  | key, value, (key', value') :: entries, levels, level, rest, readable, room => by
    rw [ReadableEntries] at readable
    have named := readsKey_written key
      (value.written ++ (writtenEntries ((key', value') :: entries) ++ '\x7d' :: rest))
    have read := readValue_written value levels level
      (writtenEntries ((key', value') :: entries) ++ '\x7d' :: rest) readable.1 room
      (endsNumber_writtenEntries _ _)
    have more := readEntries_written key' value' entries levels level rest readable.2 room
    refine readEntries_more ?_ read ?_ more
    · rw [skipBlank_quoted]
      exact named
    · have front : writtenEntries ((key', value') :: entries) ++ '\x7d' :: rest
          = ',' :: (quotedChars key' ++ ':' :: (value'.written ++
              (writtenEntries entries ++ '\x7d' :: rest))) := by
        simp [writtenEntries]
      rw [front]
      exact skipBlank_cons (by decide) _
termination_by _ value entries => 1 + sizeOf value + sizeOf entries

end

/-- The text of a readable value is read as that value, and nothing stands behind it. -/
theorem read_text {j : Json} (readable : Readable Draft.maxDepth j) :
    Document.read j.text = ⟨Draft.ofJson j, false⟩ := by
  have ends : EndsNumber [] := nofun
  have read := readValue_written j Draft.maxDepth 0 [] readable (by decide) ends
  rw [List.append_nil] at read
  obtain ⟨behind, some, none⟩ := Option.map_eq_some_iff.mp read.rest
  have last : (skipBlank behind.rest).rest = [] := by
    rw [none]
    rfl
  rw [Document.read, Json.text, String.toList_ofList]
  simp only [read.draft, some, Option.map_some, last]
  rfl

/-- So the text of a readable value is decoded like the value itself. -/
theorem document_text {ε α : Type} {decode : Decoder ε α} {j : Json}
    (readable : Readable Draft.maxDepth j) :
    Decoder.document decode j.text = decode (Draft.ofJson j) := by
  rw [Decoder.document, read_text readable]
  cases decode (Draft.ofJson j) <;> rfl

end Marksmith.Json

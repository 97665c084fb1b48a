import Marksmith.Proofs.Lists
import Marksmith.Proofs.Syntax.Placement
import Marksmith.Proofs.Syntax.RoundTrip

/-!
Which types are read again from their canonical texts. The lexer takes the `@` off an escaped name
and the canonical text does not put it back, so a type is read again exactly if none of its names
needs it.

* `solid_of_lex`: the lexer makes names of the characters of identifiers only;
* `TypeRef.Plain`: no segment of a name in the type is a reserved word or begins like a number;
* `TypeRef.parseType_spelled_iff`: a type is read again from its text, in which its names may stand
  behind the alias of the global namespace, exactly if it is plain; `TypeRef.reparses_iff_plain`: so
  it is from its canonical text;
* `isIdentPart_of_assign`: the target of an assignment only has characters of identifiers.
-/

namespace Marksmith.Syntax

/-! ### Characters of names -/

/-- A lexeme that, if it is a name, is made of the characters of identifiers. -/
def Lexeme.Solid : Lexeme → Prop
  | ident x => ∀ c ∈ x.toList, isIdentPart c = true
  | _ => True

theorem Lexeme.Writable.solid {l : Lexeme} (writable : l.Writable) : l.Solid := by
  cases l with
  | ident x => exact writable.1.2
  | _ => trivial

theorem solid_of_scan {pos : Nat} {c : Char} {s : List Char} {r : Scan}
    (h : scan pos c s = .ok r) : r.lexeme.Solid := by
  by_cases escaped : c = '@'
  · subst escaped
    rcases scan_cases h with ⟨-, rfl⟩ | ⟨start, -⟩ | ⟨digit, -⟩ | ⟨quote, -⟩ | ⟨p, rfl⟩
    · intro d mem
      rw [String.toList_ofList] at mem
      exact List.all_eq_true.mp List.all_takeWhile d mem
    · exact absurd start (by decide)
    · exact absurd digit (by decide)
    · exact absurd quote (by decide)
    · trivial
  · exact (writable_of_scan escaped h).solid

/-- The lexer makes names of the characters of identifiers only. -/
theorem solid_of_lex {text : String} {ts : List Token} (h : lex text = .ok ts) :
    ∀ l ∈ lexemes ts, l.Solid := by
  intro l mem
  obtain ⟨t, among, rfl⟩ := List.mem_map.mp mem
  exact forall_lexFrom trivial (fun _ _ _ _ => solid_of_scan) h t among

theorem dotless_of_solid {ls : List Lexeme} (all : ∀ l ∈ ls, l.Solid) : Dotless ls := by
  intro x mem point
  exact absurd (all (.ident x) mem '.' point) (by decide)

namespace TypeRef

/-! ### Texts without an escape -/

/-- A character that no identifier has and that is no point is in no name. -/
theorem notMem_segments {c : Char} (point : c ≠ '.') {x : String} {more : List String}
    (none : ∀ y ∈ x :: more, c ∉ y.toList) :
    c ∉ List.intercalate ['.'] ((x :: more).map String.toList) := by
  induction more generalizing x with
  | nil =>
    rw [List.map_cons, List.map_nil, List.intercalate_singleton]
    exact none x List.mem_cons_self
  | cons y more ih =>
    have later := ih fun z mem => none z (List.mem_cons_of_mem _ mem)
    rw [List.map_cons, List.map_cons, List.intercalate_cons_cons, ← List.map_cons]
    simp only [List.mem_append, List.mem_singleton, not_or]
    exact ⟨⟨none x List.mem_cons_self, point⟩, later⟩

theorem notMem_name {c : Char} (point : c ≠ '.') (other : isIdentPart c = false) {name : String}
    (solid : ∀ l ∈ nameLexemes name, l.Solid) : c ∉ name.toList := by
  have notMem_solid {x : String} (solid : (Lexeme.ident x).Solid) : c ∉ x.toList :=
    fun mem => absurd (solid c mem) (by simp [other])
  obtain ⟨x, more, rfl, segments⟩ := exists_segments name
  rw [toList_joined]
  refine notMem_segments point fun y mem => notMem_solid ?_
  rw [segments] at solid
  rcases List.mem_cons.mp mem with rfl | later
  · exact solid _ List.mem_cons_self
  · exact solid (.ident y) (List.mem_cons_of_mem _ (List.mem_flatMap.mpr ⟨y, later, by simp⟩))

/-- The marks that types are written with. -/
def typeMarks : List Char := ['.', '<', '>', ',', ' ', '?', '[', ']']

theorem notMem_brackets {c : Char} (mark : c ∉ typeMarks) (rank : UInt8) : c ∉ brackets rank := by
  rw [brackets]
  intro mem
  obtain ⟨pair, among, here⟩ := List.mem_flatten.mp mem
  rw [List.eq_of_mem_replicate among] at here
  simp only [typeMarks, List.mem_cons, not_or] at mark here
  tauto

section

variable {c : Char} {spell : String → Nat → List Char}

mutual

/-- A character that no name is spelled with and that is no mark of a type is in no type's text. -/
theorem notMem_spelled (mark : c ∉ typeMarks)
    (named : ∀ name n, (∀ l ∈ nameLexemes name, l.Solid) → c ∉ spell name n) :
    ∀ t : TypeRef, (∀ l ∈ t.lexemes, l.Solid) → c ∉ t.spelled spell
  | ⟨name, args, nullable, rank⟩, solid => by
    simp only [lexemes, List.forall_mem_append] at solid
    have question : c ∉ if nullable then ['?'] else [] := by
      cases nullable
      · exact List.not_mem_nil
      · rw [if_pos rfl, List.mem_singleton]
        rintro rfl
        exact mark (by decide)
    simp only [spelled, List.mem_append, not_or]
    exact ⟨⟨⟨named name _ solid.1.1.1, notMem_spelledArgs mark named args solid.1.1.2⟩, question⟩,
      notMem_brackets mark rank⟩

theorem notMem_spelledArgs (mark : c ∉ typeMarks)
    (named : ∀ name n, (∀ l ∈ nameLexemes name, l.Solid) → c ∉ spell name n) :
    ∀ ts : List TypeRef, (∀ l ∈ argLexemes ts, l.Solid) → c ∉ spelledArgs spell ts
  | [], _ => List.not_mem_nil
  | t :: ts, solid => by
    simp only [argLexemes, List.forall_mem_cons, List.forall_mem_append] at solid
    have first := notMem_spelled mark named t solid.2.1.1
    have others := notMem_spelledMore mark named ts solid.2.1.2
    simp only [typeMarks, List.mem_cons, not_or] at mark
    simp only [spelledArgs, List.mem_append, List.mem_cons, List.not_mem_nil, not_or]
    tauto

theorem notMem_spelledMore (mark : c ∉ typeMarks)
    (named : ∀ name n, (∀ l ∈ nameLexemes name, l.Solid) → c ∉ spell name n) :
    ∀ ts : List TypeRef, (∀ l ∈ moreLexemes ts, l.Solid) → c ∉ spelledMore spell ts
  | [], _ => List.not_mem_nil
  | t :: ts, solid => by
    simp only [moreLexemes, List.forall_mem_cons, List.forall_mem_append] at solid
    have first := notMem_spelled mark named t solid.2.1
    have others := notMem_spelledMore mark named ts solid.2.2
    simp only [typeMarks, List.mem_cons, not_or] at mark
    simp only [spelledMore, List.mem_append, List.mem_cons, not_or]
    tauto

end

end

section

variable {c : Char} (other : isIdentPart c = false ∧ c ∉ typeMarks)

include other

theorem notMem_toList {name : String} (solid : ∀ l ∈ nameLexemes name, l.Solid) :
    c ∉ name.toList :=
  notMem_name (by rintro rfl; exact other.2 (by decide)) other.1 solid

theorem notMem_written (t : TypeRef) (solid : ∀ l ∈ t.lexemes, l.Solid) : c ∉ t.written := by
  rw [written_eq_spelled]
  exact notMem_spelled other.2 (fun _ _ => notMem_toList other) t solid

theorem notMem_writtenArgs (ts : List TypeRef) (solid : ∀ l ∈ argLexemes ts, l.Solid) :
    c ∉ writtenArgs ts := by
  rw [writtenArgs_eq_spelled]
  exact notMem_spelledArgs other.2 (fun _ _ => notMem_toList other) ts solid

end

theorem unescaped_of_notMem {text : String} (none : '@' ∉ text.toList) : Unescaped text := by
  intro ts _ before behind split
  rw [split] at none
  exact absurd (List.mem_append_right _ List.mem_cons_self) none

/-- No segment of a name in the type is a reserved word or begins like a number. -/
def Plain (t : TypeRef) : Prop := ∀ l ∈ t.lexemes, l.Writable

/-- The text of the type is read as the type. -/
def Reparses (t : TypeRef) : Prop := parseType t.text = .ok t

theorem parseType_eq_ok_iff {text : String} {t : TypeRef} :
    parseType text = .ok t ↔ ∃ ts s, lex text = .ok ts ∧ typeRef ts = .ok s ∧ s.value.node = t ∧
      Ended (Syntax.lexemes s.rest) := by
  rw [parseType, bind_eq_ok_iff]
  constructor
  · rintro ⟨_, whole, made⟩
    cases made
    obtain ⟨ts, s, lexed, read, rfl, ended⟩ := parseAll_eq_ok_iff.mp whole
    exact ⟨ts, s, lexed, read, rfl, ended⟩
  · rintro ⟨ts, s, lexed, read, rfl, ended⟩
    exact ⟨_, parseAll_eq_ok_iff.mpr ⟨ts, s, lexed, read, rfl, ended⟩, rfl⟩

/-- A type that is read from a text has names of the characters of identifiers only. -/
theorem solid_of_parseType {text : String} {t : TypeRef} (parsed : parseType text = .ok t) :
    ∀ l ∈ t.lexemes, l.Solid := by
  obtain ⟨ts, s, lexed, read, rfl, ended⟩ := parseType_eq_ok_iff.mp parsed
  have solid := solid_of_lex lexed
  obtain ⟨shorter, -⟩ := (typeRef_sound ts s read).reprint (dotless_of_solid solid) ended
  intro l mem
  rcases shorter.mem l (List.mem_append_left _ mem) with here | rfl
  · exact solid l here
  · trivial

/-! ### Names behind an alias -/

/-- Whether names are spelled as they are, or behind the alias of the global namespace. -/
def Qualifies (spell : String → Nat → List Char) : Prop :=
  ∀ name n, spell name n = name.toList ∨ spell name n = "global::".toList ++ name.toList

/-- A text reads as lexemes that others are a shortened form of. -/
def LexesTo (s : List Char) (us : List Lexeme) : Prop := ∃ ls, Lexes s ls ∧ Elides .plain ls us

/-- The lexemes of a name behind an alias have those of the name as a shortened form. -/
theorem LexesTo.aliased {name : String} {s : List Char} {us : List Lexeme}
    (all : ∀ l ∈ nameLexemes name, l.Writable) (ends : EndsWord s) (h : LexesTo s us) :
    LexesTo ("global::".toList ++ (name.toList ++ s)) (nameLexemes name ++ us) := by
  obtain ⟨ls, read, shorter⟩ := h
  obtain ⟨x, more, -, segments⟩ := exists_segments name
  have own := lexes_name name all ends read
  have colons : Lexes (':' :: ':' :: (name.toList ++ s))
      (.punct .colonColon :: (nameLexemes name ++ ls)) :=
    own.punct (p := .colonColon) (Punct.apart_of_joins rfl _)
  have behind : EndsWord (':' :: ':' :: (name.toList ++ s)) := ⟨by decide, nofun⟩
  refine ⟨_, colons.ident (x := "global") (by decide) behind, ?_⟩
  rw [segments]
  exact .alias (shorter.tail more)

variable {spell : String → Nat → List Char}

theorem Qualifies.spells (qualifies : Qualifies spell) : Spells LexesTo spell where
  blank := fun ⟨ls, read, shorter⟩ => ⟨ls, read.blank, shorter⟩
  mark := by
    rintro s us p mem apart ⟨ls, read, shorter⟩
    have kept : ∀ p ∈ [Punct.lt, .gt, .comma, .question, .lbracket, .rbracket],
        p.isKept = true := by decide
    exact ⟨_, read.punct apart, .keepPunct (kept p mem) shorter.weaken⟩
  name := by
    rintro name n s us all ends h
    rcases qualifies name n with bare | qualified
    · obtain ⟨ls, read, shorter⟩ := h
      obtain ⟨x, more, -, segments⟩ := exists_segments name
      rw [bare]
      refine ⟨_, lexes_name name all ends read, ?_⟩
      rw [segments]
      exact .keep (by simp) (by simp) (shorter.tail more)
    · rw [qualified, List.append_assoc]
      exact h.aliased all ends
  front := by
    rintro name n all
    rcases qualifies name n with bare | qualified
    · rw [bare]
      exact name_front name all
    · rw [qualified]
      exact ⟨_, _, rfl, by decide⟩

/-- What has the end as a shortened form is the end, or a semicolon in front of it. -/
theorem ended_of_elides {ls : List Lexeme} (h : Elides .plain ls [.eof]) : Ended ls := by
  cases h with
  | finish ends => exact .inl ends
  | semicolon ends => exact .inr ⟨_, rfl, ends⟩
  | keep => exact .inl rfl
  | surplus rest => cases (rest.peek_eq_punct_iff (by decide)).mpr (Elides.peek_pairs 254 _)

/-- A type in whose text names are spelled with or without an alias is read again from that text
exactly if it is plain. -/
theorem parseType_spelled_iff (qualifies : Qualifies spell) {t : TypeRef} :
    parseType (String.ofList (t.spelled spell)) = .ok t ↔ t.Plain := by
  constructor
  · intro again
    have among := solid_of_parseType again
    obtain ⟨ts, s, lexed, read, made, ended⟩ := parseType_eq_ok_iff.mp again
    obtain ⟨shorter, -⟩ :=
      (typeRef_sound ts s read).reprint (dotless_of_solid (solid_of_lex lexed)) ended
    rw [made] at shorter
    -- What is read from a text without an escape can be written without one.
    have unescaped : Unescaped (String.ofList (t.spelled spell)) := by
      refine unescaped_of_notMem ?_
      rw [String.toList_ofList]
      refine notMem_spelled (by decide) (fun name n solid => ?_) t among
      have bare : '@' ∉ name.toList := notMem_toList (by decide) solid
      rcases qualifies name n with same | same
      · rwa [same]
      · rw [same, List.mem_append, not_or]
        exact ⟨by decide, bare⟩
    have writable := unescaped.writable lexed
    exact fun l mem => shorter.writable writable l (List.mem_append_left _ mem)
  · intro plain
    have finish : LexesTo [] [.eof] := ⟨[.eof], .nil, .finish rfl⟩
    obtain ⟨ls, lexes, shorter⟩ := qualifies.spells.type t plain follows_nil finish
    rw [List.append_nil] at lexes
    obtain ⟨ts, lexed, rfl⟩ := lexes 0
    have derived := typeAt_lexemes t [.eof] nofun
    obtain ⟨rest, type, left⟩ :=
      typeAt_and_typesAt_of_elides.1 derived (by simp) .plain _ shorter
    obtain ⟨s, read, same, rfl⟩ := typeRef_complete type
    refine parseType_eq_ok_iff.mpr ⟨ts, s, ?_, read, same, ended_of_elides left⟩
    rw [lex, String.toList_ofList, lexed]

/-- A type is read again from its text exactly if it is plain. -/
theorem reparses_iff_plain {t : TypeRef} : t.Reparses ↔ t.Plain := by
  have bare : Qualifies fun name _ => name.toList := fun _ _ => .inl rfl
  rw [← parseType_spelled_iff bare, ← written_eq_spelled]
  rfl

theorem plain_iff {t : TypeRef} : t.Plain ↔ (parseType t.text).toOption = some t := by
  rw [← reparses_iff_plain, Reparses, toOption_eq_some_iff]

instance (t : TypeRef) : Decidable t.Plain := decidable_of_iff' _ plain_iff

end TypeRef

/-! ### Targets of assignments -/

/-- The target of an assignment only has characters of identifiers. -/
theorem isIdentPart_of_assign {text : String} {span : Span} {target : Located String} {value : Expr}
    (h : parseStatement text = .ok (.assign span target value)) :
    ∀ c ∈ target.node.toList, isIdentPart c = true := by
  obtain ⟨ts, s, lexed, parsed, same, -⟩ := parseAll_eq_ok_iff.mp h
  obtain ⟨head, found, _, -, made, -⟩ | ⟨-, _, -, made, -⟩ := statement_cases parsed
  · rw [made] at same
    cases same
    have mem := (assignmentHead?_sublist found).subset List.mem_cons_self
    exact solid_of_lex lexed _ (List.mem_map_of_mem mem)
  · rw [made] at same
    cases same

end Marksmith.Syntax

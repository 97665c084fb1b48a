import Marksmith.Proofs.Syntax.Adequacy
import Marksmith.Proofs.Syntax.Reprint
import Marksmith.Proofs.Syntax.Writing
import Marksmith.Syntax.Parser

/-!
Canonical text is a fixpoint: what a text was read as is read again from its canonical text.

* `parseAll_eq_ok_iff`: a text is read by a parser if its tokens are, up to an optional semicolon;
* `reparses`: expressions, statements and types without escaped identifiers are read again from
  their canonical text, as the same trees up to spans.
-/

namespace Marksmith.Syntax

/-! ### Trees up to spans -/

theorem needsParens_erase (op : BinaryOp) (onRight : Bool) (e : Expr) :
    e.erase.needsParens op onRight = e.needsParens op onRight := by
  cases e <;> rfl

theorem lambdaHeadWritten_erase (ps : List (Located String)) :
    Expr.lambdaHeadWritten (ps.map fun p => ⟨p.node, .zero⟩) = Expr.lambdaHeadWritten ps := by
  match ps with
  | [] => rfl
  | [p] => rfl
  | p :: q :: ps =>
    simp only [Expr.lambdaHeadWritten, List.map_cons, List.map_map]
    rfl

namespace Expr

mutual

/-- Spans are not written. -/
theorem written_erase : (e : Expr) → e.erase.written = e.written
  | name .. | literal .. | this .. => rfl
  | member _ target n => by rw [erase, written, written, written_erase target]
  | invoke _ callee args => by
    rw [erase, written, written, written_erase callee, writtenArgs_erase args]
  | index _ target args => by
    rw [erase, written, written, written_erase target, writtenArgs_erase args]
  | cast _ type operand => by rw [erase, written, written, written_erase operand]
  | new _ type args => by rw [erase, written, written, writtenArgs_erase args]
  | lambda _ ps body => by
    rw [erase, written, written, written_erase body, lambdaHeadWritten_erase]
  | unary _ op operand => by rw [erase, written, written, written_erase operand]
  | binary _ left op right => by
    rw [erase, written, written, written_erase left, written_erase right, needsParens_erase,
      needsParens_erase]
  | paren _ inner => by rw [erase, written, written, written_erase inner]

theorem writtenArgs_erase : (es : List Expr) → writtenArgs (eraseAll es) = writtenArgs es
  | [] => rfl
  | e :: es => by
    rw [eraseAll, writtenArgs, writtenArgs, written_erase e, writtenMore_erase es]

theorem writtenMore_erase : (es : List Expr) → writtenMore (eraseAll es) = writtenMore es
  | [] => rfl
  | e :: es => by
    rw [eraseAll, writtenMore, writtenMore, written_erase e, writtenMore_erase es]

end

theorem text_eq_of_erase {e e' : Expr} (same : e'.erase = e.erase) : e'.text = e.text := by
  rw [text, text, ← written_erase e', ← written_erase e, same]

end Expr

namespace Statement

theorem written_erase (u : Statement) : u.erase.written = u.written := by
  cases u with
  | assign => rw [erase, written, written, Expr.written_erase]
  | expr => rw [erase, written, written, Expr.written_erase]

theorem text_eq_of_erase {u u' : Statement} (same : u'.erase = u.erase) : u'.text = u.text := by
  rw [text, text, ← written_erase u', ← written_erase u, same]

end Statement

/-! ### Whole texts -/

theorem expectEnd_eq_ok_iff (ts : List Token) : expectEnd ts = .ok () ↔ Ended (lexemes ts) := by
  unfold expectEnd
  cases found : accept? .semicolon ts with
  | none =>
    have other := accept?_eq_none found
    simp only [Option.map_none, Option.getD_none, ← peek_lexemes]
    constructor
    · intro h
      split at h
      · next ends => exact .inl ends
      · cases h
    · rintro (ends | ⟨rest, eq, -⟩)
      · rw [if_pos ends]
      · rw [eq] at other
        exact absurd rfl other
  | some mark =>
    have eq := accept?_eq_some found
    simp only [Option.map_some, Option.getD_some, ← peek_lexemes]
    constructor
    · intro h
      split at h
      · next ends => exact .inr ⟨_, eq, ends⟩
      · cases h
    · rintro (ends | ⟨rest, eq', ends⟩)
      · rw [eq] at ends
        cases ends
      · rw [eq] at eq'
        cases eq'
        rw [if_pos ends]

/-- A text is read if its tokens are, and nothing but an optional semicolon is left. -/
theorem parseAll_eq_ok_iff {α : Type} {parser : (ts : List Token) → Parsed α 1 ts} {text : String}
    {a : α} : parseAll parser text = .ok a ↔
      ∃ ts s, lex text = .ok ts ∧ parser ts = .ok s ∧ s.value = a ∧ Ended (lexemes s.rest) := by
  unfold parseAll
  constructor
  · intro h
    obtain ⟨ts, lexed, h⟩ := bind_eq_ok_iff.mp h
    obtain ⟨s, read, h⟩ := bind_eq_ok_iff.mp h
    obtain ⟨⟨⟩, ends, h⟩ := bind_eq_ok_iff.mp h
    cases h
    exact ⟨ts, s, lexed, read, rfl, (expectEnd_eq_ok_iff _).mp ends⟩
  · rintro ⟨ts, s, lexed, read, rfl, ends⟩
    refine bind_eq_ok_iff.mpr ⟨ts, lexed, bind_eq_ok_iff.mpr ⟨s, read, ?_⟩⟩
    exact bind_eq_ok_iff.mpr ⟨(), (expectEnd_eq_ok_iff _).mpr ends, rfl⟩

theorem dotless_of_writable {ls : List Lexeme} (all : ∀ l ∈ ls, l.Writable) : Dotless ls := by
  intro x mem point
  have name : IsName x := all (.ident x) mem
  exact absurd (name.1.2 '.' point) (by decide)

/-- What canonical text leaves of writable lexemes is writable. -/
theorem Elides.writable {gap : Gap} {ls us : List Lexeme} (h : Elides gap ls us)
    (all : ∀ l ∈ ls, l.Writable) : ∀ l ∈ us, l.Writable := by
  intro l mem
  rcases h.mem l mem with among | rfl
  · exact all l among
  · trivial

/-- A text is read if the parser reads what it lexes as, up to the end. -/
theorem parseAll_of_lexes {α : Type} {parser : (ts : List Token) → Parsed α 1 ts} {s : List Char}
    {ls : List Lexeme} {P : α → Prop} (spelled : Lexes s (ls ++ [Lexeme.eof]))
    (reads : ∀ ts, lexemes ts = ls ++ [Lexeme.eof] →
      ∃ r, parser ts = .ok r ∧ P r.value ∧ lexemes r.rest = [.eof]) :
    ∃ a, parseAll parser (String.ofList s) = .ok a ∧ P a := by
  obtain ⟨ts, lexed, same⟩ := spelled 0
  obtain ⟨r, read, holds, rest⟩ := reads ts same
  have whole : lex (String.ofList s) = .ok ts := by rw [lex, String.toList_ofList, lexed]
  exact ⟨r.value, parseAll_eq_ok_iff.mpr ⟨ts, r, whole, read, rfl, .inl (by rw [rest]; rfl)⟩, holds⟩

/-! ### Round trips -/

theorem parseExpr_text {text : String} {e : Expr} (unescaped : Unescaped text)
    (h : parseExpr text = .ok e) : ∃ e', parseExpr e.text = .ok e' ∧ e'.erase = e.erase := by
  obtain ⟨ts, s, lexed, read, rfl, ended⟩ := parseAll_eq_ok_iff.mp h
  have writable := unescaped.writable lexed
  obtain ⟨shorter, again⟩ :=
    (expression_sound ts s read).reprint (dotless_of_writable writable) ended
  have spelled := s.value.erase.lexes
    (fun l mem => shorter.writable writable l (List.mem_append_left _ mem)) [] [.eof] follows_nil
    .nil
  rw [List.append_nil, Expr.written_erase] at spelled
  refine parseAll_of_lexes spelled fun us same => ?_
  rw [← same] at again
  exact expression_complete again

theorem parseStatement_text {text : String} {u : Statement} (unescaped : Unescaped text)
    (h : parseStatement text = .ok u) :
    ∃ u', parseStatement u.text = .ok u' ∧ u'.erase = u.erase := by
  obtain ⟨ts, s, lexed, read, rfl, ended⟩ := parseAll_eq_ok_iff.mp h
  have writable := unescaped.writable lexed
  obtain ⟨among, again⟩ := (statement_sound read).reprint (dotless_of_writable writable) ended
  have writable' : ∀ l ∈ s.value.erase.lexemes, l.Writable := by
    intro l mem
    rcases among l mem with among | rfl | rfl
    · exact writable l among
    · trivial
    · trivial
  have spelled := s.value.erase.lexes writable' follows_nil .nil
  rw [List.append_nil, Statement.written_erase] at spelled
  refine parseAll_of_lexes spelled fun us same => ?_
  rw [← same] at again
  exact statement_complete again

theorem parseType_text {text : String} {t : TypeRef} (unescaped : Unescaped text)
    (h : parseType text = .ok t) : parseType t.text = .ok t := by
  unfold parseType at h ⊢
  obtain ⟨located, whole, h⟩ := bind_eq_ok_iff.mp h
  obtain ⟨ts, s, lexed, read, rfl, ended⟩ := parseAll_eq_ok_iff.mp whole
  cases h
  have writable := unescaped.writable lexed
  obtain ⟨shorter, again⟩ :=
    (typeRef_sound ts s read).reprint (dotless_of_writable writable) ended
  have spelled := s.value.node.lexes
    (fun l mem => shorter.writable writable l (List.mem_append_left _ mem)) follows_nil .nil
  rw [List.append_nil] at spelled
  obtain ⟨located, again', same⟩ : ∃ located, parseAll typeRef s.value.node.text = .ok located ∧
      located.node = s.value.node := by
    refine parseAll_of_lexes spelled fun us same => ?_
    rw [← same] at again
    exact typeRef_complete again
  simp only [again', bind, Except.bind, pure, Except.pure, same]

/-- A text without escaped identifiers that is accepted as an expression, a statement or a type is
accepted again in its canonical form, as the same tree up to spans; the canonical form of that tree
is the same text. -/
theorem reparses (text : String) (unescaped : Unescaped text) :
    (∀ e, parseExpr text = .ok e →
      ∃ e', parseExpr e.text = .ok e' ∧ e'.erase = e.erase ∧ e'.text = e.text) ∧
    (∀ u, parseStatement text = .ok u →
      ∃ u', parseStatement u.text = .ok u' ∧ u'.erase = u.erase ∧ u'.text = u.text) ∧
    ∀ t, parseType text = .ok t → parseType t.text = .ok t := by
  refine ⟨?expr, ?statement, ?type⟩
  case expr =>
    intro e accepted
    obtain ⟨e', again, same⟩ := parseExpr_text unescaped accepted
    exact ⟨e', again, same, Expr.text_eq_of_erase same⟩
  case statement =>
    intro u accepted
    obtain ⟨u', again, same⟩ := parseStatement_text unescaped accepted
    exact ⟨u', again, same, Statement.text_eq_of_erase same⟩
  case type => exact fun t accepted => parseType_text unescaped accepted

theorem reparses_assignment :
    Unescaped "this.x = f((y) => 1L, (global::A<int[]>)z < w);" ∧
      ∃ u, parseStatement "this.x = f((y) => 1L, (global::A<int[]>)z < w);" = .ok u ∧
        u.text = "x = f(y => 1, (A<int[]>)z < w)" ∧
        ∃ u', parseStatement u.text = .ok u' ∧ u'.erase = u.erase ∧ u'.text = u.text := by
  have unescaped : Unescaped "this.x = f((y) => 1L, (global::A<int[]>)z < w);" := by
    intro ts _ before behind split
    have sign : '@' ∈ "this.x = f((y) => 1L, (global::A<int[]>)z < w);".toList := by
      rw [split]
      exact List.mem_append_right _ List.mem_cons_self
    exact absurd sign (by decide)
  have read : (parseStatement "this.x = f((y) => 1L, (global::A<int[]>)z < w);").toOption.map
      Statement.text = some "x = f(y => 1, (A<int[]>)z < w)" := by decide +kernel
  cases accepted : parseStatement "this.x = f((y) => 1L, (global::A<int[]>)z < w);" with
  | error e =>
    rw [accepted] at read
    cases read
  | ok u =>
    rw [accepted] at read
    exact ⟨unescaped, u, rfl, Option.some.inj read, (reparses _ unescaped).2.1 u accepted⟩

end Marksmith.Syntax

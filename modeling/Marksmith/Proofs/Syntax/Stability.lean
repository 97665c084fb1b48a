import Marksmith.Proofs.Syntax.Reparsing

/-!
Printing again what was printed. The lexer takes the `@` off an escaped name, and the canonical text
does not put it back, so that text may be read as something else, with another canonical text. That
can only happen once, as there is no `@` in canonical text for the lexer to take off.

* `Quiet`: text without escapes and comments, string literals apart; `writable_of_quiet`: what is
  read from it can be written plainly;
* `Lexeme.Tame`, `quiet_written`: what is read from any text has a quiet canonical text;
* `Statement.Plain`: no name of a statement needs its escape;
* `Statement.text_settles`: canonical text is stable from the second time on; a statement is read
  again from its text exactly if it is plain.
-/

namespace Marksmith.Syntax

/-! ### Text without escapes and comments -/

/-- A text in which `@` and `/` only stand in string literals, apart from a `/` before a blank. -/
inductive Quiet : List Char → Prop where
  | nil : Quiet []
  | plain {c : Char} {s : List Char} (other : c ∉ ['@', '"', '/']) (rest : Quiet s) : Quiet (c :: s)
  | slash {s : List Char} (rest : Quiet s) : Quiet ('/' :: ' ' :: s)
  | string {value s : List Char} (rest : Quiet s) :
      Quiet ('"' :: (value.flatMap escapeInString ++ '"' :: s))

namespace Quiet

variable {c : Char} {s t : List Char}

theorem append (first : Quiet s) (second : Quiet t) : Quiet (s ++ t) := by
  induction first with
  | nil => exact second
  | plain other _ ih => exact .plain other ih
  | slash _ ih => exact .slash ih
  | string _ ih =>
    rw [List.cons_append, List.append_assoc]
    exact .string ih

theorem of_plain (other : ∀ c ∈ s, c ∉ ['@', '"', '/']) : Quiet s := by
  induction s with
  | nil => exact .nil
  | cons c s ih =>
    obtain ⟨first, others⟩ := List.forall_mem_cons.mp other
    exact .plain first (ih others)

/-- A given text with none of these characters is quiet. -/
theorem of_clear (clear : s.all (· ∉ ['@', '"', '/']) = true) : Quiet s :=
  of_plain fun c mem => of_decide_eq_true (List.all_eq_true.mp clear c mem)

/-- What stands behind a character that opens no string literal is quiet. -/
theorem tail (quiet : Quiet (c :: s)) (noQuote : c ≠ '"') : Quiet s := by
  cases quiet with
  | plain _ rest => exact rest
  | slash rest => exact .plain (by decide) rest
  | string => exact absurd rfl noQuote

theorem behind {front : List Char} (quiet : Quiet (front ++ s)) (noQuote : '"' ∉ front) :
    Quiet s := by
  induction front with
  | nil => exact quiet
  | cons c front ih =>
    rw [List.mem_cons, not_or] at noQuote
    exact ih (quiet.tail (Ne.symm noQuote.1)) noQuote.2

theorem ne_at (quiet : Quiet (c :: s)) : c ≠ '@' := by
  rintro rfl
  cases quiet with
  | plain other => exact absurd other (by decide)

theorem no_comment (quiet : Quiet ('/' :: s)) : s.head? ≠ some '/' := by
  cases quiet with
  | plain other => exact absurd other (by decide)
  | slash => simp

end Quiet

/-! ### What is read from quiet text -/

theorem splitNumber_chars (point : Bool) (s : List Char) :
    ∀ c ∈ (splitNumber point s).1, isIdentPart c = true ∨ c = '.' := by
  fun_induction splitNumber point s with
  | case1 => exact List.forall_mem_nil _
  | case2 point c s digit body rest point' read ih =>
    rw [read] at ih
    refine List.forall_mem_cons.mpr ⟨.inl ?_, ih⟩
    rcases (Bool.or_eq_true _ _).mp digit with digit | bar
    · exact (digit_facts digit).2.1
    · rw [beq_iff_eq.mp bar]
      decide
  | case3 point c s noDigit dot body rest point' read ih =>
    rw [read] at ih
    simp only [Bool.and_eq_true, beq_iff_eq] at dot
    exact List.forall_mem_cons.mpr ⟨.inr dot.1.1, ih⟩
  | case4 => exact List.forall_mem_nil _

theorem splitSuffix_chars (s : List Char) : ∀ c ∈ (splitSuffix s).2.1, isIdentPart c = true := by
  have letters : ['f', 'F', 'd', 'D', 'm', 'M', 'l', 'L', 'u', 'U'].all isIdentPart = true := by
    decide
  unfold splitSuffix
  split
  · exact List.forall_mem_nil _
  · split
    · next mem =>
      exact List.forall_mem_singleton.mpr
        (List.all_eq_true.mp letters _ (List.mem_append_left ['l', 'L', 'u', 'U'] mem))
    · split
      · next mem =>
        exact List.forall_mem_singleton.mpr
          (List.all_eq_true.mp letters _
            (List.mem_append_right ['f', 'F', 'd', 'D', 'm', 'M'] mem))
      · exact List.forall_mem_nil _

/-- A number literal is written with the characters of identifiers and points; a real number keeps
that text. -/
theorem scanNumber_chars {pos : Nat} {s : List Char} {r : Scan} (h : scanNumber pos s = .ok r) :
    (∀ c ∈ r.written, isIdentPart c = true ∨ c = '.') ∧
      ∀ text, r.lexeme = .float text → text.toList = r.written := by
  have chars : ∀ c ∈ (splitNumber false s).1 ++ (splitSuffix (splitNumber false s).2.1).2.1,
      isIdentPart c = true ∨ c = '.' :=
    List.forall_mem_append.mpr
      ⟨splitNumber_chars false s, fun c mem => .inl (splitSuffix_chars _ c mem)⟩
  unfold scanNumber at h
  simp only at h
  split at h
  · cases h
    refine ⟨chars, fun text same => ?_⟩
    cases same
    exact String.toList_ofList
  · split at h
    · cases h
      exact ⟨chars, nofun⟩
    · cases h

theorem quote_notMem_scan {pos : Nat} {c : Char} {s : List Char} {r : Scan}
    (noQuote : c ≠ '"') (h : scan pos c s = .ok r) : '"' ∉ r.written := by
  have word : ∀ s : List Char, '"' ∉ s.takeWhile isIdentPart := fun s mem =>
    absurd (List.all_eq_true.mp List.all_takeWhile '"' mem) (by decide)
  rcases scan_cases h with ⟨-, rfl⟩ | ⟨-, rfl⟩ | ⟨-, read⟩ | ⟨quote, -⟩ | ⟨p, rfl⟩
  · rw [List.mem_cons, not_or]
    exact ⟨by decide, word s⟩
  · exact word (c :: s)
  · intro mem
    exact absurd ((scanNumber_chars read).1 '"' mem) (by decide)
  · exact absurd quote noQuote
  · change '"' ∉ p.chars
    cases p <;> decide

theorem Quiet.scan {pos : Nat} {c : Char} {s : List Char} {r : Scan} (quiet : Quiet (c :: s))
    (h : Syntax.scan pos c s = .ok r) : Quiet r.rest := by
  by_cases quote : c = '"'
  · subst quote
    cases quiet with
    | plain other => exact absurd other (by decide)
    | @string value s rest =>
      obtain ⟨written, read⟩ := scanStringBody_escape pos value s (pos + 1)
      rw [Syntax.scan, if_neg (by decide), if_neg (by decide), if_neg (by decide),
        if_pos (by decide), scanString, read] at h
      cases h
      exact rest
  · have split := (scan_split h).1
    rw [← split] at quiet
    exact quiet.behind (quote_notMem_scan quote h)

theorem writable_of_quiet {pos : Nat} {s : List Char} {ts : List Token} (quiet : Quiet s)
    (h : lexFrom pos s = .ok ts) : ∀ t ∈ ts, t.lexeme.Writable := by
  fun_induction lexFrom pos s generalizing ts with
  | case1 pos =>
    cases h
    exact List.forall_mem_singleton.mpr trivial
  | case2 pos c tail blank ih =>
    refine ih (quiet.tail ?_) h
    rintro rfl
    exact absurd blank (by decide)
  | case3 pos c tail solid comment ih =>
    simp only [Bool.and_eq_true, beq_iff_eq] at comment
    obtain ⟨rfl, comment⟩ := comment
    exact absurd comment quiet.no_comment
  | case4 pos c tail solid noComment e failed => cases h
  | case5 pos c tail solid noComment r read stop =>
    rename_i ih
    obtain ⟨tokens, others, made⟩ := bind_eq_ok_iff.mp h
    cases made
    exact List.forall_mem_cons.mpr
      ⟨writable_of_scan quiet.ne_at read, ih (quiet.scan read) others⟩

/-! ### The canonical text of what was read -/

/-- A lexeme as the lexer makes it: names consist of the characters of identifiers, and real numbers
of these and points. -/
def Lexeme.Tame : Lexeme → Prop
  | ident x => ∀ c ∈ x.toList, isIdentPart c = true
  | float text => ∀ c ∈ text.toList, isIdentPart c = true ∨ c = '.'
  | _ => True

theorem Lexeme.Tame.solid {l : Lexeme} (tame : l.Tame) : l.Solid := by
  cases l with
  | ident x => exact tame
  | _ => trivial

theorem Lexeme.Writable.tame {l : Lexeme} (writable : l.Writable) : l.Tame := by
  cases l with
  | ident x => exact writable.1.2
  | float text => exact (scanNumber_chars (writable.2 0 [] trivial)).1
  | _ => trivial

theorem tame_of_scan {pos : Nat} {c : Char} {s : List Char} {r : Scan} (h : scan pos c s = .ok r) :
    r.lexeme.Tame := by
  rcases scan_cases h with ⟨-, rfl⟩ | ⟨start, -⟩ | ⟨digit, -⟩ | ⟨-, read⟩ | ⟨p, rfl⟩
  · intro d mem
    rw [String.toList_ofList] at mem
    exact List.all_eq_true.mp List.all_takeWhile d mem
  · refine (writable_of_scan ?_ h).tame
    rintro rfl
    exact absurd start (by decide)
  · refine (writable_of_scan ?_ h).tame
    rintro rfl
    exact absurd digit (by decide)
  · obtain ⟨v, body, made⟩ := bind_eq_ok_iff.mp read
    cases made
    trivial
  · trivial

/-- What the lexer makes of a text is tame. -/
theorem tame_of_lex {text : String} {ts : List Token} (h : lex text = .ok ts) :
    ∀ l ∈ lexemes ts, l.Tame := by
  intro l mem
  obtain ⟨t, among, rfl⟩ := List.mem_map.mp mem
  exact forall_lexFrom trivial (fun _ _ _ _ => tame_of_scan) h t among

/-- Neither `@` nor a quote nor a slash belongs to identifiers or to types. -/
theorem foreign {c : Char} (listed : c ∈ ['@', '"', '/']) :
    isIdentPart c = false ∧ c ∉ TypeRef.typeMarks := by
  simp only [List.mem_cons, List.not_mem_nil, or_false] at listed
  rcases listed with rfl | rfl | rfl <;> decide

theorem Quiet.of_part {s : List Char} (part : ∀ c ∈ s, isIdentPart c = true ∨ c = '.') :
    Quiet s := by
  refine .of_plain fun c mem listed => ?_
  obtain ⟨noPart, noMark⟩ := foreign listed
  rcases part c mem with part | rfl
  · exact absurd (part.symm.trans noPart) (by decide)
  · exact noMark (by decide)

theorem Quiet.ident {x : String} (tame : (Lexeme.ident x).Tame) : Quiet x.toList :=
  .of_part fun c mem => .inl (tame c mem)

theorem TypeRef.quiet_written {t : TypeRef} (tame : ∀ l ∈ t.lexemes, l.Tame) : Quiet t.written :=
  .of_plain fun _ mem listed =>
    notMem_written (foreign listed) t (fun l mem => (tame l mem).solid) mem

theorem TypeRef.quiet_writtenArgs {ts : List TypeRef} (tame : ∀ l ∈ argLexemes ts, l.Tame) :
    Quiet (writtenArgs ts) :=
  .of_plain fun _ mem listed =>
    notMem_writtenArgs (foreign listed) ts (fun l mem => (tame l mem).solid) mem

theorem SimpleName.quiet_written {n : SimpleName} (tame : ∀ l ∈ n.lexemes, l.Tame) :
    Quiet n.written := by
  obtain ⟨name, args⟩ := List.forall_mem_cons.mp tame
  exact (Quiet.ident name).append (TypeRef.quiet_writtenArgs args)

theorem Literal.quiet_written {v : Literal} (tame : v.lexeme.Tame) : Quiet v.written := by
  cases v with
  | int n =>
    refine .of_part fun c mem => .inl ?_
    exact (digit_facts (Nat.isDigit_of_mem_toDigits (by decide) (by decide) mem)).2.1
  | float text => exact .of_part tame
  | string value => exact .string .nil
  | bool b => cases b <;> exact .of_clear (by decide)
  | null => exact .of_clear (by decide)

namespace Expr

theorem quiet_separated {ps : List (Located String)}
    (tame : ∀ l ∈ paramLexemes (ps.map (·.node)), l.Tame) :
    Quiet (separated (ps.map (·.node.toList))) := by
  induction ps with
  | nil => exact .nil
  | cons p ps ih =>
    cases ps with
    | nil => exact .ident (tame _ List.mem_cons_self)
    | cons q ps =>
      simp only [List.map_cons, paramLexemes, List.forall_mem_cons] at tame ih
      exact (Quiet.ident tame.1).append (.plain (by decide) (.plain (by decide) (ih tame.2.2)))

theorem quiet_parenthesized {s : List Char} (quiet : Quiet s) : Quiet (parenthesized s) :=
  .plain (by decide) (quiet.append (.plain (by decide) .nil))

theorem quiet_head {ps : List (Located String)}
    (tame : ∀ l ∈ headLexemes (ps.map (·.node)), l.Tame) : Quiet (lambdaHeadWritten ps) := by
  match ps with
  | [p] => exact .ident (tame _ List.mem_cons_self)
  | [] => exact quiet_parenthesized .nil
  | p :: q :: ps =>
    simp only [List.map_cons, headLexemes, List.forall_mem_cons, List.forall_mem_append] at tame
    exact quiet_parenthesized (quiet_separated tame.2.1)

theorem quiet_operand {parens : Bool} {own : List Lexeme} {s : List Char}
    (quiet : (∀ l ∈ own, l.Tame) → Quiet s) (tame : ∀ l ∈ operandLexemes parens own, l.Tame) :
    Quiet (operandWritten parens s) := by
  cases parens with
  | false => exact quiet tame
  | true =>
    simp only [operandLexemes, if_true, List.forall_mem_cons, List.forall_mem_append] at tame
    exact quiet_parenthesized (quiet tame.2.1)

/-- The mark of an operator with a blank on either side. -/
theorem quiet_operator (op : BinaryOp) {s : List Char} (quiet : Quiet s) :
    Quiet (' ' :: (op.punct.chars ++ ' ' :: s)) := by
  refine .plain (by decide) ?_
  by_cases slash : op = .div
  · subst slash
    exact .slash quiet
  · refine .append (.of_clear ?_) (.plain (by decide) quiet)
    cases op <;> first | decide | exact absurd rfl slash

mutual

/-- An expression of tame lexemes has a quiet text. -/
theorem quiet_written : (e : Expr) → (∀ l ∈ e.lexemes, l.Tame) → Quiet e.written
  | name _ n, tame => SimpleName.quiet_written tame
  | literal _ v, tame => Literal.quiet_written (tame _ List.mem_cons_self)
  | this _, _ => Quiet.of_clear (s := "this".toList) (by decide)
  | member _ target n, tame => by
    simp only [lexemes, List.forall_mem_append, List.forall_mem_cons] at tame
    exact (quiet_written target tame.1).append
      (.plain (by decide) (SimpleName.quiet_written tame.2.2))
  | invoke _ callee args, tame => by
    simp only [lexemes, List.forall_mem_append, List.forall_mem_cons] at tame
    exact (quiet_written callee tame.1).append
      (quiet_parenthesized (quiet_writtenArgs args tame.2.2.1))
  | index _ target args, tame => by
    simp only [lexemes, List.forall_mem_append, List.forall_mem_cons] at tame
    exact (quiet_written target tame.1).append
      (.plain (by decide) ((quiet_writtenArgs args tame.2.2.1).append (.plain (by decide) .nil)))
  | cast _ type operand, tame => by
    simp only [lexemes, List.forall_mem_append, List.forall_mem_cons] at tame
    exact (quiet_parenthesized (TypeRef.quiet_written tame.2.1)).append
      (quiet_written operand tame.2.2.2)
  | new _ type args, tame => by
    simp only [lexemes, List.forall_mem_append, List.forall_mem_cons] at tame
    rw [written]
    have keyword : Quiet "new ".toList := .of_clear (by decide)
    exact (keyword.append (TypeRef.quiet_written tame.2.1)).append
      (quiet_parenthesized (quiet_writtenArgs args tame.2.2.2.1))
  | lambda _ params body, tame => by
    simp only [lexemes, List.forall_mem_append, List.forall_mem_cons] at tame
    have arrow : Quiet " => ".toList := .of_clear (by decide)
    exact ((quiet_head tame.1).append arrow).append (quiet_written body tame.2.2)
  | unary _ op operand, tame => by
    simp only [lexemes, List.forall_mem_cons] at tame
    have mark : Quiet op.punct.chars := by cases op <;> exact .of_clear (by decide)
    exact mark.append (quiet_written operand tame.2)
  | binary _ left op right, tame => by
    simp only [lexemes, List.forall_mem_append, List.forall_mem_cons] at tame
    exact (quiet_operand (quiet_written left) tame.1).append
      (quiet_operator op (quiet_operand (quiet_written right) tame.2.2))
  | paren _ inner, tame => by
    simp only [lexemes, List.forall_mem_append, List.forall_mem_cons] at tame
    exact quiet_parenthesized (quiet_written inner tame.2.1)

theorem quiet_writtenArgs : (es : List Expr) → (∀ l ∈ argLexemes es, l.Tame) →
    Quiet (writtenArgs es)
  | [], _ => .nil
  | e :: es, tame => by
    simp only [argLexemes, List.forall_mem_append] at tame
    exact (quiet_written e tame.1).append (quiet_writtenMore es tame.2)

theorem quiet_writtenMore : (es : List Expr) → (∀ l ∈ moreLexemes es, l.Tame) →
    Quiet (writtenMore es)
  | [], _ => .nil
  | e :: es, tame => by
    simp only [moreLexemes, List.forall_mem_cons, List.forall_mem_append] at tame
    exact .plain (by decide) (.plain (by decide)
      ((quiet_written e tame.2.1).append (quiet_writtenMore es tame.2.2)))

end

end Expr

/-! ### Statements -/

theorem Statement.quiet_written {u : Statement} (tame : ∀ l ∈ u.lexemes, l.Tame) :
    Quiet u.written := by
  cases u with
  | assign _ target value =>
    simp only [lexemes, List.forall_mem_cons] at tame
    have mark : Quiet " = ".toList := .of_clear (by decide)
    exact ((Quiet.ident tame.1).append mark).append (Expr.quiet_written value tame.2.2)
  | expr value => exact Expr.quiet_written value tame

namespace Expr

mutual

/-- Spans are no part of the lexemes. -/
theorem lexemes_erase : (e : Expr) → e.erase.lexemes = e.lexemes
  | name .. | literal .. | this .. => rfl
  | member _ target n => by rw [erase, lexemes, lexemes, lexemes_erase target]
  | invoke _ callee args => by
    rw [erase, lexemes, lexemes, lexemes_erase callee, argLexemes_erase args]
  | index _ target args => by
    rw [erase, lexemes, lexemes, lexemes_erase target, argLexemes_erase args]
  | cast _ type operand => by rw [erase, lexemes, lexemes, lexemes_erase operand]
  | new _ type args => by rw [erase, lexemes, lexemes, argLexemes_erase args]
  | lambda _ ps body => by
    rw [erase, lexemes, lexemes, lexemes_erase body, List.map_map]
    rfl
  | unary _ op operand => by rw [erase, lexemes, lexemes, lexemes_erase operand]
  | binary _ left op right => by
    rw [erase, lexemes, lexemes, lexemes_erase left, lexemes_erase right, needsParens_erase,
      needsParens_erase]
  | paren _ inner => by rw [erase, lexemes, lexemes, lexemes_erase inner]

theorem argLexemes_erase : (es : List Expr) → argLexemes (eraseAll es) = argLexemes es
  | [] => rfl
  | e :: es => by
    rw [eraseAll, argLexemes, argLexemes, lexemes_erase e, moreLexemes_erase es]

theorem moreLexemes_erase : (es : List Expr) → moreLexemes (eraseAll es) = moreLexemes es
  | [] => rfl
  | e :: es => by
    rw [eraseAll, moreLexemes, moreLexemes, lexemes_erase e, moreLexemes_erase es]

end

end Expr

namespace Statement

theorem lexemes_erase (u : Statement) : u.erase.lexemes = u.lexemes := by
  cases u with
  | assign => rw [erase, lexemes, lexemes, Expr.lexemes_erase]
  | expr => rw [erase, lexemes, lexemes, Expr.lexemes_erase]

/-- No name of the statement is a reserved word or begins like a number. -/
def Plain (u : Statement) : Prop := ∀ l ∈ u.lexemes, l.Writable

/-- The statement is read again from its text, up to spans. -/
def Reparses (u : Statement) : Prop := ∃ u', parseStatement u.text = .ok u' ∧ u'.erase = u.erase

variable {text : String} {u : Statement}

/-- A statement is read from its lexemes, and apart from marks these come from the text. -/
theorem forall_lexemes {P : Lexeme → Prop} (eof : P .eof) (assign : P (.punct .assign))
    (all : ∀ ts, lex text = .ok ts → ∀ l ∈ Syntax.lexemes ts, P l)
    (read : parseStatement text = .ok u) :
    (∀ l ∈ u.lexemes, P l) ∧ StatementAt (u.lexemes ++ [.eof]) u.erase [.eof] := by
  obtain ⟨ts, s, lexed, parsed, rfl, ended⟩ := parseAll_eq_ok_iff.mp read
  obtain ⟨among, again⟩ :=
    (statement_sound parsed).reprint (dotless_of_solid (solid_of_lex lexed)) ended
  rw [lexemes_erase] at among again
  refine ⟨fun l mem => ?_, again⟩
  rcases among l mem with among | rfl | rfl
  · exact all ts lexed l among
  · exact eof
  · exact assign

/-- A plain statement that was read is read again from its text. -/
theorem Plain.readsAgain (plain : u.Plain) (read : parseStatement text = .ok u) : u.Reparses := by
  have spelled := u.lexes plain follows_nil .nil
  rw [List.append_nil] at spelled
  have derived := (forall_lexemes (P := fun _ => True) trivial trivial
    (fun _ _ _ _ => trivial) read).2
  refine parseAll_of_lexes spelled fun us same => ?_
  rw [← same] at derived
  exact statement_complete derived

/-- What is read from the canonical text of a statement is plain. -/
theorem plain_of_text {u' : Statement} (read : parseStatement text = .ok u)
    (again : parseStatement u.text = .ok u') : u'.Plain := by
  have quiet : Quiet u.text.toList := by
    rw [Statement.text, String.toList_ofList]
    exact quiet_written (forall_lexemes trivial trivial (fun _ => tame_of_lex) read).1
  refine (forall_lexemes trivial trivial (fun ts lexed l mem => ?_) again).1
  obtain ⟨t, among, rfl⟩ := List.mem_map.mp mem
  exact writable_of_quiet quiet lexed t among

/-- Canonical text is stable from the second time on. A statement is read again from its text
exactly if it is plain, and then its text is stable from the first time on. -/
theorem text_settles (text : String) (u : Statement) (read : parseStatement text = .ok u) :
    (∀ u', parseStatement u.text = .ok u' →
      ∃ u'', parseStatement u'.text = .ok u'' ∧ u''.text = u'.text) ∧
    (u.Reparses ↔ u.Plain) ∧
    (u.Plain → ∀ u', parseStatement u.text = .ok u' → u'.text = u.text) := by
  refine ⟨fun u' again => ?settled, ⟨?plain, fun plain => plain.readsAgain read⟩,
    fun plain u' again => ?stable⟩
  case settled =>
    obtain ⟨u'', third, same⟩ := (plain_of_text read again).readsAgain again
    exact ⟨u'', third, text_eq_of_erase same⟩
  case plain =>
    rintro ⟨u', again, same⟩
    have plain := plain_of_text read again
    rwa [Plain, ← lexemes_erase, same, lexemes_erase] at plain
  case stable =>
    obtain ⟨u'', again', same⟩ := plain.readsAgain read
    rw [again] at again'
    cases again'
    exact text_eq_of_erase same

theorem exists_of_map_text {text printed : String}
    (read : (parseStatement text).toOption.map Statement.text = some printed) :
    ∃ u, parseStatement text = .ok u ∧ u.text = printed := by
  obtain ⟨u, read, same⟩ := Option.map_eq_some_iff.mp read
  exact ⟨u, toOption_eq_some_iff.mp read, same⟩

/-- An escaped name becomes a number, which has another text; that text stays. -/
theorem text_settles_escapedCallee :
    ∃ u u' u'', parseStatement "@x = @05(1.5f, \"@//\" ?? y);" = .ok u ∧
      u.text = "x = 05(1.5f, \"@//\" ?? y)" ∧ parseStatement u.text = .ok u' ∧
      u'.text = "x = 5(1.5f, \"@//\" ?? y)" ∧ parseStatement u'.text = .ok u'' ∧
      u''.text = u'.text := by
  obtain ⟨u, read, printed⟩ : ∃ u, parseStatement "@x = @05(1.5f, \"@//\" ?? y);" = .ok u ∧
      u.text = "x = 05(1.5f, \"@//\" ?? y)" := exists_of_map_text (by decide +kernel)
  obtain ⟨u', again, printed'⟩ : ∃ u', parseStatement u.text = .ok u' ∧
      u'.text = "x = 5(1.5f, \"@//\" ?? y)" := by
    rw [printed]
    exact exists_of_map_text (by decide +kernel)
  obtain ⟨u'', third, same⟩ := (text_settles _ u read).1 u' again
  exact ⟨u, u', u'', read, printed, again, printed', third, same⟩

/-- What is read from the text of a statement may have another text: `@5u` is printed as `5u`, and
that as `5`. -/
theorem not_text_stable : ¬∀ (text : String) (u u' : Statement), parseStatement text = .ok u →
    parseStatement u.text = .ok u' → u'.text = u.text := by
  intro stable
  obtain ⟨u, read, printed⟩ : ∃ u, parseStatement "@5u" = .ok u ∧ u.text = "5u" :=
    exists_of_map_text (by decide +kernel)
  obtain ⟨u', again, printed'⟩ : ∃ u', parseStatement u.text = .ok u' ∧ u'.text = "5" := by
    rw [printed]
    exact exists_of_map_text (by decide +kernel)
  have same := stable "@5u" u u' read again
  rw [printed, printed'] at same
  exact absurd same (by decide)

end Statement

end Marksmith.Syntax

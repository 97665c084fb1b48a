import Marksmith.Proofs.Syntax.Elision

/-!
Canonical lexemes are read as the tree that they were made from.

* `reprints_of_derives`: what a phrase was read from shortens to the lexemes of its tree, and these
  are derived again as the same tree;
* `Derives.reprint`, `StatementAt.reprint`, `TypeAt.reprint`: the same for a whole text, which may
  end with a semicolon.
-/

namespace Marksmith.Syntax

open TypeRef (typeAt_lexemes endsType_punct)

/-! ### Heads of lambdas -/

theorem paramsOf_eq {ls rest : List Lexeme} {xs : List String}
    (h : paramsOf ls = some (xs, rest)) :
    xs ≠ [] ∧ ls = Expr.paramLexemes xs ++ .punct .rparen :: rest := by
  fun_induction paramsOf ls generalizing xs rest with
  | case1 x behind => cases h; exact ⟨by simp, rfl⟩
  | case2 x behind ih =>
    obtain ⟨⟨ys, more⟩, read, same⟩ := Option.map_eq_some_iff.mp h
    cases same
    obtain ⟨nonempty, rfl⟩ := ih read
    refine ⟨by simp, ?_⟩
    cases ys with
    | nil => exact absurd rfl nonempty
    | cons y ys => rfl
  | case3 => cases h

theorem paramsOf_lexemes {xs : List String} (nonempty : xs ≠ []) (rest : List Lexeme) :
    paramsOf (Expr.paramLexemes xs ++ .punct .rparen :: rest) = some (xs, rest) := by
  induction xs with
  | nil => exact absurd rfl nonempty
  | cons x xs ih =>
    cases xs with
    | nil => rfl
    | cons y ys =>
      rw [Expr.paramLexemes, List.cons_append, List.cons_append, paramsOf, ih (by simp)]
      rfl

theorem Elides.params {ls us : List Lexeme} (h : Elides .plain ls us) (xs : List String)
    {gap : Gap} : Elides gap (Expr.paramLexemes xs ++ .punct .rparen :: ls)
      (Expr.paramLexemes xs ++ .punct .rparen :: us) := by
  induction xs generalizing gap with
  | nil => exact .keepPunct rfl h
  | cons x xs ih =>
    cases xs with
    | nil => exact .keep (by simp) (by simp) (.keepPunct rfl h)
    | cons y ys => exact .keep (by simp) (by simp) (.keepPunct rfl ih)

/-- The head of a lambda is written without the parentheses of a single parameter, and the result
is a head with the same parameters. -/
theorem Elides.head {ls inner us : List Lexeme} {xs : List String}
    (head : lambdaOf ls = some (xs, inner)) (h : Elides .start inner us) :
    Elides .start ls (Expr.headLexemes xs ++ .punct .arrow :: us) ∧
      lambdaOf (Expr.headLexemes xs ++ .punct .arrow :: us) = some (xs, us) := by
  unfold lambdaOf at head
  split at head
  · cases head
    exact ⟨.keep (by simp) (by simp) (.keepPunct rfl h), rfl⟩
  · cases head
    exact ⟨.keepPunct rfl (.keepPunct rfl (.keepPunct rfl h)), rfl⟩
  · split at head
    · next params =>
      cases head
      obtain ⟨nonempty, rfl⟩ := paramsOf_eq params
      match xs, nonempty with
      | [x], _ => exact ⟨.lambda h, rfl⟩
      | x :: y :: ys, _ =>
        have read := paramsOf_lexemes (List.cons_ne_nil x (y :: ys)) (.punct .arrow :: us)
        refine ⟨?_, ?_⟩
        · simp only [Expr.headLexemes, List.cons_append, List.append_assoc, List.nil_append]
          exact .keepPunct rfl (Elides.params (.keepPunct (p := .arrow) rfl h) (x :: y :: ys))
        · simp only [Expr.headLexemes, List.cons_append, List.append_assoc, List.nil_append]
          rw [Expr.paramLexemes] at read ⊢
          simp only [List.cons_append] at read ⊢
          rw [lambdaOf, read]
          simp
    · cases head
  · cases head

/-! ### Expressions -/

namespace Expr

theorem lexemes_binary {left right : Expr} {op : BinaryOp} (span : Span)
    (bare : left.needsParens op false = false) (bare' : right.needsParens op true = false) :
    (binary span left op right).lexemes = left.lexemes ++ .punct op.punct :: right.lexemes := by
  rw [lexemes, bare, bare']
  rfl

theorem moreLexemes_eq {es : List Expr} (nonempty : es ≠ []) :
    moreLexemes es = .punct .comma :: argLexemes es := by
  cases es with
  | nil => exact absurd rfl nonempty
  | cons e es => rw [moreLexemes, argLexemes]

end Expr

namespace Phrase

/-- What a phrase was read from shortens to the lexemes of its tree, which are read as that tree
again, whatever shortened lexemes follow. For operators and suffixes this is the part of the tree
behind the left operand and behind the target. -/
def Reprints : Phrase → List Lexeme → List Lexeme → Prop
  | expression e, ls, rest => peek rest ≠ .punct .arrow → ∀ rest', Elides .plain rest rest' →
    Elides .start ls (e.lexemes ++ rest') ∧ Derives (expression e) (e.lexemes ++ rest') rest'
  | operation least e, ls, rest => ∀ rest', Elides .plain rest rest' →
    Elides .plain ls (e.lexemes ++ rest') ∧ Derives (operation least e) (e.lexemes ++ rest') rest'
  | operators least left e, ls, rest =>
    (∀ op : BinaryOp, peek ls = .punct op.punct → left.needsParens op false = false) →
    ∀ rest', Elides .plain rest rest' → ∃ part, e.lexemes = left.lexemes ++ part ∧
      Elides .plain ls (part ++ rest') ∧ Derives (operators least left e) (part ++ rest') rest'
  | unary e, ls, rest => ∀ rest', Elides .plain rest rest' →
    Elides .plain ls (e.lexemes ++ rest') ∧ Derives (unary e) (e.lexemes ++ rest') rest'
  | suffixes target e, ls, rest => ∀ rest', Elides .plain rest rest' →
    ∃ part, e.lexemes = target.lexemes ++ part ∧
      Elides .plain ls (part ++ rest') ∧ Derives (suffixes target e) (part ++ rest') rest'
  | arguments close es, ls, rest => close ∈ [.rparen, .rbracket] →
    ∀ rest', Elides .plain rest rest' →
      Elides .start ls (Expr.argLexemes es ++ .punct close :: rest') ∧
        Derives (arguments close es) (Expr.argLexemes es ++ .punct close :: rest') rest'
  | argumentList close es, ls, rest => close ∈ [.rparen, .rbracket] →
    ∀ rest', Elides .plain rest rest' → es ≠ [] ∧
      Elides .start ls (Expr.argLexemes es ++ .punct close :: rest') ∧
        Derives (argumentList close es) (Expr.argLexemes es ++ .punct close :: rest') rest'
  | primary e, ls, rest => ∀ rest', Elides .plain rest rest' →
    Elides .plain ls (e.lexemes ++ rest') ∧ Derives (primary e) (e.lexemes ++ rest') rest'

end Phrase

theorem Elides.closing {close : Punct} (mem : close ∈ [Punct.rparen, .rbracket])
    {ls us : List Lexeme} {gap : Gap} (h : Elides .plain ls us) :
    Elides gap (.punct close :: ls) (.punct close :: us) := by
  rw [List.mem_cons, List.mem_singleton] at mem
  obtain rfl | rfl := mem
  · exact .keepPunct rfl h
  · exact .keepPunct rfl h

theorem Elides.operator {ls us : List Lexeme} {gap : Gap} (h : Elides .plain ls us)
    (op : BinaryOp) : Elides gap (.punct op.punct :: ls) (.punct op.punct :: us) := by
  cases op <;> exact .keepPunct rfl h

theorem Elides.mark {ls us : List Lexeme} {gap : Gap} (h : Elides .plain ls us) (op : UnaryOp) :
    Elides gap (.punct op.punct :: ls) (.punct op.punct :: us) := by
  cases op <;> exact .keepPunct rfl h

theorem Elides.literal {l : Lexeme} {v : Literal} (read : Literal.ofLexeme? l = some v)
    {ls us : List Lexeme} {gap : Gap} (h : Elides .plain ls us) :
    Elides gap (l :: ls) (l :: us) := by
  have plain : gapAfter l = .plain := by
    unfold Literal.ofLexeme? at read
    split at read <;> first | rfl | cases read
  refine .keep ?_ ?_ (by rw [plain]; exact h)
  · rintro rfl; cases read
  · rintro rfl; cases read

theorem BinaryOp.punct_ne_semicolon (op : BinaryOp) : op.punct ≠ .semicolon := by
  cases op <;> decide

theorem UnaryOp.punct_ne_semicolon (op : UnaryOp) : op.punct ≠ .semicolon := by
  cases op <;> decide

/-- Every phrase is written as lexemes that are read as the same phrase. -/
theorem reprints_of_derives {phrase : Phrase} {ls rest : List Lexeme}
    (h : Derives phrase ls rest) (dotless : Dotless ls) : phrase.Reprints ls rest := by
  induction h with
  | @lambda ls inner rest xs body head _ ih =>
    intro stop rest' left
    obtain ⟨shorter, again⟩ := ih (dotless.mono (lambdaOf_suffix head)) stop rest' left
    obtain ⟨whole, read⟩ := Elides.head head shorter
    have names : (xs.map fun x => (⟨x, Span.zero⟩ : Located String)).map (·.node) = xs := by
      rw [List.map_map]
      exact List.map_id xs
    rw [Expr.lexemes, names, List.append_assoc, List.cons_append]
    exact ⟨whole, .lambda read again⟩
  | operation _ _ ih =>
    intro stop rest' left
    obtain ⟨shorter, again⟩ := ih dotless rest' left
    have stop' := mt (left.peek_eq_punct_iff (by decide)).mp stop
    exact ⟨shorter.weaken, .operation (lambdaOf_eq_none again stop') again⟩
  | chain first _ ihFirst ihOthers =>
    intro rest' left
    obtain ⟨part, eq, shorter, again⟩ := ihOthers (dotless.mono first.suffix)
      (fun op _ => first.isOperand_unary.needsParens op false) rest' left
    obtain ⟨shorter', again'⟩ := ihFirst dotless (part ++ rest') shorter
    rw [eq, List.append_assoc]
    exact ⟨shorter', .chain again' again⟩
  | stop loose =>
    intro _ rest' left
    refine ⟨[], (List.append_nil _).symm, left, .stop fun op front => loose op ?_⟩
    exact (left.peek_eq_punct_iff op.punct_ne_semicolon).mp front
  | @step inner behind rest least op l r e tight operand _ ihRight ihOthers =>
    intro fits rest' left
    have inside : Dotless inner := dotless.mono (List.suffix_cons _ _)
    have bare := fits op rfl
    have bare' := Expr.needsParens_right_eq_false operand.binds
    have fits' : ∀ op' : BinaryOp, peek behind = .punct op'.punct →
        (Expr.binary .zero l op r).needsParens op' false = false :=
      fun op' front => Expr.needsParens_left_eq_false (operand.stops op' front) _ _ _
    obtain ⟨part, eq, shorter, again⟩ := ihOthers (inside.mono operand.suffix) fits' rest' left
    obtain ⟨shorter', again'⟩ := ihRight inside (part ++ rest') shorter
    rw [Expr.lexemes_binary _ bare bare', List.append_assoc, List.cons_append] at eq
    refine ⟨_, eq, ?_, ?_⟩
    · rw [List.cons_append, List.append_assoc]
      exact shorter'.operator op
    · rw [List.cons_append, List.append_assoc]
      exact .step tight again' again
  | @mark inner rest op operand _ ih =>
    intro rest' left
    obtain ⟨shorter, again⟩ := ih (dotless.mono (List.suffix_cons _ _)) rest' left
    rw [Expr.lexemes]
    exact ⟨shorter.mark op, .mark again⟩
  | cast head _ ih =>
    intro rest' left
    obtain ⟨shorter, again⟩ := ih (dotless.mono head.suffix) rest' left
    obtain ⟨list, rfl, type, begins⟩ := head
    have inside : Dotless list := dotless.mono (List.suffix_cons _ _)
    have begins' := shorter.beginsOperand_eq.trans begins
    simp only [Expr.lexemes, List.cons_append, List.append_assoc]
    refine ⟨.keepPunct rfl (type.elides inside (.keepPunct rfl shorter)), .cast ?_ again⟩
    exact ⟨_, rfl, typeAt_lexemes _ _ (endsType_punct (by decide)), begins'⟩
  | operand unmarked uncast first _ ihFirst ihOthers =>
    intro rest' left
    obtain ⟨part, eq, shorter, again⟩ := ihOthers (dotless.mono first.suffix) rest' left
    obtain ⟨shorter', again'⟩ := ihFirst dotless (part ++ rest') shorter
    rw [eq, List.append_assoc]
    refine ⟨shorter', .operand (fun op front => unmarked op ?_) ?_ again' again⟩
    · exact (shorter'.peek_eq_punct_iff op.punct_ne_semicolon).mp front
    · rintro ⟨t, inner, head⟩
      exact uncast ⟨t, castAt_of_elides head shorter'⟩
  | member name _ ih =>
    intro rest' left
    have inside := dotless.mono (List.suffix_cons _ _)
    obtain ⟨part, eq, shorter, again⟩ := ih (inside.mono name.suffix) rest' left
    obtain ⟨x, more, rfl⟩ := name.front
    obtain ⟨rfl, shorter', again'⟩ := name.elides (inside.mono (List.suffix_cons _ _)) shorter
    rw [Expr.lexemes, List.append_assoc] at eq
    refine ⟨_, eq, ?_, ?_⟩
    · simp only [SimpleName.lexemes, List.cons_append, List.append_assoc]
      exact .dot shorter'
    · simp only [List.cons_append, List.append_assoc]
      exact .member again' again
  | invoke listed _ ihArgs ih =>
    intro rest' left
    have inside := dotless.mono (List.suffix_cons _ _)
    obtain ⟨part, eq, shorter, again⟩ := ih (inside.mono listed.suffix) rest' left
    obtain ⟨shorter', again'⟩ := ihArgs inside (by decide) (part ++ rest') shorter
    rw [Expr.lexemes, List.append_assoc] at eq
    refine ⟨_, eq, ?_, ?_⟩
    · simp only [List.cons_append, List.append_assoc, List.nil_append]
      exact .keepPunct rfl shorter'
    · simp only [List.cons_append, List.append_assoc, List.nil_append]
      exact .invoke again' again
  | index listed _ ihArgs ih =>
    intro rest' left
    have inside := dotless.mono (List.suffix_cons _ _)
    obtain ⟨part, eq, shorter, again⟩ := ih (inside.mono listed.suffix) rest' left
    obtain ⟨shorter', again'⟩ := ihArgs inside (by decide) (part ++ rest') shorter
    rw [Expr.lexemes, List.append_assoc] at eq
    refine ⟨_, eq, ?_, ?_⟩
    · simp only [List.cons_append, List.append_assoc, List.nil_append]
      exact .keepPunct rfl shorter'
    · simp only [List.cons_append, List.append_assoc, List.nil_append]
      exact .index again' again
  | done other =>
    intro rest' left
    refine ⟨[], (List.append_nil _).symm, left, .done fun p mem front => other p mem ?_⟩
    refine (left.peek_eq_punct_iff ?_).mp front
    rintro rfl
    exact absurd mem (by decide)
  | noArguments =>
    intro mem rest' left
    exact ⟨left.closing mem, .noArguments⟩
  | someArguments nonempty _ ih =>
    intro mem rest' left
    obtain ⟨-, shorter, again⟩ := ih dotless mem rest' left
    exact ⟨shorter, .someArguments (shorter.peek_ne nonempty) again⟩
  | @lastArgument ls rest close e first ih =>
    intro mem rest' left
    have stop : peek (.punct close :: rest) ≠ .punct .arrow := by
      rintro eq
      cases eq
      exact absurd mem (by decide)
    obtain ⟨shorter, again⟩ := ih dotless stop _ (left.closing mem)
    rw [Expr.argLexemes, Expr.moreLexemes, List.append_nil]
    exact ⟨by simp, shorter, .lastArgument again⟩
  | moreArguments distinct first _ ihFirst ihOthers =>
    intro mem rest' left
    have inside := dotless.mono ((List.suffix_cons _ _).trans first.suffix)
    obtain ⟨nonempty, shorter, again⟩ := ihOthers inside mem rest' left
    obtain ⟨shorter', again'⟩ := ihFirst dotless (by simp) _ (.keepPunct (p := .comma) rfl shorter)
    rw [Expr.argLexemes, Expr.moreLexemes_eq nonempty, List.append_assoc, List.cons_append]
    exact ⟨by simp, shorter', .moreArguments distinct again' again⟩
  | this =>
    intro rest' left
    rw [Expr.lexemes]
    exact ⟨.keep (by simp) (by simp) left, .this⟩
  | literal read =>
    intro rest' left
    rw [Expr.lexemes, Literal.lexeme_of_ofLexeme? read]
    exact ⟨left.literal read, .literal read⟩
  | new type listed ih =>
    intro rest' left
    have inside := dotless.mono (List.suffix_cons _ _)
    have inside' := (inside.mono type.suffix).mono (List.suffix_cons _ _)
    obtain ⟨shorter, again⟩ := ih inside' (by decide) rest' left
    simp only [Expr.lexemes, List.cons_append, List.append_assoc, List.nil_append]
    refine ⟨.keep (by simp) (by simp) (type.elides inside (.keepPunct (p := .lparen) rfl shorter)), ?_⟩
    exact .new (typeAt_lexemes _ _ (endsType_punct (by decide))) again
  | paren _ ih =>
    intro rest' left
    obtain ⟨shorter, again⟩ :=
      ih (dotless.mono (List.suffix_cons _ _)) (by simp) _ (.keepPunct (p := .rparen) rfl left)
    simp only [Expr.lexemes, List.cons_append, List.append_assoc, List.nil_append]
    exact ⟨.keepPunct rfl shorter, .paren again⟩
  | @name ls rest n read =>
    intro rest' left
    obtain ⟨x, more, front⟩ := read.front
    have inside := dotless.mono (aliased_suffix _)
    rw [front] at inside read
    obtain ⟨rfl, shorter, again⟩ := read.elides (inside.mono (List.suffix_cons _ _)) left
    have whole : Elides .plain ls (n.lexemes ++ rest') := shorter.ident front
    rw [Expr.lexemes]
    refine ⟨whole, .name ?_⟩
    rw [whole.aliased_eq]
    exact again

/-! ### Whole texts -/

/-- Nothing but an optional semicolon is left. -/
def Ended (ls : List Lexeme) : Prop :=
  peek ls = .eof ∨ ∃ rest, ls = .punct .semicolon :: rest ∧ peek rest = .eof

variable {ls rest : List Lexeme}

theorem Ended.elides (h : Ended rest) : Elides .plain rest [.eof] := by
  rcases h with ends | ⟨rest, rfl, ends⟩
  · exact .finish ends
  · exact .semicolon ends

theorem Ended.peek_ne {p : Punct} (h : Ended rest) (other : p ≠ .semicolon) :
    peek rest ≠ .punct p := by
  intro front
  have front' := (h.elides.peek_eq_punct_iff other).mpr front
  cases front'

/-- An expression that is a whole text is read from its lexemes, which come from that text. -/
theorem Derives.reprint {e : Expr} (h : Derives (.expression e) ls rest) (dotless : Dotless ls)
    (ended : Ended rest) : Elides .start ls (e.lexemes ++ [Lexeme.eof]) ∧
      Derives (.expression e) (e.lexemes ++ [Lexeme.eof]) [.eof] :=
  reprints_of_derives h dotless (ended.peek_ne (by decide)) _ ended.elides

theorem TypeAt.reprint {t : TypeRef} (h : TypeAt ls t rest) (dotless : Dotless ls)
    (ended : Ended rest) : Elides .start ls (t.lexemes ++ [Lexeme.eof]) ∧
      TypeAt (t.lexemes ++ [Lexeme.eof]) t [.eof] :=
  ⟨h.elides dotless ended.elides, typeAt_lexemes t [.eof] nofun⟩

/-- No expression that is a whole text begins like an assignment. -/
theorem Derives.assignmentOf_eq_none {e : Expr} (h : Derives (.expression e) ls [.eof]) :
    assignmentOf ls = none := by
  unfold assignmentOf
  split
  · cases h.single_expression (by decide) (by decide)
  · cases h.single_this (by decide)
  · rfl

theorem assignmentOf_mem {x : String} {inner : List Lexeme}
    (h : assignmentOf ls = some (x, inner)) : .ident x ∈ ls ∧ inner <:+ ls := by
  unfold assignmentOf at h
  split at h
  · cases h
    exact ⟨by simp, ⟨[_, _], rfl⟩⟩
  · cases h
    exact ⟨by simp, ⟨[_, _, _, _], rfl⟩⟩
  · cases h

/-- A statement that is a whole text is read from its lexemes, which come from that text. -/
theorem StatementAt.reprint {s : Statement} (h : StatementAt ls s rest) (dotless : Dotless ls)
    (ended : Ended rest) : (∀ l ∈ s.lexemes, l ∈ ls ∨ l = .eof ∨ l = .punct .assign) ∧
      StatementAt (s.lexemes ++ [Lexeme.eof]) s [.eof] := by
  cases h with
  | assign head value =>
    obtain ⟨target, sub⟩ := assignmentOf_mem head
    obtain ⟨shorter, again⟩ := value.reprint (dotless.mono sub) ended
    refine ⟨fun l mem => ?_, .assign rfl again⟩
    rw [Statement.lexemes, List.mem_cons, List.mem_cons] at mem
    rcases mem with rfl | rfl | mem
    · exact .inl target
    · exact .inr (.inr rfl)
    · rcases shorter.mem l (List.mem_append_left _ mem) with among | ends
      · exact .inl (sub.subset among)
      · exact .inr (.inl ends)
  | expr plain value =>
    obtain ⟨shorter, again⟩ := value.reprint dotless ended
    refine ⟨fun l mem => ?_, .expr again.assignmentOf_eq_none again⟩
    rcases shorter.mem l (List.mem_append_left _ mem) with among | ends
    · exact .inl among
    · exact .inr (.inl ends)

end Marksmith.Syntax

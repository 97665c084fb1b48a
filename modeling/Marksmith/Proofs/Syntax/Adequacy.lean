import Marksmith.Proofs.Syntax.Grammar

/-!
The parser decides the grammar of expressions.

* `expression_sound`: what the parser reads is derived from the lexemes of its tokens;
* `expression_complete`: what is derived is read from any tokens with these lexemes, up to spans;
* `statement_sound`, `statement_complete`: the same for statements.
-/

namespace Marksmith.Syntax

/-! ### What the parser reads is in the grammar -/

theorem binaryOp?_split {ts : List Token} {s : Step BinaryOp 1 ts} (h : binaryOp? ts = some s) :
    ∃ mark, ts = ⟨.punct s.value.punct, mark⟩ :: s.rest := by
  unfold binaryOp? at h
  split at h
  · next p mark rest =>
    obtain ⟨op, found, rfl⟩ := Option.map_eq_some_iff.mp h
    cases BinaryOp.ofPunct?_eq_some_iff.mp found
    exact ⟨mark, rfl⟩
  · cases h

theorem binaryOp?_eq_some {ts : List Token} {s : Step BinaryOp 1 ts} (h : binaryOp? ts = some s) :
    lexemes ts = .punct s.value.punct :: lexemes s.rest := by
  obtain ⟨mark, split⟩ := binaryOp?_split h
  exact congrArg lexemes split

theorem binaryOp?_eq_none {ts : List Token} (h : binaryOp? ts = none) (op : BinaryOp) :
    peek (lexemes ts) ≠ .punct op.punct := by
  intro front
  obtain ⟨rest, eq⟩ := peek_eq_punct front
  obtain ⟨span, rest, rfl, -⟩ := lexemes_eq_cons eq
  rw [binaryOp?, BinaryOp.ofPunct?_eq_some_iff.mpr rfl] at h
  cases h

theorem unaryOp?_split {ts : List Token} {s : Step UnaryOp 1 ts} (h : unaryOp? ts = some s) :
    ∃ mark, ts = ⟨.punct s.value.punct, mark⟩ :: s.rest := by
  unfold unaryOp? at h
  split at h
  · next p mark rest =>
    obtain ⟨op, found, rfl⟩ := Option.map_eq_some_iff.mp h
    cases UnaryOp.ofPunct?_eq_some_iff.mp found
    exact ⟨mark, rfl⟩
  · cases h

theorem unaryOp?_eq_some {ts : List Token} {s : Step UnaryOp 1 ts} (h : unaryOp? ts = some s) :
    lexemes ts = .punct s.value.punct :: lexemes s.rest := by
  obtain ⟨mark, split⟩ := unaryOp?_split h
  exact congrArg lexemes split

theorem unaryOp?_eq_none {ts : List Token} (h : unaryOp? ts = none) (op : UnaryOp) :
    peek (lexemes ts) ≠ .punct op.punct := by
  intro front
  obtain ⟨rest, eq⟩ := peek_eq_punct front
  obtain ⟨span, rest, rfl, -⟩ := lexemes_eq_cons eq
  rw [unaryOp?, UnaryOp.ofPunct?_eq_some_iff.mpr rfl] at h
  cases h

theorem nameExpr_sound {ts : List Token} {s : Step Expr 1 ts} (h : nameExpr ts = .ok s) :
    Derives (.primary s.value.erase) (lexemes ts) (lexemes s.rest) := by
  unfold nameExpr at h
  obtain ⟨name, read, h⟩ := bind_eq_ok_iff.mp h
  cases h
  have found := simpleName_sound read
  rw [lexemes_skipAlias] at found
  exact .name found

theorem atom?_sound {ts : List Token} {s : Step Expr 1 ts} (h : atom? ts = some s) :
    Derives (.primary s.value.erase) (lexemes ts) (lexemes s.rest) := by
  unfold atom? at h
  split at h
  · cases h; exact .this
  · next lexeme span rest _ =>
    obtain ⟨v, found, rfl⟩ := Option.map_eq_some_iff.mp h
    exact .literal found
  · cases h

mutual

theorem expression_sound (ts : List Token) (s : Step Expr 1 ts) (h : expression ts = .ok s) :
    Derives (.expression s.value.erase) (lexemes ts) (lexemes s.rest) := by
  rw [expression] at h
  split at h
  · next head found =>
    have := head.bound
    obtain ⟨body, read, h⟩ := bind_eq_ok_iff.mp h
    cases h
    have heads := lambdaHead?_eq ts
    rw [found] at heads
    have whole := Derives.lambda heads.symm (expression_sound head.rest body read)
    rw [List.map_map] at whole
    exact whole
  · next found => exact .operation (lambdaHead?_eq_none_iff.mp found) (operation_sound 0 ts s h)
termination_by 8 * ts.length + 5

theorem operation_sound (least : Nat) (ts : List Token) (s : Step Expr 1 ts)
    (h : operation least ts = .ok s) :
    Derives (.operation least s.value.erase) (lexemes ts) (lexemes s.rest) := by
  rw [operation] at h
  obtain ⟨left, read, h⟩ := bind_eq_ok_iff.mp h
  have := left.bound
  obtain ⟨whole, others, h⟩ := bind_eq_ok_iff.mp h
  cases h
  exact .chain (unary_sound ts left read)
    (operators_sound least left.value left.rest whole others)
termination_by 8 * ts.length + 4

theorem operators_sound (least : Nat) (left : Expr) (ts : List Token) (s : Step Expr 0 ts)
    (h : operators least left ts = .ok s) :
    Derives (.operators least left.erase s.value.erase) (lexemes ts) (lexemes s.rest) := by
  rw [operators] at h
  split at h
  · next none =>
    cases h
    exact .stop fun op front => absurd front (binaryOp?_eq_none none op)
  · next op found =>
    have front := binaryOp?_eq_some found
    have := op.bound
    split at h
    · next loose =>
      cases h
      refine .stop fun other same => ?_
      rw [front, peek_cons, Lexeme.punct.injEq] at same
      rw [Option.some.inj ((BinaryOp.ofPunct?_eq_some_iff.mpr rfl).symm.trans
        (BinaryOp.ofPunct?_eq_some_iff.mpr same))] at loose
      exact loose
    · next tight =>
      obtain ⟨right, read, h⟩ := bind_eq_ok_iff.mp h
      have := right.bound
      obtain ⟨whole, others, h⟩ := bind_eq_ok_iff.mp h
      cases h
      rw [front]
      exact .step (by omega) (operation_sound _ op.rest right read)
        (operators_sound least _ right.rest whole others)
termination_by 8 * ts.length

theorem unary_sound (ts : List Token) (s : Step Expr 1 ts) (h : unary ts = .ok s) :
    Derives (.unary s.value.erase) (lexemes ts) (lexemes s.rest) := by
  rw [unary] at h
  split at h
  · next op found =>
    have := op.bound
    obtain ⟨operand, read, h⟩ := bind_eq_ok_iff.mp h
    cases h
    rw [unaryOp?_eq_some found]
    exact .mark (unary_sound op.rest operand read)
  · next unmarked =>
    split at h
    · next type found =>
      have := type.bound
      obtain ⟨operand, read, h⟩ := bind_eq_ok_iff.mp h
      cases h
      exact .cast (castHead?_sound found) (unary_sound type.rest operand read)
    · next uncast =>
      obtain ⟨target, read, h⟩ := bind_eq_ok_iff.mp h
      have := target.bound
      obtain ⟨whole, others, h⟩ := bind_eq_ok_iff.mp h
      cases h
      exact .operand (unaryOp?_eq_none unmarked) (castHead?_eq_none_iff.mp uncast)
        (primary_sound ts target read) (suffixes_sound target.value target.rest whole others)
termination_by 8 * ts.length + 3

theorem suffixes_sound (target : Expr) (ts : List Token) (s : Step Expr 0 ts)
    (h : suffixes target ts = .ok s) :
    Derives (.suffixes target.erase s.value.erase) (lexemes ts) (lexemes s.rest) := by
  rw [suffixes] at h
  split at h
  · next dot found =>
    have := dot.bound
    obtain ⟨name, read, h⟩ := bind_eq_ok_iff.mp h
    have := name.bound
    obtain ⟨whole, others, h⟩ := bind_eq_ok_iff.mp h
    cases h
    rw [accept?_eq_some found]
    exact .member (simpleName_sound read) (suffixes_sound _ name.rest whole others)
  · next noDot =>
    split at h
    · next opening found =>
      have := opening.bound
      obtain ⟨args, read, h⟩ := bind_eq_ok_iff.mp h
      have := args.bound
      obtain ⟨whole, others, h⟩ := bind_eq_ok_iff.mp h
      cases h
      rw [accept?_eq_some found]
      exact .invoke (arguments_sound _ opening.rest args read)
        (suffixes_sound _ args.rest whole others)
    · next noParen =>
      split at h
      · next opening found =>
        have := opening.bound
        obtain ⟨args, read, h⟩ := bind_eq_ok_iff.mp h
        have := args.bound
        obtain ⟨whole, others, h⟩ := bind_eq_ok_iff.mp h
        cases h
        rw [accept?_eq_some found]
        exact .index (arguments_sound _ opening.rest args read)
          (suffixes_sound _ args.rest whole others)
      · next noBracket =>
        cases h
        refine .done ?_
        simp only [List.forall_mem_cons, List.not_mem_nil, false_implies, implies_true, and_true]
        exact ⟨accept?_eq_none noDot, accept?_eq_none noParen, accept?_eq_none noBracket⟩
termination_by 8 * ts.length

theorem arguments_sound (close : Punct) (ts : List Token) (s : Step (List Expr × Span) 1 ts)
    (h : arguments close ts = .ok s) :
    Derives (.arguments close (Expr.eraseAll s.value.1)) (lexemes ts) (lexemes s.rest) := by
  rw [arguments] at h
  split at h
  · next closing found =>
    cases h
    rw [accept?_eq_some found]
    exact .noArguments
  · next open' => exact .someArguments (accept?_eq_none open') (argumentList_sound close ts s h)
termination_by 8 * ts.length + 7

theorem argumentList_sound (close : Punct) (ts : List Token) (s : Step (List Expr × Span) 1 ts)
    (h : argumentList close ts = .ok s) :
    Derives (.argumentList close (Expr.eraseAll s.value.1)) (lexemes ts) (lexemes s.rest) := by
  rw [argumentList] at h
  obtain ⟨first, read, h⟩ := bind_eq_ok_iff.mp h
  have head := expression_sound ts first read
  have := first.bound
  split at h
  · next closing found =>
    cases h
    rw [accept?_eq_some found] at head
    exact .lastArgument head
  · next other =>
    obtain ⟨comma, found, h⟩ := bind_eq_ok_iff.mp h
    have := comma.bound
    have separated := expect_ok found
    obtain ⟨others, more, h⟩ := bind_eq_ok_iff.mp h
    cases h
    have distinct : close ≠ .comma := by
      rintro rfl
      have ne := accept?_eq_none other
      rw [separated] at ne
      exact ne rfl
    rw [separated] at head
    exact .moreArguments distinct head (argumentList_sound close comma.rest others more)
termination_by 8 * ts.length + 6

theorem primary_sound (ts : List Token) (s : Step Expr 1 ts) (h : primary ts = .ok s) :
    Derives (.primary s.value.erase) (lexemes ts) (lexemes s.rest) := by
  rw [primary.eq_def] at h
  split at h
  · next atom found => cases h; exact atom?_sound found
  · split at h
    · next start rest _ _ =>
      obtain ⟨type, read, h⟩ := bind_eq_ok_iff.mp h
      have := type.bound
      have head := typeRef_sound rest type read
      obtain ⟨opening, opened, h⟩ := bind_eq_ok_iff.mp h
      have := opening.bound
      obtain ⟨args, listed, h⟩ := bind_eq_ok_iff.mp h
      cases h
      rw [expect_ok opened] at head
      exact .new head (arguments_sound _ opening.rest args listed)
    · next start rest _ _ =>
      obtain ⟨inner, read, h⟩ := bind_eq_ok_iff.mp h
      have whole := expression_sound rest inner read
      obtain ⟨closing, closed, h⟩ := bind_eq_ok_iff.mp h
      cases h
      rw [expect_ok closed] at whole
      exact .paren whole
    · exact nameExpr_sound h
    · cases h
termination_by 8 * ts.length + 2
decreasing_by all_goals subst_vars; simp only [List.length_cons]; omega

end

/-! ### What is in the grammar is read by the parser -/

theorem eraseAll_cons (e : Expr) (es : List Expr) :
    Expr.eraseAll (e :: es) = e.erase :: Expr.eraseAll es := by
  rw [Expr.eraseAll]

/-- The parser reads a phrase from all tokens with the given lexemes, and stops at the right place. -/
def Phrase.IsParsed : Phrase → List Lexeme → List Lexeme → Prop
  | .expression e, ls, rest => ∀ ts, lexemes ts = ls →
    ∃ s, Syntax.expression ts = .ok s ∧ s.value.erase = e ∧ lexemes s.rest = rest
  | .operation least e, ls, rest => ∀ ts, lexemes ts = ls →
    ∃ s, Syntax.operation least ts = .ok s ∧ s.value.erase = e ∧ lexemes s.rest = rest
  | .operators least left e, ls, rest => ∀ ts, lexemes ts = ls → ∀ l : Expr, l.erase = left →
    ∃ s, Syntax.operators least l ts = .ok s ∧ s.value.erase = e ∧ lexemes s.rest = rest
  | .unary e, ls, rest => ∀ ts, lexemes ts = ls →
    ∃ s, Syntax.unary ts = .ok s ∧ s.value.erase = e ∧ lexemes s.rest = rest
  | .suffixes target e, ls, rest => ∀ ts, lexemes ts = ls → ∀ t : Expr, t.erase = target →
    ∃ s, Syntax.suffixes t ts = .ok s ∧ s.value.erase = e ∧ lexemes s.rest = rest
  | .arguments close es, ls, rest => ∀ ts, lexemes ts = ls →
    ∃ s, Syntax.arguments close ts = .ok s ∧ Expr.eraseAll s.value.1 = es ∧ lexemes s.rest = rest
  | .argumentList close es, ls, rest => ∀ ts, lexemes ts = ls →
    ∃ s, Syntax.argumentList close ts = .ok s ∧ Expr.eraseAll s.value.1 = es ∧
      lexemes s.rest = rest
  | .primary e, ls, rest => ∀ ts, lexemes ts = ls →
    ∃ s, Syntax.primary ts = .ok s ∧ s.value.erase = e ∧ lexemes s.rest = rest

theorem binaryOp?_of_lexemes {ts : List Token} {op : BinaryOp} {ls : List Lexeme}
    (h : lexemes ts = .punct op.punct :: ls) :
    ∃ s, binaryOp? ts = some s ∧ s.value = op ∧ lexemes s.rest = ls := by
  obtain ⟨span, rest, rfl, eq⟩ := lexemes_eq_cons h
  rw [binaryOp?, BinaryOp.ofPunct?_eq_some_iff.mpr rfl]
  exact ⟨_, rfl, rfl, eq⟩

theorem unaryOp?_of_lexemes {ts : List Token} {op : UnaryOp} {ls : List Lexeme}
    (h : lexemes ts = .punct op.punct :: ls) :
    ∃ s, unaryOp? ts = some s ∧ s.value = op ∧ lexemes s.rest = ls := by
  obtain ⟨span, rest, rfl, eq⟩ := lexemes_eq_cons h
  rw [unaryOp?, UnaryOp.ofPunct?_eq_some_iff.mpr rfl]
  exact ⟨_, rfl, rfl, eq⟩

theorem unaryOp?_of_peek {ts : List Token}
    (h : ∀ op : UnaryOp, peek (lexemes ts) ≠ .punct op.punct) : unaryOp? ts = none := by
  cases found : unaryOp? ts with
  | none => rfl
  | some s =>
    have front := h s.value
    rw [unaryOp?_eq_some found] at front
    exact absurd rfl front

theorem atom?_of_literal {l : Lexeme} {v : Literal} (span : Span) (rest : List Token)
    (read : Literal.ofLexeme? l = some v) :
    ∃ s, atom? (⟨l, span⟩ :: rest) = some s ∧ s.value.erase = .literal .zero v ∧
      lexemes s.rest = lexemes rest := by
  have other : ¬l = .keyword .this := by rintro rfl; cases read
  rw [atom?.eq_2 _ _ _ other, read]
  exact ⟨_, rfl, rfl, rfl⟩

theorem nameExpr_complete {ts : List Token} {n : SimpleName} {rest : List Lexeme}
    (h : NameAt (aliased (lexemes ts)) n rest) :
    ∃ s, nameExpr ts = .ok s ∧ s.value.erase = .name .zero n ∧ lexemes s.rest = rest := by
  rw [← lexemes_skipAlias] at h
  obtain ⟨name, read, rfl, rfl⟩ := simpleName_complete h
  unfold nameExpr
  simp only [read, bind, Except.bind, pure, Except.pure]
  exact ⟨_, rfl, rfl, rfl⟩

theorem Phrase.IsParsed.lambda {ls inner rest : List Lexeme} {xs : List String} {body : Expr}
    (head : lambdaOf ls = some (xs, inner)) (ih : IsParsed (.expression body) inner rest) :
    IsParsed (.expression (.lambda .zero (xs.map fun x => ⟨x, .zero⟩) body)) ls rest := by
  rintro ts rfl
  rw [← lambdaHead?_eq, Option.map_eq_some_iff] at head
  obtain ⟨params, found, heads⟩ := head
  rw [Step.heads, Prod.mk.injEq] at heads
  obtain ⟨body, read, rfl, rfl⟩ := ih params.rest heads.2
  rw [Syntax.expression]
  split
  · next other same =>
    rw [found, Option.some.injEq] at same
    subst same
    simp only [read, bind, Except.bind, pure, Except.pure]
    refine ⟨_, rfl, ?_, rfl⟩
    rw [Expr.erase, ← heads.1, List.map_map]
    rfl
  · next none => rw [found] at none; cases none

theorem Phrase.IsParsed.step {inner behind rest : List Lexeme} {least : Nat} {op : BinaryOp}
    {left right e : Expr} (tight : least ≤ op.precedence)
    (ihRight : IsParsed (.operation op.rightBound right) inner behind)
    (ihOthers : IsParsed (.operators least (.binary .zero left op right) e) behind rest) :
    IsParsed (.operators least left e) (.punct op.punct :: inner) rest := by
  rintro ts front l rfl
  obtain ⟨op, found, rfl, rfl⟩ := binaryOp?_of_lexemes front
  obtain ⟨right, read, rfl, rfl⟩ := ihRight op.rest rfl
  obtain ⟨whole, others, same⟩ := ihOthers right.rest rfl
    (.binary (l.span.merge right.value.span) l op.value right.value) rfl
  rw [Syntax.operators]
  split
  · next none => rw [found] at none; cases none
  · next other same' =>
    rw [found, Option.some.injEq] at same'
    subst same'
    rw [if_neg (by omega)]
    simp only [read, others, bind, Except.bind, pure, Except.pure]
    exact ⟨_, rfl, same⟩

theorem Phrase.IsParsed.mark {inner rest : List Lexeme} {op : UnaryOp} {operand : Expr}
    (ih : IsParsed (.unary operand) inner rest) :
    IsParsed (.unary (.unary .zero op operand)) (.punct op.punct :: inner) rest := by
  rintro ts front
  obtain ⟨op, found, rfl, rfl⟩ := unaryOp?_of_lexemes front
  obtain ⟨operand, read, rfl, rfl⟩ := ih op.rest rfl
  rw [Syntax.unary]
  split
  · next other same =>
    rw [found, Option.some.injEq] at same
    subst same
    simp only [read, bind, Except.bind, pure, Except.pure]
    exact ⟨_, rfl, rfl, rfl⟩
  · next none => rw [found] at none; cases none

theorem Phrase.IsParsed.cast {ls inner rest : List Lexeme} {t : TypeRef} {operand : Expr}
    (head : CastAt ls t inner) (ih : IsParsed (.unary operand) inner rest) :
    IsParsed (.unary (.cast .zero ⟨t, .zero⟩ operand)) ls rest := by
  rintro ts rfl
  have unmarked : unaryOp? ts = none := by
    obtain ⟨inner, front, -⟩ := head
    refine unaryOp?_of_peek fun op => ?_
    rw [front]
    cases op <;> simp [UnaryOp.punct]
  obtain ⟨type, found, rfl, rfl⟩ := castHead?_complete head
  obtain ⟨operand, read, rfl, rfl⟩ := ih type.rest rfl
  rw [Syntax.unary]
  split
  · next some => rw [unmarked] at some; cases some
  · split
    · next other same =>
      rw [found, Option.some.injEq] at same
      subst same
      simp only [read, bind, Except.bind, pure, Except.pure]
      exact ⟨_, rfl, rfl, rfl⟩
    · next none => rw [found] at none; cases none

theorem Phrase.IsParsed.operand {ls behind rest : List Lexeme} {target e : Expr}
    (unmarked : ∀ op : UnaryOp, peek ls ≠ .punct op.punct) (uncast : ¬∃ t inner, CastAt ls t inner)
    (ihFirst : IsParsed (.primary target) ls behind)
    (ihOthers : IsParsed (.suffixes target e) behind rest) : IsParsed (.unary e) ls rest := by
  rintro ts rfl
  obtain ⟨target, read, rfl, rfl⟩ := ihFirst ts rfl
  obtain ⟨whole, others, same⟩ := ihOthers target.rest rfl target.value rfl
  rw [Syntax.unary]
  split
  · next some => rw [unaryOp?_of_peek unmarked] at some; cases some
  · split
    · next some => rw [castHead?_eq_none_iff.mpr uncast] at some; cases some
    · simp only [read, others, bind, Except.bind, pure, Except.pure]
      exact ⟨_, rfl, same⟩

theorem Phrase.IsParsed.member {inner behind rest : List Lexeme} {target e : Expr} {n : SimpleName}
    (name : NameAt inner n behind)
    (ih : IsParsed (.suffixes (.member .zero target ⟨n, .zero⟩) e) behind rest) :
    IsParsed (.suffixes target e) (.punct .dot :: inner) rest := by
  rintro ts front t rfl
  obtain ⟨dot, found, rfl⟩ := accept?_of_lexemes front
  obtain ⟨n, read, rfl, rfl⟩ := simpleName_complete name
  obtain ⟨whole, others, same⟩ := ih n.rest rfl (.member (t.span.merge n.value.span) t
    ⟨⟨n.value.node.1, n.value.node.2⟩, n.value.span⟩) rfl
  rw [Syntax.suffixes]
  split
  · next other same' =>
    rw [found, Option.some.injEq] at same'
    subst same'
    simp only [read, others, bind, Except.bind, pure, Except.pure]
    exact ⟨_, rfl, same⟩
  · next none => rw [found] at none; cases none

theorem Phrase.IsParsed.invoke {inner behind rest : List Lexeme} {target e : Expr} {args : List Expr}
    (ihArgs : IsParsed (.arguments .rparen args) inner behind)
    (ih : IsParsed (.suffixes (.invoke .zero target args) e) behind rest) :
    IsParsed (.suffixes target e) (.punct .lparen :: inner) rest := by
  rintro ts front t rfl
  obtain ⟨opening, found, rfl⟩ := accept?_of_lexemes front
  obtain ⟨args, read, rfl, rfl⟩ := ihArgs opening.rest rfl
  obtain ⟨whole, others, same⟩ := ih args.rest rfl
    (.invoke (t.span.merge args.value.2) t args.value.1) rfl
  have noDot : accept? .dot ts = none := accept?_of_peek (by rw [front]; simp)
  rw [Syntax.suffixes]
  split
  · next some => rw [noDot] at some; cases some
  · split
    · next other same' =>
      rw [found, Option.some.injEq] at same'
      subst same'
      simp only [read, others, bind, Except.bind, pure, Except.pure]
      exact ⟨_, rfl, same⟩
    · next none => rw [found] at none; cases none

theorem Phrase.IsParsed.index {inner behind rest : List Lexeme} {target e : Expr} {args : List Expr}
    (ihArgs : IsParsed (.arguments .rbracket args) inner behind)
    (ih : IsParsed (.suffixes (.index .zero target args) e) behind rest) :
    IsParsed (.suffixes target e) (.punct .lbracket :: inner) rest := by
  rintro ts front t rfl
  obtain ⟨opening, found, rfl⟩ := accept?_of_lexemes front
  obtain ⟨args, read, rfl, rfl⟩ := ihArgs opening.rest rfl
  obtain ⟨whole, others, same⟩ := ih args.rest rfl
    (.index (t.span.merge args.value.2) t args.value.1) rfl
  have noDot : accept? .dot ts = none := accept?_of_peek (by rw [front]; simp)
  have noParen : accept? .lparen ts = none := accept?_of_peek (by rw [front]; simp)
  rw [Syntax.suffixes]
  split
  · next some => rw [noDot] at some; cases some
  · split
    · next some => rw [noParen] at some; cases some
    · split
      · next other same' =>
        rw [found, Option.some.injEq] at same'
        subst same'
        simp only [read, others, bind, Except.bind, pure, Except.pure]
        exact ⟨_, rfl, same⟩
      · next none => rw [found] at none; cases none

theorem Phrase.IsParsed.lastArgument {ls rest : List Lexeme} {close : Punct} {e : Expr}
    (ih : IsParsed (.expression e) ls (.punct close :: rest)) :
    IsParsed (.argumentList close [e]) ls rest := by
  rintro ts rfl
  obtain ⟨first, read, rfl, front⟩ := ih ts rfl
  obtain ⟨closing, found, rfl⟩ := accept?_of_lexemes front
  rw [Syntax.argumentList]
  simp only [read, bind, Except.bind, pure, Except.pure]
  split
  · next other same =>
    rw [found, Option.some.injEq] at same
    subst same
    exact ⟨_, rfl, by rw [eraseAll_cons, Expr.eraseAll], rfl⟩
  · next none => rw [found] at none; cases none

theorem Phrase.IsParsed.moreArguments {ls behind rest : List Lexeme} {close : Punct} {e : Expr}
    {es : List Expr} (distinct : close ≠ .comma)
    (ihFirst : IsParsed (.expression e) ls (.punct .comma :: behind))
    (ihOthers : IsParsed (.argumentList close es) behind rest) :
    IsParsed (.argumentList close (e :: es)) ls rest := by
  rintro ts rfl
  obtain ⟨first, read, rfl, front⟩ := ihFirst ts rfl
  obtain ⟨comma, found, rfl⟩ := expect_of_lexemes .argumentSeparator front
  obtain ⟨more, others, rfl, rfl⟩ := ihOthers comma.rest rfl
  rw [Syntax.argumentList]
  simp only [read, bind, Except.bind, pure, Except.pure]
  split
  · next closing some =>
    rw [accept?_eq_some some, List.cons.injEq, Lexeme.punct.injEq] at front
    exact absurd front.1 distinct
  · simp only [found, others]
    exact ⟨_, rfl, by rw [eraseAll_cons], rfl⟩

theorem Phrase.IsParsed.new {ls inner rest : List Lexeme} {t : TypeRef} {args : List Expr}
    (type : TypeAt ls t (.punct .lparen :: inner))
    (ih : IsParsed (.arguments .rparen args) inner rest) :
    IsParsed (.primary (.new .zero ⟨t, .zero⟩ args)) (.keyword .new :: ls) rest := by
  rintro ts front
  obtain ⟨start, rest, rfl, rfl⟩ := lexemes_eq_cons front
  obtain ⟨t, read, rfl, front⟩ := typeRef_complete type
  obtain ⟨opening, opened, rfl⟩ := expect_of_lexemes .argumentsAfterType front
  obtain ⟨args, listed, rfl, rfl⟩ := ih opening.rest rfl
  rw [Syntax.primary.eq_def]
  simp only [atom?, Literal.ofLexeme?, Option.map_none, read, opened, listed, bind, Except.bind,
    pure, Except.pure]
  exact ⟨_, rfl, rfl, rfl⟩

theorem Phrase.IsParsed.paren {ls rest : List Lexeme} {inner : Expr}
    (ih : IsParsed (.expression inner) ls (.punct .rparen :: rest)) :
    IsParsed (.primary (.paren .zero inner)) (.punct .lparen :: ls) rest := by
  rintro ts front
  obtain ⟨start, rest, rfl, rfl⟩ := lexemes_eq_cons front
  obtain ⟨inner, read, rfl, front⟩ := ih rest rfl
  obtain ⟨closing, closed, rfl⟩ := expect_of_lexemes .closingParen front
  rw [Syntax.primary.eq_def]
  simp only [atom?, Literal.ofLexeme?, Option.map_none, read, closed, bind, Except.bind, pure,
    Except.pure]
  exact ⟨_, rfl, rfl, rfl⟩

theorem Phrase.IsParsed.name {ls rest : List Lexeme} {n : SimpleName}
    (read : NameAt (aliased ls) n rest) : IsParsed (.primary (.name .zero n)) ls rest := by
  rintro ts rfl
  obtain ⟨x, more, front⟩ := read.front
  obtain ⟨y, more, front⟩ := front_of_aliased front
  obtain ⟨s, named, same⟩ := nameExpr_complete read
  obtain ⟨span, rest, rfl, rfl⟩ := lexemes_eq_cons front
  rw [Syntax.primary.eq_def]
  simp only [atom?, Literal.ofLexeme?, Option.map_none, named]
  exact ⟨_, rfl, same⟩

/-- The parser reads what the grammar derives. -/
theorem isParsed_of_derives {phrase : Phrase} {ls rest : List Lexeme} (h : Derives phrase ls rest) :
    phrase.IsParsed ls rest := by
  induction h with
  | lambda head _ ih => exact .lambda head ih
  | operation plain _ ih =>
    rintro ts rfl
    obtain ⟨s, read, same⟩ := ih ts rfl
    rw [expression]
    split
    · next head found => rw [lambdaHead?_eq_none_iff.mpr plain] at found; cases found
    · exact ⟨s, read, same⟩
  | chain _ _ ihFirst ihOthers =>
    rintro ts rfl
    obtain ⟨left, read, rfl, rfl⟩ := ihFirst ts rfl
    obtain ⟨whole, others, same⟩ := ihOthers left.rest rfl left.value rfl
    rw [operation]
    simp only [read, others, bind, Except.bind, pure, Except.pure]
    exact ⟨_, rfl, same⟩
  | stop loose =>
    rintro ts rfl l same
    rw [operators]
    split
    · exact ⟨_, rfl, same, rfl⟩
    · next op found =>
      rw [if_pos (loose op.value (by rw [binaryOp?_eq_some found, peek_cons]))]
      exact ⟨_, rfl, same, rfl⟩
  | step tight _ _ ihRight ihOthers => exact .step tight ihRight ihOthers
  | mark _ ih => exact .mark ih
  | cast head _ ih => exact .cast head ih
  | operand unmarked uncast _ _ ihFirst ihOthers => exact .operand unmarked uncast ihFirst ihOthers
  | member name _ ih => exact .member name ih
  | invoke _ _ ihArgs ih => exact .invoke ihArgs ih
  | index _ _ ihArgs ih => exact .index ihArgs ih
  | done other =>
    rintro ts rfl t same
    have noDot := accept?_of_peek (other .dot (by simp))
    have noParen := accept?_of_peek (other .lparen (by simp))
    have noBracket := accept?_of_peek (other .lbracket (by simp))
    rw [suffixes]
    simp only [noDot, noParen, noBracket]
    exact ⟨_, rfl, same, rfl⟩
  | noArguments =>
    rintro ts front
    obtain ⟨closing, found, rfl⟩ := accept?_of_lexemes front
    rw [arguments]
    simp only [found]
    exact ⟨_, rfl, rfl, rfl⟩
  | someArguments nonempty _ ih =>
    rintro ts rfl
    rw [arguments]
    simp only [accept?_of_peek nonempty]
    exact ih ts rfl
  | lastArgument _ ih => exact .lastArgument ih
  | moreArguments distinct _ _ ihFirst ihOthers => exact .moreArguments distinct ihFirst ihOthers
  | this =>
    rintro ts front
    obtain ⟨span, rest, rfl, rfl⟩ := lexemes_eq_cons front
    rw [primary.eq_def]
    exact ⟨_, rfl, rfl, rfl⟩
  | literal read =>
    rintro ts front
    obtain ⟨span, rest, rfl, rfl⟩ := lexemes_eq_cons front
    obtain ⟨atom, found, same⟩ := atom?_of_literal span rest read
    rw [primary.eq_def]
    simp only [found]
    exact ⟨_, rfl, same⟩
  | new type _ ih => exact .new type ih
  | paren _ ih => exact .paren ih
  | name read => exact .name read

theorem expression_complete {ts : List Token} {e : Expr} {rest : List Lexeme}
    (h : Derives (.expression e) (lexemes ts) rest) :
    ∃ s, expression ts = .ok s ∧ s.value.erase = e ∧ lexemes s.rest = rest :=
  isParsed_of_derives h ts rfl

/-! ### Statements -/

/-- A statement is an assignment with its value, or an expression where no assignment begins. -/
theorem statement_cases {ts : List Token} {s : Step Statement 1 ts} (h : statement ts = .ok s) :
    (∃ head, assignmentHead? ts = some head ∧ ∃ value, expression head.rest = .ok value ∧
      s.value = .assign ((frontSpan ts).merge value.value.span) head.value value.value ∧
      s.rest = value.rest) ∨
    (assignmentHead? ts = none ∧ ∃ value, expression ts = .ok value ∧
      s.value = .expr value.value ∧ s.rest = value.rest) := by
  unfold statement at h
  split at h
  · next head found =>
    obtain ⟨value, read, made⟩ := bind_eq_ok_iff.mp h
    cases made
    exact .inl ⟨head, found, value, read, rfl, rfl⟩
  · next found =>
    obtain ⟨value, read, made⟩ := bind_eq_ok_iff.mp h
    cases made
    exact .inr ⟨found, value, read, rfl, rfl⟩

theorem statement_sound {ts : List Token} {s : Step Statement 1 ts} (h : statement ts = .ok s) :
    StatementAt (lexemes ts) s.value.erase (lexemes s.rest) := by
  obtain ⟨head, found, value, read, made, rest⟩ | ⟨found, value, read, made, rest⟩ :=
    statement_cases h
  · have heads := assignmentHead?_eq ts
    rw [found] at heads
    rw [made, rest]
    exact .assign heads.symm (expression_sound head.rest value read)
  · rw [made, rest]
    exact .expr (assignmentHead?_eq_none_iff.mp found) (expression_sound ts value read)

theorem statement_complete {ts : List Token} {s : Statement} {rest : List Lexeme}
    (h : StatementAt (lexemes ts) s rest) :
    ∃ r, statement ts = .ok r ∧ r.value.erase = s ∧ lexemes r.rest = rest := by
  unfold statement
  cases h with
  | assign head value =>
    rw [← assignmentHead?_eq, Option.map_eq_some_iff] at head
    obtain ⟨target, found, heads⟩ := head
    rw [Prod.mk.injEq] at heads
    obtain ⟨rfl, rfl⟩ := heads
    obtain ⟨body, read, rfl, rfl⟩ := expression_complete value
    split
    · next other same =>
      rw [found, Option.some.injEq] at same
      subst same
      simp only [read, bind, Except.bind, pure, Except.pure]
      exact ⟨_, rfl, rfl, rfl⟩
    · next none => rw [found] at none; cases none
  | expr plain value =>
    obtain ⟨body, read, rfl, rfl⟩ := expression_complete value
    split
    · next some => rw [assignmentHead?_eq_none_iff.mpr plain] at some; cases some
    · simp only [read, bind, Except.bind, pure, Except.pure]
      exact ⟨_, rfl, rfl, rfl⟩

end Marksmith.Syntax

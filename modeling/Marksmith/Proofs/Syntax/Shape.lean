import Marksmith.Proofs.Syntax.Grammar
import Marksmith.Syntax.Printer

/-!
What a derivation says about its lexemes and its tree.

* `Derives.suffix`: what remains is a suffix of what was there;
* `Derives.stops`, `Derives.binds`: an operation ends before an operator that binds less tightly, and
  its own operators bind at least as tightly, so no operand needs parentheses
  (`needsParens_right_eq_false`, `needsParens_left_eq_false`);
* `Derives.single_operation`: an identifier with a mark behind it that continues nothing is read
  alone;
* `lambdaOf_eq_none`: an operation with no arrow behind it does not begin like a lambda.
-/

namespace Marksmith.Syntax

/-! ### What remains -/

theorem paramsOf_suffix {ls rest : List Lexeme} {xs : List String}
    (h : paramsOf ls = some (xs, rest)) : rest <:+ ls := by
  fun_induction paramsOf ls generalizing xs rest with
  | case1 x behind => cases h; exact ⟨[_, _], rfl⟩
  | case2 x behind ih =>
    obtain ⟨⟨ys, more⟩, read, same⟩ := Option.map_eq_some_iff.mp h
    cases same
    exact (ih read).trans ⟨[_, _], rfl⟩
  | case3 => cases h

theorem lambdaOf_suffix {ls rest : List Lexeme} {xs : List String}
    (h : lambdaOf ls = some (xs, rest)) : rest <:+ ls := by
  unfold lambdaOf at h
  split at h
  · cases h; exact ⟨[_, _], rfl⟩
  · cases h; exact ⟨[_, _, _], rfl⟩
  · split at h
    · next params =>
      cases h
      exact (List.suffix_cons _ _).trans ((paramsOf_suffix params).trans (List.suffix_cons _ _))
    · cases h
  · cases h

/-- What remains behind a phrase is a suffix of what it was read from. -/
theorem Derives.suffix {phrase : Phrase} {ls rest : List Lexeme} (h : Derives phrase ls rest) :
    rest <:+ ls := by
  induction h with
  | lambda head _ ih => exact ih.trans (lambdaOf_suffix head)
  | operation _ _ ih | someArguments _ _ ih => exact ih
  | chain _ _ ihFirst ihOthers | operand _ _ _ _ ihFirst ihOthers => exact ihOthers.trans ihFirst
  | stop | done => exact List.suffix_rfl
  | step _ _ _ ihFirst ihOthers | invoke _ _ ihFirst ihOthers | index _ _ ihFirst ihOthers =>
    exact (ihOthers.trans ihFirst).trans (List.suffix_cons _ _)
  | mark _ ih => exact ih.trans (List.suffix_cons _ _)
  | cast head _ ih => exact ih.trans head.suffix
  | member name _ ih => exact (ih.trans name.suffix).trans (List.suffix_cons _ _)
  | noArguments | this | literal => exact List.suffix_cons _ _
  | lastArgument _ ih => exact (List.suffix_cons _ _).trans ih
  | moreArguments _ _ _ ihFirst ihOthers =>
    exact ihOthers.trans ((List.suffix_cons _ _).trans ihFirst)
  | new type _ ih =>
    exact (ih.trans ((List.suffix_cons _ _).trans type.suffix)).trans (List.suffix_cons _ _)
  | paren _ ih => exact ((List.suffix_cons _ _).trans ih).trans (List.suffix_cons _ _)
  | name read => exact read.suffix.trans (aliased_suffix _)

/-! ### What a tree is made of -/

namespace Expr

/-- Whether an expression is no lambda, and no operation that binds less tightly than `least`. -/
def Binds (least : Nat) : Expr → Prop
  | lambda .. => False
  | binary _ _ op _ => least ≤ op.precedence
  | _ => True

/-- Whether an expression is neither a lambda nor an operation. -/
def IsOperand (e : Expr) : Prop := ∀ least, e.Binds least

theorem needsParens_right_eq_false {op : BinaryOp} {e : Expr} (h : e.Binds op.rightBound) :
    e.needsParens op true = false := by
  cases e with
  | lambda => exact h.elim
  | binary _ _ child _ =>
    simp only [Binds, BinaryOp.rightBound] at h
    cases right : op.groupsRight <;> simp [needsParens, right] at h ⊢ <;> omega
  | _ => rfl

theorem IsOperand.needsParens {e : Expr} (h : e.IsOperand) (op : BinaryOp) (onRight : Bool) :
    e.needsParens op onRight = false := by
  cases e with
  | lambda => exact (h 0).elim
  | binary _ _ child _ => exact absurd (h (child.precedence + 1)) (by simp [Binds])
  | _ => rfl

theorem needsParens_left_eq_false {op child : BinaryOp} (h : op.precedence < child.rightBound)
    (span : Span) (left right : Expr) :
    (binary span left child right).needsParens op false = false := by
  cases op <;> cases child <;> first | rfl | exact absurd h (by decide)

end Expr

theorem Derives.isOperand_primary {e : Expr} {ls rest : List Lexeme}
    (h : Derives (.primary e) ls rest) : e.IsOperand := by
  intro least
  cases h <;> trivial

theorem Derives.isOperand_suffixes {target e : Expr} {ls rest : List Lexeme}
    (h : Derives (.suffixes target e) ls rest) (operand : target.IsOperand) : e.IsOperand := by
  generalize eq : Phrase.suffixes target e = phrase at h
  induction h generalizing target with
  | member _ _ ih | invoke _ _ _ ih | index _ _ _ ih =>
    cases eq
    refine ih ?_ rfl
    intro least
    trivial
  | done => cases eq; exact operand
  | _ => cases eq

theorem Derives.isOperand_unary {e : Expr} {ls rest : List Lexeme}
    (h : Derives (.unary e) ls rest) : e.IsOperand := by
  cases h with
  | mark | cast => exact fun _ => trivial
  | operand _ _ first others => exact others.isOperand_suffixes first.isOperand_primary

theorem Derives.binds_operators {least : Nat} {left e : Expr} {ls rest : List Lexeme}
    (h : Derives (.operators least left e) ls rest) (binds : left.Binds least) :
    e.Binds least := by
  generalize eq : Phrase.operators least left e = phrase at h
  induction h generalizing left with
  | stop => cases eq; exact binds
  | step tight _ _ _ ih =>
    cases eq
    refine ih ?_ rfl
    exact tight
  | _ => cases eq

/-- The operators of an operation bind at least as tightly as they must. -/
theorem Derives.binds {least : Nat} {e : Expr} {ls rest : List Lexeme}
    (h : Derives (.operation least e) ls rest) : e.Binds least := by
  cases h with
  | chain first others => exact others.binds_operators (first.isOperand_unary least)

theorem Derives.stops_operators {least : Nat} {left e : Expr} {ls rest : List Lexeme}
    (h : Derives (.operators least left e) ls rest) :
    ∀ op : BinaryOp, peek rest = .punct op.punct → op.precedence < least := by
  generalize eq : Phrase.operators least left e = phrase at h
  induction h generalizing left with
  | stop loose => cases eq; exact loose
  | step _ _ _ _ ih => cases eq; exact ih rfl
  | _ => cases eq

/-- Behind an operation stands no operator that it could have taken. -/
theorem Derives.stops {least : Nat} {e : Expr} {ls rest : List Lexeme}
    (h : Derives (.operation least e) ls rest) (op : BinaryOp)
    (front : peek rest = .punct op.punct) : op.precedence < least := by
  cases h with
  | chain _ others => exact others.stops_operators op front

/-! ### What a phrase begins with -/

theorem NameAt.not_punct {p : Punct} {ls rest : List Lexeme} {n : SimpleName}
    (h : NameAt (aliased (.punct p :: ls)) n rest) : False := by
  obtain ⟨x, more, eq⟩ := h.front
  cases eq

theorem Derives.begins_primary {p : Punct} {e : Expr} {ls rest : List Lexeme}
    (h : Derives (.primary e) (.punct p :: ls) rest) : p = .lparen := by
  cases h with
  | literal read => cases read
  | paren => rfl
  | name read => exact read.not_punct.elim

theorem Derives.begins_unary {p : Punct} {e : Expr} {ls rest : List Lexeme}
    (h : Derives (.unary e) (.punct p :: ls) rest) : p = .lparen ∨ ∃ op : UnaryOp, p = op.punct := by
  cases h with
  | mark => exact .inr ⟨_, rfl⟩
  | cast head =>
    obtain ⟨inner, eq, -⟩ := head
    cases eq
    exact .inl rfl
  | operand _ _ first _ => exact .inl first.begins_primary

/-- No expression begins with a closing parenthesis. -/
theorem Derives.not_rparen {e : Expr} {ls rest : List Lexeme} :
    ¬Derives (.expression e) (.punct .rparen :: ls) rest := by
  intro h
  cases h with
  | lambda head => cases head
  | operation _ whole =>
    cases whole with
    | chain first _ =>
      obtain eq | ⟨op, eq⟩ := first.begins_unary
      · cases eq
      · cases op <;> cases eq

/-! ### Marks that continue nothing -/

namespace Punct

/-- The marks that continue no operand and no operation. -/
def Inert (p : Punct) : Prop := p ∈ [rparen, comma, assign, arrow]

instance : DecidablePred Inert := fun p => inferInstanceAs (Decidable (p ∈ _))

theorem Inert.ne_binary {p : Punct} (h : p.Inert) (op : BinaryOp) : p ≠ op.punct := by
  rintro rfl
  cases op <;> exact absurd h (by decide)

end Punct

theorem Derives.halts_suffixes {p : Punct} {target e : Expr} {ls rest : List Lexeme}
    (h : Derives (.suffixes target e) (.punct p :: ls) rest) (inert : p.Inert) :
    rest = .punct p :: ls := by
  cases h with
  | member | invoke | index => exact absurd inert (by decide)
  | done => rfl

theorem Derives.halts_operators {p : Punct} {least : Nat} {left e : Expr} {ls rest : List Lexeme}
    (h : Derives (.operators least left e) (.punct p :: ls) rest) (inert : p.Inert) :
    rest = .punct p :: ls := by
  cases h with
  | stop => rfl
  | step => exact absurd rfl (inert.ne_binary _)

theorem Punct.Inert.peek_ne {p q : Punct} (h : p.Inert) (ls : List Lexeme)
    (other : ¬q.Inert) : peek (.punct p :: ls) ≠ .punct q := by
  rintro eq
  cases eq
  exact other h

theorem NameAt.single {p : Punct} {x : String} {ls rest : List Lexeme} {n : SimpleName}
    (h : NameAt (.ident x :: .punct p :: ls) n rest) (inert : p.Inert) :
    rest = .punct p :: ls := by
  cases h with
  | bare => rfl
  | generic some =>
    obtain ⟨inner, eq, -⟩ := some
    cases eq
    exact absurd inert (by decide)

theorem Derives.single_primary {p : Punct} {x : String} {e : Expr} {ls rest : List Lexeme}
    (h : Derives (.primary e) (.ident x :: .punct p :: ls) rest) (inert : p.Inert) :
    rest = .punct p :: ls := by
  cases h with
  | literal read => cases read
  | name read =>
    rw [aliased_of_peek (inert.peek_ne ls (by decide))] at read
    exact read.single inert

/-- An identifier with a mark behind it that continues nothing is an operation of its own. -/
theorem Derives.single_operation {p : Punct} {least : Nat} {x : String} {e : Expr}
    {ls rest : List Lexeme} (h : Derives (.operation least e) (.ident x :: .punct p :: ls) rest)
    (inert : p.Inert) : rest = .punct p :: ls := by
  cases h with
  | chain first others =>
    cases first with
    | cast head =>
      obtain ⟨inner, eq, -⟩ := head
      cases eq
    | operand _ _ target suffixes =>
      cases target.single_primary inert
      cases suffixes.halts_suffixes inert
      exact others.halts_operators inert

theorem Derives.single_expression {p : Punct} {x : String} {e : Expr} {ls rest : List Lexeme}
    (h : Derives (.expression e) (.ident x :: .punct p :: ls) rest) (inert : p.Inert)
    (other : p ≠ .arrow) : rest = .punct p :: ls := by
  cases h with
  | lambda head =>
    unfold lambdaOf at head
    split at head
    · next eq => cases eq; exact absurd rfl other
    · next eq => cases eq
    · next eq => cases eq
    · cases head
  | operation _ whole => exact whole.single_operation inert

theorem TypeAt.front {ls rest : List Lexeme} {t : TypeRef} (h : TypeAt ls t rest) :
    ∃ x more, aliased ls = .ident x :: more := by
  cases h with
  | plain head | generic head => exact ⟨_, _, head⟩

theorem TypeAt.single {p : Punct} {x : String} {ls rest : List Lexeme} {t : TypeRef}
    (h : TypeAt (.ident x :: .punct p :: ls) t rest) (inert : p.Inert) :
    rest = .punct p :: ls := by
  have plain := aliased_of_peek (x := x) (inert.peek_ne ls (by decide))
  have dotted := fun y => segmentsOf_of_peek (x := y) (inert.peek_ne ls (by decide))
  cases h with
  | plain head named _ marks =>
    rw [plain] at head
    cases head
    rw [dotted] at named
    cases named
    rw [suffixOf_of_peek (inert.peek_ne ls (by decide)), ranksOf_of_peek (inert.peek_ne ls (by decide))] at marks
    cases marks
    rfl
  | generic head named =>
    rw [plain] at head
    cases head
    rw [dotted] at named
    cases named
    exact absurd inert (by decide)

/-- The parameters of a lambda begin with an identifier, and with the arrow behind them it is
followed by a comma, or by the parenthesis that closes them. -/
theorem front_of_paramsOf {ls rest : List Lexeme} {xs : List String}
    (h : paramsOf ls = some (xs, rest)) :
    (∃ x, ls = .ident x :: .punct .rparen :: rest) ∨
      ∃ x behind, ls = .ident x :: .punct .comma :: behind := by
  unfold paramsOf at h
  split at h
  · cases h; exact .inl ⟨_, rfl⟩
  · exact .inr ⟨_, _, rfl⟩
  · cases h

theorem Derives.of_lparen {e : Expr} {ls rest : List Lexeme}
    (h : Derives (.unary e) (.punct .lparen :: ls) rest) :
    (∃ t inner, CastAt (.punct .lparen :: ls) t inner) ∨
      ∃ inner behind, Derives (.expression inner) ls (.punct .rparen :: behind) ∧
        Derives (.suffixes (.paren .zero inner) e) behind rest := by
  generalize front : Lexeme.punct .lparen :: ls = all at h
  cases h with
  | @mark _ _ op => cases op <;> cases front
  | cast head => exact .inl ⟨_, _, head⟩
  | operand _ _ first others =>
    subst front
    cases first with
    | literal read => cases read
    | name read => exact read.not_punct.elim
    | paren whole => exact .inr ⟨_, _, whole, others⟩

theorem Derives.not_lambda_paren {e : Expr} {ls rest more : List Lexeme} {xs : List String}
    (h : Derives (.unary e) (.punct .lparen :: ls) rest)
    (params : paramsOf ls = some (xs, .punct .arrow :: more)) : rest = .punct .arrow :: more := by
  obtain ⟨t, inner, list, eq, type, operand⟩ | ⟨inner, behind, whole, others⟩ := h.of_lparen
  · cases eq
    obtain ⟨x, rfl⟩ | ⟨x, behind, rfl⟩ := front_of_paramsOf params
    · cases type.single (by decide)
      cases operand
    · cases type.single (by decide)
  · obtain ⟨x, rfl⟩ | ⟨x, more, rfl⟩ := front_of_paramsOf params
    · cases whole.single_expression (by decide) (by decide)
      exact others.halts_suffixes (by decide)
    · cases whole.single_expression (by decide) (by decide)

/-- What is read as an operation with no arrow behind it does not begin like a lambda. -/
theorem lambdaOf_eq_none {least : Nat} {e : Expr} {ls rest : List Lexeme}
    (h : Derives (.operation least e) ls rest) (stop : peek rest ≠ .punct .arrow) :
    lambdaOf ls = none := by
  unfold lambdaOf
  split
  · cases h.single_operation (by decide)
    exact absurd rfl stop
  · next more =>
    cases h with
    | chain first _ =>
      obtain ⟨t, inner, list, eq, type, -⟩ | ⟨inner, behind, whole, -⟩ := first.of_lparen
      · cases eq
        obtain ⟨x, behind, head⟩ := type.front
        cases head
      · exact (Derives.not_rparen whole).elim
  · split
    · next params =>
      cases h with
      | chain first others =>
        cases first.not_lambda_paren params
        cases others.halts_operators (by decide)
        exact absurd rfl stop
    · rfl
  · rfl

/-- `this.x` with a mark behind it that continues nothing is an operation of its own. -/
theorem Derives.single_this {p : Punct} {x : String} {e : Expr} {ls rest : List Lexeme}
    (h : Derives (.expression e)
      (.keyword .this :: .punct .dot :: .ident x :: .punct p :: ls) rest) (inert : p.Inert) :
    rest = .punct p :: ls := by
  cases h with
  | lambda head => cases head
  | operation _ whole =>
    cases whole with
    | chain first others =>
      cases first with
      | cast head =>
        obtain ⟨inner, eq, -⟩ := head
        cases eq
      | operand _ _ target suffixes =>
        cases target with
        | literal read => cases read
        | name read =>
          obtain ⟨x, more, eq⟩ := read.front
          cases eq
        | this =>
          cases suffixes with
          | done other => exact absurd rfl (other .dot (by decide))
          | member name others' =>
            cases name.single inert
            cases others'.halts_suffixes inert
            exact others.halts_operators inert

end Marksmith.Syntax

import Marksmith.Proofs.Syntax.TypeGrammar
import Marksmith.Syntax.Parser

/-!
Expressions as a relation on lexemes.

* `Expr.erase`: an expression without the spans it was read from;
* `lambdaHead?_eq`: the head of a lambda depends on lexemes only;
* `Derives`: the grammar of expressions, one rule for each branch of the parser, with the lexemes
  that remain; a speculation that must fail is a premise of the rule that is taken instead;
* `StatementAt`: the grammar of statements.
-/

namespace Marksmith.Syntax

/-! ### Trees without spans -/

/-- The span of a tree whose spans do not matter. -/
def Span.zero : Span := ⟨0, 0⟩

namespace Expr

open Marksmith.Syntax.Span (zero)

mutual

/-- The expression with no spans. -/
def erase : Expr → Expr
  | name _ n => name zero n
  | literal _ v => literal zero v
  | this _ => this zero
  | member _ target n => member zero (erase target) ⟨n.node, zero⟩
  | invoke _ callee args => invoke zero (erase callee) (eraseAll args)
  | index _ target args => index zero (erase target) (eraseAll args)
  | cast _ type operand => cast zero ⟨type.node, zero⟩ (erase operand)
  | new _ type args => new zero ⟨type.node, zero⟩ (eraseAll args)
  | lambda _ params body => lambda zero (params.map fun p => ⟨p.node, zero⟩) (erase body)
  | unary _ op operand => unary zero op (erase operand)
  | binary _ left op right => binary zero (erase left) op (erase right)
  | paren _ inner => paren zero (erase inner)

/-- Several expressions with no spans. -/
def eraseAll : List Expr → List Expr
  | [] => []
  | e :: es => erase e :: eraseAll es

end

end Expr

/-- The statement with no spans. -/
def Statement.erase : Statement → Statement
  | assign _ target value => assign .zero ⟨target.node, .zero⟩ value.erase
  | expr value => expr value.erase

/-! ### The heads that decide a branch -/

/-- The parameters of a lambda up to the closing parenthesis, and what follows them. -/
def paramsOf : List Lexeme → Option (List String × List Lexeme)
  | .ident x :: .punct .rparen :: rest => some ([x], rest)
  | .ident x :: .punct .comma :: rest => (paramsOf rest).map fun more => (x :: more.1, more.2)
  | _ => none

/-- The parameters at the head of a lambda, and what follows its arrow. -/
def lambdaOf : List Lexeme → Option (List String × List Lexeme)
  | .ident x :: .punct .arrow :: rest => some ([x], rest)
  | .punct .lparen :: .punct .rparen :: .punct .arrow :: rest => some ([], rest)
  | .punct .lparen :: inner =>
    match paramsOf inner with
    | some (xs, .punct .arrow :: rest) => some (xs, rest)
    | _ => none
  | _ => none

/-- What a lambda's head yields on tokens, without spans. -/
def Step.heads {n : Nat} {ts : List Token} (s : Step (List (Located String)) n ts) :
    List String × List Lexeme :=
  (s.value.map (·.node), lexemes s.rest)

theorem lambdaParams_eq (ts : List Token) :
    (lambdaParams ts).map Step.heads = paramsOf (lexemes ts) := by
  fun_induction lambdaParams ts with
  | case1 => rfl
  | case2 name span _ rest ih =>
    rw [lexemes_cons, lexemes_cons, paramsOf, ← ih]
    cases lambdaParams rest <;> rfl
  | case3 ts single several =>
    rw [paramsOf.eq_def]
    split
    · next eq =>
      obtain ⟨_, _, rest, rfl, -⟩ := lexemes_eq_cons_cons eq
      exact absurd rfl (single _ _ _ _)
    · next eq =>
      obtain ⟨_, _, rest, rfl, -⟩ := lexemes_eq_cons_cons eq
      exact absurd rfl (several _ _ _ _)
    · rfl

theorem lambdaHead?_eq (ts : List Token) :
    (lambdaHead? ts).map Step.heads = lambdaOf (lexemes ts) := by
  unfold lambdaHead?
  split
  · rfl
  · rfl
  · next span inner other =>
    have params := lambdaParams_eq inner
    rw [lexemes_cons]
    generalize all : lexemes inner = ls at params
    rw [lambdaOf.eq_def]
    split
    · next eq => cases eq
    · next eq =>
      obtain ⟨-, rfl⟩ := List.cons.inj eq
      obtain ⟨_, _, rest, rfl, -⟩ := lexemes_eq_cons_cons all
      exact absurd rfl (other _ _ _)
    · next eq =>
      obtain ⟨-, rfl⟩ := List.cons.inj eq
      rw [← params]
      cases read : lambdaParams inner with
      | none => rfl
      | some more =>
        simp only [Option.bind_eq_bind, Option.bind_some, Option.map_some]
        cases found : accept? .arrow more.rest with
        | some arrow => simp only [Step.heads, accept?_eq_some found]; rfl
        | none =>
          have ne := accept?_eq_none found
          split
          · next eq =>
            rw [Option.some.injEq, Step.heads, Prod.mk.injEq] at eq
            rw [eq.2] at ne
            exact absurd rfl ne
          · rfl
    · next none => exact absurd rfl (none _)
  · next single empty several =>
    rw [lambdaOf.eq_def]
    split
    · next eq =>
      obtain ⟨_, _, rest, rfl, -⟩ := lexemes_eq_cons_cons eq
      exact absurd rfl (single _ _ _ _)
    · next eq =>
      obtain ⟨_, rest, rfl, -⟩ := lexemes_eq_cons eq
      exact absurd rfl (several _ _)
    · next eq =>
      obtain ⟨_, rest, rfl, -⟩ := lexemes_eq_cons eq
      exact absurd rfl (several _ _)
    · rfl

theorem lambdaHead?_eq_none_iff {ts : List Token} :
    lambdaHead? ts = none ↔ lambdaOf (lexemes ts) = none := by
  rw [← lambdaHead?_eq, Option.map_eq_none_iff]

/-- The target of an assignment, and what follows its mark. -/
def assignmentOf : List Lexeme → Option (String × List Lexeme)
  | .ident x :: .punct .assign :: rest => some (x, rest)
  | .keyword .this :: .punct .dot :: .ident x :: .punct .assign :: rest => some (x, rest)
  | _ => none

theorem assignmentHead?_eq (ts : List Token) :
    (assignmentHead? ts).map (fun s => (s.value.node, lexemes s.rest))
      = assignmentOf (lexemes ts) := by
  unfold assignmentHead?
  split
  · rfl
  · rfl
  · next plain qualified =>
    rw [assignmentOf.eq_def]
    split
    · next eq =>
      obtain ⟨_, _, rest, rfl, -⟩ := lexemes_eq_cons_cons eq
      exact absurd rfl (plain _ _ _ _)
    · next eq =>
      obtain ⟨_, _, rest, rfl, behind⟩ := lexemes_eq_cons_cons eq
      obtain ⟨_, _, rest, rfl, -⟩ := lexemes_eq_cons_cons behind
      exact absurd rfl (qualified _ _ _ _ _ _)
    · rfl

theorem assignmentHead?_eq_none_iff {ts : List Token} :
    assignmentHead? ts = none ↔ assignmentOf (lexemes ts) = none := by
  rw [← assignmentHead?_eq, Option.map_eq_none_iff]

/-! ### The grammar of expressions -/

/-- What a rule of the grammar reads, with the tree that it reads it as. -/
inductive Phrase where
  /-- An expression. -/
  | expression (e : Expr)
  /-- An operation whose operators bind at least as tightly as `least`. -/
  | operation (least : Nat) (e : Expr)
  /-- The operators behind `left` that bind at least as tightly as `least`; `e` is the whole. -/
  | operators (least : Nat) (left e : Expr)
  /-- An operand with what stands in front of it. -/
  | unary (e : Expr)
  /-- The suffixes behind `target`; `e` is the whole. -/
  | suffixes (target e : Expr)
  /-- Arguments up to the closing mark. -/
  | arguments (close : Punct) (es : List Expr)
  /-- At least one argument, up to the closing mark. -/
  | argumentList (close : Punct) (es : List Expr)
  /-- A primary expression. -/
  | primary (e : Expr)

open Marksmith.Syntax.Span (zero) in
/-- A phrase at the front of lexemes, with the lexemes behind it. -/
inductive Derives : Phrase → List Lexeme → List Lexeme → Prop where
  | lambda {ls inner rest : List Lexeme} {xs : List String} {body : Expr}
      (head : lambdaOf ls = some (xs, inner)) (tail : Derives (.expression body) inner rest) :
      Derives (.expression (.lambda zero (xs.map fun x => ⟨x, zero⟩) body)) ls rest
  | operation {ls rest : List Lexeme} {e : Expr} (plain : lambdaOf ls = none)
      (whole : Derives (.operation 0 e) ls rest) : Derives (.expression e) ls rest
  | chain {ls behind rest : List Lexeme} {least : Nat} {left e : Expr}
      (first : Derives (.unary left) ls behind)
      (others : Derives (.operators least left e) behind rest) :
      Derives (.operation least e) ls rest
  | stop {ls : List Lexeme} {least : Nat} {e : Expr}
      (loose : ∀ op : BinaryOp, peek ls = .punct op.punct → op.precedence < least) :
      Derives (.operators least e e) ls ls
  | step {inner behind rest : List Lexeme} {least : Nat} {op : BinaryOp} {left right e : Expr}
      (tight : least ≤ op.precedence)
      (operand : Derives (.operation op.rightBound right) inner behind)
      (others : Derives (.operators least (.binary zero left op right) e) behind rest) :
      Derives (.operators least left e) (.punct op.punct :: inner) rest
  | mark {inner rest : List Lexeme} {op : UnaryOp} {operand : Expr}
      (tail : Derives (.unary operand) inner rest) :
      Derives (.unary (.unary zero op operand)) (.punct op.punct :: inner) rest
  | cast {ls inner rest : List Lexeme} {t : TypeRef} {operand : Expr} (head : CastAt ls t inner)
      (tail : Derives (.unary operand) inner rest) :
      Derives (.unary (.cast zero ⟨t, zero⟩ operand)) ls rest
  | operand {ls behind rest : List Lexeme} {target e : Expr}
      (unmarked : ∀ op : UnaryOp, peek ls ≠ .punct op.punct)
      (uncast : ¬∃ t inner, CastAt ls t inner) (first : Derives (.primary target) ls behind)
      (others : Derives (.suffixes target e) behind rest) : Derives (.unary e) ls rest
  | member {inner behind rest : List Lexeme} {target e : Expr} {n : SimpleName}
      (name : NameAt inner n behind)
      (others : Derives (.suffixes (.member zero target ⟨n, zero⟩) e) behind rest) :
      Derives (.suffixes target e) (.punct .dot :: inner) rest
  | invoke {inner behind rest : List Lexeme} {target e : Expr} {args : List Expr}
      (listed : Derives (.arguments .rparen args) inner behind)
      (others : Derives (.suffixes (.invoke zero target args) e) behind rest) :
      Derives (.suffixes target e) (.punct .lparen :: inner) rest
  | index {inner behind rest : List Lexeme} {target e : Expr} {args : List Expr}
      (listed : Derives (.arguments .rbracket args) inner behind)
      (others : Derives (.suffixes (.index zero target args) e) behind rest) :
      Derives (.suffixes target e) (.punct .lbracket :: inner) rest
  | done {ls : List Lexeme} {e : Expr}
      (other : ∀ p ∈ [Punct.dot, .lparen, .lbracket], peek ls ≠ .punct p) :
      Derives (.suffixes e e) ls ls
  | noArguments {rest : List Lexeme} {close : Punct} :
      Derives (.arguments close []) (.punct close :: rest) rest
  | someArguments {ls rest : List Lexeme} {close : Punct} {es : List Expr}
      (nonempty : peek ls ≠ .punct close) (listed : Derives (.argumentList close es) ls rest) :
      Derives (.arguments close es) ls rest
  | lastArgument {ls rest : List Lexeme} {close : Punct} {e : Expr}
      (first : Derives (.expression e) ls (.punct close :: rest)) :
      Derives (.argumentList close [e]) ls rest
  | moreArguments {ls behind rest : List Lexeme} {close : Punct} {e : Expr} {es : List Expr}
      (distinct : close ≠ .comma) (first : Derives (.expression e) ls (.punct .comma :: behind))
      (others : Derives (.argumentList close es) behind rest) :
      Derives (.argumentList close (e :: es)) ls rest
  | this {rest : List Lexeme} : Derives (.primary (.this zero)) (.keyword .this :: rest) rest
  | literal {l : Lexeme} {rest : List Lexeme} {v : Literal} (read : Literal.ofLexeme? l = some v) :
      Derives (.primary (.literal zero v)) (l :: rest) rest
  | new {ls inner rest : List Lexeme} {t : TypeRef} {args : List Expr}
      (type : TypeAt ls t (.punct .lparen :: inner))
      (listed : Derives (.arguments .rparen args) inner rest) :
      Derives (.primary (.new zero ⟨t, zero⟩ args)) (.keyword .new :: ls) rest
  | paren {ls rest : List Lexeme} {inner : Expr}
      (whole : Derives (.expression inner) ls (.punct .rparen :: rest)) :
      Derives (.primary (.paren zero inner)) (.punct .lparen :: ls) rest
  | name {ls rest : List Lexeme} {n : SimpleName} (read : NameAt (aliased ls) n rest) :
      Derives (.primary (.name zero n)) ls rest

open Marksmith.Syntax.Span (zero) in
/-- A statement at the front of lexemes, with the lexemes behind it. -/
inductive StatementAt : List Lexeme → Statement → List Lexeme → Prop where
  | assign {ls inner rest : List Lexeme} {x : String} {e : Expr}
      (head : assignmentOf ls = some (x, inner)) (value : Derives (.expression e) inner rest) :
      StatementAt ls (.assign zero ⟨x, zero⟩ e) rest
  | expr {ls rest : List Lexeme} {e : Expr} (plain : assignmentOf ls = none)
      (value : Derives (.expression e) ls rest) : StatementAt ls (.expr e) rest

end Marksmith.Syntax

import Marksmith.Proofs.Syntax.RoundTrip

/-!
Operators between names. What is written as names with operators between them is read as the one
tree that keeps their order and in which every operand groups as precedence asks for.

* `Expr.Joins`, `Expr.Grouped`: the names and operators of a tree in order; operands that fit;
* `grow`, `exists_grouped`: a grouped tree grows with every further operator, so there is one;
* `derives_of_joins`: every grouped tree is read from the lexemes it joins;
* `parseExpr_joined`: the text is accepted, as the only grouped tree that joins it.
-/

namespace Marksmith.Syntax

/-! ### Trees of operators and names -/

namespace Expr

/-- A tree joins names by operators: what stands in it from the left is the first name and behind it
the operators, each with the name behind it. -/
inductive Joins : Expr → String → List (BinaryOp × String) → Prop where
  | name {s : Span} {x : String} : Joins (name s ⟨x, []⟩) x []
  | binary {s : Span} {left right : Expr} {op : BinaryOp} {x y : String}
      {before behind : List (BinaryOp × String)} (leftJoins : Joins left x before)
      (rightJoins : Joins right y behind) :
      Joins (binary s left op right) x (before ++ (op, y) :: behind)

/-- An operand needs no parentheses: an operation in it binds tighter than its parent, or as tightly
on the side that the parent groups to. -/
def Fits (parent : BinaryOp) (onRight : Bool) (e : Expr) : Prop :=
  ∀ s left op right, e = binary s left op right →
    parent.precedence < op.precedence ∨
      parent.precedence = op.precedence ∧ parent.groupsRight = onRight

/-- Both operands of every operation in a tree fit. -/
def Grouped (e : Expr) : Prop :=
  ∀ s left op right, binary s left op right ∈ e.nodes → left.Fits op false ∧ right.Fits op true

theorem fits_binary_iff {s : Span} {left right : Expr} {op parent : BinaryOp} {onRight : Bool} :
    (binary s left op right).Fits parent onRight ↔
      parent.precedence < op.precedence ∨
        parent.precedence = op.precedence ∧ parent.groupsRight = onRight := by
  refine ⟨fun fits => fits _ _ _ _ rfl, ?_⟩
  rintro fits _ _ _ _ ⟨⟩
  exact fits

theorem fits_name {s : Span} {n : SimpleName} {parent : BinaryOp} {onRight : Bool} :
    (name s n).Fits parent onRight := nofun

theorem grouped_name {s : Span} {n : SimpleName} : (name s n).Grouped := by
  intro s left op right mem
  rw [nodes, List.mem_singleton] at mem
  cases mem

theorem grouped_binary_iff {s : Span} {left right : Expr} {op : BinaryOp} :
    (binary s left op right).Grouped ↔
      left.Grouped ∧ right.Grouped ∧ left.Fits op false ∧ right.Fits op true := by
  constructor
  · intro grouped
    refine ⟨fun s l o r mem => grouped s l o r ?_, fun s l o r mem => grouped s l o r ?_,
      grouped s left op right ?_⟩ <;> simp [nodes, *]
  · rintro ⟨leftGrouped, rightGrouped, fits⟩ s' l o r mem
    rw [nodes, List.mem_cons, List.mem_append] at mem
    rcases mem with same | mem | mem
    · cases same
      exact fits
    · exact leftGrouped s' l o r mem
    · exact rightGrouped s' l o r mem

/-! ### Spans do not matter -/

theorem fits_erase_iff {e : Expr} {parent : BinaryOp} {onRight : Bool} :
    e.erase.Fits parent onRight ↔ e.Fits parent onRight := by
  cases e with
  | binary => rw [erase, fits_binary_iff, fits_binary_iff]
  | _ => simp [Fits, erase]

theorem joins_erase_iff {e : Expr} {x : String} {more : List (BinaryOp × String)} :
    e.erase.Joins x more ↔ e.Joins x more := by
  constructor
  · intro joins
    generalize same : e.erase = e' at joins
    induction joins generalizing e with
    | name =>
      cases e <;> cases same
      exact .name
    | binary _ _ ihLeft ihRight =>
      cases e <;> cases same
      exact .binary (ihLeft rfl) (ihRight rfl)
  · intro joins
    induction joins with
    | name => exact .name
    | binary _ _ ihLeft ihRight => exact .binary ihLeft ihRight

theorem Joins.grouped_erase_iff {e : Expr} {x : String} {more : List (BinaryOp × String)}
    (joins : e.Joins x more) : e.erase.Grouped ↔ e.Grouped := by
  induction joins with
  | name => exact iff_of_true grouped_name grouped_name
  | binary _ _ ihLeft ihRight =>
    rw [erase, grouped_binary_iff, grouped_binary_iff, ihLeft, ihRight, fits_erase_iff,
      fits_erase_iff]

/-! ### Growing a tree -/

/-- The tree with one more operator and name behind it. They go into the right operand as long as
they bind tightly enough for it. -/
def grow (op : BinaryOp) (y : String) : Expr → Expr
  | binary s left o right =>
    if op.precedence < o.rightBound then
      .binary .zero (.binary s left o right) op (.name .zero ⟨y, []⟩)
    else .binary s left o (grow op y right)
  | e => .binary .zero e op (.name .zero ⟨y, []⟩)

theorem Joins.grow {e : Expr} {x : String} {more : List (BinaryOp × String)}
    (joins : e.Joins x more) (op : BinaryOp) (y : String) :
    (e.grow op y).Joins x (more ++ [(op, y)]) := by
  induction joins with
  | name => exact Joins.binary .name .name
  | binary leftJoins rightJoins _ ihRight =>
    rw [Expr.grow]
    split
    · exact .binary (.binary leftJoins rightJoins) .name
    · rw [List.append_assoc, List.cons_append]
      exact .binary leftJoins ihRight

/-- Operators that bind as tightly as one another group to the same side. -/
theorem groupsRight_of_precedence {op o : BinaryOp} (same : op.precedence = o.precedence) :
    op.groupsRight = o.groupsRight := by
  revert same
  cases op <;> cases o <;> decide

/-- A left operand fits exactly if the parent does not go into its right operand. -/
theorem fits_left_iff {s : Span} {left right : Expr} {o op : BinaryOp} :
    (binary s left o right).Fits op false ↔ op.precedence < o.rightBound := by
  rw [fits_binary_iff, BinaryOp.rightBound]
  by_cases same : op.precedence = o.precedence
  · rw [groupsRight_of_precedence same]
    cases o.groupsRight <;> simp [same]
  · split <;> omega

/-- A right operand fits exactly if it binds as tightly as the parent asks for. -/
theorem fits_right_iff {s : Span} {left right : Expr} {o op : BinaryOp} :
    (binary s left op right).Fits o true ↔ o.rightBound ≤ op.precedence := by
  rw [fits_binary_iff, BinaryOp.rightBound]
  split
  · next right =>
    simp only [right, and_true]
    omega
  · next left =>
    simp only [left, Bool.false_eq_true, and_false, or_false]
    omega

/-- A right operand still fits when it has grown by an operator that goes into it. -/
theorem Fits.grow {e : Expr} {x : String} {more : List (BinaryOp × String)} {o op : BinaryOp}
    (joins : e.Joins x more) (fits : e.Fits o true) (tight : o.rightBound ≤ op.precedence)
    (y : String) : (e.grow op y).Fits o true := by
  cases joins with
  | name => exact fits_right_iff.mpr tight
  | binary =>
    rw [Expr.grow]
    split
    · exact fits_right_iff.mpr tight
    · exact fits_right_iff.mpr (fits_right_iff.mp fits)

theorem Grouped.grow {e : Expr} {x : String} {more : List (BinaryOp × String)}
    (joins : e.Joins x more) (grouped : e.Grouped) (op : BinaryOp) (y : String) :
    (e.grow op y).Grouped := by
  induction joins with
  | name => exact grouped_binary_iff.mpr ⟨grouped_name, grouped_name, fits_name, fits_name⟩
  | binary leftJoins rightJoins _ ihRight =>
    obtain ⟨leftGrouped, rightGrouped, leftFits, rightFits⟩ := grouped_binary_iff.mp grouped
    rw [Expr.grow]
    split
    · next loose =>
      exact grouped_binary_iff.mpr ⟨grouped, grouped_name, fits_left_iff.mpr loose, fits_name⟩
    · next tight =>
      exact grouped_binary_iff.mpr ⟨leftGrouped, ihRight rightGrouped, leftFits,
        rightFits.grow rightJoins (Nat.le_of_not_lt tight) y⟩

theorem exists_grouped_append {e : Expr} {x : String} {before : List (BinaryOp × String)}
    (joins : e.Joins x before) (grouped : e.Grouped) (more : List (BinaryOp × String)) :
    ∃ e' : Expr, e'.Joins x (before ++ more) ∧ e'.Grouped := by
  induction more generalizing e before with
  | nil => exact ⟨e, by rwa [List.append_nil], grouped⟩
  | cons p more ih =>
    rw [List.append_cons]
    exact ih (joins.grow p.1 p.2) (grouped.grow joins p.1 p.2)

/-- Names and operators are joined by a grouped tree. -/
theorem exists_grouped (x : String) (more : List (BinaryOp × String)) :
    ∃ e : Expr, e.Joins x more ∧ e.Grouped :=
  exists_grouped_append (.name : (name .zero ⟨x, []⟩).Joins x []) grouped_name more

end Expr

/-! ### Every grouped tree is read -/

/-- The lexemes of operators, each with the name behind it. -/
def tailLexemes (more : List (BinaryOp × String)) : List Lexeme :=
  more.flatMap fun p => [.punct p.1.punct, .ident p.2]

@[simp] theorem tailLexemes_append (before behind : List (BinaryOp × String)) :
    tailLexemes (before ++ behind) = tailLexemes before ++ tailLexemes behind :=
  List.flatMap_append

theorem tailLexemes_cons (op : BinaryOp) (y : String) (more : List (BinaryOp × String)) :
    tailLexemes ((op, y) :: more) = .punct op.punct :: .ident y :: tailLexemes more := rfl

/-- Behind every mark stands a name. -/
theorem ident_of_suffix {p : Punct} {behind : List Lexeme} {more : List (BinaryOp × String)}
    (suffix : .punct p :: behind <:+ tailLexemes more ++ [.eof]) :
    ∃ y rest, behind = .ident y :: rest := by
  induction more with
  | nil =>
    rcases List.suffix_cons_iff.mp suffix with same | none
    · cases same
    · cases List.suffix_nil.mp none
  | cons q more ih =>
    rw [tailLexemes_cons, List.cons_append, List.cons_append] at suffix
    obtain same | suffix := List.suffix_cons_iff.mp suffix
    · cases same
      exact ⟨_, _, rfl⟩
    obtain same | suffix := List.suffix_cons_iff.mp suffix
    · cases same
    · exact ih suffix

/-- A mark in front of the operators is one of them. -/
theorem op_of_peek {p : Punct} {more : List (BinaryOp × String)}
    (front : peek (tailLexemes more ++ [.eof]) = .punct p) : ∃ op : BinaryOp, p = op.punct := by
  cases more with
  | nil => cases front
  | cons q more =>
    cases front
    exact ⟨q.1, rfl⟩

/-- What follows a name is never taken for its type arguments: behind every mark stands a name, and
behind type arguments none does. -/
theorem not_argsAt (more : List (BinaryOp × String)) :
    ¬∃ args behind, ArgsAt (tailLexemes more ++ [.eof]) args behind := by
  rintro ⟨args, behind, inner, front, types, ends⟩
  have suffix := (typeAt_and_typesAt_suffix.2 types).trans (List.suffix_cons (.punct .lt) inner)
  rw [← front] at suffix
  obtain ⟨y, rest, rfl⟩ := ident_of_suffix suffix
  cases ends

theorem unary_name (x : String) (more : List (BinaryOp × String)) :
    Derives (.unary (.name .zero ⟨x, []⟩)) (.ident x :: (tailLexemes more ++ [.eof]))
      (tailLexemes more ++ [.eof]) := by
  have noMark : ∀ p ∈ [Punct.dot, .lparen, .lbracket, .colonColon],
      peek (tailLexemes more ++ [.eof]) ≠ .punct p := by
    intro p mem front
    obtain ⟨op, rfl⟩ := op_of_peek front
    cases op <;> simp [BinaryOp.punct] at mem
  refine .operand ?unmarked ?uncast (.name ?read) (.done fun p mem => noMark p ?_)
  case unmarked =>
    intro op front
    cases front
  case uncast =>
    rintro ⟨t, inner, more, front, -⟩
    cases front
  case read =>
    rw [aliased_of_peek (noMark .colonColon (by simp))]
    exact .bare (not_argsAt more)
  simp only [List.mem_cons] at mem ⊢
  tauto

theorem BinaryOp.punct_inj {op o : BinaryOp} (same : op.punct = o.punct) : op = o := by
  have found := ofPunct?_eq_some_iff.mpr same
  rw [ofPunct?_eq_some_iff.mpr rfl] at found
  exact Option.some.inj found

/-- A grouped tree whose operators are at least as tight as asked for is read from the lexemes that
it joins, if the operator behind it takes the whole tree as its left operand. -/
theorem derives_of_joins {e f : Expr} {x : String} {least : Nat}
    {more others : List (BinaryOp × String)} {rest : List Lexeme} (joins : e.Joins x more)
    (grouped : e.Grouped)
    (tight : ∀ s left op right, e = .binary s left op right → least ≤ op.precedence)
    (stops : ∀ op : BinaryOp, peek (tailLexemes others ++ [.eof]) = .punct op.punct →
      e.Fits op false)
    (behind : Derives (.operators least e.erase f) (tailLexemes others ++ [.eof]) rest) :
    Derives (.operation least f) (.ident x :: (tailLexemes more ++ (tailLexemes others ++ [.eof])))
      rest := by
  induction joins generalizing least others rest f with
  | name => exact .chain (unary_name _ others) behind
  | binary leftJoins rightJoins ihLeft ihRight =>
    rename_i s left right o x y before after
    obtain ⟨leftGrouped, rightGrouped, leftFits, rightFits⟩ := Expr.grouped_binary_iff.mp grouped
    have least_le : least ≤ o.precedence := tight _ _ _ _ rfl
    have operand : Derives (.operation o.rightBound right.erase)
        (.ident y :: (tailLexemes after ++ (tailLexemes others ++ [.eof])))
        (tailLexemes others ++ [.eof]) := by
      refine ihRight rightGrouped ?tight (fun op front => ?stops) (.stop fun op front => ?loose)
      case tight =>
        rintro _ _ op _ rfl
        exact Expr.fits_right_iff.mp rightFits
      case loose => exact Expr.fits_left_iff.mp (stops op front)
      case stops =>
        rintro _ _ inner _ rfl
        have := Expr.fits_left_iff.mp (stops op front)
        have := Expr.fits_right_iff.mp rightFits
        exact .inl (by omega)
    have split : tailLexemes ((o, y) :: after ++ others) ++ [.eof]
        = .punct o.punct :: .ident y :: (tailLexemes after ++ (tailLexemes others ++ [.eof])) := by
      simp [tailLexemes_append, tailLexemes_cons]
    rw [tailLexemes_append, tailLexemes_cons, List.append_assoc, List.cons_append, List.cons_append,
      ← split]
    refine ihLeft leftGrouped ?tight (fun op front => ?stops) ?followed
    case tight =>
      rintro _ _ op _ rfl
      rcases Expr.fits_binary_iff.mp leftFits with tighter | ⟨same, -⟩ <;> omega
    case stops =>
      rw [split, peek_cons] at front
      cases BinaryOp.punct_inj (Lexeme.punct.inj front)
      exact leftFits
    case followed =>
      rw [split]
      exact .step least_le operand behind

/-- A grouped tree is read from the lexemes that it joins. -/
theorem expression_of_joins {e : Expr} {x : String} {more : List (BinaryOp × String)}
    (joins : e.Joins x more) (grouped : e.Grouped) :
    Derives (.expression e.erase) (.ident x :: (tailLexemes more ++ [.eof])) [.eof] := by
  have ends : Derives (.operators 0 e.erase e.erase) (tailLexemes [] ++ [.eof]) [.eof] :=
    .stop nofun
  have stops : ∀ op : BinaryOp, peek (tailLexemes [] ++ [.eof]) = .punct op.punct →
      e.Fits op false := nofun
  refine .operation ?_ (derives_of_joins joins grouped (fun _ _ _ _ _ => Nat.zero_le _) stops ends)
  rw [lambdaOf.eq_def]
  split
  · next front =>
    obtain ⟨-, front⟩ := List.cons.inj front
    obtain ⟨op, same⟩ := op_of_peek (congrArg peek front)
    cases op <;> cases same
  · next front => cases front
  · next front => cases front
  · rfl

/-! ### The text -/

/-- Operators with the names behind them, each behind a blank. -/
def tailWritten (more : List (BinaryOp × String)) : List Char :=
  more.flatMap fun p => ' ' :: (p.1.punct.chars ++ ' ' :: p.2.toList)

/-- Names joined by operators, with single blanks between them. -/
def joinedText (x : String) (more : List (BinaryOp × String)) : String :=
  String.ofList (x.toList ++ tailWritten more)

theorem endsWord_tailWritten (more : List (BinaryOp × String)) : EndsWord (tailWritten more) := by
  cases more with
  | nil => trivial
  | cons p more => exact ⟨by decide, nofun⟩

theorem lexes_tailWritten {more : List (BinaryOp × String)} (names : ∀ p ∈ more, IsName p.2) :
    Lexes (tailWritten more) (tailLexemes more ++ [.eof]) := by
  induction more with
  | nil => exact .nil
  | cons p more ih =>
    obtain ⟨name, others⟩ := List.forall_mem_cons.mp names
    have spelled := (ih others).ident name (endsWord_tailWritten more)
    have apart : p.1.punct.Apart (' ' :: (p.2.toList ++ tailWritten more)) := by
      rintro c ⟨⟩
      cases p.1 <;> decide
    have whole := (Lexes.punct apart spelled.blank).blank
    simpa [tailWritten, tailLexemes] using whole

/-- Names joined by operators are read as the only grouped tree that joins them. -/
theorem parseExpr_joined (x : String) (more : List (BinaryOp × String))
    (first : IsName x) (names : ∀ p ∈ more, IsName p.2) :
    ∃ e, parseExpr (joinedText x more) = .ok e ∧ e.Joins x more ∧ e.Grouped ∧
      ∀ e' : Expr, e'.Joins x more → e'.Grouped → e'.erase = e.erase := by
  have spelled : Lexes (x.toList ++ tailWritten more) (.ident x :: tailLexemes more ++ [.eof]) :=
    (lexes_tailWritten names).ident first (endsWord_tailWritten more)
  -- Every grouped tree is the one that the parser finds, as the parser finds only one.
  have found : ∀ e' : Expr, e'.Joins x more → e'.Grouped →
      ∃ e, parseExpr (joinedText x more) = .ok e ∧ e.erase = e'.erase := by
    intro e' joins grouped
    refine parseAll_of_lexes spelled fun ts same => ?_
    have derives := expression_of_joins joins grouped
    rw [← List.cons_append, ← same] at derives
    exact expression_complete derives
  obtain ⟨tree, joins, grouped⟩ := Expr.exists_grouped x more
  obtain ⟨e, read, same⟩ := found tree joins grouped
  have joined : e.Joins x more := by
    rw [← Expr.joins_erase_iff, same, Expr.joins_erase_iff]
    exact joins
  refine ⟨e, read, joined, ?grouped, fun e' joins' grouped' => ?unique⟩
  case grouped =>
    rw [← joined.grouped_erase_iff, same, joins.grouped_erase_iff]
    exact grouped
  case unique =>
    obtain ⟨e'', read', same'⟩ := found e' joins' grouped'
    rw [read] at read'
    cases read'
    exact same'.symm

/-- Comparisons are not taken for type arguments, `??` binds loosest, and `-` groups to the left. -/
theorem parseExpr_joined_comparisons :
    joinedText "a" [(.lt, "b"), (.coalesce, "c"), (.sub, "d"), (.sub, "e"), (.gt, "f")]
        = "a < b ?? c - d - e > f" ∧
      IsName "a" ∧
      (∀ p ∈ [(BinaryOp.lt, "b"), (.coalesce, "c"), (.sub, "d"), (.sub, "e"), (.gt, "f")],
        IsName p.2) ∧
      ∃ e, parseExpr "a < b ?? c - d - e > f" = .ok e ∧
        e.Joins "a" [(.lt, "b"), (.coalesce, "c"), (.sub, "d"), (.sub, "e"), (.gt, "f")] ∧
        e.Grouped ∧
        ∀ e' : Expr,
          e'.Joins "a" [(.lt, "b"), (.coalesce, "c"), (.sub, "d"), (.sub, "e"), (.gt, "f")] →
          e'.Grouped → e'.erase = e.erase := by
  have first : IsName "a" := by decide
  have names : ∀ p ∈ [(BinaryOp.lt, "b"), (.coalesce, "c"), (.sub, "d"), (.sub, "e"), (.gt, "f")],
      IsName p.2 := by decide
  have text : joinedText "a" [(.lt, "b"), (.coalesce, "c"), (.sub, "d"), (.sub, "e"), (.gt, "f")]
      = "a < b ?? c - d - e > f" := by decide
  refine ⟨text, first, names, ?_⟩
  rw [← text]
  exact parseExpr_joined "a" _ first names

end Marksmith.Syntax

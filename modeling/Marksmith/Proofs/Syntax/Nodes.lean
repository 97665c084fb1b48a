import Marksmith.Proofs.Syntax.Extents

/-!
Every node of an expression can be read on its own.

* `StandsAlone`: the tokens of a node, cut off behind it, are read as an expression, and this is the
  node up to spans;
* `LeadsOperand`, `LeadsOperation`: what has been read so far is an operand with the suffixes that
  come next, or an operation with the operators that come next, wherever these are cut off; so the
  trees that the parser builds up from the left can be read on their own too;
* `expression_exposed`: every node of what the parser reads stands alone.
-/

namespace Marksmith.Syntax

variable {ts us mid rest : List Token}

/-- A node that is read on its own from the tokens that it consists of. -/
def StandsAlone (ts : List Token) (n : Expr) : Prop :=
  ∃ us rest, us <:+ ts ∧ Spells us n rest ∧
    Derives (.expression n.erase) (cutOff rest.length (lexemes us)) [.eof]

theorem StandsAlone.mono {n : Expr} (alone : StandsAlone us n) (sub : us <:+ ts) :
    StandsAlone ts n := by
  obtain ⟨vs, rest, sub', spells, read⟩ := alone
  exact ⟨vs, rest, sub'.trans sub, spells, read⟩

/-! ### Reading up to a cut -/

theorem cutOff_lexemes (rest : List Token) : cutOff rest.length (lexemes rest) = [.eof] :=
  cutOff_of_le (Nat.le_of_eq (List.length_map _))

theorem Derives.ended_operators (least : Nat) (e : Expr) :
    Derives (.operators least e e) [.eof] [.eof] :=
  .stop nofun

theorem Derives.ended_suffixes (e : Expr) : Derives (.suffixes e e) [.eof] [.eof] :=
  .done nofun

/-- An operation up to the end of the text is an expression. -/
theorem Derives.expression_of_operation {e : Expr} {ls : List Lexeme}
    (h : Derives (.operation 0 e) ls [.eof]) : Derives (.expression e) ls [.eof] :=
  .operation (lambdaOf_eq_none h nofun) h

/-- An expression that is read up to some place stands alone. -/
theorem standsAlone_of_expression {e : Expr} (spells : Spells ts e rest)
    (read : Derives (.expression e.erase) (lexemes ts) (lexemes rest)) : StandsAlone ts e := by
  have short := read.shortened (length_le_lexemes (List.suffix_refl rest))
    spells.endsBefore.closesWell
  rw [cutOff_lexemes] at short
  exact ⟨ts, rest, List.suffix_refl ts, spells, short⟩

/-- What has been read from `all` is an operand with the suffixes that come next. -/
def LeadsOperand (all : List Token) (target : Expr) (ts : List Token) : Prop :=
  ∀ m ≤ ts.length, ClosesWell m (lexemes all) → ∀ e rest,
    Derives (.suffixes target.erase e) (cutOff m (lexemes ts)) rest →
    Derives (.unary e) (cutOff m (lexemes all)) rest

/-- What has been read from `all` is an operation with the operators that come next. -/
def LeadsOperation (all : List Token) (left : Expr) (ts : List Token) : Prop :=
  ∀ m ≤ ts.length, ClosesWell m (lexemes all) → ∀ e rest,
    Derives (.operators 0 left.erase e) (cutOff m (lexemes ts)) rest →
    Derives (.operation 0 e) (cutOff m (lexemes all)) rest

theorem le_length_lexemes {m : Nat} (kept : m ≤ ts.length) : m ≤ (lexemes ts).length := by
  rw [lexemes, List.length_map]
  exact kept

section

variable {all vs : List Token} {left target : Expr}

theorem LeadsOperation.standsAlone (leads : LeadsOperation all left rest)
    (spells : Spells all left rest) : StandsAlone all left := by
  refine ⟨all, rest, List.suffix_refl all, spells, .expression_of_operation ?_⟩
  refine leads rest.length (Nat.le_refl _) spells.endsBefore.closesWell _ _ ?_
  rw [cutOff_lexemes]
  exact .ended_operators 0 _

theorem leadsOperation_of_unary (read : Derives (.unary left.erase) (lexemes all) (lexemes ts)) :
    LeadsOperation all left ts := by
  intro m kept closes e rest others
  exact .chain (read.shortened (le_length_lexemes kept) closes) others

/-- With an operator and its right operand, it is an operation again. -/
theorem LeadsOperation.step {op : BinaryOp} {mark : Span} {right : Expr} (span : Span)
    (leads : LeadsOperation all left (⟨.punct op.punct, mark⟩ :: us)) (sub : us <:+ all)
    (operand : Derives (.operation op.rightBound right.erase) (lexemes us) (lexemes vs)) :
    LeadsOperation all (.binary span left op right) vs := by
  intro m kept closes e rest others
  have kept' : m ≤ (lexemes us).length :=
    Nat.le_trans (le_length_lexemes kept) operand.suffix.length_le
  have inside : m ≤ us.length := by
    rw [lexemes, List.length_map] at kept'
    exact kept'
  refine leads m (Nat.le_succ_of_le inside) closes e rest ?_
  rw [lexemes_cons, cutOff_cons _ kept']
  exact .step (Nat.zero_le _) (operand.shortened (le_length_lexemes kept) (closes.tokens sub))
    others

theorem LeadsOperand.unary (leads : LeadsOperand all target rest)
    (spells : Spells all target rest) :
    Derives (.unary target.erase) (cutOff rest.length (lexemes all)) [.eof] := by
  refine leads rest.length (Nat.le_refl _) spells.endsBefore.closesWell _ _ ?_
  rw [cutOff_lexemes]
  exact .ended_suffixes _

theorem LeadsOperand.standsAlone (leads : LeadsOperand all target rest)
    (spells : Spells all target rest) : StandsAlone all target :=
  ⟨all, rest, List.suffix_refl all, spells,
    .expression_of_operation (.chain (leads.unary spells) (.ended_operators 0 _))⟩

theorem leadsOperand_of_primary (unmarked : ∀ op : UnaryOp, peek (lexemes all) ≠ .punct op.punct)
    (uncast : ¬∃ t inner, CastAt (lexemes all) t inner)
    (read : Derives (.primary target.erase) (lexemes all) (lexemes ts)) :
    LeadsOperand all target ts := by
  intro m kept closes e rest others
  refine .operand (fun op front => unmarked op (peek_of_cutOff front)) ?_
    (read.shortened (le_length_lexemes kept) closes) others
  rintro ⟨t, inner, head⟩
  exact uncast ⟨t, head.of_shortened⟩

/-- With one suffix more, it is an operand again. -/
theorem LeadsOperand.suffix {p : Punct} {mark : Span} {node : Expr}
    (leads : LeadsOperand all target (⟨.punct p, mark⟩ :: us)) (sub : us <:+ all) (left : vs <:+ us)
    (next : ∀ m ≤ vs.length, ClosesWell m (lexemes us) → ∀ e rest,
      Derives (.suffixes node.erase e) (cutOff m (lexemes vs)) rest →
      Derives (.suffixes target.erase e) (.punct p :: cutOff m (lexemes us)) rest) :
    LeadsOperand all node vs := by
  intro m kept closes e rest others
  have inside := Nat.le_trans kept left.length_le
  refine leads m (Nat.le_succ_of_le inside) closes e rest ?_
  rw [lexemes_cons, cutOff_cons _ (le_length_lexemes inside)]
  exact next m kept (closes.tokens sub) e rest others

end

/-! ### Nodes of what the parser reads -/

/-- An expression whose parts all stand alone. -/
structure Opened (ts : List Token) (e : Expr) (rest : List Token) : Prop where
  spells : Spells ts e rest
  parts : ∀ c ∈ e.children, ∀ n ∈ c.nodes, StandsAlone ts n

/-- An expression all of whose nodes stand alone. -/
structure Exposed (ts : List Token) (e : Expr) (rest : List Token) : Prop where
  spells : Spells ts e rest
  nodes : ∀ n ∈ e.nodes, StandsAlone ts n

/-- Arguments all of whose nodes stand alone. -/
structure ExposedAll (close : Punct) (ts : List Token) (es : List Expr) (closing : Span)
    (rest : List Token) : Prop where
  spells : SpellsAll close ts es closing rest
  nodes : ∀ e ∈ es, ∀ n ∈ e.nodes, StandsAlone ts n

section

variable {e : Expr}

theorem Opened.exposed (opened : Opened ts e rest) (alone : StandsAlone ts e) :
    Exposed ts e rest := by
  refine ⟨opened.spells, ?_⟩
  rw [Expr.nodes_eq]
  exact List.forall_mem_cons.mpr ⟨alone, List.forall_mem_flatMap.mpr opened.parts⟩

theorem Exposed.nodes_of_suffix (exposed : Exposed us e rest) (sub : us <:+ ts) :
    ∀ n ∈ e.nodes, StandsAlone ts n :=
  fun n mem => (exposed.nodes n mem).mono sub

theorem ExposedAll.nodes_of_suffix {close : Punct} {es : List Expr} {closing : Span}
    (exposed : ExposedAll close us es closing rest) (sub : us <:+ ts) :
    ∀ e ∈ es, ∀ n ∈ e.nodes, StandsAlone ts n :=
  fun e arg n mem => (exposed.nodes e arg n mem).mono sub

end

theorem spells_unary {op : UnaryOp} {operand : Expr} {mark : Span}
    (split : ts = ⟨.punct op.punct, mark⟩ :: us) (behind : Spells us operand rest) :
    Spells ts (.unary ((frontSpan ts).merge operand.span) op operand) rest := by
  subst split
  exact .unary behind

theorem spells_cast {vs : List Token} {t : Located TypeRef} {operand : Expr}
    {opening closing : Span} (split : ts = ⟨.punct .lparen, opening⟩ :: us)
    (type : TypeAt (lexemes us) t.node (.punct .rparen :: lexemes vs))
    (covers : Covers us t.span (⟨.punct .rparen, closing⟩ :: vs))
    (behind : Spells vs operand rest) :
    Spells ts (.cast ((frontSpan ts).merge operand.span) t operand) rest := by
  subst split
  exact .cast type covers behind

theorem castHead?_spells (order : InOrder ts) {type : Step (Located TypeRef) 3 ts} {operand : Expr}
    (found : castHead? ts = some type) (behind : Spells type.rest operand rest) :
    Spells ts (.cast ((frontSpan ts).merge operand.span) type.value operand) rest := by
  unfold castHead? at found
  simp only [Option.bind_eq_bind, Option.bind_eq_some_iff] at found
  obtain ⟨opening, opened, read, typed, closing, closed, found⟩ := found
  split at found
  · cases found
    have typed := toOption_eq_some_iff.mp typed
    have within := (accept?_covers opened).suffix
    have type := typeRef_sound opening.rest read typed
    have covers := typeRef_covers opening.rest (order.suffix within) read typed
    rw [accept?_eq_some closed] at type
    rw [accept?_split closed] at covers
    exact spells_cast (accept?_split opened) type covers behind
  · cases found

theorem spellsAll_nil {close : Punct} {closing : Span}
    (split : ts = ⟨.punct close, closing⟩ :: rest) : SpellsAll close ts [] closing rest := by
  subst split
  exact .nil

theorem Derives.argumentList_ne_nil {close : Punct} {es : List Expr} {ls left : List Lexeme}
    (h : Derives (.argumentList close es) ls left) : es ≠ [] := by
  cases h <;> exact List.cons_ne_nil _ _

theorem nameExpr_opened (order : InOrder ts) {s : Step Expr 1 ts} (h : nameExpr ts = .ok s) :
    Opened ts s.value s.rest := by
  have covers := (nameExpr_occupies order h).covers
  unfold nameExpr at h
  obtain ⟨name, read, h⟩ := bind_eq_ok_iff.mp h
  cases h
  have found := simpleName_sound read
  rw [lexemes_skipAlias] at found
  exact ⟨.name found covers, nofun⟩

theorem atom?_opened {s : Step Expr 1 ts} (h : atom? ts = some s) : Opened ts s.value s.rest := by
  unfold atom? at h
  split at h
  · cases h
    exact ⟨.this, nofun⟩
  · obtain ⟨v, found, rfl⟩ := Option.map_eq_some_iff.mp h
    exact ⟨.literal found, nofun⟩
  · cases h

mutual

/-- Every node of an expression that is read stands alone. -/
theorem expression_exposed (ts : List Token) (order : InOrder ts) (s : Step Expr 1 ts)
    (h : expression ts = .ok s) : Exposed ts s.value s.rest := by
  have read := expression_sound ts s h
  rw [expression] at h
  split at h
  · next head found =>
    have := head.bound
    obtain ⟨body, readBody, h⟩ := bind_eq_ok_iff.mp h
    cases h
    obtain ⟨front, split, -⟩ := lambdaHead?_idents found
    have within : head.rest <:+ ts := ⟨front, split.symm⟩
    have part := expression_exposed head.rest (order.suffix within) body readBody
    have spells := Spells.lambda found part.spells
    have opened : Opened ts _ body.rest :=
      ⟨spells, List.forall_mem_singleton.mpr (part.nodes_of_suffix within)⟩
    exact opened.exposed (standsAlone_of_expression spells read)
  · exact operation_exposed 0 ts order s h
termination_by 8 * ts.length + 5

theorem operation_exposed (least : Nat) (ts : List Token) (order : InOrder ts) (s : Step Expr 1 ts)
    (h : operation least ts = .ok s) : Exposed ts s.value s.rest := by
  rw [operation] at h
  obtain ⟨left, read, h⟩ := bind_eq_ok_iff.mp h
  have := left.bound
  obtain ⟨whole, others, h⟩ := bind_eq_ok_iff.mp h
  cases h
  exact operators_exposed least left.value left.rest ts order (unary_exposed ts order left read)
    (leadsOperation_of_unary (unary_sound ts left read)) whole others
termination_by 8 * ts.length + 4

/-- Operators behind a left operand that was read from `all`. -/
theorem operators_exposed (least : Nat) (left : Expr) (ts all : List Token) (order : InOrder all)
    (first : Exposed all left ts) (leads : LeadsOperation all left ts) (s : Step Expr 0 ts)
    (h : operators least left ts = .ok s) : Exposed all s.value s.rest := by
  rw [operators] at h
  split at h
  · cases h
    exact first
  · next op found =>
    obtain ⟨mark, split⟩ := binaryOp?_split found
    have := op.bound
    split at h
    · cases h
      exact first
    · obtain ⟨right, read, h⟩ := bind_eq_ok_iff.mp h
      have := right.bound
      obtain ⟨whole, others, h⟩ := bind_eq_ok_iff.mp h
      cases h
      have head := first.spells
      rw [split] at head leads
      have within : op.rest <:+ all := (List.suffix_cons _ _).trans head.endsBefore.suffix
      have second := operation_exposed _ op.rest (order.suffix within) right read
      have spells := Spells.binary head second.spells
      have leads' := leads.step (left.span.merge right.value.span) within
        (operation_sound _ op.rest right read)
      have opened : Opened all
          (.binary (left.span.merge right.value.span) left op.value right.value) right.rest := by
        refine ⟨spells, List.forall_mem_cons.mpr ⟨first.nodes, ?_⟩⟩
        exact List.forall_mem_singleton.mpr (second.nodes_of_suffix within)
      exact operators_exposed least _ right.rest all order
        (opened.exposed (leads'.standsAlone spells)) leads' whole others
termination_by 8 * ts.length

theorem unary_exposed (ts : List Token) (order : InOrder ts) (s : Step Expr 1 ts)
    (h : unary ts = .ok s) : Exposed ts s.value s.rest := by
  have leads := leadsOperation_of_unary (unary_sound ts s h)
  rw [unary] at h
  split at h
  · next op found =>
    have := op.bound
    obtain ⟨operand, read, h⟩ := bind_eq_ok_iff.mp h
    cases h
    obtain ⟨mark, split⟩ := unaryOp?_split found
    have within : op.rest <:+ ts := ⟨[_], split.symm⟩
    have part := unary_exposed op.rest (order.suffix within) operand read
    have spells := spells_unary split part.spells
    have opened : Opened ts _ operand.rest :=
      ⟨spells, List.forall_mem_singleton.mpr (part.nodes_of_suffix within)⟩
    exact opened.exposed (leads.standsAlone spells)
  · next unmarked =>
    split at h
    · next type found =>
      have := type.bound
      obtain ⟨operand, read, h⟩ := bind_eq_ok_iff.mp h
      cases h
      obtain ⟨mark, covered⟩ := castHead?_covers order found
      have part := unary_exposed type.rest (order.suffix covered.suffix) operand read
      have spells := castHead?_spells order found part.spells
      have opened : Opened ts _ operand.rest :=
        ⟨spells, List.forall_mem_singleton.mpr (part.nodes_of_suffix covered.suffix)⟩
      exact opened.exposed (leads.standsAlone spells)
    · next uncast =>
      obtain ⟨target, read, h⟩ := bind_eq_ok_iff.mp h
      have := target.bound
      obtain ⟨whole, others, h⟩ := bind_eq_ok_iff.mp h
      cases h
      have first := primary_opened ts order target read
      have leads := leadsOperand_of_primary (unaryOp?_eq_none unmarked)
        (castHead?_eq_none_iff.mp uncast) (primary_sound ts target read)
      exact suffixes_exposed target.value target.rest ts order
        (first.exposed (leads.standsAlone first.spells)) leads whole others
termination_by 8 * ts.length + 3

/-- Suffixes behind a target that was read from `all`. -/
theorem suffixes_exposed (target : Expr) (ts all : List Token) (order : InOrder all)
    (first : Exposed all target ts) (leads : LeadsOperand all target ts) (s : Step Expr 0 ts)
    (h : suffixes target ts = .ok s) : Exposed all s.value s.rest := by
  rw [suffixes] at h
  split at h
  · next dot found =>
    have := dot.bound
    obtain ⟨name, read, h⟩ := bind_eq_ok_iff.mp h
    have := name.bound
    obtain ⟨whole, others, h⟩ := bind_eq_ok_iff.mp h
    cases h
    have head := first.spells
    rw [accept?_split found] at head leads
    have within : dot.rest <:+ all := (List.suffix_cons _ _).trans head.endsBefore.suffix
    have named := simpleName_sound read
    have covers := simpleName_covers (order.suffix within) read
    have spells := Spells.member (n := ⟨⟨_, _⟩, name.value.span⟩) head named covers
    have leads' : LeadsOperand all (.member (target.span.merge name.value.span) target
        ⟨⟨name.value.node.1, name.value.node.2⟩, name.value.span⟩) name.rest := by
      refine leads.suffix within covers.suffix ?_
      intro m kept closes e rest others
      exact .member (named.shortened (le_length_lexemes kept) closes) others
    have opened : Opened all _ name.rest := ⟨spells, List.forall_mem_singleton.mpr first.nodes⟩
    exact suffixes_exposed _ name.rest all order
      (opened.exposed (leads'.standsAlone spells)) leads' whole others
  · split at h
    · next opening found =>
      have := opening.bound
      obtain ⟨args, read, h⟩ := bind_eq_ok_iff.mp h
      have := args.bound
      obtain ⟨whole, others, h⟩ := bind_eq_ok_iff.mp h
      cases h
      have head := first.spells
      rw [accept?_split found] at head leads
      have within : opening.rest <:+ all := (List.suffix_cons _ _).trans head.endsBefore.suffix
      have listed := arguments_exposed _ opening.rest (order.suffix within) args read
      have spells := Spells.invoke head listed.spells
      have leads' : LeadsOperand all (.invoke (target.span.merge args.value.2) target args.value.1)
          args.rest := by
        refine leads.suffix within (listed.spells.endsBefore (by decide)).suffix ?_
        intro m kept closes e rest others
        exact .invoke ((arguments_sound _ opening.rest args read).shortened
          (le_length_lexemes kept) closes) others
      have opened : Opened all _ args.rest :=
        ⟨spells, List.forall_mem_cons.mpr ⟨first.nodes, listed.nodes_of_suffix within⟩⟩
      exact suffixes_exposed _ args.rest all order
        (opened.exposed (leads'.standsAlone spells)) leads' whole others
    · split at h
      · next opening found =>
        have := opening.bound
        obtain ⟨args, read, h⟩ := bind_eq_ok_iff.mp h
        have := args.bound
        obtain ⟨whole, others, h⟩ := bind_eq_ok_iff.mp h
        cases h
        have head := first.spells
        rw [accept?_split found] at head leads
        have within : opening.rest <:+ all := (List.suffix_cons _ _).trans head.endsBefore.suffix
        have listed := arguments_exposed _ opening.rest (order.suffix within) args read
        have spells := Spells.index head listed.spells
        have leads' : LeadsOperand all (.index (target.span.merge args.value.2) target args.value.1)
            args.rest := by
          refine leads.suffix within (listed.spells.endsBefore (by decide)).suffix ?_
          intro m kept closes e rest others
          exact .index ((arguments_sound _ opening.rest args read).shortened
            (le_length_lexemes kept) closes) others
        have opened : Opened all _ args.rest :=
          ⟨spells, List.forall_mem_cons.mpr ⟨first.nodes, listed.nodes_of_suffix within⟩⟩
        exact suffixes_exposed _ args.rest all order
          (opened.exposed (leads'.standsAlone spells)) leads' whole others
      · cases h
        exact first
termination_by 8 * ts.length

theorem arguments_exposed (close : Punct) (ts : List Token) (order : InOrder ts)
    (s : Step (List Expr × Span) 1 ts) (h : arguments close ts = .ok s) :
    ExposedAll close ts s.value.1 s.value.2 s.rest := by
  rw [arguments] at h
  split at h
  · next closing found =>
    cases h
    exact ⟨spellsAll_nil (accept?_split found), nofun⟩
  · exact argumentList_exposed close ts order s h
termination_by 8 * ts.length + 7

theorem argumentList_exposed (close : Punct) (ts : List Token) (order : InOrder ts)
    (s : Step (List Expr × Span) 1 ts) (h : argumentList close ts = .ok s) :
    ExposedAll close ts s.value.1 s.value.2 s.rest := by
  rw [argumentList] at h
  obtain ⟨first, read, h⟩ := bind_eq_ok_iff.mp h
  have head := expression_exposed ts order first read
  have := first.bound
  split at h
  · next closing found =>
    cases h
    have spells := head.spells
    rw [accept?_split found] at spells
    exact ⟨.last spells, List.forall_mem_singleton.mpr head.nodes⟩
  · obtain ⟨comma, found, h⟩ := bind_eq_ok_iff.mp h
    have := comma.bound
    obtain ⟨others, more, h⟩ := bind_eq_ok_iff.mp h
    cases h
    have spells := head.spells
    rw [expect_split found] at spells
    have within : comma.rest <:+ ts := (List.suffix_cons _ _).trans spells.endsBefore.suffix
    have tail := argumentList_exposed close comma.rest (order.suffix within) others more
    refine ⟨.more spells tail.spells ?_,
      List.forall_mem_cons.mpr ⟨head.nodes, tail.nodes_of_suffix within⟩⟩
    intro none
    refine (argumentList_sound close comma.rest others more).argumentList_ne_nil ?_
    rw [none]
    rfl
termination_by 8 * ts.length + 6

theorem primary_opened (ts : List Token) (order : InOrder ts) (s : Step Expr 1 ts)
    (h : primary ts = .ok s) : Opened ts s.value s.rest := by
  rw [primary.eq_def] at h
  split at h
  · next atom found =>
    cases h
    exact atom?_opened found
  · split at h
    · next start rest _ _ =>
      have within : rest <:+ ⟨.keyword .new, start⟩ :: rest := List.suffix_cons _ _
      obtain ⟨type, read, h⟩ := bind_eq_ok_iff.mp h
      have := type.bound
      have typed := typeRef_sound rest type read
      have covers := typeRef_covers rest (order.suffix within) type read
      obtain ⟨opening, opened, h⟩ := bind_eq_ok_iff.mp h
      have := opening.bound
      obtain ⟨args, read', h⟩ := bind_eq_ok_iff.mp h
      cases h
      rw [expect_split opened] at covers
      rw [expect_ok opened] at typed
      have within' := ((List.suffix_cons _ _).trans covers.suffix).trans within
      have listed := arguments_exposed _ opening.rest (order.suffix within') args read'
      exact ⟨.new typed covers listed.spells, listed.nodes_of_suffix within'⟩
    · next start rest _ _ =>
      have within : rest <:+ ⟨.punct .lparen, start⟩ :: rest := List.suffix_cons _ _
      obtain ⟨inner, read, h⟩ := bind_eq_ok_iff.mp h
      have whole := expression_exposed rest (order.suffix within) inner read
      obtain ⟨closing, closed, h⟩ := bind_eq_ok_iff.mp h
      cases h
      have spells := whole.spells
      rw [expect_split closed] at spells
      exact ⟨.paren spells, List.forall_mem_singleton.mpr (whole.nodes_of_suffix within)⟩
    · exact nameExpr_opened order h
    · cases h
termination_by 8 * ts.length + 2
decreasing_by all_goals subst_vars; simp only [List.length_cons]; omega

end

end Marksmith.Syntax

import Marksmith.Proofs.Syntax.RoundTrip
import Marksmith.Proofs.Syntax.Spans

/-!
Where the nodes of a tree stand in the text that it was read from.

* `Expr.Placed`: every node takes room, holds its parts strictly within itself and in source order,
  and a member access ends with the name of the member;
* `expression_occupies`: what the parser reads is placed, and covers the tokens it was read from;
* `placed_of_parseExpr`, `placed_of_parseStatement`: so is the expression of a whole text.
-/

namespace Marksmith.Syntax

/-! ### Nodes in their places -/

/-- Whether a span lies in another one and leaves room in it. -/
def Span.Holds (s c : Span) : Prop := s.contains c = true ∧ c ≠ s

/-- A span holds what does not begin before it and ends earlier. -/
theorem Span.holds_of_stop_lt {s c : Span} (starts : s.start ≤ c.start) (stops : c.stop < s.stop) :
    s.Holds c := by
  refine ⟨Span.contains_iff.mpr ⟨starts, Nat.le_of_lt stops⟩, fun same => ?_⟩
  rw [same] at stops
  omega

/-- A merged span holds its first part if the second one ends later. -/
theorem Span.holds_first {a b : Span} (starts : a.start ≤ b.start) (stops : a.stop < b.stop) :
    (a.merge b).Holds a := by
  refine holds_of_stop_lt ?_ ?_ <;> simp only [merge] <;> omega

/-- A merged span holds what begins behind the front of its first part. -/
theorem Span.holds_behind {a b c : Span} (room : a.start ≤ b.start) (starts : a.start < c.start)
    (stops : c.stop ≤ b.stop) : (a.merge b).Holds c := by
  refine ⟨Span.contains_iff.mpr ?_, fun same => ?_⟩
  · simp only [merge]
    omega
  · have := congrArg Span.start same
    simp only [merge] at this
    omega

namespace Expr

/-- The name behind the point of a member access. -/
def memberName? : Expr → Option (Located SimpleName)
  | member _ _ n => some n
  | _ => none

/-- A node that takes room, with its parts and its name where they belong. -/
structure WellPlaced (e : Expr) : Prop where
  forward : e.span.start < e.span.stop
  holds : ∀ c ∈ e.children, e.span.Holds c.span
  inOrder : e.children.Pairwise fun a b => a.span.stop ≤ b.span.start
  named : ∀ n, e.memberName? = some n →
    (∀ c ∈ e.children, c.span.stop ≤ n.span.start) ∧ n.span.start < n.span.stop ∧
      n.span.stop = e.span.stop

/-- A tree all of whose nodes are where they belong. -/
def Placed (e : Expr) : Prop := ∀ n ∈ e.nodes, n.WellPlaced

theorem placed_iff {e : Expr} : e.Placed ↔ e.WellPlaced ∧ ∀ c ∈ e.children, c.Placed := by
  rw [Placed, nodes_eq, List.forall_mem_cons, List.forall_mem_flatMap]
  exact Iff.rfl

/-- Without parts and without a member's name, a node only has to take room. -/
theorem placed_leaf {e : Expr} (forward : e.span.start < e.span.stop) (leaf : e.children = [])
    (unnamed : e.memberName? = none) : e.Placed := by
  refine placed_iff.mpr ⟨⟨forward, ?_, ?_, ?_⟩, ?_⟩ <;> simp [leaf, unnamed]

/-- A node with one part and no member's name. -/
theorem placed_single {e c : Expr} (only : e.children = [c]) (unnamed : e.memberName? = none)
    (forward : e.span.start < e.span.stop) (holds : e.span.Holds c.span) (placed : c.Placed) :
    e.Placed := by
  refine placed_iff.mpr ⟨⟨forward, ?_, ?_, ?_⟩, ?_⟩ <;> simp [only, unnamed, holds, placed]

end Expr

/-- An expression is placed and covers the tokens that it was read from. -/
structure Occupies (ts : List Token) (e : Expr) (rest : List Token) : Prop where
  covers : Covers ts e.span rest
  placed : e.Placed

/-- Arguments stand in order between the front of `ts` and a closing mark. -/
structure Listed (ts : List Token) (es : List Expr) (closing : Span) (rest : List Token) :
    Prop where
  placed : ∀ e ∈ es, e.Placed
  between : ∀ e ∈ es, (frontSpan ts).start ≤ e.span.start ∧ e.span.stop ≤ closing.start
  inOrder : es.Pairwise fun a b => a.span.stop ≤ b.span.start
  closes : ∃ mid, mid <:+ ts ∧ Covers mid closing rest

variable {ts : List Token}

/-! ### The pieces of the parser -/

theorem binaryOp?_covers {s : Step BinaryOp 1 ts} (h : binaryOp? ts = some s) :
    ∃ span, Covers ts span s.rest := by
  obtain ⟨mark, split⟩ := binaryOp?_split h
  exact ⟨mark, .of_split split (by simp)⟩

theorem unaryOp?_covers {s : Step UnaryOp 1 ts} (h : unaryOp? ts = some s) :
    ∃ span, Covers ts span s.rest := by
  obtain ⟨mark, split⟩ := unaryOp?_split h
  exact ⟨mark, .of_split split (by simp)⟩

/-- The token of a name. -/
def nameToken (name : Located String) : Token := ⟨.ident name.node, name.span⟩

/-- Whether a token is an identifier. -/
def Token.isIdent (t : Token) : Bool := t.lexeme matches .ident _

theorem lambdaParams_idents {s : Step (List (Located String)) 2 ts}
    (h : lambdaParams ts = some s) : ∃ front, ts = front ++ s.rest ∧
      front.filter Token.isIdent = s.value.map nameToken := by
  fun_induction lambdaParams ts with
  | case1 name span closing rest =>
    cases h
    exact ⟨[_, _], rfl, rfl⟩
  | case2 name span comma rest ih =>
    obtain ⟨more, read, rfl⟩ := Option.map_eq_some_iff.mp h
    obtain ⟨front, split, idents⟩ := ih read
    refine ⟨⟨.ident name, span⟩ :: ⟨.punct .comma, comma⟩ :: front, by simp [← split], ?_⟩
    exact congrArg _ idents
  | case3 => cases h

/-- The parameters of a lambda are the identifiers in its head. -/
theorem lambdaHead?_idents {s : Step (List (Located String)) 2 ts}
    (h : lambdaHead? ts = some s) : ∃ front, ts = front ++ s.rest ∧
      front.filter Token.isIdent = s.value.map nameToken := by
  unfold lambdaHead? at h
  split at h
  · cases h
    exact ⟨[_, _], rfl, rfl⟩
  · cases h
    exact ⟨[_, _, _], rfl, rfl⟩
  · next opening inner _ =>
    simp only [Option.bind_eq_bind, Option.bind_eq_some_iff] at h
    obtain ⟨params, read, arrow, found, h⟩ := h
    cases h
    obtain ⟨front, split, idents⟩ := lambdaParams_idents read
    refine ⟨⟨.punct .lparen, opening⟩ :: (front ++ [⟨.punct .arrow, arrow.value⟩]), ?_, ?_⟩
    · rw [List.cons_append, List.append_assoc, List.singleton_append, ← accept?_split found,
        ← split]
    · rw [List.filter_cons_of_neg (by simp [Token.isIdent]), List.filter_append, idents]
      exact List.append_nil _
  · cases h

theorem lambdaHead?_covers (order : InOrder ts) {s : Step (List (Located String)) 2 ts}
    (h : lambdaHead? ts = some s) : ∃ span, Covers ts span s.rest := by
  unfold lambdaHead? at h
  split at h
  · next name span arrow rest =>
    cases h
    exact ⟨_, Covers.front order ⟨[_], rfl⟩ (Covers.token (t := ⟨.punct .arrow, arrow⟩) (by simp))⟩
  · next opening closing arrow rest =>
    cases h
    exact ⟨_, Covers.front order ⟨[_, _], rfl⟩
      (Covers.token (t := ⟨.punct .arrow, arrow⟩) (by simp))⟩
  · next opening inner _ =>
    simp only [Option.bind_eq_bind, Option.bind_eq_some_iff] at h
    obtain ⟨params, read, arrow, found, h⟩ := h
    cases h
    obtain ⟨front, split, -⟩ := lambdaParams_idents read
    have within : params.rest <:+ ⟨.punct .lparen, opening⟩ :: inner :=
      ⟨⟨.punct .lparen, opening⟩ :: front, congrArg _ split.symm⟩
    exact ⟨_, Covers.front order within (accept?_covers found)⟩
  · cases h

theorem atom?_occupies (order : InOrder ts) {s : Step Expr 1 ts} (h : atom? ts = some s) :
    Occupies ts s.value s.rest := by
  unfold atom? at h
  split at h
  · next span rest =>
    cases h
    have whole : Covers (⟨.keyword .this, span⟩ :: rest) span rest := .token (by simp)
    exact ⟨whole, Expr.placed_leaf (whole.forward order) rfl rfl⟩
  · next lexeme span rest _ =>
    obtain ⟨v, found, rfl⟩ := Option.map_eq_some_iff.mp h
    have whole : Covers (⟨lexeme, span⟩ :: rest) span rest := .token (by rintro rfl; cases found)
    exact ⟨whole, Expr.placed_leaf (whole.forward order) rfl rfl⟩
  · cases h

theorem nameExpr_occupies (order : InOrder ts) {s : Step Expr 1 ts} (h : nameExpr ts = .ok s) :
    Occupies ts s.value s.rest := by
  unfold nameExpr at h
  obtain ⟨name, read, h⟩ := bind_eq_ok_iff.mp h
  cases h
  have within := skipAlias_suffix ts
  have whole := (simpleName_covers (order.suffix within) read).front order within
  exact ⟨whole, Expr.placed_leaf (whole.forward order) rfl rfl⟩

/-! ### Nodes from their pieces -/

variable {mid behind rest : List Token} {a b : Span} {e : Expr} {es : List Expr}

/-- What stands behind something that was read begins where that ends, or later. -/
theorem Covers.before (order : InOrder ts) (head : Covers ts a mid) (within : behind <:+ mid)
    (later : Covers behind b rest) : a.start < a.stop ∧ a.stop ≤ b.start ∧ b.start < b.stop := by
  refine ⟨head.forward order, ?_, later.forward (order.suffix (within.trans head.suffix))⟩
  rw [later.start_eq]
  exact head.stop_le_front order within later.ne_nil

/-- A node that begins with the front token and ends with its one part. -/
theorem occupies_front {node : Expr} (order : InOrder ts) (head : Covers ts a mid)
    (part : Occupies mid e rest) (only : node.children = [e]) (unnamed : node.memberName? = none)
    (span : node.span = (frontSpan ts).merge e.span) : Occupies ts node rest := by
  have whole := Covers.front order head.suffix part.covers
  have places := head.before order (List.suffix_refl _) part.covers
  have begins := head.start_eq
  rw [← span] at whole
  refine ⟨whole, Expr.placed_single only unnamed (whole.forward order) ?_ part.placed⟩
  rw [span]
  exact Span.holds_behind (by omega) (by omega) (Nat.le_refl _)

theorem occupies_paren {opening closing : Span} (order : InOrder ts) (head : Covers ts opening mid)
    (inner : Occupies mid e behind) (closed : Covers behind closing rest) :
    Occupies ts (.paren (opening.merge closing) e) rest := by
  have whole := head.extend order inner.covers.suffix closed
  have front := head.before order (List.suffix_refl _) inner.covers
  have back := inner.covers.before (order.suffix head.suffix) (List.suffix_refl _) closed
  refine ⟨whole, Expr.placed_single rfl rfl (whole.forward order) ?_ inner.placed⟩
  exact Span.holds_behind (by omega) (by omega) (by omega)

theorem occupies_binary {left right : Expr} (op : BinaryOp) (order : InOrder ts)
    (first : Occupies ts left mid) (operator : Covers mid a behind)
    (second : Occupies behind right rest) :
    Occupies ts (.binary (left.span.merge right.span) left op right) rest := by
  have whole := first.covers.extend order operator.suffix second.covers
  have places := first.covers.before order operator.suffix second.covers
  refine ⟨whole, Expr.placed_iff.mpr ⟨⟨whole.forward order, ?holds, ?inOrder, ?named⟩, ?parts⟩⟩
  case holds =>
    refine List.forall_mem_cons.mpr ⟨?_, List.forall_mem_singleton.mpr ?_⟩
    · exact Span.holds_first (by omega) (by omega)
    · exact Span.holds_behind (by omega) (by omega) (Nat.le_refl _)
  case inOrder => simpa [Expr.children] using places.2.1
  case named => simp [Expr.memberName?]
  case parts => simpa [Expr.children] using ⟨first.placed, second.placed⟩

theorem occupies_member {target : Expr} {n : Located SimpleName} (order : InOrder ts)
    (first : Occupies ts target mid) (dot : Covers mid a behind)
    (name : Covers behind n.span rest) :
    Occupies ts (.member (target.span.merge n.span) target n) rest := by
  have whole := first.covers.extend order dot.suffix name
  have places := first.covers.before order dot.suffix name
  refine ⟨whole, Expr.placed_iff.mpr ⟨⟨whole.forward order, ?holds, ?inOrder, ?named⟩, ?parts⟩⟩
  case holds =>
    exact List.forall_mem_singleton.mpr (Span.holds_first (by omega) (by omega))
  case inOrder => exact List.pairwise_singleton ..
  case named =>
    rintro _ ⟨⟩
    have ends : max target.span.stop n.span.stop = n.span.stop := by omega
    exact ⟨List.forall_mem_singleton.mpr places.2.1, places.2.2, ends.symm⟩
  case parts => exact List.forall_mem_singleton.mpr first.placed

/-- Arguments in brackets that begin behind something. -/
theorem Listed.past {closing : Span} (order : InOrder ts) (head : Covers ts a mid)
    (within : behind <:+ mid) (args : Listed behind es closing rest) :
    (∃ inner, inner <:+ mid ∧ Covers inner closing rest) ∧ a.stop ≤ closing.start ∧
      closing.start < closing.stop ∧
      ∀ e ∈ es, a.stop ≤ e.span.start ∧ e.span.stop ≤ closing.start := by
  obtain ⟨inner, sub, closes⟩ := args.closes
  have places := head.before order (sub.trans within) closes
  have some : behind ≠ [] := fun none => by
    subst none
    exact closes.ne_nil (List.suffix_nil.mp sub)
  have front := head.stop_le_front order within some
  refine ⟨⟨inner, sub.trans within, closes⟩, places.2.1, places.2.2, fun e mem => ?_⟩
  have between := args.between e mem
  omega

theorem occupies_new {start closing : Span} {type : Located TypeRef} (order : InOrder ts)
    (head : Covers ts start mid) (within : behind <:+ mid) (args : Listed behind es closing rest) :
    Occupies ts (.new (start.merge closing) type es) rest := by
  obtain ⟨⟨inner, sub, closes⟩, gap, room, places⟩ := args.past order head within
  have whole := head.extend order sub closes
  have forward := head.forward order
  refine ⟨whole, Expr.placed_iff.mpr ⟨⟨whole.forward order, ?holds, args.inOrder, ?named⟩,
    args.placed⟩⟩
  case holds =>
    intro e mem
    have := places e mem
    exact Span.holds_behind (by omega) (by omega) (by omega)
  case named => simp [Expr.memberName?]

/-- A call or an element access: a target with arguments in brackets behind it. -/
theorem occupies_applied {node target : Expr} {closing : Span} (order : InOrder ts)
    (first : Occupies ts target mid) (opening : Covers mid a behind)
    (args : Listed behind es closing rest) (parts : node.children = target :: es)
    (unnamed : node.memberName? = none) (span : node.span = target.span.merge closing) :
    Occupies ts node rest := by
  obtain ⟨⟨inner, sub, closes⟩, gap, room, places⟩ :=
    args.past (order.suffix first.covers.suffix) opening (List.suffix_refl _)
  have whole := first.covers.extend order (sub.trans opening.suffix) closes
  have front := first.covers.before order (List.suffix_refl _) opening
  rw [← span] at whole
  refine ⟨whole, Expr.placed_iff.mpr ⟨⟨whole.forward order, ?holds, ?inOrder, ?named⟩, ?placed⟩⟩
  case holds =>
    rw [parts, span]
    refine List.forall_mem_cons.mpr ⟨?_, fun e mem => ?_⟩
    · exact Span.holds_first (by omega) (by omega)
    · have := places e mem
      exact Span.holds_behind (by omega) (by omega) (by omega)
  case inOrder =>
    rw [parts]
    refine List.pairwise_cons.mpr ⟨fun e mem => ?_, args.inOrder⟩
    have := places e mem
    omega
  case named => simp [unnamed]
  case placed =>
    rw [parts]
    exact List.forall_mem_cons.mpr ⟨first.placed, args.placed⟩

theorem listed_nil {closing : Span} (closed : Covers ts closing rest) : Listed ts [] closing rest :=
  ⟨by simp, by simp, by simp, ts, List.suffix_refl _, closed⟩

theorem listed_single {closing : Span} (order : InOrder ts) (only : Occupies ts e mid)
    (closed : Covers mid closing rest) : Listed ts [e] closing rest := by
  have places := only.covers.before order (List.suffix_refl _) closed
  refine ⟨?_, ?_, List.pairwise_singleton .., mid, only.covers.suffix, closed⟩
  · exact List.forall_mem_singleton.mpr only.placed
  · exact List.forall_mem_singleton.mpr ⟨Nat.le_of_eq only.covers.start_eq.symm, places.2.1⟩

theorem listed_cons {closing comma : Span} (order : InOrder ts) (first : Occupies ts e mid)
    (separated : Covers mid comma behind) (others : Listed behind es closing rest) :
    Listed ts (e :: es) closing rest := by
  obtain ⟨⟨inner, sub, closes⟩, gap, -, places⟩ :=
    others.past (order.suffix first.covers.suffix) separated (List.suffix_refl _)
  have front := first.covers.before order (List.suffix_refl _) separated
  have begins := first.covers.start_eq
  refine ⟨List.forall_mem_cons.mpr ⟨first.placed, others.placed⟩, ?between, ?inOrder, inner,
    sub.trans (separated.suffix.trans first.covers.suffix), closes⟩
  case between =>
    refine List.forall_mem_cons.mpr ⟨by omega, fun c mem => ?_⟩
    have := places c mem
    omega
  case inOrder =>
    refine List.pairwise_cons.mpr ⟨fun c mem => ?_, others.inOrder⟩
    have := places c mem
    omega

/-! ### What the parser reads is placed -/

mutual

theorem expression_occupies (ts : List Token) (order : InOrder ts) (s : Step Expr 1 ts)
    (h : expression ts = .ok s) : Occupies ts s.value s.rest := by
  rw [expression] at h
  split at h
  · next head found =>
    have := head.bound
    obtain ⟨body, read, h⟩ := bind_eq_ok_iff.mp h
    cases h
    obtain ⟨arrow, covered⟩ := lambdaHead?_covers order found
    have part := expression_occupies head.rest (order.suffix covered.suffix) body read
    exact occupies_front order covered part rfl rfl rfl
  · exact operation_occupies 0 ts order s h
termination_by 8 * ts.length + 5

theorem operation_occupies (least : Nat) (ts : List Token) (order : InOrder ts) (s : Step Expr 1 ts)
    (h : operation least ts = .ok s) : Occupies ts s.value s.rest := by
  rw [operation] at h
  obtain ⟨left, read, h⟩ := bind_eq_ok_iff.mp h
  have := left.bound
  obtain ⟨whole, others, h⟩ := bind_eq_ok_iff.mp h
  cases h
  exact operators_occupies least left.value left.rest ts order
    (unary_occupies ts order left read) whole others
termination_by 8 * ts.length + 4

/-- Operators behind a left operand that was read from `all`. -/
theorem operators_occupies (least : Nat) (left : Expr) (ts all : List Token) (order : InOrder all)
    (first : Occupies all left ts) (s : Step Expr 0 ts) (h : operators least left ts = .ok s) :
    Occupies all s.value s.rest := by
  rw [operators] at h
  split at h
  · cases h
    exact first
  · next op found =>
    obtain ⟨mark, covered⟩ := binaryOp?_covers found
    have := op.bound
    split at h
    · cases h
      exact first
    · obtain ⟨right, read, h⟩ := bind_eq_ok_iff.mp h
      have := right.bound
      obtain ⟨whole, others, h⟩ := bind_eq_ok_iff.mp h
      cases h
      have within := covered.suffix.trans first.covers.suffix
      have second := operation_occupies _ op.rest (order.suffix within) right read
      exact operators_occupies least _ right.rest all order
        (occupies_binary op.value order first covered second) whole others
termination_by 8 * ts.length

theorem unary_occupies (ts : List Token) (order : InOrder ts) (s : Step Expr 1 ts)
    (h : unary ts = .ok s) : Occupies ts s.value s.rest := by
  rw [unary] at h
  split at h
  · next op found =>
    have := op.bound
    obtain ⟨operand, read, h⟩ := bind_eq_ok_iff.mp h
    cases h
    obtain ⟨mark, covered⟩ := unaryOp?_covers found
    have part := unary_occupies op.rest (order.suffix covered.suffix) operand read
    exact occupies_front order covered part rfl rfl rfl
  · split at h
    · next type found =>
      have := type.bound
      obtain ⟨operand, read, h⟩ := bind_eq_ok_iff.mp h
      cases h
      obtain ⟨mark, covered⟩ := castHead?_covers order found
      have part := unary_occupies type.rest (order.suffix covered.suffix) operand read
      exact occupies_front order covered part rfl rfl rfl
    · obtain ⟨target, read, h⟩ := bind_eq_ok_iff.mp h
      have := target.bound
      obtain ⟨whole, others, h⟩ := bind_eq_ok_iff.mp h
      cases h
      exact suffixes_occupies target.value target.rest ts order
        (primary_occupies ts order target read) whole others
termination_by 8 * ts.length + 3

/-- Suffixes behind a target that was read from `all`. -/
theorem suffixes_occupies (target : Expr) (ts all : List Token) (order : InOrder all)
    (first : Occupies all target ts) (s : Step Expr 0 ts) (h : suffixes target ts = .ok s) :
    Occupies all s.value s.rest := by
  have behind := order.suffix first.covers.suffix
  rw [suffixes] at h
  split at h
  · next dot found =>
    have := dot.bound
    have pointed := accept?_covers found
    obtain ⟨name, read, h⟩ := bind_eq_ok_iff.mp h
    have := name.bound
    obtain ⟨whole, others, h⟩ := bind_eq_ok_iff.mp h
    cases h
    have named := simpleName_covers (behind.suffix pointed.suffix) read
    exact suffixes_occupies _ name.rest all order
      (occupies_member (n := ⟨⟨_, _⟩, name.value.span⟩) order first pointed named) whole others
  · split at h
    · next opening found =>
      have := opening.bound
      have opened := accept?_covers found
      obtain ⟨args, read, h⟩ := bind_eq_ok_iff.mp h
      have := args.bound
      obtain ⟨whole, others, h⟩ := bind_eq_ok_iff.mp h
      cases h
      have listed := arguments_listed _ opening.rest (behind.suffix opened.suffix) args read
      exact suffixes_occupies _ args.rest all order
        (occupies_applied order first opened listed rfl rfl rfl) whole others
    · split at h
      · next opening found =>
        have := opening.bound
        have opened := accept?_covers found
        obtain ⟨args, read, h⟩ := bind_eq_ok_iff.mp h
        have := args.bound
        obtain ⟨whole, others, h⟩ := bind_eq_ok_iff.mp h
        cases h
        have listed := arguments_listed _ opening.rest (behind.suffix opened.suffix) args read
        exact suffixes_occupies _ args.rest all order
          (occupies_applied order first opened listed rfl rfl rfl) whole others
      · cases h
        exact first
termination_by 8 * ts.length

theorem arguments_listed (close : Punct) (ts : List Token) (order : InOrder ts)
    (s : Step (List Expr × Span) 1 ts) (h : arguments close ts = .ok s) :
    Listed ts s.value.1 s.value.2 s.rest := by
  rw [arguments] at h
  split at h
  · next closing found =>
    cases h
    exact listed_nil (accept?_covers found)
  · exact argumentList_listed close ts order s h
termination_by 8 * ts.length + 7

theorem argumentList_listed (close : Punct) (ts : List Token) (order : InOrder ts)
    (s : Step (List Expr × Span) 1 ts) (h : argumentList close ts = .ok s) :
    Listed ts s.value.1 s.value.2 s.rest := by
  rw [argumentList] at h
  obtain ⟨first, read, h⟩ := bind_eq_ok_iff.mp h
  have head := expression_occupies ts order first read
  have := first.bound
  split at h
  · next closing found =>
    cases h
    exact listed_single order head (accept?_covers found)
  · obtain ⟨comma, found, h⟩ := bind_eq_ok_iff.mp h
    have := comma.bound
    have separated := expect_covers found
    obtain ⟨others, more, h⟩ := bind_eq_ok_iff.mp h
    cases h
    have within := separated.suffix.trans head.covers.suffix
    have tail := argumentList_listed close comma.rest (order.suffix within) others more
    exact listed_cons order head separated tail
termination_by 8 * ts.length + 6

theorem primary_occupies (ts : List Token) (order : InOrder ts) (s : Step Expr 1 ts)
    (h : primary ts = .ok s) : Occupies ts s.value s.rest := by
  rw [primary.eq_def] at h
  split at h
  · next atom found =>
    cases h
    exact atom?_occupies order found
  · split at h
    · next start rest _ _ =>
      have begun : Covers (⟨.keyword .new, start⟩ :: rest) start rest := .token (by simp)
      obtain ⟨type, read, h⟩ := bind_eq_ok_iff.mp h
      have := type.bound
      have head := typeRef_covers rest (order.suffix begun.suffix) type read
      obtain ⟨opening, opened, h⟩ := bind_eq_ok_iff.mp h
      have := opening.bound
      have within := (expect_covers opened).suffix.trans head.suffix
      obtain ⟨args, read', h⟩ := bind_eq_ok_iff.mp h
      cases h
      have listed := arguments_listed _ opening.rest
        (order.suffix (within.trans begun.suffix)) args read'
      exact occupies_new order begun within listed
    · next start rest _ _ =>
      have begun : Covers (⟨.punct .lparen, start⟩ :: rest) start rest := .token (by simp)
      obtain ⟨inner, read, h⟩ := bind_eq_ok_iff.mp h
      have whole := expression_occupies rest (order.suffix begun.suffix) inner read
      obtain ⟨closing, closed, h⟩ := bind_eq_ok_iff.mp h
      cases h
      exact occupies_paren order begun whole (expect_covers closed)
    · exact nameExpr_occupies order h
    · cases h
termination_by 8 * ts.length + 2
decreasing_by all_goals subst_vars; simp only [List.length_cons]; omega

end

/-! ### Whole texts -/

theorem placed_of_parseExpr {text : String} (h : parseExpr text = .ok e) : e.Placed := by
  obtain ⟨ts, s, lexed, read, rfl, -⟩ := parseAll_eq_ok_iff.mp h
  exact (expression_occupies ts (inOrder_of_lex lexed) s read).placed

theorem assignmentHead?_suffix {s : Step (Located String) 2 ts} (h : assignmentHead? ts = some s) :
    s.rest <:+ ts := by
  unfold assignmentHead? at h
  split at h
  · cases h
    exact ⟨[_, _], rfl⟩
  · cases h
    exact ⟨[_, _, _, _], rfl⟩
  · cases h

/-- The target of an assignment is a token in front of its value. -/
theorem assignmentHead?_sublist {s : Step (Located String) 2 ts}
    (h : assignmentHead? ts = some s) :
    (⟨.ident s.value.node, s.value.span⟩ :: s.rest).Sublist ts := by
  unfold assignmentHead? at h
  split at h
  · cases h
    exact (List.sublist_cons_self _ _).cons_cons _
  · cases h
    exact (((List.sublist_cons_self _ _).cons_cons _).cons _).cons _
  · cases h

theorem statement_placed (order : InOrder ts) {s : Step Statement 1 ts}
    (h : statement ts = .ok s) : s.value.value.Placed := by
  obtain ⟨head, found, value, read, made, -⟩ | ⟨-, value, read, made, -⟩ := statement_cases h
  · rw [made]
    have within := order.suffix (assignmentHead?_suffix found)
    exact (expression_occupies head.rest within value read).placed
  · rw [made]
    exact (expression_occupies ts order value read).placed

theorem placed_of_parseStatement {text : String} {u : Statement} (h : parseStatement text = .ok u) :
    u.value.Placed := by
  obtain ⟨ts, s, lexed, read, rfl, -⟩ := parseAll_eq_ok_iff.mp h
  exact statement_placed (inOrder_of_lex lexed) read

end Marksmith.Syntax

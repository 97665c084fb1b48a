import Mathlib.Data.List.Pairwise
import Mathlib.Data.List.Perm.Basic
import Marksmith.Proofs.Syntax.Boundaries
import Marksmith.Syntax.Expr.Names

/-!
The names of an expression are met in source order, each of them once.

* `names_perm`: the names of an expression are those that its nodes are, as often as its nodes are
  names;
* `Placed.pairwise_names`: in a placed expression they stand one behind the other;
* `Placed.apart_of_mem_names`: what is written in front of the parts of a node, such as the
  parameters of a lambda or the type of a cast, is apart from all of them;
* `names_inOrder`: all of that holds of whatever is read from a text.
-/

namespace Marksmith.Syntax

theorem Span.contains_trans {a b c : Span} (ab : a.contains b = true)
    (bc : b.contains c = true) : a.contains c = true := by
  rw [Span.contains_iff] at ab bc ⊢
  omega

/-- One of the spans ends before the other one begins. -/
def Span.Apart (a b : Span) : Prop := a.stop ≤ b.start ∨ b.stop ≤ a.start

/-- What lies in spans that are apart is apart. -/
theorem Span.Apart.mono {a b c d : Span} (apart : a.Apart b) (inner : a.contains c = true)
    (other : b.contains d = true) : c.Apart d := by
  rw [Span.contains_iff] at inner other
  rcases apart with before | behind
  · left
    omega
  · right
    omega

namespace Expr

/-! ### Names and nodes -/

/-- The use that a node itself is. -/
def ownUse? : Expr → Option NameUse
  | name s n => some (.bare n s)
  | member s target n => some (.member n.node n.span target s)
  | _ => none

/-- The names of an expression are those of its parts and, behind them, its own. -/
theorem names_eq (e : Expr) : e.names = e.children.flatMap names ++ e.ownUse?.toList := by
  cases e <;> simp [names, children, ownUse?, namesList_eq]

theorem mem_names_iff {e : Expr} {use : NameUse} :
    use ∈ e.names ↔ (∃ c ∈ e.children, use ∈ c.names) ∨ e.ownUse? = some use := by
  rw [names_eq, List.mem_append, List.mem_flatMap, Option.mem_toList]

/-- Every node that is a name is met once, and nothing else is. -/
theorem names_perm (e : Expr) : e.names.Perm (e.nodes.filterMap ownUse?) := by
  induction e using inductionOnParts with
  | node e ih =>
    have parts : (e.children.flatMap names).Perm
        ((e.children.flatMap nodes).filterMap ownUse?) := by
      rw [List.filterMap_flatMap]
      exact List.Perm.flatMap_left _ ih
    have split : e.nodes.filterMap ownUse?
        = e.ownUse?.toList ++ (e.children.flatMap nodes).filterMap ownUse? := by
      rw [nodes_eq, List.filterMap_cons]
      cases e.ownUse? <;> rfl
    rw [names_eq, split]
    exact List.perm_append_comm.trans (parts.append_left _)

theorem exists_node_of_mem_names {e : Expr} {use : NameUse} (mem : use ∈ e.names) :
    ∃ n ∈ e.nodes, n.ownUse? = some use :=
  List.mem_filterMap.mp ((names_perm e).mem_iff.mp mem)

/-- What is met as the name of a member comes from a node that accesses it. -/
theorem access_mem_nodes {e target : Expr} {name : SimpleName} {span access : Span}
    (mem : .member name span target access ∈ e.names) :
    .member access target ⟨name, span⟩ ∈ e.nodes := by
  obtain ⟨n, node, own⟩ := exists_node_of_mem_names mem
  cases n with
  | member s t x =>
    cases own
    exact node
  | name => cases own
  | _ => cases own

/-! ### Where names stand -/

/-- A name takes room within the node that it belongs to. -/
theorem Placed.ownUse?_within {n : Expr} {use : NameUse} (placed : n.Placed)
    (own : n.ownUse? = some use) :
    use.span.start < use.span.stop ∧ n.span.contains use.span = true := by
  obtain ⟨well, parts⟩ := placed_iff.mp placed
  cases n with
  | name s x =>
    cases own
    exact ⟨well.forward, Span.contains_iff.mpr ⟨Nat.le_refl _, Nat.le_refl _⟩⟩
  | member s target x =>
    cases own
    have inside := well.holds_name rfl fun c part => (placed_iff.mp (parts c part)).1
    exact ⟨(well.named x rfl).2.1, inside.1⟩
  | _ => cases own

theorem Placed.names_within {e : Expr} (placed : e.Placed) {use : NameUse}
    (mem : use ∈ e.names) :
    use.span.start < use.span.stop ∧ e.span.contains use.span = true := by
  induction e using inductionOnParts with
  | node e ih =>
    obtain ⟨well, parts⟩ := placed_iff.mp placed
    rcases mem_names_iff.mp mem with ⟨c, part, inner⟩ | own
    · obtain ⟨room, inside⟩ := ih c part (parts c part) inner
      exact ⟨room, Span.contains_trans (well.holds c part).1 inside⟩
    · exact placed.ownUse?_within own

/-- The name of a node stands behind its parts. -/
theorem WellPlaced.behind_parts {e c : Expr} {use : NameUse} (well : e.WellPlaced)
    (part : c ∈ e.children) (own : e.ownUse? = some use) : c.span.stop ≤ use.span.start := by
  cases e with
  | name => cases part
  | member s target n =>
    cases own
    exact (well.named n rfl).1 c part
  | _ => cases own

/-- The names of a placed expression stand one behind the other. -/
theorem Placed.pairwise_names {e : Expr} (placed : e.Placed) :
    e.names.Pairwise fun a b => a.span.stop ≤ b.span.start := by
  induction e using inductionOnParts with
  | node e ih =>
    obtain ⟨well, parts⟩ := placed_iff.mp placed
    rw [names_eq, List.pairwise_append, List.pairwise_flatMap]
    refine ⟨⟨fun c part => ih c part (parts c part), ?between⟩, ?own, ?last⟩
    case between =>
      refine well.inOrder.imp_of_mem fun {c d} partC partD gap a inC b inD => ?_
      have before := Span.contains_iff.mp ((parts c partC).names_within inC).2
      have behind := Span.contains_iff.mp ((parts d partD).names_within inD).2
      omega
    case own =>
      cases e.ownUse? with
      | none => exact .nil
      | some use => exact List.pairwise_singleton ..
    case last =>
      intro a mem b own
      obtain ⟨c, part, mem⟩ := List.mem_flatMap.mp mem
      have inside := Span.contains_iff.mp ((parts c part).names_within mem).2
      have behind := well.behind_parts part (Option.mem_toList.mp own)
      omega

/-! ### What stands between names -/

/-- Different parts of a node are apart. -/
theorem WellPlaced.apart_parts {e c d : Expr} (well : e.WellPlaced) (partC : c ∈ e.children)
    (partD : d ∈ e.children) (other : c ≠ d) : c.span.Apart d.span := by
  have apart : e.children.Pairwise fun a b => a.span.Apart b.span := well.inOrder.imp .inl
  have : Std.Symm fun a b : Expr => a.span.Apart b.span := ⟨fun _ _ => Or.symm⟩
  exact apart.forall partC partD other

theorem headSpans_of_ownUse? {e : Expr} {use : NameUse} (own : e.ownUse? = some use) :
    e.headSpans = [] := by
  cases e with
  | name | member => rfl
  | _ => cases own

/-- What is written in front of the parts of a node ends before each of them. -/
theorem heads_before {e c : Expr} {h : Span} (arranged : Arranged e.span e.partSpans)
    (head : h ∈ e.headSpans) (part : c ∈ e.children) : h.stop ≤ c.span.start :=
  (List.pairwise_append.mp arranged.inOrder).2.2 h head c.span
    (List.mem_append_left _ (List.mem_map_of_mem part))

/-- What is written in front of the parts of any node is apart from all names. -/
theorem Placed.apart_of_mem_names {e : Expr} (placed : e.Placed)
    (arranged : ∀ n ∈ e.nodes, Arranged n.span n.partSpans) {use : NameUse} (mem : use ∈ e.names)
    {n : Expr} (node : n ∈ e.nodes) {h : Span} (head : h ∈ n.headSpans) :
    h.Apart use.span := by
  induction e using inductionOnParts with
  | node e ih =>
    obtain ⟨well, parts⟩ := placed_iff.mp placed
    rw [nodes_eq] at arranged node
    obtain ⟨own, inner⟩ := List.forall_mem_cons.mp arranged
    have within {c : Expr} (part : c ∈ e.children) (inC : n ∈ c.nodes) :
        c.span.contains h = true := by
      have holds := (arranged n node).holds h (List.mem_append_left _ head)
      exact Span.contains_trans ((parts c part).nested.contains ⟨n, inC, rfl⟩) holds.1
    rcases List.mem_cons.mp node with rfl | deeper
    · rcases mem_names_iff.mp mem with ⟨d, partD, inD⟩ | self
      · have before := heads_before own head partD
        have behind := Span.contains_iff.mp ((parts d partD).names_within inD).2
        left
        omega
      · rw [headSpans_of_ownUse? self] at head
        cases head
    · obtain ⟨c, partC, inC⟩ := List.mem_flatMap.mp deeper
      rcases mem_names_iff.mp mem with ⟨d, partD, inD⟩ | self
      · by_cases same : c = d
        · subst same
          refine ih c partC (parts c partC) (fun m inside => ?_) inD inC
          exact inner m (List.mem_flatMap.mpr ⟨c, partC, inside⟩)
        · exact (well.apart_parts partC partD same).mono (within partC inC)
            ((parts d partD).names_within inD).2
      · have inside := Span.contains_iff.mp (within partC inC)
        have behind := well.behind_parts partC self
        left
        omega

/-- The names of an expression as they are met: each node that is a name, or that accesses a member,
is met once and nothing else is; they take room, one behind the other; the access of a member is the
node that accesses it; and the parameters of lambdas and the types of casts and object creations are
apart from all of them. -/
structure NamesInOrder (e : Expr) : Prop where
  once : e.names.Perm (e.nodes.filterMap ownUse?)
  room : ∀ use ∈ e.names, use.span.start < use.span.stop
  inOrder : e.names.Pairwise fun a b => a.span.stop ≤ b.span.start
  access : ∀ name span target access, .member name span target access ∈ e.names →
    .member access target ⟨name, span⟩ ∈ e.nodes
  heads : ∀ use ∈ e.names, ∀ n ∈ e.nodes, ∀ h ∈ n.headSpans, h.Apart use.span

theorem Placed.namesInOrder {e : Expr} (placed : e.Placed)
    (arranged : ∀ n ∈ e.nodes, Arranged n.span n.partSpans) : e.NamesInOrder where
  once := names_perm e
  room _ mem := (placed.names_within mem).1
  inOrder := placed.pairwise_names
  access _ _ _ _ := access_mem_nodes
  heads _ mem _ node _ head := placed.apart_of_mem_names arranged mem node head

end Expr

/-! ### Names of whole texts -/

variable {text : String}

theorem namesInOrder_of_parseExpr {e : Expr} (read : parseExpr text = .ok e) :
    e.NamesInOrder := by
  obtain ⟨ts, s, lexed, parsed, rfl, -⟩ := parseAll_eq_ok_iff.mp read
  have sited := (expression_reads ts (inOrder_of_lex lexed)).ok s parsed
  exact (placed_of_parseExpr read).namesInOrder fun n node => (sited n node).1

theorem namesInOrder_of_parseStatement {u : Statement} (read : parseStatement text = .ok u) :
    u.value.NamesInOrder := by
  obtain ⟨ts, s, lexed, parsed, rfl, -⟩ := parseAll_eq_ok_iff.mp read
  have tokens := (fits_of_lex text).ok ts lexed
  have spanned := (statement_reads (inOrder_of_lex lexed) tokens).ok s parsed
  exact (placed_of_parseStatement read).namesInOrder spanned.value.arranged

/-- The names of what is read from a text, as an expression or as the value of a statement, are met
in source order and once each. -/
theorem names_inOrder (text : String) :
    (∀ e, parseExpr text = .ok e → e.NamesInOrder) ∧
      ∀ u, parseStatement text = .ok u → u.value.NamesInOrder :=
  ⟨fun _ => namesInOrder_of_parseExpr, fun _ => namesInOrder_of_parseStatement⟩

/-- Neither the parameter of the lambda nor the type of the cast are among the names. -/
theorem exists_namesInOrder_lambda :
    (∃ e, parseExpr "Pick(x => (Game.Enemy)x.Rival).Health" = .ok e ∧ e.NamesInOrder ∧
      e.names.map (fun use => (use.ident, use.span))
        = [("Pick", ⟨0, 4⟩), ("x", ⟨22, 23⟩), ("Rival", ⟨24, 29⟩), ("Health", ⟨31, 37⟩)]) ∧
      ∃ u, parseStatement "Best = Foes.Max(e => e.Health)" = .ok u ∧ u.value.NamesInOrder ∧
        u.value.names.map (fun use => (use.ident, use.span))
          = [("Foes", ⟨7, 11⟩), ("Max", ⟨12, 15⟩), ("e", ⟨21, 22⟩), ("Health", ⟨23, 29⟩)] := by
  constructor
  · have read : (parseExpr "Pick(x => (Game.Enemy)x.Rival).Health").toOption.map
        (fun e => e.names.map fun use => (use.ident, use.span))
        = some [("Pick", ⟨0, 4⟩), ("x", ⟨22, 23⟩), ("Rival", ⟨24, 29⟩), ("Health", ⟨31, 37⟩)] := by
      decide +kernel
    obtain ⟨e, accepted, met⟩ := Option.map_eq_some_iff.mp read
    have parsed := toOption_eq_some_iff.mp accepted
    exact ⟨e, parsed, (names_inOrder _).1 e parsed, met⟩
  · have read : (parseStatement "Best = Foes.Max(e => e.Health)").toOption.map
        (fun u => u.value.names.map fun use => (use.ident, use.span))
        = some [("Foes", ⟨7, 11⟩), ("Max", ⟨12, 15⟩), ("e", ⟨21, 22⟩), ("Health", ⟨23, 29⟩)] := by
      decide +kernel
    obtain ⟨u, accepted, met⟩ := Option.map_eq_some_iff.mp read
    have parsed := toOption_eq_some_iff.mp accepted
    exact ⟨u, parsed, (names_inOrder _).2 u parsed, met⟩

end Marksmith.Syntax

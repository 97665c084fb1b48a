import Marksmith.Proofs.Syntax.Casting

/-!
Expressions in their surroundings, and other names for lambda parameters.

* `Frame.fill`, `fill`: a node with one part put in its place, and several of them around each other;
  `exists_fill_of_mem_nodes`: every node of an expression stands in surroundings that make it up;
* `idents`: the identifiers that occur in an expression;
* `renameUses`: a body with another name for a parameter of the lambda around it; `renameParam`: a
  lambda with another name for one of its parameters;
* `Sees`: the parts of a body that see the parameter.
-/

namespace Marksmith.Syntax.Expr

/-! ### Surroundings -/

/-- A node with a place for one of its parts. -/
inductive Frame where
  | member (span : Span) (n : Located SimpleName)
  | callee (span : Span) (args : List Expr)
  | argument (span : Span) (callee : Expr) (before after : List Expr)
  | indexed (span : Span) (args : List Expr)
  | index (span : Span) (target : Expr) (before after : List Expr)
  | cast (span : Span) (type : Located TypeRef)
  | new (span : Span) (type : Located TypeRef) (before after : List Expr)
  | body (span : Span) (params : List (Located String))
  | unary (span : Span) (op : UnaryOp)
  | left (span : Span) (op : BinaryOp) (right : Expr)
  | right (span : Span) (left : Expr) (op : BinaryOp)
  | paren (span : Span)

/-- The node with a part in the place. -/
def Frame.fill : Frame → Expr → Expr
  | .member span n, e => .member span e n
  | .callee span args, e => .invoke span e args
  | .argument span called before after, e => .invoke span called (before ++ e :: after)
  | .indexed span args, e => .index span e args
  | .index span target before after, e => .index span target (before ++ e :: after)
  | .cast span type, e => .cast span type e
  | .new span type before after, e => .new span type (before ++ e :: after)
  | .body span params, e => .lambda span params e
  | .unary span op, e => .unary span op e
  | .left span op r, e => .binary span e op r
  | .right span l op, e => .binary span l op e
  | .paren span, e => .paren span e

/-- An expression in its surroundings, outermost first. -/
def fill (frames : List Frame) (e : Expr) : Expr := frames.foldr Frame.fill e

theorem Frame.mem_children_fill (f : Frame) (e : Expr) : e ∈ (f.fill e).children := by
  cases f <;> simp [fill, children]

/-- Every part of a node stands in a place of it. -/
theorem Frame.exists_of_mem_children {e c : Expr} (part : c ∈ e.children) :
    ∃ f : Frame, f.fill c = e := by
  cases e with
  | name | literal | this => cases part
  | member span target n =>
    cases List.mem_singleton.mp part
    exact ⟨.member span n, rfl⟩
  | invoke span called args =>
    rcases List.mem_cons.mp part with rfl | inside
    · exact ⟨.callee span args, rfl⟩
    · obtain ⟨before, after, rfl⟩ := List.append_of_mem inside
      exact ⟨.argument span called before after, rfl⟩
  | index span target args =>
    rcases List.mem_cons.mp part with rfl | inside
    · exact ⟨.indexed span args, rfl⟩
    · obtain ⟨before, after, rfl⟩ := List.append_of_mem inside
      exact ⟨.index span target before after, rfl⟩
  | cast span type operand =>
    cases List.mem_singleton.mp part
    exact ⟨.cast span type, rfl⟩
  | new span type args =>
    obtain ⟨before, after, rfl⟩ := List.append_of_mem (show c ∈ args from part)
    exact ⟨.new span type before after, rfl⟩
  | lambda span params body =>
    cases List.mem_singleton.mp part
    exact ⟨.body span params, rfl⟩
  | unary span op operand =>
    cases List.mem_singleton.mp part
    exact ⟨.unary span op, rfl⟩
  | binary span l op r =>
    rcases List.mem_cons.mp part with rfl | part
    · exact ⟨.left span op r, rfl⟩
    · cases List.mem_singleton.mp part
      exact ⟨.right span l op, rfl⟩
  | paren span inner =>
    cases List.mem_singleton.mp part
    exact ⟨.paren span, rfl⟩

theorem mem_nodes_self (e : Expr) : e ∈ e.nodes := by
  rw [nodes_eq]
  exact List.mem_cons_self

theorem mem_nodes_of_mem_children {n c e : Expr} (part : c ∈ e.children) (mem : n ∈ c.nodes) :
    n ∈ e.nodes := by
  rw [nodes_eq]
  exact List.mem_cons_of_mem _ (List.mem_flatMap.mpr ⟨c, part, mem⟩)

theorem mem_nodes_fill {n e : Expr} (frames : List Frame) (mem : n ∈ e.nodes) :
    n ∈ (fill frames e).nodes := by
  induction frames with
  | nil => exact mem
  | cons f frames ih => exact mem_nodes_of_mem_children (f.mem_children_fill _) ih

/-- Every node of an expression stands in surroundings that make up the expression. -/
theorem exists_fill_of_mem_nodes {n e : Expr} (mem : n ∈ e.nodes) :
    ∃ frames, fill frames n = e := by
  induction e using inductionOnParts with
  | node e ih =>
    rw [nodes_eq] at mem
    rcases List.mem_cons.mp mem with rfl | inside
    · exact ⟨[], rfl⟩
    · obtain ⟨c, part, inside⟩ := List.mem_flatMap.mp inside
      obtain ⟨frames, rfl⟩ := ih c part inside
      obtain ⟨f, rfl⟩ := Frame.exists_of_mem_children part
      exact ⟨f :: frames, rfl⟩

/-! ### Identifiers -/

/-- The identifiers that a node itself writes, except in types. -/
def ownIdents : Expr → List String
  | name _ n => [n.ident]
  | member _ _ n => [n.node.ident]
  | lambda _ params _ => params.map (·.node)
  | _ => []

/-- The identifiers that occur in an expression. -/
def idents (e : Expr) : List String := e.nodes.flatMap ownIdents

theorem mem_idents_of_mem_nodes {n e : Expr} (mem : n ∈ e.nodes) {x : String}
    (own : x ∈ n.ownIdents) : x ∈ e.idents :=
  List.mem_flatMap.mpr ⟨n, mem, own⟩

theorem mem_idents_of_mem_children {c e : Expr} (part : c ∈ e.children) {x : String}
    (inside : x ∈ c.idents) : x ∈ e.idents := by
  obtain ⟨n, mem, own⟩ := List.mem_flatMap.mp inside
  exact mem_idents_of_mem_nodes (mem_nodes_of_mem_children part mem) own

theorem mem_idents_fill {e : Expr} (frames : List Frame) {x : String} (inside : x ∈ e.idents) :
    x ∈ (fill frames e).idents := by
  obtain ⟨n, mem, own⟩ := List.mem_flatMap.mp inside
  exact mem_idents_of_mem_nodes (mem_nodes_fill frames mem) own

/-! ### Other names for parameters -/

/-- Whether a lambda has a parameter of this name. -/
def binds (params : List (Located String)) (name : String) : Bool :=
  (params.map (·.node)).contains name

mutual

/-- An expression with another name for a parameter of a lambda around it. Names with type arguments
and names of methods that are called refer to no parameter; where an inner lambda has a parameter of
the old name, that one is meant. -/
def renameUses (old fresh : String) : Expr → Expr
  | name s n =>
    name s (if n.ident = old ∧ n.typeArgs = [] then { n with ident := fresh } else n)
  | literal s v => literal s v
  | this s => this s
  | member s target n => member s (renameUses old fresh target) n
  | invoke s (name t n) args => invoke s (name t n) (renameUsesAll old fresh args)
  | invoke s callee args => invoke s (renameUses old fresh callee) (renameUsesAll old fresh args)
  | index s target args => index s (renameUses old fresh target) (renameUsesAll old fresh args)
  | cast s type operand => cast s type (renameUses old fresh operand)
  | new s type args => new s type (renameUsesAll old fresh args)
  | lambda s params body =>
    lambda s params (if binds params old then body else renameUses old fresh body)
  | unary s op operand => unary s op (renameUses old fresh operand)
  | binary s l op r => binary s (renameUses old fresh l) op (renameUses old fresh r)
  | paren s inner => paren s (renameUses old fresh inner)

/-- Several expressions with another name for a parameter. -/
def renameUsesAll (old fresh : String) : List Expr → List Expr
  | [] => []
  | e :: es => renameUses old fresh e :: renameUsesAll old fresh es

end

/-- A lambda with another name for one of its parameters, and for what refers to it. Where a later
parameter has the old name, nothing does. -/
def renameParam (span : Span) (before : List (Located String)) (p : Located String)
    (after : List (Located String)) (body : Expr) (fresh : String) : Expr :=
  lambda span (before ++ { p with node := fresh } :: after)
    (if binds after p.node then body else renameUses p.node fresh body)

/-- A part that sees a parameter of the name of a lambda around the whole: no lambda in between has a
parameter of this name. -/
inductive Sees (param : String) : Expr → Expr → Prop where
  | whole (e : Expr) : Sees param e e
  | part {e c n : Expr} (inside : c ∈ e.children)
      (visible : ∀ s ps b, e = .lambda s ps b → binds ps param = false)
      (sees : Sees param c n) : Sees param e n

theorem Sees.mem_nodes {param : String} {e n : Expr} (sees : Sees param e n) : n ∈ e.nodes := by
  induction sees with
  | whole e => exact mem_nodes_self e
  | part inside _ _ ih => exact mem_nodes_of_mem_children inside ih

end Marksmith.Syntax.Expr

import Marksmith.Proofs.Syntax.Placement
import Marksmith.Syntax.Expr.Cast

/-!
Casts that are put around nodes of a tree.

* `CastAt`: a tree with one node cast, as a relation; `castAt_of_insertCast?`: inserting a cast does
  nothing else;
* `insertCast?_isSome`: a cast is inserted exactly where a node is found, and in a tree whose nodes
  lie within each other there is one for the span of every node (`HasSpan.insertCast?`);
* `CastAt.nested`, `CastAt.hasSpan`: the new tree can be cast again at every span of the old one.
-/

namespace Marksmith.Syntax

namespace Expr

/-! ### Parts -/

theorem sizeOf_lt_of_mem_children {c e : Expr} (mem : c ∈ e.children) : sizeOf c < sizeOf e := by
  cases e with
  | invoke _ _ args | index _ _ args =>
    rcases List.mem_cons.mp mem with rfl | mem
    · simp only [invoke.sizeOf_spec, index.sizeOf_spec]
      omega
    · have := List.sizeOf_lt_of_mem mem
      simp only [invoke.sizeOf_spec, index.sizeOf_spec]
      omega
  | new _ _ args =>
    have := List.sizeOf_lt_of_mem (show c ∈ args from mem)
    simp only [new.sizeOf_spec]
    omega
  | _ => simp only [children, List.mem_cons, List.not_mem_nil, or_false] at mem <;> grind

/-- Induction over the parts of an expression. -/
@[elab_as_elim]
theorem inductionOnParts {motive : Expr → Prop}
    (node : ∀ e, (∀ c ∈ e.children, motive c) → motive e) (e : Expr) : motive e :=
  node e fun c _ => inductionOnParts node c
termination_by sizeOf e
decreasing_by exact sizeOf_lt_of_mem_children ‹_›

/-! ### Trees whose nodes lie within each other -/

/-- Every node contains its parts. -/
def Nested (e : Expr) : Prop := ∀ n ∈ e.nodes, ∀ c ∈ n.children, n.span.contains c.span = true

theorem nested_iff {e : Expr} :
    e.Nested ↔ (∀ c ∈ e.children, e.span.contains c.span = true) ∧ ∀ c ∈ e.children, c.Nested := by
  rw [Nested, nodes_eq, List.forall_mem_cons, List.forall_mem_flatMap]
  exact Iff.rfl

theorem Placed.nested {e : Expr} (placed : e.Placed) : e.Nested :=
  fun n mem c part => ((placed n mem).holds c part).1

/-- Some node has exactly this span. -/
def HasSpan (e : Expr) (s : Span) : Prop := ∃ n ∈ e.nodes, n.span = s

theorem hasSpan_iff {e : Expr} {s : Span} :
    e.HasSpan s ↔ e.span = s ∨ ∃ c ∈ e.children, c.HasSpan s := by
  simp only [HasSpan, nodes_eq e, List.mem_cons, List.mem_flatMap]
  constructor
  · rintro ⟨n, rfl | ⟨c, part, mem⟩, rfl⟩
    · exact .inl rfl
    · exact .inr ⟨c, part, n, mem, rfl⟩
  · rintro (rfl | ⟨c, part, n, mem, rfl⟩)
    · exact ⟨e, .inl rfl, rfl⟩
    · exact ⟨n, .inr ⟨c, part, mem⟩, rfl⟩

theorem Nested.contains {e : Expr} {s : Span} (nested : e.Nested) (has : e.HasSpan s) :
    e.span.contains s = true := by
  induction e using inductionOnParts with
  | node e ih =>
    obtain ⟨own, parts⟩ := nested_iff.mp nested
    rcases hasSpan_iff.mp has with rfl | ⟨c, part, has⟩
    · simp [Span.contains_iff]
    · have outer := Span.contains_iff.mp (own c part)
      have inner := Span.contains_iff.mp (ih c part (parts c part) has)
      exact Span.contains_iff.mpr ⟨by omega, by omega⟩

/-- The search for a span finds a node that has it. -/
theorem Nested.find?_isSome {e : Expr} {s : Span} (nested : e.Nested) (has : e.HasSpan s) :
    (e.find? s).isSome = true := by
  induction e using inductionOnParts with
  | node e ih =>
    rw [find?_eq]
    by_cases same : e.span = s
    · rw [if_pos same]
      rfl
    · rw [if_neg same, if_pos (nested.contains has)]
      obtain ⟨c, part, has⟩ := (hasSpan_iff.mp has).resolve_left same
      have found := ih c part ((nested_iff.mp nested).2 c part) has
      exact List.findSome?_isSome_iff.mpr ⟨c, part, found⟩

/-! ### One node cast -/

/-- One node with exactly this span is cast to a type, and everything around it stays. -/
inductive CastAt (target : Span) (type : TypeRef) : Expr → Expr → Prop where
  | here {e : Expr} : e.span = target → CastAt target type e (castTo type e)
  | within {e e' c c' : Expr} (left right : List Expr) : e.children = left ++ c :: right →
    e'.children = left ++ c' :: right → e'.span = e.span → CastAt target type c c' →
    CastAt target type e e'

variable {target : Span} {type : TypeRef} {e e' : Expr}

theorem insertCastIn?_eq_some {es es' : List Expr} (h : insertCastIn? target type es = some es') :
    ∃ left c c' right, es = left ++ c :: right ∧ es' = left ++ c' :: right ∧
      insertCast? target type c = some c' := by
  induction es generalizing es' with
  | nil => cases h
  | cons e es ih =>
    rw [insertCastIn?] at h
    rcases Option.or_eq_some_iff.mp h with first | ⟨-, later⟩
    · obtain ⟨c', cast, rfl⟩ := Option.map_eq_some_iff.mp first
      exact ⟨[], e, c', es, rfl, rfl, cast⟩
    · obtain ⟨others, cast, rfl⟩ := Option.map_eq_some_iff.mp later
      obtain ⟨left, c, c', right, rfl, rfl, within⟩ := ih cast
      exact ⟨e :: left, c, c', right, rfl, rfl, within⟩

theorem insertCastIn?_isSome (target : Span) (type : TypeRef) (es : List Expr) :
    (insertCastIn? target type es).isSome = es.any fun c => (c.insertCast? target type).isSome := by
  induction es with
  | nil => rfl
  | cons e es ih =>
    rw [insertCastIn?, Option.isSome_or, Option.isSome_map, Option.isSome_map, ih, List.any_cons]

/-- A cast is inserted exactly where a node is found. -/
theorem insertCast?_isSome (target : Span) (type : TypeRef) (e : Expr) :
    (e.insertCast? target type).isSome = (e.find? target).isSome := by
  induction e using inductionOnParts with
  | node e ih =>
    have parts : (e.children.findSome? (find? target)).isSome
        = e.children.any fun c => (c.insertCast? target type).isSome := by
      rw [List.isSome_findSome?, Bool.eq_iff_iff, List.any_eq_true, List.any_eq_true]
      exact exists_congr fun c => and_congr_right fun part => by rw [ih c part]
    rw [find?_eq, insertCast?.eq_def]
    split
    · rfl
    · split
      · rw [parts]
        cases e <;> simp [children, insertCastIn?_isSome]
      · rfl

/-- Inserting a cast changes the tree at one node. -/
theorem castAt_of_insertCast? (h : e.insertCast? target type = some e') :
    CastAt target type e e' := by
  induction e using inductionOnParts generalizing e' with
  | node e ih =>
    rw [insertCast?.eq_def] at h
    split at h
    · next same =>
      cases h
      exact .here same
    · split at h
      · cases e with
        | name | literal | this => cases h
        | member | cast | unary | paren | lambda =>
          obtain ⟨part, cast, rfl⟩ := Option.map_eq_some_iff.mp h
          exact .within [] [] rfl rfl rfl (ih _ (List.mem_singleton.mpr rfl) cast)
        | invoke _ callee args | index _ callee args =>
          rcases Option.or_eq_some_iff.mp h with first | ⟨-, later⟩
          · obtain ⟨part, cast, rfl⟩ := Option.map_eq_some_iff.mp first
            exact .within [] _ rfl rfl rfl (ih _ List.mem_cons_self cast)
          · obtain ⟨parts, cast, rfl⟩ := Option.map_eq_some_iff.mp later
            obtain ⟨left, c, c', right, rfl, rfl, within⟩ := insertCastIn?_eq_some cast
            exact .within (callee :: left) right rfl rfl rfl (ih c (by simp [children]) within)
        | new =>
          obtain ⟨parts, cast, rfl⟩ := Option.map_eq_some_iff.mp h
          obtain ⟨left, c, c', right, rfl, rfl, within⟩ := insertCastIn?_eq_some cast
          exact .within left right rfl rfl rfl (ih c (by simp [children]) within)
        | binary _ left _ right =>
          rcases Option.or_eq_some_iff.mp h with first | ⟨-, later⟩
          · obtain ⟨part, cast, rfl⟩ := Option.map_eq_some_iff.mp first
            exact .within [] _ rfl rfl rfl (ih _ List.mem_cons_self cast)
          · obtain ⟨part, cast, rfl⟩ := Option.map_eq_some_iff.mp later
            exact .within [left] [] rfl rfl rfl
              (ih _ (List.mem_cons_of_mem _ List.mem_cons_self) cast)
      · cases h

namespace CastAt

theorem span_eq (h : CastAt target type e e') : e'.span = e.span := by
  cases h with
  | here => rfl
  | within _ _ _ _ same => exact same

theorem nested (h : CastAt target type e e') (nested : e.Nested) : e'.Nested := by
  induction h with
  | @here e _ =>
    have self : e.span.contains e.span = true := by simp [Span.contains_iff]
    refine nested_iff.mpr ⟨List.forall_mem_singleton.mpr self, List.forall_mem_singleton.mpr ?_⟩
    exact nested_iff.mpr ⟨List.forall_mem_singleton.mpr self, List.forall_mem_singleton.mpr nested⟩
  | within left right before after same cast ih =>
    obtain ⟨own, parts⟩ := nested_iff.mp nested
    rw [before, List.forall_mem_append, List.forall_mem_cons] at own parts
    refine nested_iff.mpr ⟨?_, ?_⟩
    · rw [after, same, List.forall_mem_append, List.forall_mem_cons, cast.span_eq]
      exact own
    · rw [after, List.forall_mem_append, List.forall_mem_cons]
      exact ⟨parts.1, ih parts.2.1, parts.2.2⟩

/-- No span is lost. -/
theorem hasSpan {s : Span} (h : CastAt target type e e') (has : e.HasSpan s) : e'.HasSpan s := by
  induction h with
  | @here e _ =>
    have inner : (cast e.span ⟨type, e.span⟩ e).HasSpan s :=
      hasSpan_iff.mpr (.inr ⟨e, List.mem_singleton.mpr rfl, has⟩)
    exact hasSpan_iff.mpr (.inr ⟨_, List.mem_singleton.mpr rfl, inner⟩)
  | within left right before after same cast ih =>
    rcases hasSpan_iff.mp has with own | ⟨c, part, has⟩
    · exact hasSpan_iff.mpr (.inl (same.trans own))
    · refine hasSpan_iff.mpr (.inr ?_)
      rw [before] at part
      rw [after]
      rcases List.mem_append.mp part with mem | mem
      · exact ⟨c, List.mem_append_left _ mem, has⟩
      · rcases List.mem_cons.mp mem with rfl | mem
        · exact ⟨_, by simp, ih has⟩
        · exact ⟨c, by simp [mem], has⟩

end CastAt

/-- In a tree whose nodes lie within each other, every node can be cast; the new tree can be cast
again wherever the old one could. -/
theorem Nested.insertCast? {s : Span} (nested : e.Nested) (has : e.HasSpan s) (type : TypeRef) :
    ∃ e', e.insertCast? s type = some e' ∧ e'.Nested ∧ ∀ s, e.HasSpan s → e'.HasSpan s := by
  have found := nested.find?_isSome has
  rw [← insertCast?_isSome s type] at found
  obtain ⟨e', inserted⟩ := Option.isSome_iff_exists.mp found
  have cast := castAt_of_insertCast? inserted
  exact ⟨e', inserted, cast.nested nested, fun _ => cast.hasSpan⟩

end Expr

end Marksmith.Syntax

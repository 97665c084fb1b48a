import Marksmith.Proofs.Syntax.Surroundings

/-!
The place at which a cast is inserted.

* `withParts`: a node with other parts; `insertCast?_eq`: inserting a cast rebuilds a node around
  its first part that can be cast;
* `FoundAt`: the node that a search for a span meets first, in its surroundings; `FoundAt.unique`:
  there is one such place at most;
* `find?_eq_some_iff`, `insertCast?_eq_some_iff`: the search gives this node, and the cast is put
  around it;
* `insertCast?_exact`: a cast is inserted exactly if a node is found, around that node, and all else
  stays;
* `insertCast?_comm`: casts at two spans can be inserted in either order.
-/

namespace Marksmith.Syntax.Expr

variable {target : Span} {type : TypeRef} {e e' : Expr}

/-! ### Nodes with other parts -/

/-- A node with other parts in the places of its own. -/
def withParts : Expr → List Expr → Expr
  | member s _ n, [c] => member s c n
  | invoke s _ _, c :: cs => invoke s c cs
  | index s _ _, c :: cs => index s c cs
  | cast s t _, [c] => cast s t c
  | new s t _, cs => new s t cs
  | lambda s ps _, [c] => lambda s ps c
  | unary s op _, [c] => unary s op c
  | binary s _ op _, [c, d] => binary s c op d
  | paren s _, [c] => paren s c
  | e, _ => e

theorem span_withParts (e : Expr) (cs : List Expr) : (e.withParts cs).span = e.span := by
  fun_cases withParts e cs <;> rfl

theorem children_withParts {cs : List Expr} (size : cs.length = e.children.length) :
    (e.withParts cs).children = cs := by
  cases e with
  | name | literal | this => exact (List.length_eq_zero_iff.mp size).symm
  | member | cast | lambda | unary | paren =>
    obtain ⟨c, rfl⟩ := List.length_eq_one_iff.mp size
    rfl
  | invoke | index =>
    obtain ⟨c, cs, rfl⟩ := List.exists_cons_of_length_eq_add_one size
    rfl
  | new => rfl
  | binary =>
    obtain ⟨c, d, rfl⟩ := List.length_eq_two.mp size
    rfl

theorem withParts_withParts {cs ds : List Expr} (size : ds.length = e.children.length) :
    (e.withParts cs).withParts ds = e.withParts ds := by
  fun_cases withParts e cs with
  | case1 | case4 | case6 | case7 | case9 =>
    obtain ⟨d, rfl⟩ := List.length_eq_one_iff.mp size
    rfl
  | case2 | case3 =>
    obtain ⟨d, ds, rfl⟩ := List.exists_cons_of_length_eq_add_one size
    rfl
  | case8 =>
    obtain ⟨d, d', rfl⟩ := List.length_eq_two.mp size
    rfl
  | case5 | case10 => rfl

/-- Inserting a cast rebuilds a node around its first part that can be cast. -/
theorem insertCast?_eq (target : Span) (type : TypeRef) (e : Expr) :
    e.insertCast? target type =
      if e.span = target then some (castTo type e)
      else if e.span.contains target then
        (insertCastIn? target type e.children).map e.withParts
      else none := by
  rw [insertCast?.eq_def]
  refine if_congr Iff.rfl rfl (if_congr Iff.rfl ?_ rfl)
  cases e with
  | new => rfl
  | _ => simp [children, insertCastIn?, withParts, Option.map_or, Function.comp_def]

theorem insertCast?_of_span (same : e.span = target) :
    e.insertCast? target type = some (castTo type e) := by
  rw [insertCast?_eq, if_pos same]

theorem insertCast?_of_inside (other : e.span ≠ target) (around : e.span.contains target = true) :
    e.insertCast? target type = (insertCastIn? target type e.children).map e.withParts := by
  rw [insertCast?_eq, if_neg other, if_pos around]

theorem insertCast?_of_outside (other : e.span ≠ target)
    (outside : ¬e.span.contains target = true) : e.insertCast? target type = none := by
  rw [insertCast?_eq, if_neg other, if_neg outside]

/-- In a list, the first part that can be cast is cast. -/
theorem insertCastIn?_eq_some_iff {es es' : List Expr} :
    insertCastIn? target type es = some es' ↔
      ∃ before c c' after, es = before ++ c :: after ∧ es' = before ++ c' :: after ∧
        c.insertCast? target type = some c' ∧ ∀ b ∈ before, b.insertCast? target type = none := by
  induction es generalizing es' with
  | nil => simp [insertCastIn?]
  | cons e es ih =>
    rw [insertCastIn?]
    cases first : e.insertCast? target type with
    | some e' =>
      simp only [Option.map_some, Option.some_or, Option.some.injEq]
      constructor
      · rintro rfl
        exact ⟨[], e, e', es, rfl, rfl, first, List.forall_mem_nil _⟩
      · rintro ⟨before, c, c', after, split, rfl, cast, none⟩
        cases before with
        | nil =>
          cases split
          rw [first, Option.some.injEq] at cast
          rw [cast]
          rfl
        | cons b before =>
          cases split
          rw [none e List.mem_cons_self] at first
          cases first
    | none =>
      simp only [Option.map_none, Option.none_or, Option.map_eq_some_iff, ih]
      constructor
      · rintro ⟨_, ⟨before, c, c', after, rfl, rfl, cast, none⟩, rfl⟩
        exact ⟨e :: before, c, c', after, rfl, rfl, cast, List.forall_mem_cons.mpr ⟨first, none⟩⟩
      · rintro ⟨before, c, c', after, split, rfl, cast, none⟩
        cases before with
        | nil =>
          cases split
          rw [first] at cast
          cases cast
        | cons b before =>
          cases split
          exact ⟨_, ⟨before, c, c', after, rfl, rfl, cast, (List.forall_mem_cons.mp none).2⟩, rfl⟩

/-! ### Places -/

theorem append_cons_eq_singleton_iff {c d : Expr} {left right : List Expr} :
    left ++ c :: right = [d] ↔ left = [] ∧ c = d ∧ right = [] := by
  cases left with
  | nil => simp
  | cons b left => simp

/-- A list is divided in one way only in front of its first item with a property. -/
theorem split_inj {p : Expr → Prop} {c c' : Expr} {before before' after after' : List Expr}
    (first : ∀ b ∈ before, ¬p b) (first' : ∀ b ∈ before', ¬p b) (here : p c) (here' : p c')
    (same : before ++ c :: after = before' ++ c' :: after') :
    before = before' ∧ c = c' ∧ after = after' := by
  induction before generalizing before' with
  | nil =>
    cases before' with
    | nil =>
      obtain ⟨rfl, rfl⟩ := List.cons.inj same
      exact ⟨rfl, rfl, rfl⟩
    | cons b before' =>
      obtain ⟨rfl, -⟩ := List.cons.inj same
      exact absurd here (first' c List.mem_cons_self)
  | cons b before ih =>
    obtain ⟨none, first⟩ := List.forall_mem_cons.mp first
    cases before' with
    | nil =>
      obtain ⟨rfl, -⟩ := List.cons.inj same
      exact absurd here' none
    | cons b' before' =>
      obtain ⟨rfl, behind⟩ := List.cons.inj same
      obtain ⟨rfl, rfl, rfl⟩ := ih first (List.forall_mem_cons.mp first').2 behind
      exact ⟨rfl, rfl, rfl⟩

namespace Frame

/-- The span of a node, whatever is put in its place. -/
def span : Frame → Span
  | member s _ | callee s _ | argument s _ _ _ | indexed s _ | index s _ _ _ | cast s _ | new s _ _ _
  | body s _ | unary s _ | left s _ _ | right s _ _ | paren s => s

/-- The parts in front of the place. -/
def before : Frame → List Expr
  | argument _ called before _ => called :: before
  | index _ target before _ => target :: before
  | new _ _ before _ => before
  | right _ l _ => [l]
  | _ => []

/-- The parts behind the place. -/
def after : Frame → List Expr
  | callee _ args | indexed _ args => args
  | argument _ _ _ after | index _ _ _ after | new _ _ _ after => after
  | left _ _ r => [r]
  | _ => []

@[simp] theorem span_fill (f : Frame) (e : Expr) : (f.fill e).span = f.span := by
  cases f <;> rfl

theorem children_fill (f : Frame) (e : Expr) : (f.fill e).children = f.before ++ e :: f.after := by
  cases f <;> rfl

theorem withParts_fill (f : Frame) (e e' : Expr) :
    (f.fill e).withParts (f.before ++ e' :: f.after) = f.fill e' := by
  cases f <;> rfl

/-- Each way to divide the parts of a node gives a place. -/
theorem exists_of_children {c : Expr} {left right : List Expr}
    (split : e.children = left ++ c :: right) : ∃ f : Frame, f.fill c = e ∧ f.before = left := by
  cases e with
  | name | literal | this => cases left <;> cases split
  | member s _ n =>
    obtain ⟨rfl, rfl, rfl⟩ := append_cons_eq_singleton_iff.mp split.symm
    exact ⟨.member s n, rfl, rfl⟩
  | cast s type _ =>
    obtain ⟨rfl, rfl, rfl⟩ := append_cons_eq_singleton_iff.mp split.symm
    exact ⟨.cast s type, rfl, rfl⟩
  | lambda s params _ =>
    obtain ⟨rfl, rfl, rfl⟩ := append_cons_eq_singleton_iff.mp split.symm
    exact ⟨.body s params, rfl, rfl⟩
  | unary s op _ =>
    obtain ⟨rfl, rfl, rfl⟩ := append_cons_eq_singleton_iff.mp split.symm
    exact ⟨.unary s op, rfl, rfl⟩
  | paren s _ =>
    obtain ⟨rfl, rfl, rfl⟩ := append_cons_eq_singleton_iff.mp split.symm
    exact ⟨.paren s, rfl, rfl⟩
  | invoke s called args =>
    cases left with
    | nil =>
      cases split
      exact ⟨.callee s right, rfl, rfl⟩
    | cons b left =>
      obtain ⟨rfl, rfl⟩ := List.cons.inj split
      exact ⟨.argument s called left right, rfl, rfl⟩
  | index s target args =>
    cases left with
    | nil =>
      cases split
      exact ⟨.indexed s right, rfl, rfl⟩
    | cons b left =>
      obtain ⟨rfl, rfl⟩ := List.cons.inj split
      exact ⟨.index s target left right, rfl, rfl⟩
  | new s type args =>
    obtain rfl : args = left ++ c :: right := split
    exact ⟨.new s type left right, rfl, rfl⟩
  | binary s l op r =>
    cases left with
    | nil =>
      cases split
      exact ⟨.left s op r, rfl, rfl⟩
    | cons b left =>
      obtain ⟨rfl, behind⟩ := List.cons.inj split
      obtain ⟨rfl, rfl, rfl⟩ := append_cons_eq_singleton_iff.mp behind.symm
      exact ⟨.right s l op, rfl, rfl⟩

/-- A place in a node is known by the parts in front of it. -/
theorem eq_of_fill {f f' : Frame} {c : Expr} (same : f.fill c = f'.fill c)
    (front : f.before = f'.before) : f = f' := by
  cases f <;> cases f' <;> first | cases same | skip
  case argument.argument | index.index | new.new =>
    simp only [fill, before, invoke.injEq, Expr.index.injEq, Expr.new.injEq, List.cons.injEq]
      at same front
    simp_all
  all_goals first | rfl | cases front

end Frame

/-! ### The node that a search meets first -/

/-- Entering only nodes that contain the span, the search meets a node that has it. -/
inductive Meets (target : Span) : Expr → Prop where
  | here {e : Expr} (same : e.span = target) : Meets target e
  | within {e c : Expr} (around : e.span.contains target = true) (part : c ∈ e.children)
      (inside : Meets target c) : Meets target e

/-- A node with the span in its surroundings: every node around it contains the span without having
it, and nothing in front of it can be met. -/
inductive FoundAt (target : Span) : List Frame → Expr → Expr → Prop where
  | here {e : Expr} (same : e.span = target) : FoundAt target [] e e
  | within {f : Frame} {frames : List Frame} {n e : Expr} (other : f.span ≠ target)
      (around : f.span.contains target = true) (first : ∀ b ∈ f.before, ¬Meets target b)
      (inside : FoundAt target frames n e) : FoundAt target (f :: frames) n (f.fill e)

/-- The search gives a node exactly if it meets one. -/
theorem find?_isSome_iff : (e.find? target).isSome = true ↔ Meets target e := by
  induction e using inductionOnParts with
  | node e ih =>
    rw [find?_eq]
    by_cases same : e.span = target
    · simp only [if_pos same, Option.isSome_some, true_iff]
      exact .here same
    · rw [if_neg same]
      by_cases around : e.span.contains target = true
      · rw [if_pos around, List.isSome_findSome?, List.any_eq_true]
        constructor
        · rintro ⟨c, part, found⟩
          exact .within around part ((ih c part).mp found)
        · intro meets
          cases meets with
          | here same' => exact absurd same' same
          | within _ part inside => exact ⟨_, part, (ih _ part).mpr inside⟩
      · rw [if_neg around]
        refine iff_of_false Bool.false_ne_true fun meets => ?_
        cases meets with
        | here same' => exact same same'
        | within around' => exact around around'

theorem find?_eq_none_iff : e.find? target = none ↔ ¬Meets target e := by
  rw [← find?_isSome_iff, Option.not_isSome_iff_eq_none]

theorem insertCast?_eq_none_iff : e.insertCast? target type = none ↔ ¬Meets target e := by
  rw [← find?_isSome_iff, ← insertCast?_isSome target type, Option.not_isSome_iff_eq_none]

namespace FoundAt

variable {frames frames' : List Frame} {n n' : Expr}

theorem meets (found : FoundAt target frames n e) : Meets target e := by
  induction found with
  | here same => exact .here same
  | @within f _ _ e _ around _ _ ih =>
    refine .within ?_ (f.mem_children_fill e) ih
    rw [Frame.span_fill]
    exact around

/-- The node and its surroundings make up the tree. -/
theorem fill_eq (found : FoundAt target frames n e) : fill frames n = e := by
  induction found with
  | here => rfl
  | @within f frames n e _ _ _ _ ih => exact congrArg f.fill ih

theorem span_eq (found : FoundAt target frames n e) : n.span = target := by
  induction found with
  | here same => exact same
  | within _ _ _ _ ih => exact ih

/-- Another node with the span is found in its place. -/
theorem replace (found : FoundAt target frames n e) (same : n'.span = target) :
    FoundAt target frames n' (fill frames n') := by
  induction found with
  | here => exact .here same
  | within other around first _ ih => exact .within other around first ih

/-- There is one such place at most. -/
theorem unique (found : FoundAt target frames n e) (found' : FoundAt target frames' n' e) :
    frames' = frames ∧ n' = n := by
  induction found generalizing frames' with
  | @here e same =>
    generalize whole : e = e' at found'
    cases found' with
    | here => exact ⟨rfl, rfl⟩
    | within other =>
      rw [whole, Frame.span_fill] at same
      exact absurd same other
  | @within f frames n e other around first inside ih =>
    generalize whole : f.fill e = e' at found'
    cases found' with
    | here same =>
      rw [← whole, Frame.span_fill] at same
      exact absurd same other
    | @within f' frames' _ c _ _ first' inside' =>
      have parts := congrArg children whole
      rw [Frame.children_fill, Frame.children_fill] at parts
      obtain ⟨front, rfl, -⟩ := split_inj first first' inside.meets inside'.meets parts
      cases Frame.eq_of_fill whole front
      obtain ⟨rfl, rfl⟩ := ih inside'
      exact ⟨rfl, rfl⟩

end FoundAt

/-! ### Finding and casting -/

/-- The search gives the node that it meets first. -/
theorem find?_eq_some_iff {n : Expr} :
    e.find? target = some n ↔ ∃ frames, FoundAt target frames n e := by
  constructor
  · intro found
    induction e using inductionOnParts with
    | node e ih =>
      rw [find?_eq] at found
      split at found
      · next same =>
        cases found
        exact ⟨[], .here same⟩
      · next other =>
        split at found
        · next around =>
          obtain ⟨left, c, right, split, inside, none⟩ := List.findSome?_eq_some_iff.mp found
          have part : c ∈ e.children := by simp [split]
          obtain ⟨frames, inside⟩ := ih c part inside
          obtain ⟨f, rfl, rfl⟩ := Frame.exists_of_children split
          rw [Frame.span_fill] at other around
          exact ⟨f :: frames, .within other around (fun b mem => find?_eq_none_iff.mp (none b mem))
            inside⟩
        · cases found
  · rintro ⟨frames, found⟩
    induction found with
    | here same => rw [find?_eq, if_pos same]
    | @within f frames n e other around first inside ih =>
      rw [find?_eq, Frame.span_fill, if_neg other, if_pos around, Frame.children_fill]
      exact List.findSome?_eq_some_iff.mpr
        ⟨f.before, e, f.after, rfl, ih, fun b mem => find?_eq_none_iff.mpr (first b mem)⟩

/-- The cast is put around the node that the search meets first. -/
theorem insertCast?_eq_some_iff :
    e.insertCast? target type = some e' ↔
      ∃ frames n, FoundAt target frames n e ∧ e' = fill frames (castTo type n) := by
  constructor
  · intro cast
    induction e using inductionOnParts generalizing e' with
    | node e ih =>
      by_cases same : e.span = target
      · rw [insertCast?_of_span same] at cast
        cases cast
        exact ⟨[], e, .here same, rfl⟩
      · by_cases around : e.span.contains target = true
        · rw [insertCast?_of_inside same around] at cast
          obtain ⟨parts, casts, rfl⟩ := Option.map_eq_some_iff.mp cast
          obtain ⟨left, c, c', right, split, rfl, cast, none⟩ := insertCastIn?_eq_some_iff.mp casts
          have part : c ∈ e.children := by simp [split]
          obtain ⟨frames, n, inside, rfl⟩ := ih c part cast
          obtain ⟨f, rfl, rfl⟩ := Frame.exists_of_children split
          have after : right = f.after := by
            rw [Frame.children_fill, List.append_cancel_left_eq, List.cons.injEq] at split
            exact split.2.symm
          rw [Frame.span_fill] at same around
          refine ⟨f :: frames, n, .within same around (fun b mem => ?_) inside, ?_⟩
          · exact insertCast?_eq_none_iff.mp (none b mem)
          · rw [after, Frame.withParts_fill]
            rfl
        · rw [insertCast?_of_outside same around] at cast
          cases cast
  · rintro ⟨frames, n, found, rfl⟩
    induction found with
    | here same => exact insertCast?_of_span same
    | @within f frames n e other around first inside ih =>
      have parts : insertCastIn? target type (f.before ++ e :: f.after)
          = some (f.before ++ fill frames (castTo type n) :: f.after) :=
        insertCastIn?_eq_some_iff.mpr ⟨f.before, e, _, f.after, rfl, rfl, ih,
          fun b mem => insertCast?_eq_none_iff.mpr (first b mem)⟩
      rw [insertCast?_eq, Frame.span_fill, if_neg other, if_pos around, Frame.children_fill, parts,
        Option.map_some, Frame.withParts_fill]
      rfl

/-- The spans of all nodes of a tree, with those of the node in a place among them. -/
theorem exists_spans_fill (frames : List Frame) :
    ∃ before after, ∀ e, (fill frames e).nodes.map span = before ++ e.nodes.map span ++ after := by
  induction frames with
  | nil => exact ⟨[], [], fun e => by simp [fill]⟩
  | cons f frames ih =>
    obtain ⟨before, after, spans⟩ := ih
    refine ⟨f.span :: (f.before.flatMap nodes).map span ++ before,
      after ++ (f.after.flatMap nodes).map span, fun e => ?_⟩
    have whole : fill (f :: frames) e = f.fill (fill frames e) := rfl
    simp [whole, nodes_eq (f.fill _), Frame.children_fill, spans, List.append_assoc]

/-- A node without the cast that is put around it. -/
def uncast : Expr → Expr
  | paren _ (cast _ _ e) => e
  | e => e

/-- A cast in place: in surroundings that stay as they are, the node that is found at a span is cast
to a type, and nothing else is changed. -/
structure CastInPlace (target : Span) (type : TypeRef) (frames : List Frame) (n e e' : Expr) :
    Prop where
  found : FoundAt target frames n e
  /-- No other node is the first one that the search meets. -/
  only : ∀ frames' n', FoundAt target frames' n' e → frames' = frames ∧ n' = n
  span : n.span = target
  old : e = fill frames n
  new : e' = fill frames (paren target (cast target ⟨type, target⟩ n))
  /-- Two nodes with the span are added, and every other node keeps its span. -/
  spans : ∃ before after, e.nodes.map Expr.span = before ++ n.nodes.map Expr.span ++ after ∧
    e'.nodes.map Expr.span = before ++ target :: target :: n.nodes.map Expr.span ++ after
  /-- What is found at the span afterwards is the cast; without it the tree is the old one. -/
  removed : ∃ w, FoundAt target frames w e' ∧ fill frames w.uncast = e

/-- A cast is inserted exactly if the search finds a node with the span, and it is put around this
node. -/
theorem insertCast?_exact (e : Expr) (target : Span) (type : TypeRef) :
    (e.insertCast? target type).isSome = (e.find? target).isSome ∧
      ∀ e', e.insertCast? target type = some e' ↔
        ∃ frames n, e.find? target = some n ∧ CastInPlace target type frames n e e' := by
  refine ⟨insertCast?_isSome target type e, fun e' => ?_⟩
  constructor
  · intro cast
    obtain ⟨frames, n, found, rfl⟩ := insertCast?_eq_some_iff.mp cast
    have same := found.span_eq
    have whole := found.fill_eq
    obtain ⟨before, after, spans⟩ := exists_spans_fill frames
    have wrapped : castTo type n = paren target (.cast target ⟨type, target⟩ n) := by
      rw [castTo, same]
    refine ⟨frames, n, find?_eq_some_iff.mpr ⟨frames, found⟩, found, ?only, same, whole.symm, ?new,
      ⟨before, after, ?spans, ?spans'⟩, castTo type n, found.replace same, whole⟩
    case only => exact fun _ _ other => found.unique other
    case new => rw [wrapped]
    case spans => rw [← spans, whole]
    case spans' => simp [spans, wrapped, nodes, Expr.span]
  · rintro ⟨frames, n, -, inPlace⟩
    refine insertCast?_eq_some_iff.mpr ⟨frames, n, inPlace.found, ?_⟩
    rw [inPlace.new, castTo, inPlace.span]

/-! ### Two casts -/

section

variable {s s' : Span} {t t' : TypeRef}

theorem find?_castTo (other : e.span ≠ s) : (castTo t e).find? s = e.find? s := by
  by_cases around : e.span.contains s = true
  · have inner : (cast e.span ⟨t, e.span⟩ e).find? s = e.find? s := by
      rw [find?.eq_def]
      exact (if_neg other).trans (if_pos around)
    have outer : (castTo t e).find? s = (cast e.span ⟨t, e.span⟩ e).find? s := by
      rw [castTo, find?.eq_def]
      exact (if_neg other).trans (if_pos around)
    rw [outer, inner]
  · rw [find?_eq s e, if_neg other, if_neg around, find?_eq]
    exact (if_neg other).trans (if_neg around)

/-- After a cast the nodes with other spans can still be found, and no others. -/
theorem CastAt.isSome_find? (cast : CastAt s t e e') (other : s ≠ s') :
    (e'.find? s').isSome = (e.find? s').isSome := by
  induction cast with
  | here same => rw [find?_castTo (same.symm ▸ other)]
  | within left right before after same _ ih =>
    rw [find?_eq, find?_eq s', same]
    split
    · rfl
    · split
      · simp only [List.isSome_findSome?, before, after, List.any_append, List.any_cons, ih]
      · rfl

theorem insertCast?_eq_none_iff_of_insertCast? (cast : e.insertCast? s t = some e')
    (other : s ≠ s') : e'.insertCast? s' t' = none ↔ e.insertCast? s' t' = none := by
  rw [insertCast?_eq_none_iff, insertCast?_eq_none_iff, ← find?_isSome_iff, ← find?_isSome_iff,
    (castAt_of_insertCast? cast).isSome_find? other]

theorem span_of_insertCast? (cast : e.insertCast? s t = some e') : e'.span = e.span :=
  (castAt_of_insertCast? cast).span_eq

theorem length_of_insertCastIn? {es es' : List Expr} (cast : insertCastIn? s t es = some es') :
    es'.length = es.length := by
  obtain ⟨before, c, c', after, rfl, rfl, -, -⟩ := insertCastIn?_eq_some_iff.mp cast
  simp

/-- A cast within a node that is cast already. -/
theorem insertCast?_castTo (same : e.span = s) (other : s ≠ s') :
    (castTo t e).insertCast? s' t' = (e.insertCast? s' t').bind (insertCast? s t) := by
  have apart : e.span ≠ s' := fun both => other (same.symm.trans both)
  by_cases around : e.span.contains s' = true
  · have inner : (cast e.span ⟨t, e.span⟩ e).insertCast? s' t' =
        (e.insertCast? s' t').map (cast e.span ⟨t, e.span⟩) := by
      rw [insertCast?.eq_def]
      exact (if_neg apart).trans (if_pos around)
    have outer : (castTo t e).insertCast? s' t' =
        ((cast e.span ⟨t, e.span⟩ e).insertCast? s' t').map (paren e.span) := by
      rw [castTo, insertCast?.eq_def]
      exact (if_neg apart).trans (if_pos around)
    rw [outer, inner, Option.map_map]
    cases cast' : e.insertCast? s' t' with
    | none => rfl
    | some e' =>
      have kept := span_of_insertCast? cast'
      rw [Option.bind_some, insertCast?_of_span (kept.trans same), castTo, kept]
      rfl
  · rw [insertCast?_of_outside apart around, insertCast?_eq]
    exact (if_neg apart).trans (if_neg around)

/-- Neither before another cast nor after it is there one for a span that the tree does not
contain. -/
theorem insertCast?_bind_of_outside (apart : e.span ≠ s') (outside : ¬e.span.contains s' = true) :
    (e.insertCast? s t).bind (insertCast? s' t')
      = (e.insertCast? s' t').bind (insertCast? s t) := by
  rw [insertCast?_of_outside apart outside, Option.bind_none, Option.bind_eq_none_iff]
  intro e' cast
  have kept := span_of_insertCast? cast
  rw [← kept] at apart outside
  exact insertCast?_of_outside apart outside

theorem insertCast?_withParts {cs : List Expr} (size : cs.length = e.children.length)
    (other : e.span ≠ s) (around : e.span.contains s = true) :
    (e.withParts cs).insertCast? s t = (insertCastIn? s t cs).map e.withParts := by
  rw [insertCast?_eq, span_withParts, if_neg other, if_pos around, children_withParts size]
  cases cast : insertCastIn? s t cs with
  | none => rfl
  | some ds =>
    rw [Option.map_some, Option.map_some,
      withParts_withParts ((length_of_insertCastIn? cast).trans size)]

theorem insertCastIn?_cons_of_some {es : List Expr} (cast : e.insertCast? s t = some e') :
    insertCastIn? s t (e :: es) = some (e' :: es) := by
  rw [insertCastIn?, cast]
  rfl

theorem insertCastIn?_cons_of_none {es : List Expr} (none : e.insertCast? s t = none) :
    insertCastIn? s t (e :: es) = (insertCastIn? s t es).map (e :: ·) := by
  rw [insertCastIn?, none]
  rfl

/-- A cast in the first part of a list and one behind it. -/
theorem insertCastIn?_comm_of_none (other : s ≠ s') (es : List Expr)
    (cast : e.insertCast? s t = some e') (none : e.insertCast? s' t' = none) :
    (insertCastIn? s t (e :: es)).bind (insertCastIn? s' t')
      = (insertCastIn? s' t' (e :: es)).bind (insertCastIn? s t) := by
  have still : e'.insertCast? s' t' = Option.none :=
    (insertCast?_eq_none_iff_of_insertCast? cast other).mpr none
  rw [insertCastIn?_cons_of_some cast, insertCastIn?_cons_of_none none, Option.bind_some,
    insertCastIn?_cons_of_none still]
  cases insertCastIn? s' t' es with
  | none => rfl
  | some es' => exact (insertCastIn?_cons_of_some cast).symm

/-- Casts in a list can be inserted in either order if those in each part can. -/
theorem insertCastIn?_comm (other : s ≠ s') {es : List Expr}
    (each : ∀ e ∈ es, (e.insertCast? s t).bind (insertCast? s' t')
      = (e.insertCast? s' t').bind (insertCast? s t)) :
    (insertCastIn? s t es).bind (insertCastIn? s' t')
      = (insertCastIn? s' t' es).bind (insertCastIn? s t) := by
  induction es with
  | nil => rfl
  | cons e es ih =>
    obtain ⟨here, later⟩ := List.forall_mem_cons.mp each
    cases first : e.insertCast? s t with
    | none =>
      cases second : e.insertCast? s' t' with
      | none =>
        rw [insertCastIn?_cons_of_none first, insertCastIn?_cons_of_none second, Option.bind_map,
          Option.bind_map]
        have behind := congrArg (Option.map (e :: ·)) (ih later)
        rw [Option.map_bind, Option.map_bind] at behind
        simpa only [Function.comp_def, insertCastIn?_cons_of_none first,
          insertCastIn?_cons_of_none second] using behind
      | some e' => exact (insertCastIn?_comm_of_none other.symm es second first).symm
    | some e' =>
      cases second : e.insertCast? s' t' with
      | none => exact insertCastIn?_comm_of_none other es first second
      | some e'' =>
        rw [insertCastIn?_cons_of_some first, insertCastIn?_cons_of_some second, Option.bind_some,
          Option.bind_some]
        rw [first, second, Option.bind_some, Option.bind_some] at here
        cases both : e''.insertCast? s t with
        | some c =>
          rw [insertCastIn?_cons_of_some both, insertCastIn?_cons_of_some (here.trans both)]
        | none =>
          have lost := (insertCast?_eq_none_iff_of_insertCast? second other.symm).mp both
          rw [first] at lost
          cases lost

/-- Casts at two spans can be inserted in either order, with the same tree in the end. -/
theorem insertCast?_comm (other : s ≠ s') (t t' : TypeRef) (e : Expr) :
    (e.insertCast? s t).bind (insertCast? s' t')
      = (e.insertCast? s' t').bind (insertCast? s t) := by
  induction e using inductionOnParts with
  | node e ih =>
    by_cases same : e.span = s
    · rw [insertCast?_of_span same, Option.bind_some, insertCast?_castTo same other]
    by_cases same' : e.span = s'
    · rw [insertCast?_of_span same', Option.bind_some, insertCast?_castTo same' other.symm]
    by_cases around : e.span.contains s = true
    · by_cases around' : e.span.contains s' = true
      · have parts := congrArg (Option.map e.withParts) (insertCastIn?_comm other ih)
        rw [Option.map_bind, Option.map_bind] at parts
        rw [insertCast?_of_inside same around, insertCast?_of_inside same' around', Option.bind_map,
          Option.bind_map]
        refine (Option.bind_congr fun cs cast => ?_).trans
          (parts.trans (Option.bind_congr fun cs cast => ?_))
        · exact insertCast?_withParts (length_of_insertCastIn? cast) same' around'
        · exact (insertCast?_withParts (length_of_insertCastIn? cast) same around).symm
      · exact insertCast?_bind_of_outside same' around'
    · exact (insertCast?_bind_of_outside same around).symm

end

end Marksmith.Syntax.Expr

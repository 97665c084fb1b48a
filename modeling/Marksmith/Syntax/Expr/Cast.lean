import Marksmith.Syntax.Expr

/-!
Finding the node with a given span, and wrapping it in a cast. `insertCast?` returns a changed tree
exactly where `find?` returns a node; all added nodes carry the span of the node they wrap, so
positions in the changed tree still point into the text that was parsed.
-/

namespace Marksmith.Syntax

namespace Expr

mutual

/-- The first node with exactly this span, outermost first; only nodes that contain it are
entered. -/
def find? (target : Span) (e : Expr) : Option Expr :=
  if e.span = target then some e
  else if e.span.contains target then
    match e with
    | name _ _ | literal _ _ | this _ => none
    | member _ t _ => find? target t
    | invoke _ callee args | index _ callee args => (find? target callee).or (findIn? target args)
    | cast _ _ operand | unary _ _ operand | paren _ operand | lambda _ _ operand =>
      find? target operand
    | new _ _ args => findIn? target args
    | binary _ left _ right => (find? target left).or (find? target right)
  else none

/-- The first such node in a list of expressions. -/
def findIn? (target : Span) : List Expr → Option Expr
  | [] => none
  | e :: es => (find? target e).or (findIn? target es)

end

theorem findIn?_eq (target : Span) (es : List Expr) :
    findIn? target es = es.findSome? (find? target) := by
  induction es with
  | nil => rfl
  | cons e es ih =>
    simp only [findIn?, List.findSome?_cons, ih]
    cases find? target e <;> rfl

/-- The search enters the direct parts of a node in order. -/
theorem find?_eq (target : Span) (e : Expr) :
    e.find? target =
      if e.span = target then some e
      else if e.span.contains target then e.children.findSome? (find? target)
      else none := by
  cases e <;> unfold find? <;> simp only [children, findIn?_eq, List.findSome?_cons,
    List.findSome?_nil] <;> grind [Option.or]

/-- An expression cast to a type, in parentheses. -/
def castTo (type : TypeRef) (e : Expr) : Expr :=
  paren e.span (cast e.span ⟨type, e.span⟩ e)

mutual

/-- The tree with the node of exactly this span cast to a type; nothing if there is none. -/
def insertCast? (target : Span) (type : TypeRef) (e : Expr) : Option Expr :=
  if e.span = target then some (castTo type e)
  else if e.span.contains target then
    match e with
    | name _ _ | literal _ _ | this _ => none
    | member s t n => (insertCast? target type t).map (member s · n)
    | invoke s callee args =>
      ((insertCast? target type callee).map (invoke s · args)).or
        ((insertCastIn? target type args).map (invoke s callee))
    | index s callee args =>
      ((insertCast? target type callee).map (index s · args)).or
        ((insertCastIn? target type args).map (index s callee))
    | cast s t operand => (insertCast? target type operand).map (cast s t)
    | new s t args => (insertCastIn? target type args).map (new s t)
    | lambda s params body => (insertCast? target type body).map (lambda s params)
    | unary s op operand => (insertCast? target type operand).map (unary s op)
    | binary s left op right =>
      ((insertCast? target type left).map (binary s · op right)).or
        ((insertCast? target type right).map (binary s left op))
    | paren s inner => (insertCast? target type inner).map (paren s)
  else none

/-- The list with the first such node cast. -/
def insertCastIn? (target : Span) (type : TypeRef) : List Expr → Option (List Expr)
  | [] => none
  | e :: es =>
    ((insertCast? target type e).map (· :: es)).or ((insertCastIn? target type es).map (e :: ·))

end

end Expr

end Marksmith.Syntax

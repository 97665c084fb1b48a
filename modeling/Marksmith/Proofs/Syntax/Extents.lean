import Marksmith.Proofs.Syntax.Boundaries
import Marksmith.Proofs.Syntax.Excerpts

/-!
Which tokens an expression consists of.

* `Spells`: the tokens of an expression, node by node, with the spans that they give to it; where an
  expression ends is the only thing in it that depends on what stands behind;
* `Expr.shift`: an expression some bytes further on in a text;
* `Excerpt`: the tokens up to some place, some bytes earlier, and the end of the text;
* `Spells.eq_shift`: an expression that an excerpt spells is the one in the whole, some bytes
  earlier, if the two are the same up to spans.
-/

namespace Marksmith.Syntax

/-! ### Tokens of an expression -/

mutual

/-- The tokens up to `rest` spell an expression. -/
inductive Spells : List Token → Expr → List Token → Prop where
  | name {ts rest : List Token} {span : Span} {n : SimpleName}
      (read : NameAt (aliased (lexemes ts)) n (lexemes rest)) (covers : Covers ts span rest) :
      Spells ts (.name span n) rest
  | literal {l : Lexeme} {span : Span} {rest : List Token} {v : Literal}
      (read : Literal.ofLexeme? l = some v) : Spells (⟨l, span⟩ :: rest) (.literal span v) rest
  | this {span : Span} {rest : List Token} :
      Spells (⟨.keyword .this, span⟩ :: rest) (.this span) rest
  | member {ts us rest : List Token} {dot : Span} {target : Expr} {n : Located SimpleName}
      (first : Spells ts target (⟨.punct .dot, dot⟩ :: us))
      (read : NameAt (lexemes us) n.node (lexemes rest)) (covers : Covers us n.span rest) :
      Spells ts (.member (target.span.merge n.span) target n) rest
  | invoke {ts us rest : List Token} {opening closing : Span} {callee : Expr} {args : List Expr}
      (first : Spells ts callee (⟨.punct .lparen, opening⟩ :: us))
      (listed : SpellsAll .rparen us args closing rest) :
      Spells ts (.invoke (callee.span.merge closing) callee args) rest
  | index {ts us rest : List Token} {opening closing : Span} {target : Expr} {args : List Expr}
      (first : Spells ts target (⟨.punct .lbracket, opening⟩ :: us))
      (listed : SpellsAll .rbracket us args closing rest) :
      Spells ts (.index (target.span.merge closing) target args) rest
  | cast {us vs rest : List Token} {opening closing : Span} {t : Located TypeRef} {operand : Expr}
      (type : TypeAt (lexemes us) t.node (.punct .rparen :: lexemes vs))
      (covers : Covers us t.span (⟨.punct .rparen, closing⟩ :: vs))
      (behind : Spells vs operand rest) :
      Spells (⟨.punct .lparen, opening⟩ :: us) (.cast (opening.merge operand.span) t operand) rest
  | new {us vs rest : List Token} {start opening closing : Span} {t : Located TypeRef}
      {args : List Expr} (type : TypeAt (lexemes us) t.node (.punct .lparen :: lexemes vs))
      (covers : Covers us t.span (⟨.punct .lparen, opening⟩ :: vs))
      (listed : SpellsAll .rparen vs args closing rest) :
      Spells (⟨.keyword .new, start⟩ :: us) (.new (start.merge closing) t args) rest
  | lambda {ts rest : List Token} {head : Step (List (Located String)) 2 ts} {body : Expr}
      (found : lambdaHead? ts = some head) (behind : Spells head.rest body rest) :
      Spells ts (.lambda ((frontSpan ts).merge body.span) head.value body) rest
  | unary {us rest : List Token} {mark : Span} {op : UnaryOp} {operand : Expr}
      (behind : Spells us operand rest) :
      Spells (⟨.punct op.punct, mark⟩ :: us) (.unary (mark.merge operand.span) op operand) rest
  | binary {ts us rest : List Token} {mark : Span} {op : BinaryOp} {left right : Expr}
      (first : Spells ts left (⟨.punct op.punct, mark⟩ :: us)) (second : Spells us right rest) :
      Spells ts (.binary (left.span.merge right.span) left op right) rest
  | paren {us rest : List Token} {opening closing : Span} {inner : Expr}
      (whole : Spells us inner (⟨.punct .rparen, closing⟩ :: rest)) :
      Spells (⟨.punct .lparen, opening⟩ :: us) (.paren (opening.merge closing) inner) rest

/-- The tokens up to `rest` spell arguments and the closing mark behind them. -/
inductive SpellsAll : Punct → List Token → List Expr → Span → List Token → Prop where
  | nil {close : Punct} {closing : Span} {rest : List Token} :
      SpellsAll close (⟨.punct close, closing⟩ :: rest) [] closing rest
  | last {close : Punct} {us rest : List Token} {closing : Span} {e : Expr}
      (only : Spells us e (⟨.punct close, closing⟩ :: rest)) : SpellsAll close us [e] closing rest
  | more {close : Punct} {us vs rest : List Token} {comma closing : Span} {e : Expr}
      {es : List Expr} (first : Spells us e (⟨.punct .comma, comma⟩ :: vs))
      (others : SpellsAll close vs es closing rest) (some : es ≠ []) :
      SpellsAll close us (e :: es) closing rest

end

/-- There is a token before `rest`. If it closes type arguments, `rest` ends type arguments. -/
def EndsBefore (ts rest : List Token) : Prop :=
  ∃ front last, ts = front ++ last :: rest ∧ last.lexeme ≠ .eof ∧
    (last.lexeme = .punct .gt → endsTypeArgs (peek (lexemes rest)) = true)

variable {ts us mid rest : List Token}

theorem EndsBefore.prepend (ends : EndsBefore us rest) (sub : us <:+ ts) : EndsBefore ts rest := by
  obtain ⟨before, rfl⟩ := sub
  obtain ⟨front, last, rfl, closes⟩ := ends
  exact ⟨before ++ front, last, (List.append_assoc ..).symm, closes⟩

theorem EndsBefore.suffix (ends : EndsBefore ts rest) : rest <:+ ts := by
  obtain ⟨front, last, rfl, -, -⟩ := ends
  exact ⟨front ++ [last], List.append_assoc ..⟩

theorem endsBefore_token {t : Token} (some : t.lexeme ≠ .eof) (other : t.lexeme ≠ .punct .gt) :
    EndsBefore (t :: rest) rest :=
  ⟨[], t, rfl, some, fun same => absurd same other⟩

theorem EndsBefore.closesWell (ends : EndsBefore ts rest) :
    ClosesWell rest.length (lexemes ts) := by
  obtain ⟨front, last, rfl, -, closes⟩ := ends
  intro c behind split left
  rw [lexemes, List.map_append, List.map_cons] at split
  obtain ⟨-, same⟩ := List.append_inj' split (by simp [left])
  obtain ⟨gt, rfl⟩ := List.cons.inj same
  exact closes gt

/-- Where type arguments are taken, what stands behind them ends type arguments. -/
theorem NameAt.endsBefore {n : SimpleName} {span : Span}
    (read : NameAt (lexemes us) n (lexemes rest)) (sub : us <:+ ts) (covers : Covers ts span rest) :
    EndsBefore ts rest := by
  obtain ⟨front, last, split, some, -⟩ := covers.ends
  refine ⟨front, last, split, some, ?_⟩
  intro gt
  generalize all : lexemes us = ls at read
  cases read with
  | bare _ =>
    obtain ⟨before, rfl⟩ := sub
    have same := congrArg lexemes split
    simp only [lexemes, List.map_append, List.map_cons] at same all
    rw [all, gt] at same
    cases (List.append_inj' same (by simp)).2
  | generic some =>
    obtain ⟨_, _, _, ends⟩ := some
    exact ends

mutual

/-- An expression ends before what remains. -/
theorem Spells.endsBefore : {e : Expr} → {ts rest : List Token} → Spells ts e rest →
    EndsBefore ts rest
  | .name .., ts, rest, h => by
    cases h with
    | name read covers =>
      rw [← lexemes_skipAlias] at read
      exact read.endsBefore (skipAlias_suffix ts) covers
  | .literal .., ts, rest, h => by
    cases h with
    | literal read =>
      refine endsBefore_token ?_ ?_ <;>
      · rintro rfl
        cases read
  | .this _, ts, rest, h => by
    cases h
    exact endsBefore_token nofun nofun
  | .member .., ts, rest, h => by
    cases h with
    | member first read covers =>
      have behind := (List.suffix_cons _ _).trans first.endsBefore.suffix
      exact (read.endsBefore (List.suffix_refl _) covers).prepend behind
  | .invoke .., ts, rest, h => by
    cases h with
    | invoke first listed =>
      have behind := (List.suffix_cons _ _).trans first.endsBefore.suffix
      exact (listed.endsBefore (by decide)).prepend behind
  | .index .., ts, rest, h => by
    cases h with
    | index first listed =>
      have behind := (List.suffix_cons _ _).trans first.endsBefore.suffix
      exact (listed.endsBefore (by decide)).prepend behind
  | .cast .., ts, rest, h => by
    cases h with
    | cast type covers behind =>
      have sub := (List.suffix_cons _ _).trans covers.suffix
      exact behind.endsBefore.prepend (sub.trans (List.suffix_cons _ _))
  | .new .., ts, rest, h => by
    cases h with
    | new type covers listed =>
      have sub := (List.suffix_cons _ _).trans covers.suffix
      exact (listed.endsBefore (by decide)).prepend (sub.trans (List.suffix_cons _ _))
  | .lambda .., ts, rest, h => by
    cases h with
    | lambda found behind =>
      obtain ⟨front, split, -⟩ := lambdaHead?_idents found
      exact behind.endsBefore.prepend ⟨front, split.symm⟩
  | .unary .., ts, rest, h => by
    cases h with
    | unary behind => exact behind.endsBefore.prepend (List.suffix_cons _ _)
  | .binary .., ts, rest, h => by
    cases h with
    | binary first second =>
      have behind := (List.suffix_cons _ _).trans first.endsBefore.suffix
      exact second.endsBefore.prepend behind
  | .paren .., ts, rest, h => by
    cases h with
    | paren whole =>
      refine EndsBefore.prepend ?_ (whole.endsBefore.suffix.trans (List.suffix_cons _ _))
      exact endsBefore_token nofun nofun

/-- Arguments end with the closing mark. -/
theorem SpellsAll.endsBefore : {es : List Expr} → {close : Punct} → {ts rest : List Token} →
    {closing : Span} → SpellsAll close ts es closing rest → close ≠ .gt → EndsBefore ts rest
  | [], close, ts, rest, closing, h, other => by
    cases h
    refine endsBefore_token (by simp) ?_
    exact fun same => other (Lexeme.punct.inj same)
  | e :: es, close, ts, rest, closing, h, other => by
    cases h with
    | last only =>
      refine (endsBefore_token (by simp) ?_).prepend only.endsBefore.suffix
      exact fun same => other (Lexeme.punct.inj same)
    | more first others _ =>
      have behind := (List.suffix_cons _ _).trans first.endsBefore.suffix
      exact (others.endsBefore other).prepend behind

end

/-! ### Further on in a text -/

/-- A range some bytes further on. -/
def Span.shift (k : Nat) (s : Span) : Span := ⟨s.start + k, s.stop + k⟩

/-- A token some bytes further on. -/
def Token.shift (k : Nat) (t : Token) : Token := ⟨t.lexeme, t.span.shift k⟩

/-- A value that was read some bytes further on. -/
def Located.shift {α : Type} (k : Nat) (a : Located α) : Located α := ⟨a.node, a.span.shift k⟩

theorem Span.merge_shift (k : Nat) (a b : Span) :
    (a.shift k).merge (b.shift k) = (a.merge b).shift k := by
  simp only [shift, merge, Span.mk.injEq]
  omega

namespace Expr

mutual

/-- An expression some bytes further on. -/
def shift (k : Nat) : Expr → Expr
  | name s n => name (s.shift k) n
  | literal s v => literal (s.shift k) v
  | this s => this (s.shift k)
  | member s target n => member (s.shift k) (shift k target) (n.shift k)
  | invoke s callee args => invoke (s.shift k) (shift k callee) (shiftAll k args)
  | index s target args => index (s.shift k) (shift k target) (shiftAll k args)
  | cast s type operand => cast (s.shift k) (type.shift k) (shift k operand)
  | new s type args => new (s.shift k) (type.shift k) (shiftAll k args)
  | lambda s params body => lambda (s.shift k) (params.map (.shift k)) (shift k body)
  | unary s op operand => unary (s.shift k) op (shift k operand)
  | binary s left op right => binary (s.shift k) (shift k left) op (shift k right)
  | paren s inner => paren (s.shift k) (shift k inner)

/-- Several expressions some bytes further on. -/
def shiftAll (k : Nat) : List Expr → List Expr
  | [] => []
  | e :: es => shift k e :: shiftAll k es

end

@[simp] theorem span_shift (k : Nat) (e : Expr) : (e.shift k).span = e.span.shift k := by
  cases e <;> rfl

end Expr

/-! ### Excerpts -/

/-- The second tokens are the first ones up to `rest`, `k` bytes earlier, with the end of the text
behind them. -/
def Excerpt (k : Nat) (rest ts us : List Token) : Prop :=
  ∃ c stop, ts = c.map (.shift k) ++ rest ∧ us = c ++ [⟨.eof, stop⟩]

section

variable {k : Nat} {mid' : List Token}

theorem length_le_lexemes (kept : rest <:+ mid) : rest.length ≤ (lexemes mid).length := by
  rw [lexemes, List.length_map]
  exact kept.length_le

theorem length_cutOff {m : Nat} {ls : List Lexeme} (kept : m ≤ ls.length) :
    (cutOff m ls).length + m = ls.length + 1 := by
  rw [cutOff, List.length_append, List.length_take, List.length_singleton]
  omega

namespace Excerpt

theorem lexemes_eq (h : Excerpt k rest ts us) : lexemes us = cutOff rest.length (lexemes ts) := by
  obtain ⟨c, stop, rfl, rfl⟩ := h
  have kept := length_le_lexemes (List.suffix_refl rest)
  have nothing : cutOff rest.length (lexemes rest) = [.eof] := cutOff_of_le (by simp [lexemes])
  calc lexemes (c ++ [⟨.eof, stop⟩])
      = lexemes c ++ [.eof] := by simp [lexemes]
    _ = cutOff rest.length (lexemes c ++ lexemes rest) := by rw [cutOff_append _ kept, nothing]
    _ = cutOff rest.length (lexemes (c.map (.shift k) ++ rest)) := by
      simp only [lexemes, List.map_append, List.map_map]
      rfl

theorem tail {t t' : Token} (h : Excerpt k rest (t :: ts) (t' :: us)) (kept : rest <:+ ts) :
    t = t'.shift k ∧ Excerpt k rest ts us := by
  obtain ⟨c, stop, split, split'⟩ := h
  cases c with
  | nil =>
    have short := kept.length_le
    rw [List.map_nil, List.nil_append] at split
    rw [← split, List.length_cons] at short
    omega
  | cons u c =>
    cases split
    cases split'
    exact ⟨rfl, c, stop, rfl, rfl⟩

/-- What remains of an excerpt is an excerpt of what remains. -/
theorem of_suffix (h : Excerpt k rest ts us) (sub : mid <:+ ts) (kept : rest <:+ mid)
    (sub' : mid' <:+ us) (same : lexemes mid' = cutOff rest.length (lexemes mid)) :
    Excerpt k rest mid mid' := by
  obtain ⟨c, stop, rfl, rfl⟩ := h
  obtain ⟨d, rfl⟩ := kept
  obtain ⟨front, split⟩ := sub
  rw [← List.append_assoc] at split
  obtain ⟨c, e, rfl, rfl, rfl⟩ := List.map_eq_append_iff.mp (List.append_cancel_right split).symm
  refine ⟨e, stop, rfl, ?_⟩
  have length := congrArg List.length same
  have cut := length_cutOff (length_le_lexemes (List.suffix_append (e.map (.shift k)) rest))
  rw [← length] at cut
  simp only [lexemes, List.length_map, List.length_append] at cut
  have sub : e ++ [⟨.eof, stop⟩] <:+ c ++ e ++ [⟨.eof, stop⟩] := ⟨c, by simp⟩
  refine (List.suffix_of_suffix_length_le sub' sub ?_).eq_of_length ?_ <;>
    simp only [List.length_append, List.length_singleton] <;> omega

/-- What was taken from both is the same, some bytes earlier. -/
theorem front_eq {front front' : List Token}
    (whole : Excerpt k rest (front ++ mid) (front' ++ mid')) (left : Excerpt k rest mid mid') : front = front'.map (.shift k) := by
  obtain ⟨c, stop, split, split'⟩ := whole
  obtain ⟨d, stop', rfl, rfl⟩ := left
  rw [← List.append_assoc] at split split'
  have front_c := List.append_cancel_right split
  have front_c' := (List.append_inj' split' rfl).1
  rw [← front_c', List.map_append] at front_c
  exact List.append_cancel_right front_c

theorem frontSpan_eq (h : Excerpt k rest ts us) (some : rest.length < ts.length) :
    frontSpan ts = (frontSpan us).shift k := by
  obtain ⟨c, stop, rfl, rfl⟩ := h
  cases c with
  | nil => exact absurd some (by simp)
  | cons t c => rfl

end Excerpt

theorem Covers.eq_shift {a b : Span} (h : Covers ts a mid) (h' : Covers us b mid')
    (whole : Excerpt k rest ts us) (left : Excerpt k rest mid mid') (kept : rest <:+ mid) :
    a = b.shift k := by
  have begins := h.start_eq
  have begins' := h'.start_eq
  obtain ⟨front, last, rfl, -, stop⟩ := h.ends
  obtain ⟨front', last', rfl, -, stop'⟩ := h'.ends
  have some : rest.length < (front ++ last :: mid).length := by
    have := kept.length_le
    simp only [List.length_append, List.length_cons]
    omega
  rw [whole.frontSpan_eq some, Span.shift] at begins
  rw [List.append_cons, List.append_cons front'] at whole
  have fronts := whole.front_eq left
  rw [List.map_append] at fronts
  obtain ⟨-, same⟩ := List.append_inj' fronts rfl
  cases same
  obtain ⟨start, stop₀⟩ := a
  rw [Span.shift, Span.mk.injEq]
  exact ⟨begins.trans (congrArg (· + k) begins'.symm), stop.trans (congrArg (· + k) stop'.symm)⟩

/-! ### The same reading -/

theorem ClosesWell.tokens {m : Nat} (closes : ClosesWell m (lexemes ts)) (sub : us <:+ ts) :
    ClosesWell m (lexemes us) :=
  closes.suffix (sub.map _)

theorem NameAt.unique {ls left left' : List Lexeme} {n n' : SimpleName} (h : NameAt ls n left)
    (h' : NameAt ls n' left') : n = n' ∧ left = left' := by
  obtain ⟨ts, rfl⟩ := exists_lexemes ls
  obtain ⟨s, read, rfl, rfl⟩ := simpleName_complete h
  obtain ⟨s', read', rfl, rfl⟩ := simpleName_complete h'
  rw [read] at read'
  cases read'
  exact ⟨rfl, rfl⟩

theorem TypeAt.unique {ls left left' : List Lexeme} {t t' : TypeRef} (h : TypeAt ls t left)
    (h' : TypeAt ls t' left') : t = t' ∧ left = left' := by
  obtain ⟨ts, rfl⟩ := exists_lexemes ls
  obtain ⟨s, read, rfl, rfl⟩ := typeRef_complete h
  obtain ⟨s', read', rfl, rfl⟩ := typeRef_complete h'
  rw [read] at read'
  cases read'
  exact ⟨rfl, rfl⟩

theorem eq_shift_type {p : Punct} {t t' : Located TypeRef} {a b : Span}
    (ends : p ∉ [Punct.dot, .lt, .question, .lbracket, .colonColon])
    (type : TypeAt (lexemes ts) t.node (.punct p :: lexemes mid))
    (covers : Covers ts t.span (⟨.punct p, a⟩ :: mid))
    (type' : TypeAt (lexemes us) t'.node (.punct p :: lexemes mid'))
    (covers' : Covers us t'.span (⟨.punct p, b⟩ :: mid')) (kept : rest <:+ mid)
    (whole : Excerpt k rest ts us) : t = t'.shift k ∧ a = b.shift k ∧ Excerpt k rest mid mid' := by
  have short := type.shortened (length_le_lexemes kept) ends
  rw [← whole.lexemes_eq] at short
  obtain ⟨node, left⟩ := short.unique type'
  have kept' : rest <:+ ⟨.punct p, a⟩ :: mid := kept.trans (List.suffix_cons _ _)
  have behind := whole.of_suffix covers.suffix kept' covers'.suffix (by
    rw [lexemes_cons, lexemes_cons, cutOff_cons _ (length_le_lexemes kept)]
    exact left.symm)
  have span := covers.eq_shift covers' whole behind kept'
  obtain ⟨closing, behind⟩ := behind.tail kept
  obtain ⟨node', span'⟩ := t
  cases node
  cases span
  exact ⟨rfl, congrArg Token.span closing, behind⟩

theorem eq_shift_name {n n' : Located SimpleName} (read : NameAt (lexemes ts) n.node (lexemes mid))
    (covers : Covers ts n.span mid) (read' : NameAt (lexemes us) n'.node (lexemes mid'))
    (covers' : Covers us n'.span mid') (kept : rest <:+ mid) (whole : Excerpt k rest ts us)
    (closes : ClosesWell rest.length (lexemes ts)) : n = n'.shift k ∧ Excerpt k rest mid mid' := by
  have short := read.shortened (length_le_lexemes kept) closes
  rw [← whole.lexemes_eq] at short
  obtain ⟨node, left⟩ := short.unique read'
  have behind := whole.of_suffix covers.suffix kept covers'.suffix left.symm
  have span := covers.eq_shift covers' whole behind kept
  obtain ⟨node', span'⟩ := n
  cases node
  cases span
  exact ⟨rfl, behind⟩

theorem eq_shift_head {head : Step (List (Located String)) 2 ts}
    {head' : Step (List (Located String)) 2 us} (found : lambdaHead? ts = some head)
    (found' : lambdaHead? us = some head') (kept : rest <:+ head.rest)
    (whole : Excerpt k rest ts us) :
    head.value = head'.value.map (.shift k) ∧ Excerpt k rest head.rest head'.rest := by
  obtain ⟨front, split, idents⟩ := lambdaHead?_idents found
  obtain ⟨front', split', idents'⟩ := lambdaHead?_idents found'
  have heads := lambdaHead?_eq ts
  have heads' := lambdaHead?_eq us
  rw [found] at heads
  rw [found', whole.lexemes_eq, lambdaOf_cutOff heads.symm (length_le_lexemes kept)] at heads'
  have left := congrArg Prod.snd (Option.some.inj heads')
  have behind := whole.of_suffix ⟨front, split.symm⟩ kept ⟨front', split'.symm⟩ left
  refine ⟨?_, behind⟩
  have fronts := Excerpt.front_eq (split' ▸ split ▸ whole) behind
  have params : head.value.map nameToken = (head'.value.map (.shift k)).map nameToken := by
    rw [← idents, fronts, List.filter_map, List.map_map]
    have same : Token.isIdent ∘ Token.shift k = Token.isIdent := rfl
    rw [same, idents', List.map_map]
    rfl
  refine List.map_injective_iff.mpr ?_ params
  rintro ⟨x, a⟩ ⟨y, b⟩ ⟨⟩
  rfl

theorem eraseAll_eq_nil {es : List Expr} (none : Expr.eraseAll es = []) : es = [] := by
  cases es with
  | nil => rfl
  | cons e es => cases none

mutual

/-- An expression that an excerpt spells is the one in the whole, some bytes earlier. -/
theorem Spells.eq_shift : {e e' : Expr} → {ts us mid mid' : List Token} → Spells ts e mid →
    Spells us e' mid' → e'.erase = e.erase → rest <:+ mid → Excerpt k rest ts us →
    ClosesWell rest.length (lexemes ts) → e = e'.shift k ∧ Excerpt k rest mid mid'
  | .name span n, e', ts, us, mid, mid', h, h', same, kept, whole, closes => by
    cases h with
    | name read covers =>
      cases h' with
      | name read' covers' =>
        have short := read.shortened_aliased (length_le_lexemes kept) closes
        rw [← whole.lexemes_eq] at short
        obtain ⟨rfl, left⟩ := short.unique read'
        have behind := whole.of_suffix covers.suffix kept covers'.suffix left.symm
        rw [covers.eq_shift covers' whole behind kept]
        exact ⟨rfl, behind⟩
      | _ => cases same
  | .literal span v, e', ts, us, mid, mid', h, h', same, kept, whole, closes => by
    cases h with
    | literal read =>
      cases h' with
      | literal read' =>
        obtain ⟨token, behind⟩ := whole.tail kept
        cases token
        cases same
        exact ⟨rfl, behind⟩
      | _ => cases same
  | .this span, e', ts, us, mid, mid', h, h', same, kept, whole, closes => by
    cases h with
    | this =>
      cases h' with
      | this =>
        obtain ⟨token, behind⟩ := whole.tail kept
        cases token
        exact ⟨rfl, behind⟩
      | _ => cases same
  | .member span target n, e', ts, us, mid, mid', h, h', same, kept, whole, closes => by
    cases h with
    | member first read covers =>
      cases h' with
      | member first' read' covers' =>
        obtain ⟨-, sameTarget, -⟩ := Expr.member.inj same
        have kept' := kept.trans covers.suffix
        obtain ⟨rfl, behind⟩ := first.eq_shift first' sameTarget
          (kept'.trans (List.suffix_cons _ _)) whole closes
        obtain ⟨-, behind⟩ := behind.tail kept'
        have closes' := closes.tokens ((List.suffix_cons _ _).trans first.endsBefore.suffix)
        obtain ⟨rfl, left⟩ := eq_shift_name read covers read' covers' kept behind closes'
        exact ⟨by rw [Expr.shift, Expr.span_shift, Located.shift, Span.merge_shift], left⟩
      | _ => cases same
  | .invoke span callee args, e', ts, us, mid, mid', h, h', same, kept, whole, closes => by
    cases h with
    | invoke first listed =>
      cases h' with
      | invoke first' listed' =>
        obtain ⟨-, sameCallee, sameArgs⟩ := Expr.invoke.inj same
        have kept' := kept.trans (listed.endsBefore (by decide)).suffix
        obtain ⟨rfl, behind⟩ := first.eq_shift first' sameCallee
          (kept'.trans (List.suffix_cons _ _)) whole closes
        obtain ⟨-, behind⟩ := behind.tail kept'
        have closes' := closes.tokens ((List.suffix_cons _ _).trans first.endsBefore.suffix)
        obtain ⟨rfl, rfl, left⟩ := listed.eq_shift listed' (by decide) sameArgs kept behind closes'
        exact ⟨by rw [Expr.shift, Expr.span_shift, Span.merge_shift], left⟩
      | _ => cases same
  | .index span target args, e', ts, us, mid, mid', h, h', same, kept, whole, closes => by
    cases h with
    | index first listed =>
      cases h' with
      | index first' listed' =>
        obtain ⟨-, sameTarget, sameArgs⟩ := Expr.index.inj same
        have kept' := kept.trans (listed.endsBefore (by decide)).suffix
        obtain ⟨rfl, behind⟩ := first.eq_shift first' sameTarget
          (kept'.trans (List.suffix_cons _ _)) whole closes
        obtain ⟨-, behind⟩ := behind.tail kept'
        have closes' := closes.tokens ((List.suffix_cons _ _).trans first.endsBefore.suffix)
        obtain ⟨rfl, rfl, left⟩ := listed.eq_shift listed' (by decide) sameArgs kept behind closes'
        exact ⟨by rw [Expr.shift, Expr.span_shift, Span.merge_shift], left⟩
      | _ => cases same
  | .cast span type operand, e', ts, us, mid, mid', h, h', same, kept, whole, closes => by
    cases h with
    | cast type covers part =>
      cases h' with
      | cast type' covers' part' =>
        obtain ⟨-, -, samePart⟩ := Expr.cast.inj same
        have kept' := kept.trans part.endsBefore.suffix
        have inside := (List.suffix_cons _ _).trans covers.suffix
        obtain ⟨token, behind⟩ := whole.tail (kept'.trans inside)
        cases token
        obtain ⟨rfl, -, behind⟩ := eq_shift_type (by decide) type covers type' covers' kept' behind
        have closes' := closes.tokens (inside.trans (List.suffix_cons _ _))
        obtain ⟨rfl, left⟩ := part.eq_shift part' samePart kept behind closes'
        exact ⟨by rw [Expr.shift, Expr.span_shift, Span.merge_shift], left⟩
      | _ => cases same
  | .new span type args, e', ts, us, mid, mid', h, h', same, kept, whole, closes => by
    cases h with
    | new type covers listed =>
      cases h' with
      | new type' covers' listed' =>
        obtain ⟨-, -, sameArgs⟩ := Expr.new.inj same
        have kept' := kept.trans (listed.endsBefore (by decide)).suffix
        have inside := (List.suffix_cons _ _).trans covers.suffix
        obtain ⟨token, behind⟩ := whole.tail (kept'.trans inside)
        cases token
        obtain ⟨rfl, -, behind⟩ := eq_shift_type (by decide) type covers type' covers' kept' behind
        have closes' := closes.tokens (inside.trans (List.suffix_cons _ _))
        obtain ⟨rfl, rfl, left⟩ := listed.eq_shift listed' (by decide) sameArgs kept behind closes'
        exact ⟨by rw [Expr.shift, Span.merge_shift], left⟩
      | _ => cases same
  | .lambda span params body, e', ts, us, mid, mid', h, h', same, kept, whole, closes => by
    cases h with
    | @lambda _ _ head _ found part =>
      cases h' with
      | lambda found' part' =>
        obtain ⟨-, -, samePart⟩ := Expr.lambda.inj same
        have kept' := kept.trans part.endsBefore.suffix
        obtain ⟨front, split, -⟩ := lambdaHead?_idents found
        have begins := whole.frontSpan_eq (by
          have := kept'.length_le
          have := head.bound
          omega)
        obtain ⟨params, behind⟩ := eq_shift_head found found' kept' whole
        have closes' := closes.tokens ⟨front, split.symm⟩
        obtain ⟨rfl, left⟩ := part.eq_shift part' samePart kept behind closes'
        exact ⟨by rw [Expr.shift, Expr.span_shift, params, begins, Span.merge_shift], left⟩
      | _ => cases same
  | .unary span op operand, e', ts, us, mid, mid', h, h', same, kept, whole, closes => by
    cases h with
    | unary part =>
      cases h' with
      | unary part' =>
        obtain ⟨-, rfl, samePart⟩ := Expr.unary.inj same
        obtain ⟨token, behind⟩ := whole.tail (kept.trans part.endsBefore.suffix)
        cases token
        have closes' := closes.tokens (List.suffix_cons _ _)
        obtain ⟨rfl, left⟩ := part.eq_shift part' samePart kept behind closes'
        exact ⟨by rw [Expr.shift, Expr.span_shift, Span.merge_shift], left⟩
      | _ => cases same
  | .binary span l op r, e', ts, us, mid, mid', h, h', same, kept, whole, closes => by
    cases h with
    | binary first second =>
      cases h' with
      | binary first' second' =>
        obtain ⟨-, sameFirst, rfl, sameSecond⟩ := Expr.binary.inj same
        have kept' := kept.trans second.endsBefore.suffix
        obtain ⟨rfl, behind⟩ := first.eq_shift first' sameFirst
          (kept'.trans (List.suffix_cons _ _)) whole closes
        obtain ⟨-, behind⟩ := behind.tail kept'
        have closes' := closes.tokens ((List.suffix_cons _ _).trans first.endsBefore.suffix)
        obtain ⟨rfl, left⟩ := second.eq_shift second' sameSecond kept behind closes'
        exact ⟨by rw [Expr.shift, Expr.span_shift, Expr.span_shift, Span.merge_shift], left⟩
      | _ => cases same
  | .paren span inner, e', ts, us, mid, mid', h, h', same, kept, whole, closes => by
    cases h with
    | paren part =>
      cases h' with
      | paren part' =>
        obtain ⟨-, samePart⟩ := Expr.paren.inj same
        obtain ⟨token, behind⟩ := whole.tail
          ((kept.trans (List.suffix_cons _ _)).trans part.endsBefore.suffix)
        cases token
        have closes' := closes.tokens (List.suffix_cons _ _)
        obtain ⟨rfl, behind⟩ :=
          part.eq_shift part' samePart (kept.trans (List.suffix_cons _ _)) behind closes'
        obtain ⟨token, left⟩ := behind.tail kept
        cases token
        exact ⟨by rw [Expr.shift, Span.merge_shift], left⟩
      | _ => cases same

theorem SpellsAll.eq_shift : {es es' : List Expr} → {close : Punct} → {a b : Span} →
    {ts us mid mid' : List Token} → SpellsAll close ts es a mid →
    SpellsAll close us es' b mid' → close ≠ .gt → Expr.eraseAll es' = Expr.eraseAll es →
    rest <:+ mid → Excerpt k rest ts us → ClosesWell rest.length (lexemes ts) →
    es = Expr.shiftAll k es' ∧ a = b.shift k ∧ Excerpt k rest mid mid'
  | [], es', close, a, b, ts, us, mid, mid', h, h', other, same, kept, whole, closes => by
    cases h with
    | nil =>
      cases h' with
      | nil =>
        obtain ⟨token, left⟩ := whole.tail kept
        cases token
        exact ⟨rfl, rfl, left⟩
      | _ => cases same
  | e :: es, es', close, a, b, ts, us, mid, mid', h, h', other, same, kept, whole, closes => by
    cases h with
    | last only =>
      cases h' with
      | last only' =>
        obtain ⟨sameOnly, -⟩ := List.cons.inj same
        obtain ⟨rfl, behind⟩ :=
          only.eq_shift only' sameOnly (kept.trans (List.suffix_cons _ _)) whole closes
        obtain ⟨token, left⟩ := behind.tail kept
        cases token
        exact ⟨rfl, rfl, left⟩
      | nil => cases same
      | more _ _ some =>
        obtain ⟨-, none⟩ := List.cons.inj same
        exact absurd (eraseAll_eq_nil none) some
    | more first others some =>
      cases h' with
      | more first' others' _ =>
        obtain ⟨sameFirst, sameOthers⟩ := List.cons.inj same
        have kept' := kept.trans (others.endsBefore other).suffix
        obtain ⟨rfl, behind⟩ := first.eq_shift first' sameFirst
          (kept'.trans (List.suffix_cons _ _)) whole closes
        obtain ⟨-, behind⟩ := behind.tail kept'
        have closes' := closes.tokens ((List.suffix_cons _ _).trans first.endsBefore.suffix)
        obtain ⟨rfl, rfl, left⟩ := others.eq_shift others' other sameOthers kept behind closes'
        exact ⟨rfl, rfl, left⟩
      | nil => cases same
      | last _ =>
        obtain ⟨-, none⟩ := List.cons.inj same
        exact absurd (eraseAll_eq_nil none.symm) some

end

end

end Marksmith.Syntax

import Marksmith.Proofs.Syntax.Lexemes
import Marksmith.Proofs.Syntax.Spelling

/-!
Canonical text reads as canonical lexemes.

* `Follows`: the text that stands behind a type or an expression in canonical text;
* `TypeRef.Spells`: how texts are read in which the names of types are spelled in some way, and
  `Spells.type`: so a type is read from such a text;
* `TypeRef.lexes`, `Expr.lexes`: the text of a tree whose lexemes are writable reads as its lexemes,
  in front of any text that may follow it.
-/

namespace Marksmith.Syntax

/-- What stands behind a type or an expression. -/
def Follows : List Char → Prop
  | [] => True
  | c :: s => c ∈ [' ', ',', '(', ')', '[', ']', '>'] ∨ c = '.' ∧ ∀ d ∈ s.head?, d.isDigit = false

variable {s : List Char} {ls : List Lexeme}

theorem follows_nil : Follows [] := trivial

theorem follows_cons {c : Char} (s : List Char)
    (mark : c ∈ [' ', ',', '(', ')', '[', ']', '>']) : Follows (c :: s) :=
  .inl mark

theorem Follows.endsWord (h : Follows s) : EndsWord s := by
  have marks : [' ', ',', '(', ')', '[', ']', '>'].all (fun c =>
      decide (isIdentPart c = false ∧ c ≠ '.')) = true := by
    decide
  have point : isIdentPart '.' = false := by decide
  cases s with
  | nil => trivial
  | cons c s =>
    rcases h with mem | ⟨rfl, noDigit⟩
    · obtain ⟨noPart, noDot⟩ := of_decide_eq_true (List.all_eq_true.mp marks c mem)
      exact ⟨noPart, fun dot => absurd dot noDot⟩
    · exact ⟨point, fun _ => noDigit⟩

theorem Follows.apart (h : Follows s) {p : Punct} (mem : p ∈ [Punct.gt, .question]) :
    p.Apart s := by
  have marks : [' ', ',', '(', ')', '[', ']', '>', '.'].all (fun c =>
      decide (∀ p ∈ [Punct.gt, .question], c ∉ p.joins)) = true := by decide
  cases s with
  | nil => exact nofun
  | cons c s =>
    have among : c ∈ [' ', ',', '(', ')', '[', ']', '>', '.'] := by
      rcases h with among | ⟨rfl, -⟩
      · exact List.mem_append_left ['.'] among
      · decide
    intro c' eq
    cases eq
    exact of_decide_eq_true (List.all_eq_true.mp marks c among) p mem

theorem IsName.front {x : String} (h : IsName x) :
    ∃ c tail, x.toList = c :: tail ∧ isIdentStart c = true := by
  obtain ⟨⟨⟨c, tail, eq, start, -⟩, -⟩, -⟩ := h
  exact ⟨c, tail, eq, start⟩

theorem isDigit_of_start {c : Char} (h : isIdentStart c = true) : c.isDigit = false := by
  cases digit : c.isDigit with
  | false => rfl
  | true => exact absurd (h.symm.trans (digit_facts digit).1) (by decide)

/-- What begins with an identifier may stand behind a point. -/
theorem follows_dot {x : String} (name : IsName x) (s : List Char) :
    Follows ('.' :: (x.toList ++ s)) := by
  obtain ⟨c, tail, eq, start⟩ := name.front
  refine .inr ⟨rfl, ?_⟩
  rw [eq]
  intro d front
  cases front
  exact isDigit_of_start start

theorem Lexes.mark {p : Punct} {c : Char} (chars : p.chars = [c])
    (none : p.joins = []) (h : Lexes s ls) : Lexes (c :: s) (.punct p :: ls) := by
  have read := h.punct (Punct.apart_of_joins none s)
  rw [chars] at read
  exact read

namespace TypeRef

/-! ### Types -/

theorem intercalate_front (sep : List Char) (x : String) (more : List String) :
    ∃ r, List.intercalate sep ((x :: more).map String.toList) = x.toList ++ r := by
  cases more with
  | nil => exact ⟨[], by simp⟩
  | cons y more =>
    refine ⟨sep ++ List.intercalate sep ((y :: more).map String.toList), ?_⟩
    rw [List.map_cons, List.map_cons, List.intercalate_cons_cons, List.append_assoc]

theorem lexes_segments (x : String) (more : List String) (names : ∀ y ∈ x :: more, IsName y)
    (ends : EndsWord s) (h : Lexes s ls) :
    Lexes (List.intercalate ['.'] ((x :: more).map String.toList) ++ s)
      (.ident x :: (tail more ++ ls)) := by
  induction more generalizing x with
  | nil =>
    rw [List.map_cons, List.map_nil, List.intercalate_singleton]
    exact h.ident (names x List.mem_cons_self) ends
  | cons y more ih =>
    have later := ih y fun z mem => names z (List.mem_cons_of_mem _ mem)
    have name := names x List.mem_cons_self
    have name' := names y (List.mem_cons_of_mem _ List.mem_cons_self)
    obtain ⟨r, front⟩ := intercalate_front ['.'] y more
    rw [List.map_cons, List.map_cons, List.intercalate_cons_cons, ← List.map_cons,
      List.append_assoc, List.append_assoc]
    refine Lexes.ident name ?_ (Lexes.mark rfl rfl later)
    rw [front, List.append_assoc]
    exact (follows_dot name' (r ++ s)).endsWord

theorem isName_of_writable {x : String} {more : List String} {name : String}
    (segments : nameLexemes name = .ident x :: tail more)
    (all : ∀ l ∈ nameLexemes name, l.Writable) : ∀ y ∈ x :: more, IsName y := by
  intro y mem
  rw [List.mem_cons] at mem
  rw [segments] at all
  rcases mem with rfl | mem
  · exact all _ List.mem_cons_self
  · exact all (.ident y) (List.mem_cons_of_mem _ (List.mem_flatMap.mpr ⟨y, mem, by simp⟩))

/-- The text of a dotted name reads as its lexemes. -/
theorem lexes_name (name : String) (all : ∀ l ∈ nameLexemes name, l.Writable) (ends : EndsWord s)
    (h : Lexes s ls) : Lexes (name.toList ++ s) (nameLexemes name ++ ls) := by
  obtain ⟨x, more, named, segments⟩ := exists_segments name
  have names := isName_of_writable segments all
  rw [segments, named, toList_joined]
  exact lexes_segments x more names ends h

theorem name_front (name : String) (all : ∀ l ∈ nameLexemes name, l.Writable) :
    ∃ c r, name.toList = c :: r ∧ isIdentStart c = true := by
  obtain ⟨x, more, named, segments⟩ := exists_segments name
  obtain ⟨c, r, eq, start⟩ := (isName_of_writable segments all x List.mem_cons_self).front
  obtain ⟨r', front⟩ := intercalate_front ['.'] x more
  rw [eq] at front
  exact ⟨c, r ++ r', by rw [named, toList_joined, front]; rfl, start⟩

/-! ### Spelling -/

section

variable (spell : String → Nat → List Char)

mutual

/-- The text of a type in which names are spelled in a given way. -/
def spelled : TypeRef → List Char
  | ⟨name, args, nullable, rank⟩ =>
    spell name args.length ++ spelledArgs args ++ (if nullable then ['?'] else []) ++ brackets rank

/-- Type arguments in angle brackets; nothing without arguments. -/
def spelledArgs : List TypeRef → List Char
  | [] => []
  | t :: ts => '<' :: (spelled t ++ spelledMore ts) ++ ['>']

/-- The arguments behind the first one. -/
def spelledMore : List TypeRef → List Char
  | [] => []
  | t :: ts => ',' :: ' ' :: (spelled t ++ spelledMore ts)

end

end

mutual

theorem written_eq_spelled : ∀ t : TypeRef, t.written = t.spelled fun name _ => name.toList
  | ⟨name, args, nullable, rank⟩ => by rw [written, spelled, writtenArgs_eq_spelled]

theorem writtenArgs_eq_spelled :
    ∀ ts : List TypeRef, writtenArgs ts = spelledArgs (fun name _ => name.toList) ts
  | [] => rfl
  | t :: ts => by rw [writtenArgs, spelledArgs, written_eq_spelled, writtenMore_eq_spelled]

theorem writtenMore_eq_spelled :
    ∀ ts : List TypeRef, writtenMore ts = spelledMore (fun name _ => name.toList) ts
  | [] => rfl
  | t :: ts => by rw [writtenMore, spelledMore, written_eq_spelled, writtenMore_eq_spelled]

end

theorem apart_lt {c : Char} (start : isIdentStart c = true) (r : List Char) :
    Punct.lt.Apart (c :: r) := by
  have noStart : isIdentStart '=' = false := by decide
  intro c' eq join
  cases eq
  rw [Punct.joins, List.mem_singleton] at join
  subst join
  rw [noStart] at start
  cases start

/-- How texts are read in which names are spelled in a given way: what is read of a text is known
with a name, or a mark of types, in front of it. -/
structure Spells (R : List Char → List Lexeme → Prop) (spell : String → Nat → List Char) :
    Prop where
  blank : ∀ {s ls}, R s ls → R (' ' :: s) ls
  mark : ∀ {s ls}, ∀ p ∈ [Punct.lt, .gt, .comma, .question, .lbracket, .rbracket], p.Apart s →
    R s ls → R (p.chars ++ s) (.punct p :: ls)
  name : ∀ {name n s ls}, (∀ l ∈ nameLexemes name, l.Writable) → EndsWord s → R s ls →
    R (spell name n ++ s) (nameLexemes name ++ ls)
  front : ∀ {name n}, (∀ l ∈ nameLexemes name, l.Writable) →
    ∃ c r, spell name n = c :: r ∧ isIdentStart c = true

/-- Names as they are. -/
theorem spells_toList : Spells Lexes fun name _ => name.toList where
  blank h := h.blank
  mark _ _ apart h := h.punct apart
  name {name _ _ _} all ends h := lexes_name name all ends h
  front {name _} all := name_front name all

section

variable {R : List Char → List Lexeme → Prop} {spell : String → Nat → List Char}

theorem follows_spelledMore (ts : List TypeRef) (follows : Follows s) :
    Follows (spelledMore spell ts ++ s) := by
  cases ts with
  | nil => exact follows
  | cons t ts =>
    rw [spelledMore]
    exact follows_cons _ (by decide)

namespace Spells

variable (spells : Spells R spell)

include spells

theorem brackets (n : Nat) (follows : Follows s) (h : R s ls) :
    R ((List.replicate n ['[', ']']).flatten ++ s) (pairs n ++ ls) ∧
      Follows ((List.replicate n ['[', ']']).flatten ++ s) := by
  induction n with
  | zero => exact ⟨h, follows⟩
  | succ n ih =>
    rw [List.replicate_succ, List.flatten_cons, pairs_succ]
    have close := spells.mark .rbracket (by decide) (Punct.apart_of_joins rfl _) ih.1
    have pair := spells.mark .lbracket (by decide) (Punct.apart_of_joins rfl _) close
    exact ⟨pair, follows_cons _ (by decide)⟩

/-- The nullable mark and the array suffixes of a type, and what may stand before them. -/
theorem marks (nullable : Bool) (rank : UInt8) (follows : Follows s) (h : R s ls) :
    R ((if nullable then ['?'] else []) ++ (TypeRef.brackets rank ++ s))
        ((if nullable then [Lexeme.punct .question] else []) ++ (pairs rank.toNat ++ ls)) ∧
      EndsWord ((if nullable then ['?'] else []) ++ (TypeRef.brackets rank ++ s)) ∧
      Punct.gt.Apart ((if nullable then ['?'] else []) ++ (TypeRef.brackets rank ++ s)) := by
  obtain ⟨read, follows⟩ := spells.brackets rank.toNat follows h
  cases nullable with
  | false => exact ⟨read, follows.endsWord, follows.apart (by decide)⟩
  | true =>
    have ends : isIdentPart '?' = false := by decide
    have question := spells.mark .question (by decide) (follows.apart (by decide)) read
    refine ⟨question, ⟨ends, ?_⟩, ?_⟩
    · intro dot
      cases dot
    · intro c eq
      cases eq
      decide

theorem spelled_front (t : TypeRef) (all : ∀ l ∈ t.lexemes, l.Writable) :
    ∃ c r, t.spelled spell = c :: r ∧ isIdentStart c = true := by
  obtain ⟨name, args, nullable, rank⟩ := t
  simp only [lexemes, List.forall_mem_append] at all
  obtain ⟨c, r, eq, start⟩ := spells.front all.1.1.1
  exact ⟨c, _, by rw [spelled, eq]; rfl, start⟩

mutual

/-- The text of a type is read as its lexemes. -/
theorem type : (t : TypeRef) → (all : ∀ l ∈ t.lexemes, l.Writable) → {s : List Char} →
    {ls : List Lexeme} → (follows : Follows s) → (h : R s ls) →
    R (t.spelled spell ++ s) (t.lexemes ++ ls)
  | ⟨name, ts, nullable, rank⟩, all, s, ls, follows, h => by
    obtain ⟨read, ends, apart⟩ := spells.marks nullable rank follows h
    simp only [lexemes, List.forall_mem_append] at all
    obtain ⟨inner, ends⟩ := args ts all.1.1.2 ends apart read
    simp only [spelled, lexemes, List.append_assoc]
    exact spells.name all.1.1.1 ends inner

/-- Type arguments are read as their lexemes, and end the word before them. -/
theorem args : (ts : List TypeRef) → (all : ∀ l ∈ argLexemes ts, l.Writable) → {s : List Char} →
    {ls : List Lexeme} → (ends : EndsWord s) → (apart : Punct.gt.Apart s) → (h : R s ls) →
    R (spelledArgs spell ts ++ s) (argLexemes ts ++ ls) ∧ EndsWord (spelledArgs spell ts ++ s)
  | [], _, _, _, ends, _, h => ⟨h, ends⟩
  | t :: ts, all, s, ls, _, apart, h => by
    simp only [argLexemes, List.forall_mem_cons, List.forall_mem_append] at all
    obtain ⟨-, ⟨first, others⟩, -⟩ := all
    have close := spells.mark .gt (by decide) apart h
    have behind := more ts others (follows_cons _ (by decide)) close
    have inner := type t first (follows_spelledMore ts (follows_cons _ (by decide))) behind
    obtain ⟨c, r, front, start⟩ := spells.spelled_front t first
    have opened : Punct.lt.Apart (t.spelled spell ++ (spelledMore spell ts ++ '>' :: s)) := by
      rw [front]
      exact apart_lt start _
    simp only [spelledArgs, argLexemes, List.cons_append, List.append_assoc, List.nil_append]
    exact ⟨spells.mark .lt (by decide) opened inner, by decide, nofun⟩

theorem more : (ts : List TypeRef) → (all : ∀ l ∈ moreLexemes ts, l.Writable) → {s : List Char} →
    {ls : List Lexeme} → (follows : Follows s) → (h : R s ls) →
    R (spelledMore spell ts ++ s) (moreLexemes ts ++ ls)
  | [], _, _, _, _, h => h
  | t :: ts, all, s, ls, follows, h => by
    simp only [moreLexemes, List.forall_mem_cons, List.forall_mem_append] at all
    have behind := more ts all.2.2 follows h
    have first := type t all.2.1 (follows_spelledMore ts follows) behind
    simp only [spelledMore, moreLexemes, List.cons_append, List.append_assoc]
    exact spells.mark .comma (by decide) (Punct.apart_of_joins rfl _) (spells.blank first)

end

end Spells

end

/-- The text of a type reads as its lexemes. -/
theorem lexes (t : TypeRef) (all : ∀ l ∈ t.lexemes, l.Writable) (follows : Follows s)
    (h : Lexes s ls) : Lexes (t.written ++ s) (t.lexemes ++ ls) := by
  rw [written_eq_spelled]
  exact spells_toList.type t all follows h

theorem lexesArgs (ts : List TypeRef) (all : ∀ l ∈ argLexemes ts, l.Writable) (ends : EndsWord s)
    (apart : Punct.gt.Apart s) (h : Lexes s ls) :
    Lexes (writtenArgs ts ++ s) (argLexemes ts ++ ls) ∧ EndsWord (writtenArgs ts ++ s) := by
  rw [writtenArgs_eq_spelled]
  exact spells_toList.args ts all ends apart h

end TypeRef

/-! ### Names, literals and heads of lambdas -/

theorem SimpleName.lexes (n : SimpleName) (all : ∀ l ∈ n.lexemes, l.Writable) (follows : Follows s)
    (h : Lexes s ls) : Lexes (n.written ++ s) (n.lexemes ++ ls) := by
  obtain ⟨x, args⟩ := n
  rw [lexemes, List.forall_mem_cons] at all
  obtain ⟨name, typed⟩ := all
  rw [written, lexemes, List.append_assoc, List.cons_append]
  obtain ⟨inner, ends⟩ :=
    TypeRef.lexesArgs args typed follows.endsWord (follows.apart (by decide)) h
  exact inner.ident name ends

theorem Literal.lexes (v : Literal) (writable : v.lexeme.Writable) (follows : Follows s)
    (h : Lexes s ls) : Lexes (v.written ++ s) (v.lexeme :: ls) := by
  cases v with
  | int n => exact h.int writable follows.endsWord
  | float text => exact h.float writable follows.endsWord
  | string value => exact h.string value
  | bool b =>
    cases b with
    | true => exact h.keyword .true follows.endsWord
    | false => exact h.keyword .false follows.endsWord
  | null => exact h.keyword .null follows.endsWord

namespace Expr

theorem lexes_params (ps : List (Located String))
    (all : ∀ l ∈ paramLexemes (ps.map (·.node)), l.Writable) (h : Lexes s ls) :
    Lexes (separated (ps.map (·.node.toList)) ++ ')' :: s)
      (paramLexemes (ps.map (·.node)) ++ .punct .rparen :: ls) := by
  induction ps with
  | nil => exact .mark rfl rfl h
  | cons p ps ih =>
    cases ps with
    | nil =>
      have name : IsName p.node := all (.ident p.node) List.mem_cons_self
      exact Lexes.ident name (follows_cons _ (by decide)).endsWord (.mark rfl rfl h)
    | cons q ps =>
      simp only [List.map_cons, paramLexemes, List.mem_cons] at all
      have name : IsName p.node := all (.ident p.node) (.inl rfl)
      have later := ih fun l mem => all l (.inr (.inr mem))
      rw [List.map_cons, List.map_cons, separated, List.append_assoc, List.cons_append,
        List.cons_append]
      exact Lexes.ident name (follows_cons _ (by decide)).endsWord (.mark rfl rfl later.blank)

theorem lexes_head (ps : List (Located String))
    (all : ∀ l ∈ headLexemes (ps.map (·.node)), l.Writable) (ends : EndsWord s) (h : Lexes s ls) :
    Lexes (lambdaHeadWritten ps ++ s) (headLexemes (ps.map (·.node)) ++ ls) := by
  match ps with
  | [p] =>
    have name : IsName p.node := all (.ident p.node) List.mem_cons_self
    exact h.ident name ends
  | [] => exact .mark rfl rfl (.mark rfl rfl h)
  | p :: q :: ps =>
    have inner := lexes_params (p :: q :: ps) (fun l mem => all l (by
      simp only [List.map_cons, headLexemes, List.mem_cons, List.mem_append] at mem ⊢
      exact .inr (.inl mem))) h
    simp only [lambdaHeadWritten, headLexemes, parenthesized, List.cons_append, List.append_assoc,
      List.nil_append, List.map_cons] at inner ⊢
    exact .mark rfl rfl inner

/-! ### Expressions -/

theorem follows_more (es : List Expr) (follows : Follows s) : Follows (writtenMore es ++ s) := by
  cases es with
  | nil => exact follows
  | cons e es =>
    rw [writtenMore]
    exact follows_cons _ (by decide)

theorem apart_of_ne {c : Char} (ne : c ≠ '=') (op : UnaryOp) (r : List Char) :
    op.punct.Apart (c :: r) := by
  intro c' eq join
  cases eq
  cases op with
  | not =>
    rw [UnaryOp.punct, Punct.joins, List.mem_singleton] at join
    exact ne join
  | neg => cases join

theorem ne_of_start {c : Char} (start : isIdentStart c = true) : c ≠ '=' := by
  rintro rfl
  exact absurd start (by decide)

theorem front_append {t : List Char} (h : ∃ c r, t = c :: r ∧ c ≠ '=') (u : List Char) :
    ∃ c r, t ++ u = c :: r ∧ c ≠ '=' := by
  obtain ⟨c, r, rfl, ne⟩ := h
  exact ⟨c, r ++ u, rfl, ne⟩

theorem literal_front (v : Literal) (writable : v.lexeme.Writable) :
    ∃ c r, v.written = c :: r ∧ c ≠ '=' := by
  have digits : ∀ c : Char, c.isDigit = true → c ≠ '=' := by
    rintro c digit rfl
    cases digit
  cases v with
  | int n =>
    cases eq : Nat.toDigits 10 n with
    | nil => exact absurd eq Nat.toDigits_ne_nil
    | cons c r =>
      have mem : c ∈ Nat.toDigits 10 n := by rw [eq]; exact List.mem_cons_self
      have digit := Nat.isDigit_of_mem_toDigits (by decide) (by decide) mem
      exact ⟨c, r, eq, digits c digit⟩
  | float text =>
    obtain ⟨⟨c, r, eq, digit⟩, -⟩ := writable
    exact ⟨c, r, eq, digits c digit⟩
  | string => exact ⟨_, _, rfl, by decide⟩
  | bool b => cases b <;> exact ⟨_, _, rfl, by decide⟩
  | null => exact ⟨_, _, rfl, by decide⟩

/-- No expression is written with `=` in front. -/
theorem written_front : (e : Expr) → (all : ∀ l ∈ e.lexemes, l.Writable) →
    ∃ c r, e.written = c :: r ∧ c ≠ '='
  | name _ n, all => by
    have word : IsName n.ident := all (.ident n.ident) List.mem_cons_self
    obtain ⟨c, r, eq, start⟩ := word.front
    exact front_append ⟨c, r, eq, ne_of_start start⟩ _
  | literal _ v, all => literal_front v (all _ List.mem_cons_self)
  | this _, _ => ⟨_, _, rfl, by decide⟩
  | member _ target n, all => by
    simp only [lexemes, List.mem_append] at all
    exact front_append (written_front target fun l mem => all l (.inl mem)) _
  | invoke _ callee args, all => by
    simp only [lexemes, List.mem_append] at all
    exact front_append (written_front callee fun l mem => all l (.inl mem)) _
  | index _ target args, all => by
    simp only [lexemes, List.mem_append] at all
    exact front_append (written_front target fun l mem => all l (.inl mem)) _
  | cast .., _ => ⟨_, _, rfl, by decide⟩
  | new .., _ => ⟨_, _, rfl, by decide⟩
  | lambda _ ps body, all => by
    simp only [lexemes, List.mem_append] at all
    rw [written, List.append_assoc]
    refine front_append ?_ _
    match ps with
    | [p] =>
      have word : IsName p.node := all (.ident p.node) (.inl List.mem_cons_self)
      obtain ⟨c, r, eq, start⟩ := word.front
      exact ⟨c, r, eq, ne_of_start start⟩
    | [] => exact ⟨_, _, rfl, by decide⟩
    | _ :: _ :: _ => exact ⟨_, _, rfl, by decide⟩
  | unary _ op operand, _ => by
    cases op <;> exact ⟨_, _, rfl, by decide⟩
  | binary _ left op right, all => by
    simp only [lexemes, List.mem_append] at all
    rw [written]
    refine front_append ?_ _
    cases parens : left.needsParens op false with
    | true => exact ⟨_, _, rfl, by decide⟩
    | false =>
      rw [parens] at all
      exact written_front left fun l mem => all l (.inl mem)
  | paren .., _ => ⟨_, _, rfl, by decide⟩

theorem lexes_operand {written : List Char} {own : List Lexeme}
    (read : ∀ s ls, Follows s → Lexes s ls → Lexes (written ++ s) (own ++ ls)) (parens : Bool)
    (follows : Follows s) (h : Lexes s ls) :
    Lexes (operandWritten parens written ++ s) (operandLexemes parens own ++ ls) := by
  cases parens with
  | false => exact read s ls follows h
  | true =>
    have inner := read _ _ (follows_cons _ (by decide)) (Lexes.mark (p := .rparen) rfl rfl h)
    simp only [operandWritten, operandLexemes, parenthesized, if_true, List.cons_append,
      List.append_assoc, List.nil_append]
    exact .mark rfl rfl inner

theorem writable_operand {parens : Bool} {own : List Lexeme}
    (all : ∀ l ∈ operandLexemes parens own, l.Writable) : ∀ l ∈ own, l.Writable := by
  cases parens with
  | false => exact all
  | true => exact fun l mem => all l (List.mem_cons_of_mem _ (List.mem_append_left _ mem))

theorem lexes_operator (op : BinaryOp) (h : Lexes s ls) :
    Lexes (' ' :: (op.punct.chars ++ ' ' :: s)) (.punct op.punct :: ls) := by
  refine .blank (.punct ?_ h.blank)
  intro c eq
  cases eq
  cases op <;> decide

mutual

/-- The text of an expression reads as its lexemes. -/
theorem lexes : (e : Expr) → (all : ∀ l ∈ e.lexemes, l.Writable) → (s : List Char) →
    (ls : List Lexeme) → (follows : Follows s) → (h : Lexes s ls) →
    Lexes (e.written ++ s) (e.lexemes ++ ls)
  | name _ n, all, s, ls, follows, h => n.lexes all follows h
  | literal _ v, all, s, ls, follows, h => v.lexes (all _ List.mem_cons_self) follows h
  | this _, _, s, ls, follows, h => h.keyword .this follows.endsWord
  | member _ target n, all, s, ls, follows, h => by
    simp only [lexemes, List.mem_append, List.mem_cons] at all
    have own := n.node.lexes (fun l mem => all l (.inr (.inr mem))) follows h
    have word : IsName n.node.ident := all (.ident n.node.ident) (.inr (.inr List.mem_cons_self))
    have behind := follows_dot word (TypeRef.writtenArgs n.node.typeArgs ++ s)
    rw [← List.append_assoc] at behind
    simp only [written, lexemes, List.cons_append, List.append_assoc]
    exact lexes target (fun l mem => all l (.inl mem)) _ _ behind (.mark rfl rfl own)
  | invoke _ callee args, all, s, ls, follows, h => by
    simp only [lexemes, List.mem_append, List.mem_cons] at all
    have close := Lexes.mark (p := .rparen) rfl rfl h
    have inner :=
      lexesArgs args (fun l mem => all l (by simp [mem])) _ _ (follows_cons _ (by decide)) close
    simp only [written, lexemes, List.cons_append, List.append_assoc, List.nil_append]
    exact lexes callee (fun l mem => all l (.inl mem)) _ _ (follows_cons _ (by decide))
      (.mark rfl rfl inner)
  | index _ target args, all, s, ls, follows, h => by
    simp only [lexemes, List.mem_append, List.mem_cons] at all
    have close := Lexes.mark (p := .rbracket) rfl rfl h
    have inner :=
      lexesArgs args (fun l mem => all l (by simp [mem])) _ _ (follows_cons _ (by decide)) close
    simp only [written, lexemes, List.cons_append, List.append_assoc, List.nil_append]
    exact lexes target (fun l mem => all l (.inl mem)) _ _ (follows_cons _ (by decide))
      (.mark rfl rfl inner)
  | cast _ type operand, all, s, ls, follows, h => by
    simp only [lexemes, List.mem_append, List.mem_cons] at all
    have own := lexes operand (fun l mem => all l (by simp [mem])) s ls follows h
    have close := Lexes.mark (p := .rparen) rfl rfl own
    have inner :=
      type.node.lexes (fun l mem => all l (by simp [mem])) (follows_cons _ (by decide)) close
    simp only [written, lexemes, parenthesized, List.cons_append, List.append_assoc,
      List.nil_append]
    exact .mark rfl rfl inner
  | new _ type args, all, s, ls, follows, h => by
    simp only [lexemes, List.mem_append, List.mem_cons] at all
    have close := Lexes.mark (p := .rparen) rfl rfl h
    have inner :=
      lexesArgs args (fun l mem => all l (by simp [mem])) _ _ (follows_cons _ (by decide)) close
    have opened := Lexes.mark (p := .lparen) rfl rfl inner
    have typed :=
      type.node.lexes (fun l mem => all l (by simp [mem])) (follows_cons _ (by decide)) opened
    simp only [written, lexemes, List.cons_append, List.append_assoc, List.nil_append]
    exact typed.blank.keyword .new (follows_cons _ (by decide)).endsWord
  | lambda _ ps body, all, s, ls, follows, h => by
    simp only [lexemes, List.mem_append, List.mem_cons] at all
    have own := lexes body (fun l mem => all l (by simp [mem])) s ls follows h
    have arrow : Lexes _ (.punct .arrow :: _) :=
      Lexes.punct (Punct.apart_of_joins rfl _) own.blank
    simp only [written, lexemes, List.cons_append, List.append_assoc]
    exact lexes_head ps (fun l mem => all l (.inl mem)) (follows_cons _ (by decide)).endsWord
      arrow.blank
  | unary _ op operand, all, s, ls, follows, h => by
    simp only [lexemes, List.mem_cons] at all
    have own := lexes operand (fun l mem => all l (.inr mem)) s ls follows h
    obtain ⟨c, r, front, ne⟩ := written_front operand fun l mem => all l (.inr mem)
    simp only [written, lexemes, List.cons_append, List.append_assoc]
    refine .punct ?_ own
    rw [front]
    exact apart_of_ne ne op _
  | binary _ left op right, all, s, ls, follows, h => by
    simp only [lexemes, List.mem_append, List.mem_cons] at all
    have writable := writable_operand fun l mem => all l (.inl mem)
    have writable' := writable_operand fun l mem => all l (.inr (.inr mem))
    have own := lexes_operand (lexes right writable') (right.needsParens op true) follows h
    simp only [written, lexemes, List.cons_append, List.append_assoc]
    exact lexes_operand (lexes left writable) _ (follows_cons _ (by decide)) (lexes_operator op own)
  | paren _ inner, all, s, ls, follows, h => by
    simp only [lexemes, List.mem_append, List.mem_cons] at all
    have close := Lexes.mark (p := .rparen) rfl rfl h
    have own :=
      lexes inner (fun l mem => all l (by simp [mem])) _ _ (follows_cons _ (by decide)) close
    simp only [written, lexemes, parenthesized, List.cons_append, List.append_assoc,
      List.nil_append]
    exact .mark rfl rfl own

theorem lexesArgs : (es : List Expr) → (all : ∀ l ∈ argLexemes es, l.Writable) →
    (s : List Char) → (ls : List Lexeme) → (follows : Follows s) → (h : Lexes s ls) →
    Lexes (writtenArgs es ++ s) (argLexemes es ++ ls)
  | [], _, _, _, _, h => h
  | e :: es, all, s, ls, follows, h => by
    simp only [argLexemes, List.mem_append] at all
    have more := lexesMore es (fun l mem => all l (.inr mem)) s ls follows h
    simp only [writtenArgs, argLexemes, List.append_assoc]
    exact lexes e (fun l mem => all l (.inl mem)) _ _ (follows_more es follows) more

theorem lexesMore : (es : List Expr) → (all : ∀ l ∈ moreLexemes es, l.Writable) →
    (s : List Char) → (ls : List Lexeme) → (follows : Follows s) → (h : Lexes s ls) →
    Lexes (writtenMore es ++ s) (moreLexemes es ++ ls)
  | [], _, _, _, _, h => h
  | e :: es, all, s, ls, follows, h => by
    simp only [moreLexemes, List.mem_append, List.mem_cons] at all
    have more := lexesMore es (fun l mem => all l (.inr (.inr mem))) s ls follows h
    have first := lexes e (fun l mem => all l (.inr (.inl mem))) _ _ (follows_more es follows) more
    simp only [writtenMore, moreLexemes, List.cons_append, List.append_assoc]
    exact .mark rfl rfl first.blank

end

end Expr

/-- The text of a statement reads as its lexemes. -/
theorem Statement.lexes (u : Statement) (all : ∀ l ∈ u.lexemes, l.Writable) (follows : Follows s)
    (h : Lexes s ls) : Lexes (u.written ++ s) (u.lexemes ++ ls) := by
  cases u with
  | expr value => exact value.lexes all s ls follows h
  | assign span target value =>
    simp only [lexemes, List.mem_cons] at all
    have name : IsName target.node := all (.ident target.node) (.inl rfl)
    have own := value.lexes (fun l mem => all l (.inr (.inr mem))) s ls follows h
    have apart : Punct.assign.Apart (' ' :: (value.written ++ s)) := by
      intro c eq
      cases eq
      decide
    have assigned : Lexes _ (.punct .assign :: _) := Lexes.punct apart own.blank
    simp only [written, lexemes, List.append_assoc, List.cons_append]
    exact Lexes.ident name (follows_cons _ (by decide)).endsWord assigned.blank

end Marksmith.Syntax

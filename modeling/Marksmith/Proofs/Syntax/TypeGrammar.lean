import Marksmith.Proofs.Lists
import Marksmith.Syntax.Parser.Exprs

/-!
Types, type arguments, names and cast heads as relations on lexemes.

* `TypeAt`, `TypesAt`: the grammar of types and of their lists, with the lexemes that remain;
* `ArgsAt`, `NameAt`, `CastAt`: what the parser reads behind a speculation, and when it gives up;
* `typeRef_sound`, `typeRef_complete`: the parser of types decides `TypeAt`; spans play no part;
* `castHead?_eq_none_iff`, `typeArgs?_eq_none_iff`: a speculation fails exactly if the relation has
  nothing to offer.
-/

namespace Marksmith.Syntax

/-! ### Lexemes of a token list -/

/-- The lexemes of tokens, without their spans. -/
def lexemes (ts : List Token) : List Lexeme := ts.map (·.lexeme)

@[simp] theorem lexemes_cons (t : Token) (ts : List Token) :
    lexemes (t :: ts) = t.lexeme :: lexemes ts := rfl

/-- The next lexeme; past the end it is `eof`. -/
def peek (ls : List Lexeme) : Lexeme := ls.headD .eof

@[simp] theorem peek_cons (l : Lexeme) (ls : List Lexeme) : peek (l :: ls) = l := rfl

@[simp] theorem peek_lexemes (ts : List Token) : peek (lexemes ts) = front ts := by
  cases ts <;> rfl

theorem lexemes_eq_cons {ts : List Token} {l : Lexeme} {ls : List Lexeme}
    (h : lexemes ts = l :: ls) : ∃ span rest, ts = ⟨l, span⟩ :: rest ∧ lexemes rest = ls := by
  cases ts with
  | nil => cases h
  | cons t rest =>
    obtain ⟨lexeme, span⟩ := t
    cases h
    exact ⟨span, rest, rfl, rfl⟩

theorem lexemes_eq_cons_cons {ts : List Token} {l m : Lexeme} {ls : List Lexeme}
    (h : lexemes ts = l :: m :: ls) :
    ∃ span span' rest, ts = ⟨l, span⟩ :: ⟨m, span'⟩ :: rest ∧ lexemes rest = ls := by
  obtain ⟨span, behind, rfl, tail⟩ := lexemes_eq_cons h
  obtain ⟨span', rest, rfl, eq⟩ := lexemes_eq_cons tail
  exact ⟨span, span', rest, rfl, eq⟩

theorem peek_eq_punct {ls : List Lexeme} {p : Punct} (h : peek ls = .punct p) :
    ∃ rest, ls = .punct p :: rest := by
  cases ls with
  | nil => cases h
  | cons l rest => exact ⟨rest, by rw [← h, peek_cons]⟩

theorem accept?_split {p : Punct} {ts : List Token} {s : Step Span 1 ts}
    (h : accept? p ts = some s) : ts = ⟨.punct p, s.value⟩ :: s.rest := by
  unfold accept? at h
  split at h
  · split at h
    · next same =>
      cases h
      rw [same]
      rfl
    · cases h
  · cases h

/-- A mark is accepted exactly if it is the next lexeme. -/
theorem accept?_eq_some {p : Punct} {ts : List Token} {s : Step Span 1 ts}
    (h : accept? p ts = some s) : lexemes ts = .punct p :: lexemes s.rest :=
  congrArg lexemes (accept?_split h)

theorem accept?_eq_none {p : Punct} {ts : List Token} (h : accept? p ts = none) :
    peek (lexemes ts) ≠ .punct p := by
  unfold accept? at h
  split at h
  · split at h
    · cases h
    · next ne => simpa using ne
  · next other =>
    intro front
    obtain ⟨rest, eq⟩ := peek_eq_punct front
    obtain ⟨span, rest, rfl, -⟩ := lexemes_eq_cons eq
    exact other p span rest rfl

theorem accept?_of_lexemes {p : Punct} {ts : List Token} {ls : List Lexeme}
    (h : lexemes ts = .punct p :: ls) :
    ∃ s, accept? p ts = some s ∧ lexemes s.rest = ls := by
  obtain ⟨span, rest, rfl, eq⟩ := lexemes_eq_cons h
  exact ⟨_, if_pos rfl, eq⟩

theorem accept?_of_peek {p : Punct} {ts : List Token} (h : peek (lexemes ts) ≠ .punct p) :
    accept? p ts = none := by
  cases found : accept? p ts with
  | none => rfl
  | some s =>
    rw [accept?_eq_some found] at h
    exact absurd rfl h

theorem expect_split {p : Punct} {what : Expected} {ts : List Token} {s : Step Span 1 ts}
    (h : expect p what ts = .ok s) : ts = ⟨.punct p, s.value⟩ :: s.rest := by
  unfold expect at h
  split at h
  · next found =>
    cases h
    exact accept?_split found
  · cases h

theorem expect_ok {p : Punct} {what : Expected} {ts : List Token} {s : Step Span 1 ts}
    (h : expect p what ts = .ok s) : lexemes ts = .punct p :: lexemes s.rest :=
  congrArg lexemes (expect_split h)

theorem expect_of_lexemes {p : Punct} (what : Expected) {ts : List Token} {ls : List Lexeme}
    (h : lexemes ts = .punct p :: ls) :
    ∃ s, expect p what ts = .ok s ∧ lexemes s.rest = ls := by
  obtain ⟨s, found, rest⟩ := accept?_of_lexemes h
  exact ⟨s, by rw [expect, found], rest⟩

theorem identifier_ok {ts : List Token} {s : Step (Located String) 1 ts}
    (h : identifier ts = .ok s) : lexemes ts = .ident s.value.node :: lexemes s.rest := by
  unfold identifier at h
  split at h
  · cases h; rfl
  · cases h

theorem identifier_of_lexemes {ts : List Token} {x : String} {ls : List Lexeme}
    (h : lexemes ts = .ident x :: ls) :
    ∃ s, identifier ts = .ok s ∧ s.value.node = x ∧ lexemes s.rest = ls := by
  obtain ⟨span, rest, rfl, eq⟩ := lexemes_eq_cons h
  exact ⟨_, rfl, rfl, eq⟩

/-! ### The parts of a type -/

/-- What follows an optional alias qualifier. -/
def aliased : List Lexeme → List Lexeme
  | .ident "global" :: .punct .colonColon :: rest => rest
  | ls => ls

/-- A dotted name that begins with `name`, and what follows it. -/
def segmentsOf (name : String) : List Lexeme → String × List Lexeme
  | .punct .dot :: .ident segment :: rest => segmentsOf (name ++ "." ++ segment) rest
  | ls => (name, ls)

/-- The number of array suffixes added to `rank`, and what follows them. -/
def ranksOf (rank : UInt8) : List Lexeme → UInt8 × List Lexeme
  | .punct .lbracket :: .punct .rbracket :: rest => ranksOf (TypeRef.nextRank rank) rest
  | ls => (rank, ls)

/-- A type whose name and arguments have been read, and what follows it. -/
def suffixOf (name : String) (args : List TypeRef) : List Lexeme → TypeRef × List Lexeme
  | .punct .question :: rest => (⟨name, args, true, (ranksOf 0 rest).1⟩, (ranksOf 0 rest).2)
  | ls => (⟨name, args, false, (ranksOf 0 ls).1⟩, (ranksOf 0 ls).2)

theorem aliased_of_peek {x : String} {ls : List Lexeme} (h : peek ls ≠ .punct .colonColon) :
    aliased (.ident x :: ls) = .ident x :: ls := by
  unfold aliased
  split
  · next eq => cases eq; exact absurd rfl h
  · rfl

theorem segmentsOf_of_peek {x : String} {ls : List Lexeme} (h : peek ls ≠ .punct .dot) :
    segmentsOf x ls = (x, ls) := by
  unfold segmentsOf
  split
  · exact absurd rfl h
  · rfl

theorem ranksOf_of_peek {rank : UInt8} {ls : List Lexeme} (h : peek ls ≠ .punct .lbracket) :
    ranksOf rank ls = (rank, ls) := by
  unfold ranksOf
  split
  · exact absurd rfl h
  · rfl

theorem suffixOf_of_peek {name : String} {args : List TypeRef} {ls : List Lexeme}
    (h : peek ls ≠ .punct .question) :
    suffixOf name args ls = (⟨name, args, false, (ranksOf 0 ls).1⟩, (ranksOf 0 ls).2) := by
  unfold suffixOf
  split
  · exact absurd rfl h
  · rfl

theorem lexemes_skipAlias (ts : List Token) :
    lexemes (skipAlias ts).rest = aliased (lexemes ts) := by
  unfold skipAlias
  split
  · rfl
  · next other =>
    rw [aliased.eq_def]
    split
    · next rest eq =>
      obtain ⟨_, _, rest, rfl, -⟩ := lexemes_eq_cons_cons eq
      exact absurd rfl (other _ _ _)
    · rfl

theorem segments_eq (name : String) (span : Span) (ts : List Token) :
    ((segments name span ts).value.node, lexemes (segments name span ts).rest)
      = segmentsOf name (lexemes ts) := by
  fun_induction segments name span ts with
  | case1 name span _ segment last rest more ih => exact ih
  | case2 name span ts other =>
    rw [segmentsOf.eq_def]
    split
    · next eq =>
      obtain ⟨_, _, rest, rfl, -⟩ := lexemes_eq_cons_cons eq
      exact absurd rfl (other _ _ _ _)
    · rfl

theorem arraySuffixes_eq (rank : UInt8) (span : Span) (ts : List Token) :
    ((arraySuffixes rank span ts).value.1, lexemes (arraySuffixes rank span ts).rest)
      = ranksOf rank (lexemes ts) := by
  fun_induction arraySuffixes rank span ts with
  | case1 rank span _ last rest more ih => exact ih
  | case2 rank span ts other =>
    rw [ranksOf.eq_def]
    split
    · next eq =>
      obtain ⟨_, _, rest, rfl, -⟩ := lexemes_eq_cons_cons eq
      exact absurd rfl (other _ _ _)
    · rfl

theorem typeSuffixes_eq (name : String) (args : List TypeRef) (span : Span) (ts : List Token) :
    ((typeSuffixes name args span ts).value.node, lexemes (typeSuffixes name args span ts).rest)
      = suffixOf name args (lexemes ts) := by
  unfold typeSuffixes
  split
  · next mark found =>
    have ranks := arraySuffixes_eq 0 (span.merge mark.value) mark.rest
    rw [accept?_eq_some found, suffixOf, ← ranks]
  · next found =>
    have ranks := arraySuffixes_eq 0 span ts
    have other := accept?_eq_none found
    rw [suffixOf.eq_def]
    split
    · next eq => rw [eq] at other; exact absurd rfl other
    · simp only [← ranks]; rfl

/-! ### The grammar of types -/

mutual

/-- A type at the front of lexemes, with the lexemes behind it. -/
inductive TypeAt : List Lexeme → TypeRef → List Lexeme → Prop where
  /-- A name without type arguments. -/
  | plain {ls behind rest more : List Lexeme} {x name : String} {t : TypeRef}
      (head : aliased ls = .ident x :: more) (dotted : segmentsOf x more = (name, behind))
      (bare : peek behind ≠ .punct .lt) (marks : suffixOf name [] behind = (t, rest)) :
      TypeAt ls t rest
  /-- A name with type arguments. -/
  | generic {ls inner behind rest more : List Lexeme} {x name : String} {args : List TypeRef}
      {t : TypeRef} (head : aliased ls = .ident x :: more)
      (dotted : segmentsOf x more = (name, .punct .lt :: inner))
      (listed : TypesAt inner args (.punct .gt :: behind))
      (marks : suffixOf name args behind = (t, rest)) : TypeAt ls t rest

/-- Types separated by commas at the front of lexemes. -/
inductive TypesAt : List Lexeme → List TypeRef → List Lexeme → Prop where
  /-- The last type. -/
  | last {ls rest : List Lexeme} {t : TypeRef} (first : TypeAt ls t rest)
      (stop : peek rest ≠ .punct .comma) : TypesAt ls [t] rest
  /-- A type with another one behind it. -/
  | more {ls behind rest : List Lexeme} {t : TypeRef} {ts : List TypeRef}
      (first : TypeAt ls t (.punct .comma :: behind)) (others : TypesAt behind ts rest) :
      TypesAt ls (t :: ts) rest

end

/-- What holds of types and of lists of types holds by induction on how they were read. -/
theorem TypeAt.induct {P : List Lexeme → TypeRef → List Lexeme → Prop}
    {Q : List Lexeme → List TypeRef → List Lexeme → Prop}
    (plain : ∀ {ls behind rest more x name t}, aliased ls = .ident x :: more →
      segmentsOf x more = (name, behind) → peek behind ≠ .punct .lt →
      suffixOf name [] behind = (t, rest) → P ls t rest)
    (generic : ∀ {ls inner behind rest more x name args t}, aliased ls = .ident x :: more →
      segmentsOf x more = (name, .punct .lt :: inner) → TypesAt inner args (.punct .gt :: behind) →
      suffixOf name args behind = (t, rest) → Q inner args (.punct .gt :: behind) → P ls t rest)
    (last : ∀ {ls rest t}, TypeAt ls t rest → peek rest ≠ .punct .comma → P ls t rest →
      Q ls [t] rest)
    (more : ∀ {ls behind rest t ts}, TypeAt ls t (.punct .comma :: behind) →
      TypesAt behind ts rest → P ls t (.punct .comma :: behind) → Q behind ts rest →
      Q ls (t :: ts) rest) :
    (∀ {ls t rest}, TypeAt ls t rest → P ls t rest) ∧
      ∀ {ls ts rest}, TypesAt ls ts rest → Q ls ts rest :=
  ⟨@TypeAt.rec (fun ls t rest _ => P ls t rest) (fun ls ts rest _ => Q ls ts rest)
      plain generic last more,
    @TypesAt.rec (fun ls t rest _ => P ls t rest) (fun ls ts rest _ => Q ls ts rest)
      plain generic last more⟩

/-- Type arguments of a name in an expression: a whole list whose end no comparison can have. -/
def ArgsAt (ls : List Lexeme) (args : List TypeRef) (rest : List Lexeme) : Prop :=
  ∃ inner, ls = .punct .lt :: inner ∧ TypesAt inner args (.punct .gt :: rest) ∧
    endsTypeArgs (peek rest) = true

/-- A name in an expression, with its type arguments if there are any. -/
inductive NameAt : List Lexeme → SimpleName → List Lexeme → Prop where
  | bare {x : String} {rest : List Lexeme} (none : ¬∃ args behind, ArgsAt rest args behind) :
      NameAt (.ident x :: rest) ⟨x, []⟩ rest
  | generic {x : String} {ls rest : List Lexeme} {args : List TypeRef} (some : ArgsAt ls args rest) :
      NameAt (.ident x :: ls) ⟨x, args⟩ rest

theorem NameAt.front {ls rest : List Lexeme} {n : SimpleName} (h : NameAt ls n rest) :
    ∃ x more, ls = .ident x :: more := by
  cases h <;> exact ⟨_, _, rfl⟩

theorem front_of_aliased {ls more : List Lexeme} {x : String} (h : aliased ls = .ident x :: more) :
    ∃ y behind, ls = .ident y :: behind := by
  rw [aliased.eq_def] at h
  split at h
  · exact ⟨_, _, rfl⟩
  · exact ⟨x, more, h⟩

/-- The head of a cast: a type in parentheses with the beginning of an operand behind it. -/
def CastAt (ls : List Lexeme) (t : TypeRef) (rest : List Lexeme) : Prop :=
  ∃ inner, ls = .punct .lparen :: inner ∧ TypeAt inner t (.punct .rparen :: rest) ∧
    beginsOperand (peek rest) = true

/-! ### The parser finds what the grammar has -/

theorem dottedName_ok {ts : List Token} {s : Step (Located String) 1 ts}
    (h : dottedName ts = .ok s) :
    ∃ x more, aliased (lexemes ts) = .ident x :: more ∧
      segmentsOf x more = (s.value.node, lexemes s.rest) := by
  unfold dottedName at h
  obtain ⟨first, found, h⟩ := bind_eq_ok_iff.mp h
  cases h
  exact ⟨_, _, by rw [← lexemes_skipAlias, identifier_ok found], (segments_eq _ _ _).symm⟩

theorem dottedName_of_lexemes {ts : List Token} {x name : String} {more rest : List Lexeme}
    (head : aliased (lexemes ts) = .ident x :: more)
    (dotted : segmentsOf x more = (name, rest)) :
    ∃ s, dottedName ts = .ok s ∧ s.value.node = name ∧ lexemes s.rest = rest := by
  rw [← lexemes_skipAlias] at head
  obtain ⟨first, found, rfl, rfl⟩ := identifier_of_lexemes head
  unfold dottedName
  simp only [found, bind, Except.bind, pure, Except.pure, Except.ok.injEq]
  have all := segments_eq first.value.node ((frontSpan ts).merge first.value.span) first.rest
  rw [dotted] at all
  exact ⟨_, rfl, congrArg Prod.fst all, congrArg Prod.snd all⟩

mutual

theorem typeRef_sound (ts : List Token) (s : Step (Located TypeRef) 1 ts)
    (h : typeRef ts = .ok s) : TypeAt (lexemes ts) s.value.node (lexemes s.rest) := by
  rw [typeRef] at h
  obtain ⟨name, named, h⟩ := bind_eq_ok_iff.mp h
  obtain ⟨x, more, head, dotted⟩ := dottedName_ok named
  split at h
  · next found =>
    cases h
    exact .plain head dotted (accept?_eq_none found) (typeSuffixes_eq _ _ _ _).symm
  · next opening found =>
    obtain ⟨args, listed, h⟩ := bind_eq_ok_iff.mp h
    obtain ⟨closing, closed, h⟩ := bind_eq_ok_iff.mp h
    cases h
    have := name.bound
    have := opening.bound
    have inner := typeList_sound opening.rest args listed
    rw [expect_ok closed] at inner
    rw [accept?_eq_some found] at dotted
    exact .generic head dotted inner (typeSuffixes_eq _ _ _ _).symm
termination_by 2 * ts.length

theorem typeList_sound (ts : List Token) (s : Step (List TypeRef) 1 ts)
    (h : typeList ts = .ok s) : TypesAt (lexemes ts) s.value (lexemes s.rest) := by
  rw [typeList] at h
  obtain ⟨first, read, h⟩ := bind_eq_ok_iff.mp h
  have head := typeRef_sound ts first read
  split at h
  · next found =>
    cases h
    exact .last head (accept?_eq_none found)
  · next comma found =>
    obtain ⟨more, others, h⟩ := bind_eq_ok_iff.mp h
    cases h
    have := first.bound
    have := comma.bound
    rw [accept?_eq_some found] at head
    exact .more head (typeList_sound comma.rest more others)
termination_by 2 * ts.length + 1

end

/-- Whatever the spans are, the parser reads the types and the lists of types of the grammar. -/
theorem typeRef_and_typeList_complete :
    (∀ {ls t rest}, TypeAt ls t rest → ∀ ts, lexemes ts = ls →
      ∃ s, typeRef ts = .ok s ∧ s.value.node = t ∧ lexemes s.rest = rest) ∧
    ∀ {ls types rest}, TypesAt ls types rest → ∀ ts, lexemes ts = ls →
      ∃ s, typeList ts = .ok s ∧ s.value = types ∧ lexemes s.rest = rest := by
  refine TypeAt.induct ?plain ?generic ?last ?more
  case plain =>
    rintro ls behind rest more x name t head dotted bare marks ts rfl
    obtain ⟨named, read, rfl, rfl⟩ := dottedName_of_lexemes head dotted
    have type := typeSuffixes_eq named.value.node [] named.value.span named.rest
    rw [marks] at type
    rw [typeRef]
    simp only [read, bind, Except.bind, pure, Except.pure]
    split
    · exact ⟨_, rfl, congrArg Prod.fst type, congrArg Prod.snd type⟩
    · next found => rw [accept?_of_peek bare] at found; cases found
  case generic =>
    rintro ls inner behind rest more x name args t head dotted - marks ih ts rfl
    obtain ⟨named, read, rfl, eq⟩ := dottedName_of_lexemes head dotted
    obtain ⟨opening, opened, rfl⟩ := accept?_of_lexemes eq
    obtain ⟨list, listed, rfl, eq⟩ := ih opening.rest rfl
    obtain ⟨closing, closed, rfl⟩ := expect_of_lexemes .typeArgumentsEnd eq
    have type := typeSuffixes_eq named.value.node list.value
      (named.value.span.merge closing.value) closing.rest
    rw [marks] at type
    rw [typeRef]
    simp only [read, bind, Except.bind, pure, Except.pure]
    split
    · next found => rw [opened] at found; cases found
    · next other found =>
      rw [opened] at found
      cases found
      simp only [listed, closed]
      exact ⟨_, rfl, congrArg Prod.fst type, congrArg Prod.snd type⟩
  case last =>
    rintro ls rest t - stop ih ts rfl
    obtain ⟨first, read, rfl, rfl⟩ := ih ts rfl
    rw [typeList]
    simp only [read, bind, Except.bind, pure, Except.pure]
    split
    · exact ⟨_, rfl, rfl, rfl⟩
    · next found => rw [accept?_of_peek stop] at found; cases found
  case more =>
    rintro ls behind rest t types - - ih ihMore ts rfl
    obtain ⟨first, read, rfl, eq⟩ := ih ts rfl
    obtain ⟨comma, accepted, rfl⟩ := accept?_of_lexemes eq
    obtain ⟨others, readMore, rfl, rfl⟩ := ihMore comma.rest rfl
    rw [typeList]
    simp only [read, bind, Except.bind, pure, Except.pure]
    split
    · next found => rw [accepted] at found; cases found
    · next other found =>
      rw [accepted] at found
      cases found
      simp only [readMore]
      exact ⟨_, rfl, rfl, rfl⟩

theorem typeRef_complete {ts : List Token} {t : TypeRef} {rest : List Lexeme}
    (h : TypeAt (lexemes ts) t rest) :
    ∃ s, typeRef ts = .ok s ∧ s.value.node = t ∧ lexemes s.rest = rest :=
  typeRef_and_typeList_complete.1 h ts rfl

theorem typeList_complete {ts : List Token} {types : List TypeRef} {rest : List Lexeme}
    (h : TypesAt (lexemes ts) types rest) :
    ∃ s, typeList ts = .ok s ∧ s.value = types ∧ lexemes s.rest = rest :=
  typeRef_and_typeList_complete.2 h ts rfl

/-! ### What remains -/

theorem aliased_suffix (ls : List Lexeme) : aliased ls <:+ ls := by
  unfold aliased
  split
  · exact ⟨[_, _], rfl⟩
  · exact List.suffix_rfl

theorem segmentsOf_suffix (name : String) (ls : List Lexeme) : (segmentsOf name ls).2 <:+ ls := by
  fun_induction segmentsOf name ls with
  | case1 name segment rest ih => exact ih.trans ⟨[_, _], rfl⟩
  | case2 => exact List.suffix_rfl

theorem ranksOf_suffix (rank : UInt8) (ls : List Lexeme) : (ranksOf rank ls).2 <:+ ls := by
  fun_induction ranksOf rank ls with
  | case1 rank rest ih => exact ih.trans ⟨[_, _], rfl⟩
  | case2 => exact List.suffix_rfl

theorem suffixOf_suffix (name : String) (args : List TypeRef) (ls : List Lexeme) :
    (suffixOf name args ls).2 <:+ ls := by
  unfold suffixOf
  split
  · exact (ranksOf_suffix 0 _).trans (List.suffix_cons _ _)
  · exact ranksOf_suffix 0 ls

theorem typeAt_and_typesAt_suffix :
    (∀ {ls t rest}, TypeAt ls t rest → rest <:+ ls) ∧
      ∀ {ls types rest}, TypesAt ls types rest → rest <:+ ls := by
  refine TypeAt.induct ?plain ?generic ?last ?more
  case plain =>
    intro ls behind rest more x name t head dotted _ marks
    have first : more <:+ ls := (List.suffix_cons _ _).trans (head ▸ aliased_suffix ls)
    have second := segmentsOf_suffix x more
    have third := suffixOf_suffix name [] behind
    rw [dotted] at second
    rw [marks] at third
    exact third.trans (second.trans first)
  case generic =>
    intro ls inner behind rest more x name args t head dotted _ marks ih
    have first : more <:+ ls := (List.suffix_cons _ _).trans (head ▸ aliased_suffix ls)
    have second := segmentsOf_suffix x more
    have third := suffixOf_suffix name args behind
    rw [dotted] at second
    rw [marks] at third
    have list : behind <:+ .punct .lt :: inner :=
      (List.suffix_cons _ _).trans (ih.trans (List.suffix_cons _ _))
    exact third.trans (list.trans (second.trans first))
  case last => exact fun _ _ ih => ih
  case more => exact fun _ _ ih ihMore => ihMore.trans ((List.suffix_cons _ _).trans ih)

theorem TypeAt.suffix {ls rest : List Lexeme} {t : TypeRef} (h : TypeAt ls t rest) : rest <:+ ls :=
  typeAt_and_typesAt_suffix.1 h

theorem ArgsAt.suffix {ls rest : List Lexeme} {args : List TypeRef} (h : ArgsAt ls args rest) :
    rest <:+ ls := by
  obtain ⟨inner, rfl, listed, -⟩ := h
  exact (List.suffix_cons _ _).trans
    ((typeAt_and_typesAt_suffix.2 listed).trans (List.suffix_cons _ _))

theorem NameAt.suffix {ls rest : List Lexeme} {n : SimpleName} (h : NameAt ls n rest) :
    rest <:+ ls := by
  cases h with
  | bare _ => exact List.suffix_cons _ _
  | generic some => exact some.suffix.trans (List.suffix_cons _ _)

theorem CastAt.suffix {ls rest : List Lexeme} {t : TypeRef} (h : CastAt ls t rest) :
    rest <:+ ls := by
  obtain ⟨inner, rfl, type, -⟩ := h
  exact (List.suffix_cons _ _).trans (type.suffix.trans (List.suffix_cons _ _))

/-! ### Speculations -/

theorem typeArgs?_sound {ts : List Token} {s : Step (List TypeRef × Span) 2 ts}
    (h : typeArgs? ts = some s) : ArgsAt (lexemes ts) s.value.1 (lexemes s.rest) := by
  unfold typeArgs? at h
  simp only [Option.bind_eq_bind, Option.bind_eq_some_iff] at h
  obtain ⟨opening, opened, args, listed, closing, closed, h⟩ := h
  split at h
  · next ends =>
    cases h
    have inner := typeList_sound opening.rest args (toOption_eq_some_iff.mp listed)
    rw [accept?_eq_some closed] at inner
    exact ⟨_, accept?_eq_some opened, inner, by rw [peek_lexemes]; exact ends⟩
  · cases h

theorem typeArgs?_complete {ts : List Token} {args : List TypeRef} {rest : List Lexeme}
    (h : ArgsAt (lexemes ts) args rest) :
    ∃ s, typeArgs? ts = some s ∧ s.value.1 = args ∧ lexemes s.rest = rest := by
  obtain ⟨inner, eq, listed, ends⟩ := h
  obtain ⟨opening, opened, rfl⟩ := accept?_of_lexemes eq
  obtain ⟨list, read, rfl, eq⟩ := typeList_complete listed
  obtain ⟨closing, closed, rfl⟩ := accept?_of_lexemes eq
  rw [peek_lexemes] at ends
  unfold typeArgs?
  simp only [opened, read, closed, Option.bind_eq_bind, Option.bind_some, Except.toOption]
  rw [if_pos ends]
  exact ⟨_, rfl, rfl, rfl⟩

theorem typeArgs?_eq_none_iff {ts : List Token} :
    typeArgs? ts = none ↔ ¬∃ args rest, ArgsAt (lexemes ts) args rest := by
  constructor
  · rintro none ⟨args, rest, some⟩
    obtain ⟨s, found, -⟩ := typeArgs?_complete some
    rw [none] at found
    cases found
  · intro none
    cases found : typeArgs? ts with
    | none => rfl
    | some s => exact absurd ⟨_, _, typeArgs?_sound found⟩ none

theorem simpleName_sound {ts : List Token} {s : Step (Located (String × List TypeRef)) 1 ts}
    (h : simpleName ts = .ok s) :
    NameAt (lexemes ts) ⟨s.value.node.1, s.value.node.2⟩ (lexemes s.rest) := by
  unfold simpleName at h
  obtain ⟨ident, read, h⟩ := bind_eq_ok_iff.mp h
  rw [identifier_ok read]
  split at h
  · next none => cases h; exact .bare (typeArgs?_eq_none_iff.mp none)
  · next args some => cases h; exact .generic (typeArgs?_sound some)

theorem simpleName_complete {ts : List Token} {n : SimpleName} {rest : List Lexeme}
    (h : NameAt (lexemes ts) n rest) :
    ∃ s, simpleName ts = .ok s ∧ (⟨s.value.node.1, s.value.node.2⟩ : SimpleName) = n ∧
      lexemes s.rest = rest := by
  unfold simpleName
  generalize all : lexemes ts = ls at h
  cases h with
  | bare none =>
    obtain ⟨ident, read, rfl, rfl⟩ := identifier_of_lexemes all
    simp only [read, bind, Except.bind, pure, Except.pure]
    split
    · exact ⟨_, rfl, rfl, rfl⟩
    · next found => rw [typeArgs?_eq_none_iff.mpr none] at found; cases found
  | generic some =>
    obtain ⟨ident, read, rfl, rfl⟩ := identifier_of_lexemes all
    obtain ⟨args, found, rfl, rfl⟩ := typeArgs?_complete some
    simp only [read, bind, Except.bind, pure, Except.pure]
    split
    · next none => rw [none] at found; cases found
    · next other same => rw [same] at found; cases found; exact ⟨_, rfl, rfl, rfl⟩

theorem castHead?_sound {ts : List Token} {s : Step (Located TypeRef) 3 ts}
    (h : castHead? ts = some s) : CastAt (lexemes ts) s.value.node (lexemes s.rest) := by
  unfold castHead? at h
  simp only [Option.bind_eq_bind, Option.bind_eq_some_iff] at h
  obtain ⟨opening, opened, type, typed, closing, closed, h⟩ := h
  split at h
  · next begins =>
    cases h
    have inner := typeRef_sound opening.rest type (toOption_eq_some_iff.mp typed)
    rw [accept?_eq_some closed] at inner
    exact ⟨_, accept?_eq_some opened, inner, by rw [peek_lexemes]; exact begins⟩
  · cases h

theorem castHead?_complete {ts : List Token} {t : TypeRef} {rest : List Lexeme}
    (h : CastAt (lexemes ts) t rest) :
    ∃ s, castHead? ts = some s ∧ s.value.node = t ∧ lexemes s.rest = rest := by
  obtain ⟨inner, eq, typed, begins⟩ := h
  obtain ⟨opening, opened, rfl⟩ := accept?_of_lexemes eq
  obtain ⟨type, read, rfl, eq⟩ := typeRef_complete typed
  obtain ⟨closing, closed, rfl⟩ := accept?_of_lexemes eq
  rw [peek_lexemes] at begins
  unfold castHead?
  simp only [opened, read, closed, Option.bind_eq_bind, Option.bind_some, Except.toOption]
  rw [if_pos begins]
  exact ⟨_, rfl, rfl, rfl⟩

theorem castHead?_eq_none_iff {ts : List Token} :
    castHead? ts = none ↔ ¬∃ t rest, CastAt (lexemes ts) t rest := by
  constructor
  · rintro none ⟨t, rest, some⟩
    obtain ⟨s, found, -⟩ := castHead?_complete some
    rw [none] at found
    cases found
  · intro none
    cases found : castHead? ts with
    | none => rfl
    | some s => exact absurd ⟨_, _, castHead?_sound found⟩ none

end Marksmith.Syntax

import Marksmith.Proofs.Syntax.TypeGrammar
import Marksmith.Syntax.Lexer

/-!
Spans of tokens, and of what is read from them.

* `InOrder`: tokens that stand one behind the other in a text; `inOrder_of_lex`: those of the lexer
  do;
* `Covers`: a span reaches from the front of the tokens that were there to the end of the last one
  that was read; `Covers.front`, `Covers.extend`: merged spans cover what their parts cover;
* `typeRef_covers`, `simpleName_covers`: the spans of types and names cover what they were read
  from.
-/

namespace Marksmith.Syntax

/-! ### Tokens in order -/

/-- Tokens that stand one behind the other. Only the end of the text takes no room. -/
structure InOrder (ts : List Token) : Prop where
  apart : ts.Pairwise fun a b => a.span.stop ≤ b.span.start
  forward : ∀ t ∈ ts, t.span.start ≤ t.span.stop
  solid : ∀ t ∈ ts, t.lexeme ≠ .eof → t.span.start < t.span.stop

theorem InOrder.suffix {ts rest : List Token} (order : InOrder ts) (sub : rest <:+ ts) :
    InOrder rest :=
  ⟨order.apart.sublist sub.sublist, fun t mem => order.forward t (sub.subset mem),
    fun t mem => order.solid t (sub.subset mem)⟩

theorem byteSize_pos {s : List Char} (nonempty : s ≠ []) : 0 < byteSize s := by
  cases s with
  | nil => exact absurd rfl nonempty
  | cons c s =>
    have := Char.utf8Size_pos c
    simp only [byteSize_cons]
    omega

theorem inOrder_of_lexFrom {pos : Nat} {s : List Char} {ts : List Token}
    (h : lexFrom pos s = .ok ts) : InOrder ts ∧ ∀ t ∈ ts, pos ≤ t.span.start := by
  fun_induction lexFrom pos s generalizing ts with
  | case1 pos =>
    cases h
    exact ⟨⟨by simp, by simp, by simp⟩, by simp⟩
  | case2 pos c tail blank ih =>
    obtain ⟨order, behind⟩ := ih h
    exact ⟨order, fun t mem => Nat.le_trans (Nat.le_add_right ..) (behind t mem)⟩
  | case3 pos c tail solid comment ih =>
    obtain ⟨order, behind⟩ := ih h
    exact ⟨order, fun t mem => Nat.le_trans (Nat.le_add_right ..) (behind t mem)⟩
  | case4 pos c tail solid noComment e failed => cases h
  | case5 pos c tail solid noComment r read stop =>
    rename_i ih
    obtain ⟨tokens, others, h⟩ := bind_eq_ok_iff.mp h
    cases h
    obtain ⟨order, behind⟩ := ih others
    have room : pos < stop := Nat.lt_add_of_pos_right (byteSize_pos (scan_split read).2)
    refine ⟨⟨List.pairwise_cons.mpr ⟨behind, order.apart⟩, ?_, ?_⟩, ?_⟩
    · exact List.forall_mem_cons.mpr ⟨Nat.le_of_lt room, order.forward⟩
    · exact List.forall_mem_cons.mpr ⟨fun _ => room, order.solid⟩
    · exact List.forall_mem_cons.mpr
        ⟨Nat.le_refl _, fun t mem => Nat.le_trans (Nat.le_of_lt room) (behind t mem)⟩

theorem inOrder_of_lex {text : String} {ts : List Token} (h : lex text = .ok ts) : InOrder ts :=
  (inOrder_of_lexFrom h).1

/-! ### What a span covers -/

/-- A span reaches from the front of `ts` to the end of the last token before `rest`. -/
structure Covers (ts : List Token) (span : Span) (rest : List Token) : Prop where
  start_eq : span.start = (frontSpan ts).start
  ends : ∃ front last, ts = front ++ last :: rest ∧ last.lexeme ≠ .eof ∧ span.stop = last.span.stop

theorem Covers.token {t : Token} {rest : List Token} (some : t.lexeme ≠ .eof) :
    Covers (t :: rest) t.span rest :=
  ⟨rfl, [], t, rfl, some, rfl⟩

theorem Covers.of_split {t : Token} {ts rest : List Token} (split : ts = t :: rest)
    (some : t.lexeme ≠ .eof) : Covers ts t.span rest := by
  subst split
  exact .token some

namespace Covers

variable {ts mid mid' rest : List Token} {a b : Span}

theorem suffix (h : Covers ts a rest) : rest <:+ ts := by
  obtain ⟨front, last, rfl, -, -⟩ := h.ends
  exact ⟨front ++ [last], by simp⟩

theorem ne_nil (h : Covers ts a rest) : ts ≠ [] := by
  obtain ⟨front, last, rfl, -, -⟩ := h.ends
  simp

/-- What is covered ends before the tokens that remain. -/
theorem stop_le (order : InOrder ts) (h : Covers ts a rest) :
    ∀ t ∈ rest, a.stop ≤ t.span.start := by
  obtain ⟨front, last, rfl, -, stop⟩ := h.ends
  intro t mem
  have apart := (List.pairwise_append.mp order.apart).2.1
  rw [stop]
  exact (List.pairwise_cons.mp apart).1 t mem

theorem stop_le_front (order : InOrder ts) (h : Covers ts a rest) (within : mid <:+ rest)
    (some : mid ≠ []) : a.stop ≤ (frontSpan mid).start := by
  cases mid with
  | nil => exact absurd rfl some
  | cons t mid => exact h.stop_le order t (within.subset List.mem_cons_self)

/-- What is covered later does not end before a token at the front. -/
theorem front_le (order : InOrder ts) (within : mid <:+ ts) (h : Covers mid b rest) :
    (frontSpan ts).stop ≤ b.stop ∧ (frontSpan ts).start ≤ b.start := by
  obtain ⟨front, last, split, -, stop⟩ := h.ends
  have mem : last ∈ ts := within.subset (split ▸ by simp)
  rw [stop, h.start_eq]
  cases ts with
  | nil => cases mem
  | cons t ts =>
    have later := (List.pairwise_cons.mp order.apart).1
    have forward := order.forward t List.mem_cons_self
    constructor
    · rcases List.mem_cons.mp mem with rfl | behind
      · exact Nat.le_refl _
      · exact Nat.le_trans (later last behind) (order.forward last mem)
    · rcases List.suffix_cons_iff.mp within with rfl | inner
      · exact Nat.le_refl _
      · cases mid with
        | nil => simp at split
        | cons u mid =>
          exact Nat.le_trans forward (later u (inner.subset List.mem_cons_self))

theorem forward (order : InOrder ts) (h : Covers ts a rest) : a.start < a.stop := by
  obtain ⟨front, last, split, some, stop⟩ := h.ends
  have last_solid := order.solid last (split ▸ by simp) some
  have begins : (frontSpan ts).start ≤ last.span.start := by
    have within : last :: rest <:+ ts := ⟨front, split.symm⟩
    exact (front_le order within (Covers.token some)).2
  rw [h.start_eq, stop]
  omega

theorem merge (within : mid <:+ ts) (begins : a.start = (frontSpan ts).start)
    (starts : a.start ≤ b.start) (stops : a.stop ≤ b.stop) (h : Covers mid b rest) :
    Covers ts (a.merge b) rest := by
  obtain ⟨before, rfl⟩ := within
  obtain ⟨front, last, rfl, some, stop⟩ := h.ends
  refine ⟨?_, before ++ front, last, by simp, some, ?_⟩
  · simp only [Span.merge]
    omega
  · simp only [Span.merge]
    omega

/-- A span that begins at the front token covers everything up to the end of a later one. -/
theorem front (order : InOrder ts) (within : mid <:+ ts) (h : Covers mid b rest) :
    Covers ts ((frontSpan ts).merge b) rest := by
  obtain ⟨stops, starts⟩ := front_le order within h
  exact merge within rfl starts stops h

/-- A span that is merged with a later one covers everything from its beginning to the end of the
later one. -/
theorem extend (order : InOrder ts) (h : Covers ts a mid) (within : mid' <:+ mid)
    (later : Covers mid' b rest) : Covers ts (a.merge b) rest := by
  have inner := within.trans h.suffix
  have begins := later.start_eq
  have stop := h.stop_le_front order within later.ne_nil
  have aForward := h.forward order
  have bForward := later.forward (order.suffix inner)
  exact merge inner h.start_eq (by omega) (by omega) later

end Covers

/-! ### Marks and identifiers -/

variable {ts : List Token}

theorem accept?_covers {p : Punct} {s : Step Span 1 ts} (h : accept? p ts = some s) :
    Covers ts s.value s.rest :=
  .of_split (accept?_split h) (by simp)

theorem expect_covers {p : Punct} {what : Expected} {s : Step Span 1 ts}
    (h : expect p what ts = .ok s) : Covers ts s.value s.rest :=
  .of_split (expect_split h) (by simp)

theorem identifier_covers {s : Step (Located String) 1 ts} (h : identifier ts = .ok s) :
    Covers ts s.value.span s.rest := by
  unfold identifier at h
  split at h
  · cases h
    exact Covers.token (t := ⟨_, _⟩) (by simp)
  · cases h

theorem skipAlias_suffix (ts : List Token) : (skipAlias ts).rest <:+ ts := by
  unfold skipAlias
  split
  · exact ⟨[_, _], rfl⟩
  · exact List.suffix_refl _

/-! ### Types -/

theorem segments_covers (order : InOrder ts) (name : String) {span : Span} {us : List Token}
    (h : Covers ts span us) :
    Covers ts (segments name span us).value.span (segments name span us).rest := by
  fun_induction segments name span us with
  | case1 name span dot segment last rest more ih =>
    refine ih (h.extend order (List.suffix_cons _ _) ?_)
    exact Covers.token (t := ⟨_, _⟩) (by simp)
  | case2 name span us other => exact h

theorem dottedName_covers (order : InOrder ts) {s : Step (Located String) 1 ts}
    (h : dottedName ts = .ok s) : Covers ts s.value.span s.rest := by
  unfold dottedName at h
  obtain ⟨first, found, h⟩ := bind_eq_ok_iff.mp h
  cases h
  exact segments_covers order _ ((identifier_covers found).front order (skipAlias_suffix ts))

theorem arraySuffixes_covers (order : InOrder ts) (rank : UInt8) {span : Span} {us : List Token}
    (h : Covers ts span us) :
    Covers ts (arraySuffixes rank span us).value.2 (arraySuffixes rank span us).rest := by
  fun_induction arraySuffixes rank span us with
  | case1 rank span opening last rest more ih =>
    refine ih (h.extend order (List.suffix_cons _ _) ?_)
    exact Covers.token (t := ⟨_, _⟩) (by simp)
  | case2 rank span us other => exact h

theorem typeSuffixes_covers (order : InOrder ts) (name : String) (args : List TypeRef) {span : Span}
    {us : List Token} (h : Covers ts span us) :
    Covers ts (typeSuffixes name args span us).value.span
      (typeSuffixes name args span us).rest := by
  unfold typeSuffixes
  split
  · next mark found =>
    exact arraySuffixes_covers order _
      (h.extend order (List.suffix_refl _) (accept?_covers found))
  · exact arraySuffixes_covers order _ h

mutual

theorem typeRef_covers (ts : List Token) (order : InOrder ts) (s : Step (Located TypeRef) 1 ts)
    (h : typeRef ts = .ok s) : Covers ts s.value.span s.rest := by
  rw [typeRef] at h
  obtain ⟨name, named, h⟩ := bind_eq_ok_iff.mp h
  have head := dottedName_covers order named
  split at h
  · cases h
    exact typeSuffixes_covers order _ _ head
  · next opening found =>
    obtain ⟨args, listed, h⟩ := bind_eq_ok_iff.mp h
    obtain ⟨closing, closed, h⟩ := bind_eq_ok_iff.mp h
    cases h
    have := name.bound
    have := opening.bound
    have opened := (accept?_covers found).suffix
    have inner := typeList_suffix opening.rest
      (order.suffix (opened.trans head.suffix)) args listed
    exact typeSuffixes_covers order _ _
      (head.extend order (inner.trans opened) (expect_covers closed))
termination_by 2 * ts.length

theorem typeList_suffix (ts : List Token) (order : InOrder ts) (s : Step (List TypeRef) 1 ts)
    (h : typeList ts = .ok s) : s.rest <:+ ts := by
  rw [typeList] at h
  obtain ⟨first, read, h⟩ := bind_eq_ok_iff.mp h
  have head := (typeRef_covers ts order first read).suffix
  split at h
  · cases h
    exact head
  · next comma found =>
    obtain ⟨more, others, h⟩ := bind_eq_ok_iff.mp h
    cases h
    have := first.bound
    have := comma.bound
    have between := (accept?_covers found).suffix.trans head
    exact (typeList_suffix comma.rest (order.suffix between) more others).trans between
termination_by 2 * ts.length + 1

end

/-! ### Names and cast heads -/

theorem typeArgs?_covers (order : InOrder ts) {s : Step (List TypeRef × Span) 2 ts}
    (h : typeArgs? ts = some s) : ∃ mid, mid <:+ ts ∧ Covers mid s.value.2 s.rest := by
  unfold typeArgs? at h
  simp only [Option.bind_eq_bind, Option.bind_eq_some_iff] at h
  obtain ⟨opening, opened, args, listed, closing, closed, h⟩ := h
  split at h
  · cases h
    have front := (accept?_covers opened).suffix
    have inner := typeList_suffix opening.rest (order.suffix front) args
      (toOption_eq_some_iff.mp listed)
    exact ⟨args.rest, inner.trans front, accept?_covers closed⟩
  · cases h

theorem simpleName_covers (order : InOrder ts) {s : Step (Located (String × List TypeRef)) 1 ts}
    (h : simpleName ts = .ok s) : Covers ts s.value.span s.rest := by
  unfold simpleName at h
  obtain ⟨ident, found, h⟩ := bind_eq_ok_iff.mp h
  have head := identifier_covers found
  split at h
  · cases h
    exact head
  · next args listed =>
    cases h
    obtain ⟨mid, within, closing⟩ := typeArgs?_covers (order.suffix head.suffix) listed
    exact head.extend order within closing

theorem castHead?_covers (order : InOrder ts) {s : Step (Located TypeRef) 3 ts}
    (h : castHead? ts = some s) : ∃ span, Covers ts span s.rest := by
  unfold castHead? at h
  simp only [Option.bind_eq_bind, Option.bind_eq_some_iff] at h
  obtain ⟨opening, opened, type, typed, closing, closed, h⟩ := h
  split at h
  · cases h
    have front := accept?_covers opened
    have inner := typeRef_covers opening.rest (order.suffix front.suffix) type
      (toOption_eq_some_iff.mp typed)
    exact ⟨_, front.extend order inner.suffix (accept?_covers closed)⟩
  · cases h

end Marksmith.Syntax

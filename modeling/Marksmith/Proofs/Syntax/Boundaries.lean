import Mathlib.Data.List.Nodup
import Marksmith.Proofs.Syntax.Casting

/-!
Spans are ranges of a text on the boundaries of its characters.

* `Span.Fits`: such a range; `fits_of_lex`: tokens and errors of the lexer have them;
* `Sited`: an expression whose nodes, and the types, parameters and names in them, begin and end
  with tokens and are `Arranged` within each other;
* `Outcome`: what is read has a property and an error another one; `Reads`: errors stand at tokens,
  `WellRead`: errors fit the text;
* `expression_reads`, `typeRef_reads`, `statement_reads`: what the parser reads is sited;
* `Placed.nodup_spans`: no two nodes have the same span;
* `spans_wellFormed`: all spans of a text that is read, and of the errors in it.
-/

namespace Marksmith.Syntax

/-! ### Outcomes of reading -/

/-- What is read has a property, and an error has another one. -/
structure Outcome {α : Type} (P : α → Prop) (E : SyntaxError → Prop) (r : Except SyntaxError α) :
    Prop where
  ok : ∀ a, r = .ok a → P a
  error : ∀ e, r = .error e → E e

namespace Outcome

variable {α β : Type} {P : α → Prop} {Q : β → Prop} {E F : SyntaxError → Prop}
  {r : Except SyntaxError α}

theorem pure {a : α} (holds : P a) : Outcome P E (.ok a) := by
  constructor
  · rintro _ ⟨⟩
    exact holds
  · rintro _ ⟨⟩

theorem throw {e : SyntaxError} (fails : E e) : Outcome P E (.error e) := by
  constructor
  · rintro _ ⟨⟩
  · rintro _ ⟨⟩
    exact fails

theorem imp (outcome : Outcome P E r) (weaker : ∀ e, E e → F e) : Outcome P F r :=
  ⟨outcome.ok, fun e failed => weaker e (outcome.error e failed)⟩

theorem bind {next : α → Except SyntaxError β} (first : Outcome P E r)
    (others : ∀ a, r = .ok a → P a → Outcome Q E (next a)) : Outcome Q E (r >>= next) := by
  constructor
  · intro b made
    obtain ⟨a, given, made⟩ := bind_eq_ok_iff.mp made
    exact (others a given (first.ok a given)).ok b made
  · intro e failed
    rcases bind_eq_error_iff.mp failed with failed | ⟨a, given, failed⟩
    · exact first.error e failed
    · exact (others a given (first.ok a given)).error e failed

end Outcome

/-! ### Boundaries of characters -/

/-- A byte offset at which a character of the text begins, or the text ends. -/
def IsBoundary (s : List Char) (n : Nat) : Prop :=
  ∃ before behind, s = before ++ behind ∧ n = byteSize before

/-- A range of a text on the boundaries of its characters. -/
structure Span.Fits (text : String) (span : Span) : Prop where
  forward : span.start ≤ span.stop
  within : span.stop ≤ byteSize text.toList
  starts : IsBoundary text.toList span.start
  stops : IsBoundary text.toList span.stop

/-- What is read from a text has a property, or the error stands in the text. -/
abbrev WellRead {α : Type} (text : String) (P : α → Prop) (r : Except SyntaxError α) : Prop :=
  Outcome P (fun e => e.span.Fits text) r

theorem Span.fits_zero (text : String) : Span.Fits text ⟨0, 0⟩ :=
  ⟨Nat.le_refl 0, Nat.zero_le _, ⟨[], text.toList, rfl, rfl⟩, ⟨[], text.toList, rfl, rfl⟩⟩

/-- The place of a piece of a text. -/
theorem Span.fits_piece {text : String} {before piece behind : List Char}
    (split : text.toList = before ++ (piece ++ behind)) :
    Span.Fits text ⟨byteSize before, byteSize before + byteSize piece⟩ where
  forward := Nat.le_add_right ..
  within := by
    simp only [split, byteSize_append]
    omega
  starts := ⟨before, piece ++ behind, split, rfl⟩
  stops := ⟨before ++ piece, behind, by rw [split, List.append_assoc], (byteSize_append ..).symm⟩

/-- The place of a character of a text. -/
theorem Span.fits_char {text : String} {before behind : List Char} {c : Char}
    (split : text.toList = before ++ c :: behind) :
    Span.Fits text ⟨byteSize before, byteSize before + c.utf8Size⟩ :=
  have split : text.toList = before ++ ([c] ++ behind) := split
  fits_piece split

/-! ### The lexer -/

section

variable {text : String} {before : List Char} {e : SyntaxError}

theorem scanStringBody_fits {start pos : Nat} {s : List Char}
    (split : text.toList = before ++ s) (place : pos = byteSize before) (room : start ≤ pos)
    (starts : IsBoundary text.toList start) (h : scanStringBody start pos s = .error e) :
    e.span.Fits text := by
  fun_induction scanStringBody start pos s generalizing before with
  | case1 pos =>
    cases h
    rw [List.append_nil] at split
    exact ⟨room, by rw [place, split], starts, before, [], by rw [split, List.append_nil], place⟩
  | case2 => cases h
  | case3 pos =>
    cases h
    subst place
    exact Span.fits_char split
  | case4 pos c s ih =>
    have split : text.toList = (before ++ ['\\', c]) ++ s := by rw [split, List.append_assoc]; rfl
    rcases bind_eq_error_iff.mp h with failed | ⟨_, _, made⟩
    · refine ih split ?_ (by omega) failed
      rw [place, byteSize_append, Nat.add_assoc]
      rfl
    · cases made
  | case5 pos c s _ _ _ ih =>
    have split := split.trans (List.append_cons before c s)
    rcases bind_eq_error_iff.mp h with failed | ⟨_, _, made⟩
    · exact ih split (by simp [place]) (by omega) failed
    · cases made

theorem scanString_fits {pos : Nat} {s : List Char} (split : text.toList = before ++ '"' :: s)
    (place : pos = byteSize before) (h : scanString pos s = .error e) : e.span.Fits text := by
  rcases bind_eq_error_iff.mp h with failed | ⟨_, _, made⟩
  · have inner := split.trans (List.append_cons before '"' s)
    refine scanStringBody_fits inner ?_ (Nat.le_succ pos) ⟨before, '"' :: s, split, place⟩ failed
    rw [place, byteSize_append]
    rfl
  · cases made

theorem scanEscapedWord_fits {pos : Nat} {s : List Char} (split : text.toList = before ++ '@' :: s)
    (place : pos = byteSize before) (h : scanEscapedWord pos s = .error e) : e.span.Fits text := by
  unfold scanEscapedWord at h
  split at h
  · cases h
    subst place
    exact Span.fits_char split
  · cases h

theorem scanNumber_fits {pos : Nat} {s : List Char} (split : text.toList = before ++ s)
    (place : pos = byteSize before) (h : scanNumber pos s = .error e) : e.span.Fits text := by
  unfold scanNumber at h
  simp only at h
  split at h
  · cases h
  · split at h
    · cases h
    · cases h
      rw [← splitNumber_split false s] at split
      subst place
      exact Span.fits_piece split

theorem scan_fits {pos : Nat} {c : Char} {s : List Char} (split : text.toList = before ++ c :: s)
    (place : pos = byteSize before) (h : scan pos c s = .error e) : e.span.Fits text := by
  unfold scan at h
  split at h
  · next escape =>
    rw [beq_iff_eq.mp escape] at split
    exact scanEscapedWord_fits split place h
  · split at h
    · cases h
    · split at h
      · exact scanNumber_fits split place h
      · split at h
        · next quote =>
          rw [beq_iff_eq.mp quote] at split
          exact scanString_fits split place h
        · split at h
          · cases h
          · cases h
            subst place
            exact Span.fits_char split

theorem fits_of_lexFrom {pos : Nat} {s : List Char} (split : text.toList = before ++ s)
    (place : pos = byteSize before) :
    WellRead text (fun ts => ∀ t ∈ ts, t.span.Fits text) (lexFrom pos s) := by
  fun_induction lexFrom pos s generalizing before with
  | case1 pos =>
    refine .pure (List.forall_mem_singleton.mpr ?_)
    rw [place]
    have split : text.toList = before ++ ([] ++ []) := split
    exact Span.fits_piece split
  | case2 pos c tail blank ih =>
    have split := split.trans (List.append_cons before c tail)
    exact ih split (by simp [place])
  | case3 pos c tail solid comment ih =>
    have slash : c = '/' := by
      rw [Bool.and_eq_true, beq_iff_eq] at comment
      exact comment.1
    have line : (c :: tail).takeWhile (· != '\n') ++ tail.dropWhile (· != '\n') = c :: tail := by
      subst slash
      exact List.takeWhile_append_dropWhile
    rw [← line, ← List.append_assoc] at split
    exact ih split (by simp [place])
  | case4 pos c tail solid noComment e failed =>
    exact .throw (scan_fits split place failed)
  | case5 pos c tail solid noComment r read stop =>
    rename_i ih
    rw [← (scan_split read).1] at split
    have behind : text.toList = (before ++ r.written) ++ r.rest := by
      rw [split, List.append_assoc]
    refine Outcome.bind (ih behind (by simp [stop, place])) fun others _ tokens => .pure ?_
    refine List.forall_mem_cons.mpr ⟨?_, tokens⟩
    subst place
    exact Span.fits_piece split

end

theorem fits_of_lex (text : String) :
    WellRead text (fun ts => ∀ t ∈ ts, t.span.Fits text) (lex text) :=
  fits_of_lexFrom (List.nil_append text.toList).symm rfl

/-! ### Nodes and their located parts -/

namespace Expr

/-- The spans of what is written in front of the parts of a node: the type of a cast or of an object
creation, the parameters of a lambda. -/
def headSpans : Expr → List Span
  | cast _ type _ | new _ type _ => [type.span]
  | lambda _ params _ => params.map (·.span)
  | _ => []

/-- The spans of all located parts of a node in source order. -/
def partSpans (e : Expr) : List Span :=
  e.headSpans ++ (e.children.map span ++ (e.memberName?.map (·.span)).toList)

end Expr

/-- Parts strictly within a whole, one behind the other. -/
structure Arranged (whole : Span) (parts : List Span) : Prop where
  holds : ∀ s ∈ parts, whole.Holds s
  inOrder : parts.Pairwise fun a b => a.stop ≤ b.start

/-- A span from the beginning of a token to the end of a token. -/
structure Anchored (ts : List Token) (span : Span) : Prop where
  forward : span.start < span.stop
  starts : ∃ t ∈ ts, span.start = t.span.start
  stops : ∃ t ∈ ts, span.stop = t.span.stop

/-- All nodes of an expression are arranged, and they and their parts begin and end with tokens. -/
def Sited (ts : List Token) (e : Expr) : Prop :=
  ∀ n ∈ e.nodes, Arranged n.span n.partSpans ∧ ∀ s ∈ n.span :: n.partSpans, Anchored ts s

theorem sited_iff {ts : List Token} {e : Expr} :
    Sited ts e ↔ (Arranged e.span e.partSpans ∧ ∀ s ∈ e.span :: e.partSpans, Anchored ts s) ∧
      ∀ c ∈ e.children, Sited ts c := by
  rw [Sited, Expr.nodes_eq, List.forall_mem_cons, List.forall_mem_flatMap]
  exact Iff.rfl

variable {ts us mid rest : List Token} {e : Expr} {a : Span}

theorem Anchored.mono (anchored : Anchored us a) (sub : us <:+ ts) : Anchored ts a := by
  obtain ⟨forward, ⟨t, first, starts⟩, ⟨u, last, stops⟩⟩ := anchored
  exact ⟨forward, ⟨t, sub.subset first, starts⟩, ⟨u, sub.subset last, stops⟩⟩

theorem Sited.mono (sited : Sited us e) (sub : us <:+ ts) : Sited ts e :=
  fun n mem => ⟨(sited n mem).1, fun s part => ((sited n mem).2 s part).mono sub⟩

theorem Sited.anchored (sited : Sited ts e) : Anchored ts e.span :=
  (sited_iff.mp sited).1.2 _ List.mem_cons_self

theorem anchored_token {t : Token} (order : InOrder ts) (mem : t ∈ ts) (some : t.lexeme ≠ .eof) :
    Anchored ts t.span :=
  ⟨order.solid t mem some, ⟨t, mem, rfl⟩, ⟨t, mem, rfl⟩⟩

theorem Covers.anchored (order : InOrder ts) (covers : Covers ts a rest) : Anchored ts a := by
  refine ⟨covers.forward order, ?_, ?_⟩
  · cases ts with
    | nil => exact absurd rfl covers.ne_nil
    | cons t ts => exact ⟨t, List.mem_cons_self, covers.start_eq⟩
  · obtain ⟨front, last, rfl, -, stop⟩ := covers.ends
    exact ⟨last, by simp, stop⟩

/-- What is written in front of the parts of a node stands within the node, in order, and in front
of the parts. -/
structure Heads (ts : List Token) (e : Expr) : Prop where
  anchored : ∀ h ∈ e.headSpans, Anchored ts h
  begins : ∀ h ∈ e.headSpans, e.span.start ≤ h.start
  ends : ∀ h ∈ e.headSpans, h.stop < e.span.stop
  inFront : ∀ h ∈ e.headSpans, ∀ c ∈ e.children, h.stop ≤ c.span.start
  inOrder : e.headSpans.Pairwise fun a b => a.stop ≤ b.start

theorem heads_nil (none : e.headSpans = []) : Heads ts e := by
  refine ⟨?_, ?_, ?_, ?_, ?_⟩ <;> simp [none]

theorem Expr.WellPlaced.holds_name {n : Located SimpleName} (well : e.WellPlaced)
    (named : e.memberName? = some n) (parts : ∀ c ∈ e.children, c.WellPlaced) :
    e.span.Holds n.span := by
  obtain ⟨behind, room, ends⟩ := well.named n named
  cases e with
  | member s target name =>
    have within := Span.contains_iff.mp (well.holds target List.mem_cons_self).1
    have forward := (parts target List.mem_cons_self).forward
    have gap := behind target List.mem_cons_self
    refine ⟨Span.contains_iff.mpr ⟨by omega, Nat.le_of_eq ends⟩, fun same => ?_⟩
    rw [← same] at within
    omega
  | _ => cases named

/-- A node that is placed is arranged if its heads are. -/
theorem Expr.Placed.arranged (placed : e.Placed) (heads : Heads ts e) :
    Arranged e.span e.partSpans := by
  obtain ⟨well, parts⟩ := Expr.placed_iff.mp placed
  have wellParts : ∀ c ∈ e.children, c.WellPlaced := fun c part => (placed_iff.mp (parts c part)).1
  constructor
  · simp only [partSpans, List.forall_mem_append, List.forall_mem_map, Option.mem_toList]
    refine ⟨fun h mem => Span.holds_of_stop_lt (heads.begins h mem) (heads.ends h mem), well.holds,
      fun s name => ?_⟩
    · obtain ⟨n, named, rfl⟩ := Option.map_eq_some_iff.mp name
      exact well.holds_name named wellParts
  · simp only [partSpans, List.pairwise_append, List.pairwise_map, List.mem_append, List.mem_map,
      Option.mem_toList]
    refine ⟨heads.inOrder, ⟨well.inOrder, ?_, ?_⟩, ?_⟩
    · cases e.memberName? with
      | none => exact .nil
      | some n => exact List.pairwise_singleton ..
    · rintro _ ⟨c, part, rfl⟩ _ name
      obtain ⟨n, named, rfl⟩ := Option.map_eq_some_iff.mp name
      exact (well.named n named).1 c part
    · rintro h mem s (⟨c, part, rfl⟩ | name)
      · exact heads.inFront h mem c part
      · cases e with
        | member => cases mem
        | _ => cases name

/-- A node that occupies tokens is sited if its heads, its name and its parts are. -/
theorem Occupies.sited (order : InOrder ts) (whole : Occupies ts e rest) (heads : Heads ts e)
    (named : ∀ n, e.memberName? = some n → Anchored ts n.span)
    (parts : ∀ c ∈ e.children, Sited ts c) : Sited ts e := by
  refine sited_iff.mpr ⟨⟨whole.placed.arranged heads, ?_⟩, parts⟩
  simp only [Expr.partSpans, List.forall_mem_cons, List.forall_mem_append, List.forall_mem_map,
    Option.mem_toList]
  refine ⟨whole.covers.anchored order, heads.anchored, fun c part => (parts c part).anchored, ?_⟩
  rintro s name
  obtain ⟨n, found, rfl⟩ := Option.map_eq_some_iff.mp name
  exact named n found

/-! ### Outcomes of the parser -/

/-- An error stands at a token. -/
def AtToken (ts : List Token) (e : SyntaxError) : Prop :=
  ∃ us, us <:+ ts ∧ e.span = frontSpan us

/-- What a parser gives has a property, or its error stands at a token. -/
abbrev Reads {α : Type} (ts : List Token) (P : α → Prop) (r : Except SyntaxError α) : Prop :=
  Outcome P (AtToken ts) r

namespace Reads

variable {α : Type} {P : α → Prop} {r : Except SyntaxError α}

theorem unexpected (expected : Expected) : Reads ts P (.error (unexpected expected ts)) :=
  .throw ⟨ts, List.suffix_refl _, rfl⟩

theorem mono (reads : Reads us P r) (sub : us <:+ ts) : Reads ts P r := by
  refine reads.imp fun e place => ?_
  obtain ⟨vs, inner, same⟩ := place
  exact ⟨vs, inner.trans sub, same⟩

end Reads

theorem expect_reads (p : Punct) (expected : Expected) (ts : List Token) :
    Reads ts (fun s : Step Span 1 ts => Covers ts s.value s.rest) (expect p expected ts) := by
  refine ⟨fun s read => expect_covers read, fun e failed => ?_⟩
  unfold expect at failed
  split at failed
  · cases failed
  · cases failed
    exact ⟨ts, List.suffix_refl _, rfl⟩

theorem identifier_reads (ts : List Token) :
    Reads ts (fun s : Step (Located String) 1 ts => Covers ts s.value.span s.rest)
      (identifier ts) := by
  refine ⟨fun s read => identifier_covers read, fun e failed => ?_⟩
  unfold identifier at failed
  split at failed
  · cases failed
  · cases failed
    exact ⟨_, List.suffix_refl _, rfl⟩

theorem dottedName_reads (order : InOrder ts) :
    Reads ts (fun s : Step (Located String) 1 ts => Covers ts s.value.span s.rest)
      (dottedName ts) := by
  refine ⟨fun s read => dottedName_covers order read, ?_⟩
  exact (((identifier_reads _).mono (skipAlias_suffix ts)).bind
    fun first read covers => .pure trivial : Reads ts (fun _ => True) (dottedName ts)).error

mutual

theorem typeRef_reads (ts : List Token) (order : InOrder ts) :
    Reads ts (fun s : Step (Located TypeRef) 1 ts => Covers ts s.value.span s.rest)
      (typeRef ts) := by
  refine ⟨typeRef_covers ts order, Outcome.error (P := fun _ => True) ?_⟩
  rw [typeRef]
  refine (dottedName_reads order).bind fun name _ head => ?_
  split
  · exact .pure trivial
  · next opening found =>
    have := name.bound
    have := opening.bound
    have opened := (accept?_covers found).suffix.trans head.suffix
    refine ((typeList_reads opening.rest (order.suffix opened)).mono opened).bind
      fun args _ inner => ?_
    exact ((expect_reads .gt .typeArgumentsEnd args.rest).mono (inner.trans opened)).bind
      fun closing _ _ => .pure trivial
termination_by 2 * ts.length

theorem typeList_reads (ts : List Token) (order : InOrder ts) :
    Reads ts (fun s : Step (List TypeRef) 1 ts => s.rest <:+ ts) (typeList ts) := by
  refine ⟨typeList_suffix ts order, Outcome.error (P := fun _ => True) ?_⟩
  rw [typeList]
  refine (typeRef_reads ts order).bind fun first _ head => ?_
  split
  · exact .pure trivial
  · next comma found =>
    have := first.bound
    have := comma.bound
    have between := (accept?_covers found).suffix.trans head.suffix
    exact ((typeList_reads comma.rest (order.suffix between)).mono between).bind
      fun more _ _ => .pure trivial
termination_by 2 * ts.length + 1

end

theorem simpleName_reads (order : InOrder ts) :
    Reads ts (fun s : Step (Located (String × List TypeRef)) 1 ts => Covers ts s.value.span s.rest)
      (simpleName ts) := by
  refine ⟨fun s read => simpleName_covers order read, Outcome.error (P := fun _ => True) ?_⟩
  rw [simpleName]
  refine (identifier_reads ts).bind fun ident _ _ => ?_
  split <;> exact .pure trivial

theorem sited_leaf (order : InOrder ts) (covers : Covers ts e.span rest) (leaf : e.children = [])
    (headless : e.headSpans = []) (unnamed : e.memberName? = none) : Sited ts e := by
  have whole : Occupies ts e rest :=
    ⟨covers, Expr.placed_leaf (covers.forward order) leaf unnamed⟩
  refine whole.sited order (heads_nil headless) ?_ ?_
  · rw [unnamed]
    exact nofun
  · rw [leaf]
    exact nofun

theorem nameExpr_reads (order : InOrder ts) :
    Reads ts (fun s : Step Expr 1 ts => Sited ts s.value) (nameExpr ts) := by
  have within := skipAlias_suffix ts
  refine ((simpleName_reads (order.suffix within)).mono within).bind fun name _ covers => ?_
  exact .pure (sited_leaf order (covers.front order within) rfl rfl rfl)

theorem atom?_sited (order : InOrder ts) {s : Step Expr 1 ts} (h : atom? ts = some s) :
    Sited ts s.value := by
  unfold atom? at h
  split at h
  · next span rest =>
    cases h
    exact sited_leaf order (Covers.token (t := ⟨.keyword .this, span⟩) (by simp)) rfl rfl rfl
  · next lexeme span rest _ =>
    obtain ⟨v, found, rfl⟩ := Option.map_eq_some_iff.mp h
    have whole : Covers (⟨lexeme, span⟩ :: rest) span rest := .token (by rintro rfl; cases found)
    exact sited_leaf order whole rfl rfl rfl
  · cases h

/-! ### Heads -/

/-- The parameters of a lambda are tokens of its head. -/
theorem lambdaHead?_sublist {s : Step (List (Located String)) 2 ts}
    (h : lambdaHead? ts = some s) : (s.value.map nameToken ++ s.rest).Sublist ts := by
  obtain ⟨front, split, idents⟩ := lambdaHead?_idents h
  have within : (front.filter Token.isIdent ++ s.rest).Sublist (front ++ s.rest) :=
    List.filter_sublist.append_right s.rest
  rw [idents, ← split] at within
  exact within

theorem front_le_of_mem (order : InOrder ts) {t : Token} (mem : t ∈ ts) :
    (frontSpan ts).start ≤ t.span.start := by
  cases ts with
  | nil => cases mem
  | cons u ts =>
    rcases List.mem_cons.mp mem with rfl | later
    · exact Nat.le_refl _
    · exact Nat.le_trans (order.forward u List.mem_cons_self)
        ((List.pairwise_cons.mp order.apart).1 t later)

theorem front_mem (some : ts ≠ []) : ∃ t ∈ ts, frontSpan ts = t.span := by
  cases ts with
  | nil => exact absurd rfl some
  | cons t ts => exact ⟨t, List.mem_cons_self, rfl⟩

theorem sited_lambda (order : InOrder ts) {head : Step (List (Located String)) 2 ts} {body : Expr}
    (found : lambdaHead? ts = some head) (read : Occupies head.rest body rest)
    (inner : Sited head.rest body) :
    Sited ts (.lambda ((frontSpan ts).merge body.span) head.value body) := by
  obtain ⟨span, covered⟩ := lambdaHead?_covers order found
  have whole : Occupies ts (.lambda ((frontSpan ts).merge body.span) head.value body) rest :=
    occupies_front order covered read rfl rfl rfl
  have sub := lambdaHead?_sublist found
  obtain ⟨inOrder, -, before⟩ := List.pairwise_append.mp (order.apart.sublist sub)
  have param : ∀ p ∈ head.value, nameToken p ∈ ts := fun p mem =>
    sub.subset (List.mem_append_left _ (List.mem_map_of_mem mem))
  -- The body begins with the first token behind the head.
  have inFront : ∀ p ∈ head.value, p.span.stop ≤ body.span.start := by
    intro p mem
    obtain ⟨t, front, same⟩ := front_mem read.covers.ne_nil
    rw [read.covers.start_eq, same]
    exact before (nameToken p) (List.mem_map_of_mem mem) t front
  refine whole.sited order ?heads nofun (List.forall_mem_singleton.mpr (inner.mono covered.suffix))
  constructor <;> simp only [Expr.headSpans, List.forall_mem_map]
  case anchored => exact fun p mem => anchored_token order (param p mem) nofun
  case begins =>
    intro p mem
    rw [whole.covers.start_eq]
    exact front_le_of_mem order (param p mem)
  case ends =>
    intro p mem
    have room := read.covers.forward (order.suffix covered.suffix)
    exact Nat.lt_of_le_of_lt (inFront p mem) (Nat.lt_of_lt_of_le room (Nat.le_max_right ..))
  case inFront => exact fun p mem => List.forall_mem_singleton.mpr (inFront p mem)
  case inOrder =>
    rw [List.pairwise_map] at inOrder ⊢
    exact inOrder

/-- A node with a single head. -/
theorem heads_single {t : Span} {behind : List Token} (order : InOrder ts)
    (whole : Occupies ts e rest) (only : e.headSpans = [t]) (within : mid <:+ ts)
    (covers : Covers mid t behind) (ends : t.stop < e.span.stop)
    (inFront : ∀ c ∈ e.children, t.stop ≤ c.span.start) : Heads ts e := by
  have starts := (covers.front_le order within).2
  rw [← whole.covers.start_eq] at starts
  constructor <;> rw [only]
  case anchored =>
    exact List.forall_mem_singleton.mpr ((covers.anchored (order.suffix within)).mono within)
  case begins => exact List.forall_mem_singleton.mpr starts
  case ends => exact List.forall_mem_singleton.mpr ends
  case inFront => exact List.forall_mem_singleton.mpr inFront
  case inOrder => exact List.pairwise_singleton ..

theorem castHead?_type (order : InOrder ts) {s : Step (Located TypeRef) 3 ts}
    (h : castHead? ts = some s) :
    ∃ mid behind, mid <:+ ts ∧ Covers mid s.value.span behind ∧ s.rest <:+ behind := by
  unfold castHead? at h
  simp only [Option.bind_eq_bind, Option.bind_eq_some_iff] at h
  obtain ⟨opening, opened, type, typed, closing, closed, h⟩ := h
  split at h
  · cases h
    have front := (accept?_covers opened).suffix
    exact ⟨opening.rest, type.rest, front,
      typeRef_covers opening.rest (order.suffix front) type (toOption_eq_some_iff.mp typed),
      (accept?_covers closed).suffix⟩
  · cases h

theorem sited_cast (order : InOrder ts) {head : Step (Located TypeRef) 3 ts} {operand : Expr}
    (found : castHead? ts = some head) (read : Occupies head.rest operand rest)
    (inner : Sited head.rest operand) :
    Sited ts (.cast ((frontSpan ts).merge operand.span) head.value operand) := by
  obtain ⟨span, covered⟩ := castHead?_covers order found
  have whole : Occupies ts (.cast ((frontSpan ts).merge operand.span) head.value operand) rest :=
    occupies_front order covered read rfl rfl rfl
  obtain ⟨mid, behind, within, type, followed⟩ := castHead?_type order found
  obtain ⟨-, gap, room⟩ := type.before (order.suffix within) followed read.covers
  refine whole.sited order (heads_single order whole rfl within type ?_ ?_) nofun
    (List.forall_mem_singleton.mpr (inner.mono covered.suffix))
  · exact Nat.lt_of_le_of_lt gap (Nat.lt_of_lt_of_le room (Nat.le_max_right ..))
  · exact List.forall_mem_singleton.mpr gap

theorem sited_new {start closing : Span} {type : Located TypeRef} {behind : List Token}
    {es : List Expr} (order : InOrder ts) (begun : Covers ts start mid)
    (typed : Covers mid type.span behind) {us : List Token} (within : us <:+ behind)
    (args : Listed us es closing rest) (inner : ∀ e ∈ es, Sited us e) :
    Sited ts (.new (start.merge closing) type es) := by
  have whole : Occupies ts (.new (start.merge closing) type es) rest :=
    occupies_new order begun (within.trans typed.suffix) args
  obtain ⟨-, gap, room, places⟩ := args.past (order.suffix begun.suffix) typed within
  refine whole.sited order (heads_single order whole rfl begun.suffix typed ?_ ?_) nofun
    fun e mem => (inner e mem).mono (within.trans (typed.suffix.trans begun.suffix))
  · exact Nat.lt_of_le_of_lt gap (Nat.lt_of_lt_of_le room (Nat.le_max_right ..))
  · exact fun e mem => (places e mem).1

theorem sited_member {target : Expr} {n : Located SimpleName} {behind : List Token}
    (order : InOrder ts) (first : Occupies ts target mid) (dot : Covers mid a behind)
    (name : Covers behind n.span rest) (inner : Sited ts target) :
    Sited ts (.member (target.span.merge n.span) target n) := by
  have within := dot.suffix.trans first.covers.suffix
  refine (occupies_member order first dot name).sited order (heads_nil rfl) ?_
    (List.forall_mem_singleton.mpr inner)
  rintro _ ⟨⟩
  exact (name.anchored (order.suffix within)).mono within

/-- A node without heads and without a member's name. -/
theorem Occupies.sited_plain (order : InOrder ts) (whole : Occupies ts e rest)
    (headless : e.headSpans = []) (unnamed : e.memberName? = none)
    (parts : ∀ c ∈ e.children, Sited ts c) : Sited ts e := by
  refine whole.sited order (heads_nil headless) ?_ parts
  rw [unnamed]
  exact nofun

/-- A call or an element access. -/
theorem sited_applied {node target : Expr} {es : List Expr} {behind : List Token}
    (order : InOrder ts) (whole : Occupies ts node rest) (parts : node.children = target :: es)
    (headless : node.headSpans = []) (unnamed : node.memberName? = none) (inner : Sited ts target)
    (within : behind <:+ ts) (args : ∀ e ∈ es, Sited behind e) : Sited ts node := by
  refine whole.sited_plain order headless unnamed ?_
  rw [parts]
  exact List.forall_mem_cons.mpr ⟨inner, fun e mem => (args e mem).mono within⟩

/-! ### What the parser reads is sited -/

mutual

theorem expression_reads (ts : List Token) (order : InOrder ts) :
    Reads ts (fun s : Step Expr 1 ts => Sited ts s.value) (expression ts) := by
  rw [expression]
  split
  · next head found =>
    have := head.bound
    obtain ⟨mark, covered⟩ := lambdaHead?_covers order found
    have behind := order.suffix covered.suffix
    refine ((expression_reads head.rest behind).mono covered.suffix).bind fun body read inner => ?_
    exact .pure (sited_lambda order found (expression_occupies _ behind body read) inner)
  · exact operation_reads 0 ts order
termination_by 8 * ts.length + 5

theorem operation_reads (least : Nat) (ts : List Token) (order : InOrder ts) :
    Reads ts (fun s : Step Expr 1 ts => Sited ts s.value) (operation least ts) := by
  rw [operation]
  refine (unary_reads ts order).bind fun left read inner => ?_
  have := left.bound
  have first := unary_occupies ts order left read
  refine ((operators_reads least left.value left.rest ts order first inner).mono
    first.covers.suffix).bind fun whole _ sited => ?_
  exact .pure sited
termination_by 8 * ts.length + 4

/-- Operators behind a left operand that was read from `all`. -/
theorem operators_reads (least : Nat) (left : Expr) (ts all : List Token) (order : InOrder all)
    (first : Occupies all left ts) (inner : Sited all left) :
    Reads ts (fun s : Step Expr 0 ts => Sited all s.value) (operators least left ts) := by
  rw [operators]
  split
  · exact .pure inner
  · next op found =>
    obtain ⟨mark, covered⟩ := binaryOp?_covers found
    have := op.bound
    split
    · exact .pure inner
    · have within := covered.suffix.trans first.covers.suffix
      have behind := order.suffix within
      refine ((operation_reads op.value.rightBound op.rest behind).mono covered.suffix).bind
        fun right read sited => ?_
      have := right.bound
      have second := operation_occupies _ op.rest behind right read
      have whole := occupies_binary op.value order first covered second
      have parts : ∀ c ∈ [left, right.value], Sited all c :=
        List.forall_mem_cons.mpr ⟨inner, List.forall_mem_singleton.mpr (sited.mono within)⟩
      refine ((operators_reads least _ right.rest all order whole
        (whole.sited_plain order rfl rfl parts)).mono
          (second.covers.suffix.trans covered.suffix)).bind fun rest _ done => ?_
      exact .pure done
termination_by 8 * ts.length

theorem unary_reads (ts : List Token) (order : InOrder ts) :
    Reads ts (fun s : Step Expr 1 ts => Sited ts s.value) (unary ts) := by
  rw [unary]
  split
  · next op found =>
    have := op.bound
    obtain ⟨mark, covered⟩ := unaryOp?_covers found
    have behind := order.suffix covered.suffix
    refine ((unary_reads op.rest behind).mono covered.suffix).bind fun operand read inner => ?_
    have whole : Occupies ts (.unary ((frontSpan ts).merge operand.value.span) op.value
        operand.value) operand.rest :=
      occupies_front order covered (unary_occupies op.rest behind operand read) rfl rfl rfl
    exact .pure (whole.sited_plain order rfl rfl
      (List.forall_mem_singleton.mpr (inner.mono covered.suffix)))
  · split
    · next type found =>
      have := type.bound
      obtain ⟨mark, covered⟩ := castHead?_covers order found
      have behind := order.suffix covered.suffix
      refine ((unary_reads type.rest behind).mono covered.suffix).bind fun operand read inner => ?_
      exact .pure (sited_cast order found (unary_occupies type.rest behind operand read) inner)
    · refine (primary_reads ts order).bind fun target read inner => ?_
      have := target.bound
      have first := primary_occupies ts order target read
      refine ((suffixes_reads target.value target.rest ts order first inner).mono
        first.covers.suffix).bind fun whole _ sited => ?_
      exact .pure sited
termination_by 8 * ts.length + 3

/-- Suffixes behind a target that was read from `all`. -/
theorem suffixes_reads (target : Expr) (ts all : List Token) (order : InOrder all)
    (first : Occupies all target ts) (inner : Sited all target) :
    Reads ts (fun s : Step Expr 0 ts => Sited all s.value) (suffixes target ts) := by
  have behind := order.suffix first.covers.suffix
  rw [suffixes]
  split
  · next dot found =>
    have := dot.bound
    have pointed := accept?_covers found
    refine ((simpleName_reads (behind.suffix pointed.suffix)).mono pointed.suffix).bind
      fun name _ named => ?_
    have := name.bound
    have whole := occupies_member order first pointed named
      (n := ⟨⟨name.value.node.1, name.value.node.2⟩, name.value.span⟩)
    refine Outcome.bind ((suffixes_reads _ name.rest all order whole
      (sited_member order first pointed named inner)).mono
        (named.suffix.trans pointed.suffix)) fun rest _ done => ?_
    exact .pure done
  · split
    · next opening found =>
      have := opening.bound
      have opened := accept?_covers found
      have inside := behind.suffix opened.suffix
      refine ((arguments_reads .rparen opening.rest inside).mono opened.suffix).bind
        fun args read parts => ?_
      have := args.bound
      have listed := arguments_listed _ opening.rest inside args read
      obtain ⟨shut, closes, covered⟩ := listed.closes
      have whole : Occupies all
          (.invoke (target.span.merge args.value.2) target args.value.1) args.rest :=
        occupies_applied order first opened listed rfl rfl rfl
      have sited := sited_applied order whole rfl rfl rfl inner
        (opened.suffix.trans first.covers.suffix) parts
      refine ((suffixes_reads _ args.rest all order whole sited).mono
        (covered.suffix.trans (closes.trans opened.suffix))).bind fun rest _ done => ?_
      exact .pure done
    · split
      · next opening found =>
        have := opening.bound
        have opened := accept?_covers found
        have inside := behind.suffix opened.suffix
        refine ((arguments_reads .rbracket opening.rest inside).mono opened.suffix).bind
          fun args read parts => ?_
        have := args.bound
        have listed := arguments_listed _ opening.rest inside args read
        obtain ⟨shut, closes, covered⟩ := listed.closes
        have whole : Occupies all
            (.index (target.span.merge args.value.2) target args.value.1) args.rest :=
          occupies_applied order first opened listed rfl rfl rfl
        have sited := sited_applied order whole rfl rfl rfl inner
          (opened.suffix.trans first.covers.suffix) parts
        refine ((suffixes_reads _ args.rest all order whole sited).mono
          (covered.suffix.trans (closes.trans opened.suffix))).bind fun rest _ done => ?_
        exact .pure done
      · exact .pure inner
termination_by 8 * ts.length

theorem arguments_reads (close : Punct) (ts : List Token) (order : InOrder ts) :
    Reads ts (fun s : Step (List Expr × Span) 1 ts => ∀ e ∈ s.value.1, Sited ts e)
      (arguments close ts) := by
  rw [arguments]
  split
  · exact .pure (List.forall_mem_nil _)
  · exact argumentList_reads close ts order
termination_by 8 * ts.length + 7

theorem argumentList_reads (close : Punct) (ts : List Token) (order : InOrder ts) :
    Reads ts (fun s : Step (List Expr × Span) 1 ts => ∀ e ∈ s.value.1, Sited ts e)
      (argumentList close ts) := by
  rw [argumentList]
  refine (expression_reads ts order).bind fun first read inner => ?_
  have head := expression_occupies ts order first read
  have := first.bound
  split
  · exact .pure (List.forall_mem_singleton.mpr inner)
  · refine ((expect_reads .comma .argumentSeparator first.rest).mono head.covers.suffix).bind
      fun comma _ separated => ?_
    have := comma.bound
    have within := separated.suffix.trans head.covers.suffix
    refine ((argumentList_reads close comma.rest (order.suffix within)).mono within).bind
      fun more _ others => ?_
    exact .pure (List.forall_mem_cons.mpr ⟨inner, fun e mem => (others e mem).mono within⟩)
termination_by 8 * ts.length + 6

theorem primary_reads (ts : List Token) (order : InOrder ts) :
    Reads ts (fun s : Step Expr 1 ts => Sited ts s.value) (primary ts) := by
  rw [primary.eq_def]
  split
  · next atom found => exact .pure (atom?_sited order found)
  · split
    · next start rest _ _ =>
      have begun : Covers (⟨.keyword .new, start⟩ :: rest) start rest := .token (by simp)
      have behind := order.suffix begun.suffix
      refine ((typeRef_reads rest behind).mono begun.suffix).bind fun type _ typed => ?_
      have := type.bound
      refine ((expect_reads .lparen .argumentsAfterType type.rest).mono
        (typed.suffix.trans begun.suffix)).bind fun opening _ opened => ?_
      have := opening.bound
      have within := opened.suffix.trans (typed.suffix.trans begun.suffix)
      refine ((arguments_reads .rparen opening.rest (order.suffix within)).mono within).bind
        fun args read parts => ?_
      have listed := arguments_listed _ opening.rest (order.suffix within) args read
      exact .pure (sited_new order begun typed opened.suffix listed parts)
    · next start rest _ _ =>
      have begun : Covers (⟨.punct .lparen, start⟩ :: rest) start rest := .token (by simp)
      have behind := order.suffix begun.suffix
      refine ((expression_reads rest behind).mono begun.suffix).bind fun inner read sited => ?_
      have whole := expression_occupies rest behind inner read
      refine ((expect_reads .rparen .closingParen inner.rest).mono
        (whole.covers.suffix.trans begun.suffix)).bind fun closing _ closed => ?_
      exact .pure ((occupies_paren order begun whole closed).sited_plain order rfl rfl
        (List.forall_mem_singleton.mpr (sited.mono begun.suffix)))
    · exact nameExpr_reads order
    · exact .unexpected .expression
termination_by 8 * ts.length + 2
decreasing_by all_goals subst_vars; simp only [List.length_cons]; omega

end

/-! ### Nodes have spans of their own -/

theorem Span.eq_of_contains {a b : Span} (ab : a.contains b = true) (ba : b.contains a = true) :
    a = b := by
  obtain ⟨aStart, aStop⟩ := a
  obtain ⟨bStart, bStop⟩ := b
  rw [Span.contains_iff] at ab ba
  dsimp only at ab ba
  rw [Nat.le_antisymm ab.1 ba.1, Nat.le_antisymm ba.2 ab.2]

theorem Expr.Placed.nodup_spans (placed : e.Placed) : (e.nodes.map span).Nodup := by
  induction e using inductionOnParts with
  | node e ih =>
    obtain ⟨well, parts⟩ := placed_iff.mp placed
    rw [nodes_eq, List.map_cons, List.nodup_cons, List.map_flatMap, List.nodup_flatMap]
    refine ⟨?own, fun c part => ih c part (parts c part), ?apart⟩
    case own =>
      intro mem
      obtain ⟨c, part, mem⟩ := List.mem_flatMap.mp mem
      obtain ⟨n, node, same⟩ := List.mem_map.mp mem
      have inside := (parts c part).nested.contains ⟨n, node, same⟩
      obtain ⟨holds, ne⟩ := well.holds c part
      exact ne (Span.eq_of_contains inside holds)
    case apart =>
      refine well.inOrder.imp_of_mem fun {c d} partC partD gap s inC inD => ?_
      obtain ⟨n, node, rfl⟩ := List.mem_map.mp inC
      obtain ⟨m, other, same⟩ := List.mem_map.mp inD
      have before := Span.contains_iff.mp ((parts c partC).nested.contains ⟨n, node, rfl⟩)
      have behind := Span.contains_iff.mp ((parts d partD).nested.contains ⟨m, other, same⟩)
      have forward := (parts c partC n node).forward
      omega

/-! ### Whole texts -/

variable {text : String}

/-- A span that begins and ends with tokens of a text fits the text. -/
theorem Anchored.fits (tokens : ∀ t ∈ ts, t.span.Fits text) (anchored : Anchored ts a) :
    a.Fits text := by
  obtain ⟨forward, ⟨t, first, starts⟩, ⟨u, last, stops⟩⟩ := anchored
  refine ⟨Nat.le_of_lt forward, ?_, ?_, ?_⟩
  · rw [stops]
    exact (tokens u last).within
  · rw [starts]
    exact (tokens t first).starts
  · rw [stops]
    exact (tokens u last).stops

theorem AtToken.fits {error : SyntaxError} (tokens : ∀ t ∈ ts, t.span.Fits text)
    (place : AtToken ts error) : error.span.Fits text := by
  obtain ⟨us, sub, same⟩ := place
  rw [same]
  cases us with
  | nil => exact Span.fits_zero text
  | cons t us => exact tokens t (sub.subset List.mem_cons_self)

/-- The spans of an expression: ranges of the text on the boundaries of its characters; the parts of
a node, types and parameters and names among them, strictly within the node and one behind the
other; and no two nodes with the same span. -/
structure Expr.WellSpanned (text : String) (e : Expr) : Prop where
  fits : ∀ n ∈ e.nodes, ∀ s ∈ n.span :: n.partSpans, s.Fits text
  arranged : ∀ n ∈ e.nodes, Arranged n.span n.partSpans
  distinct : (e.nodes.map span).Nodup

theorem Sited.wellSpanned (tokens : ∀ t ∈ ts, t.span.Fits text) (placed : e.Placed)
    (sited : Sited ts e) : e.WellSpanned text where
  fits n mem s part := ((sited n mem).2 s part).fits tokens
  arranged n mem := (sited n mem).1
  distinct := placed.nodup_spans

namespace Statement

/-- The spans of the two sides of an assignment. -/
def partSpans : Statement → List Span
  | assign _ target value => [target.span, value.span]
  | expr _ => []

/-- The spans of a statement: those of its expression, and around them those of an assignment and of
its target. -/
structure WellSpanned (text : String) (u : Statement) : Prop where
  value : u.value.WellSpanned text
  fits : ∀ s ∈ u.span :: u.partSpans, s.Fits text
  arranged : Arranged u.span u.partSpans

end Statement

theorem statement_reads (order : InOrder ts) (tokens : ∀ t ∈ ts, t.span.Fits text) :
    Reads ts (fun s : Step Statement 1 ts => s.value.WellSpanned text) (statement ts) := by
  unfold statement
  split
  · next head found =>
    have within := assignmentHead?_suffix found
    have behind := order.suffix within
    refine ((expression_reads head.rest behind).mono within).bind fun value read inner => .pure ?_
    have whole := expression_occupies head.rest behind value read
    have sub := assignmentHead?_sublist found
    have target : nameToken head.value ∈ ts := sub.subset List.mem_cons_self
    have starts : (frontSpan ts).start ≤ head.value.span.start := front_le_of_mem order target
    have room : head.value.span.start < head.value.span.stop := order.solid _ target nofun
    -- The value begins with the first token behind the target.
    have inFront : head.value.span.stop ≤ value.value.span.start := by
      obtain ⟨t, front, same⟩ := front_mem whole.covers.ne_nil
      rw [whole.covers.start_eq, same]
      exact (List.pairwise_cons.mp (order.apart.sublist sub)).1 t front
    have anchored := (whole.covers.front order within).anchored order
    have forward := whole.covers.forward behind
    refine ⟨(inner.mono within).wellSpanned tokens whole.placed, ?_, ?_, ?_⟩
    · refine List.forall_mem_cons.mpr ⟨anchored.fits tokens, List.forall_mem_cons.mpr ⟨?_, ?_⟩⟩
      · exact tokens _ target
      · exact List.forall_mem_singleton.mpr ((inner.mono within).anchored.fits tokens)
    · refine List.forall_mem_cons.mpr ⟨?_, List.forall_mem_singleton.mpr ?_⟩
      · refine Span.holds_of_stop_lt ?_ ?_ <;> simp only [Statement.span, Span.merge] <;> omega
      · exact Span.holds_behind (by omega) (by omega) (Nat.le_refl _)
    · exact List.pairwise_pair.mpr inFront
  · refine (expression_reads ts order).bind fun value read inner => .pure ?_
    have placed := (expression_occupies ts order value read).placed
    exact ⟨inner.wellSpanned tokens placed,
      List.forall_mem_singleton.mpr (inner.anchored.fits tokens), List.forall_mem_nil _, .nil⟩

theorem statement_suffix (order : InOrder ts) {s : Step Statement 1 ts}
    (h : statement ts = .ok s) : s.rest <:+ ts := by
  obtain ⟨head, found, value, read, -, rest⟩ | ⟨-, value, read, -, rest⟩ := statement_cases h
  · have within := assignmentHead?_suffix found
    rw [rest]
    exact (expression_occupies _ (order.suffix within) value read).covers.suffix.trans within
  · rw [rest]
    exact (expression_occupies ts order value read).covers.suffix

theorem expectEnd_reads (ts : List Token) : Reads ts (fun _ => True) (expectEnd ts) := by
  unfold expectEnd
  simp only
  split
  · exact .pure trivial
  · refine .mono (.unexpected .endOfInput) ?_
    cases found : accept? .semicolon ts with
    | none => exact List.suffix_refl _
    | some mark => exact (accept?_covers found).suffix

/-- What is read from a whole text has the property that its parser reads, and errors stand at
tokens, or where the lexer finds none. -/
theorem parseAll_reads {α : Type} {parser : (ts : List Token) → Parsed α 1 ts} {P : α → Prop}
    (suffix : ∀ ts, InOrder ts → ∀ s, parser ts = .ok s → s.rest <:+ ts)
    (reads : ∀ ts, InOrder ts → (∀ t ∈ ts, t.span.Fits text) →
      Reads ts (fun s : Step α 1 ts => P s.value) (parser ts)) :
    WellRead text P (parseAll parser text) := by
  refine (fits_of_lex text).bind fun ts lexed tokens => ?_
  have order := inOrder_of_lex lexed
  have fits : ∀ e, AtToken ts e → e.span.Fits text := fun _ => AtToken.fits tokens
  refine ((reads ts order tokens).imp fits).bind fun s read holds => ?_
  have ended := (expectEnd_reads s.rest).mono (suffix ts order s read)
  exact (ended.imp fits).bind fun _ _ _ => .pure holds

/-- The spans of tokens, expressions, statements and types of a text, and of the errors in it. -/
theorem spans_wellFormed (text : String) :
    WellRead text (fun ts => ∀ t ∈ ts, t.span.Fits text) (lex text) ∧
      WellRead text (Expr.WellSpanned text) (parseExpr text) ∧
      WellRead text (Statement.WellSpanned text) (parseStatement text) ∧
      WellRead text (fun type => type.span.Fits text) (parseAll typeRef text) ∧
      ∀ e, parseType text = .error e → e.span.Fits text := by
  have types : WellRead text (fun type : Located TypeRef => type.span.Fits text)
      (parseAll typeRef text) := by
    refine parseAll_reads (fun ts order s read => (typeRef_covers ts order s read).suffix) ?_
    intro ts order tokens
    have reads := typeRef_reads ts order
    exact ⟨fun s read => ((reads.ok s read).anchored order).fits tokens, reads.error⟩
  have nodes : WellRead text (fun _ => True) (parseType text) :=
    types.bind fun _ _ _ => .pure trivial
  refine ⟨fits_of_lex text, ?_, ?_, types, nodes.error⟩
  · refine parseAll_reads (fun ts order s read => ?_) fun ts order tokens => ?_
    · exact (expression_occupies ts order s read).covers.suffix
    · have reads := expression_reads ts order
      refine ⟨fun s read => ?_, reads.error⟩
      exact (reads.ok s read).wellSpanned tokens (expression_occupies ts order s read).placed
  · exact parseAll_reads (fun ts order s read => statement_suffix order read)
      fun ts order tokens => statement_reads order tokens

end Marksmith.Syntax

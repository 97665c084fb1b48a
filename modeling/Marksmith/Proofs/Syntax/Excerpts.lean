import Marksmith.Proofs.Syntax.Adequacy
import Marksmith.Proofs.Syntax.Reprint

/-!
Reading on lexemes that are cut off.

* `TypeAt.again`, `ArgsAt.again`, `CastAt.again`, `lambdaOf_again`: types, type arguments and the
  heads of casts and lambdas are read alike whatever stands behind them, if it ends them;
* `cutOff`: lexemes without the last ones, and the end of the text instead;
* `Derives.shortened`: a phrase is read alike if what stands behind it is cut off, with one proviso.
  If the last lexeme that is left closes type arguments, what stood behind it must end type arguments
  (`ClosesWell`); behind a comparison, the end of the text would turn its operands into them.
-/

namespace Marksmith.Syntax

open TypeRef (pairs pairs_succ tail joined exists_tail exists_pairs segmentsOf_tail ranksOf_pairs
  EndsType endsType_punct)

/-! ### Whatever stands behind -/

theorem peek_append_ne {p : Punct} {c behind behind' : List Lexeme}
    (stop : peek behind' ≠ .punct p) :
    peek (c ++ behind') = peek (c ++ behind) ∨ peek (c ++ behind') ≠ .punct p := by
  cases c with
  | nil => exact .inr stop
  | cons l c => exact .inl rfl

theorem aliased_again {x : String} {ls more : List Lexeme} (h : aliased ls = .ident x :: more) :
    ∃ c, ls = c ++ .ident x :: more ∧ ∀ more',
      peek more' = peek more ∨ peek more' ≠ .punct .colonColon →
      aliased (c ++ .ident x :: more') = .ident x :: more' := by
  unfold aliased at h
  split at h
  · next behind =>
    subst h
    exact ⟨[.ident "global", .punct .colonColon], rfl, fun _ _ => rfl⟩
  · next other =>
    subst h
    refine ⟨[], rfl, ?_⟩
    intro more' same
    by_cases mark : peek more' = .punct .colonColon
    · rcases same with same | stop
      · rw [same] at mark
        obtain ⟨behind, rfl⟩ := peek_eq_punct mark
        rw [List.nil_append, aliased.eq_def]
        split
        · next eq =>
          cases eq
          exact absurd rfl (other _)
        · rfl
      · exact absurd mark stop
    · exact aliased_of_peek mark

/-- The marks behind a type are read again, and they are no marks that could belong to its name. -/
theorem suffixOf_again {name : String} {args : List TypeRef} {t : TypeRef}
    {ls rest : List Lexeme} (h : suffixOf name args ls = (t, rest)) :
    ∃ c, ls = c ++ rest ∧ ∀ rest', EndsType rest' →
      suffixOf name args (c ++ rest') = (t, rest') ∧
      ∀ p ∈ [Punct.dot, .lt, .colonColon], peek (c ++ rest') ≠ .punct p := by
  have ranks : ∀ ls : List Lexeme, ∃ n, ls = pairs n ++ (ranksOf 0 ls).2 ∧
      ∀ rest', EndsType rest' → ranksOf 0 (pairs n ++ rest') = ((ranksOf 0 ls).1, rest') := by
    intro ls
    obtain ⟨n, split, rank, -⟩ :=
      exists_pairs (m := 0) (rfl : ranksOf (TypeRef.saturated 0) ls = (_, _))
    refine ⟨n, split, ?_⟩
    intro rest' ends
    have again := ranksOf_pairs 0 n rest'
    rw [ranksOf_of_peek (ends .lbracket (by decide)), ← rank] at again
    exact again
  by_cases marked : peek ls = .punct .question
  · obtain ⟨more, rfl⟩ := peek_eq_punct marked
    rw [suffixOf] at h
    obtain ⟨n, split, again⟩ := ranks more
    cases h
    refine ⟨.punct .question :: pairs n, congrArg _ split, ?_⟩
    intro rest' ends
    refine ⟨?_, fun p mem => ?_⟩
    · rw [List.cons_append, suffixOf, again rest' ends]
    · rintro ⟨⟩
      exact absurd mem (by decide)
  · rw [suffixOf_of_peek marked] at h
    obtain ⟨n, split, again⟩ := ranks ls
    cases h
    refine ⟨pairs n, split, ?_⟩
    intro rest' ends
    have front : ∀ p ≠ Punct.lbracket, p ∈ [Punct.dot, .lt, .question, .colonColon] →
        peek (pairs n ++ rest') ≠ .punct p := by
      intro p other mem
      cases n with
      | zero => exact ends p (by simp at mem ⊢; tauto)
      | succ n =>
        rw [pairs_succ]
        simpa using Ne.symm other
    refine ⟨?_, fun p mem => ?_⟩
    · rw [suffixOf_of_peek (front .question (by decide) (by decide)), again rest' ends]
    · refine front p ?_ (by simp at mem ⊢; tauto)
      rintro rfl
      exact absurd mem (by decide)

theorem typeAt_and_typesAt_again :
    (∀ {ls t rest}, TypeAt ls t rest → ∃ c, ls = c ++ rest ∧
      ∀ rest', EndsType rest' → TypeAt (c ++ rest') t rest') ∧
    ∀ {ls ts rest}, TypesAt ls ts rest → ∃ c, ls = c ++ rest ∧
      ∀ rest', EndsType rest' → peek rest' ≠ .punct .comma → TypesAt (c ++ rest') ts rest' := by
  refine TypeAt.induct ?plain ?generic ?last ?more
  case plain =>
    intro ls behind rest more x name t head dotted _ marks
    obtain ⟨c, rfl, alike⟩ := aliased_again head
    obtain ⟨segments, rfl, rfl⟩ := exists_tail dotted
    obtain ⟨d, rfl, again⟩ := suffixOf_again marks
    refine ⟨c ++ .ident x :: (tail segments ++ d), by simp, ?_⟩
    intro rest' ends
    obtain ⟨marks', fronts⟩ := again rest' ends
    simp only [List.append_assoc, List.cons_append]
    refine .plain (alike _ ?_) ?_ (fronts .lt (by decide)) marks'
    · rw [← List.append_assoc, ← List.append_assoc]
      exact peek_append_ne (ends .colonColon (by decide))
    · rw [segmentsOf_tail]
      exact segmentsOf_of_peek (fronts .dot (by decide))
  case generic =>
    intro ls inner behind rest more x name args t head dotted _ marks ih
    obtain ⟨c, rfl, alike⟩ := aliased_again head
    obtain ⟨segments, rfl, rfl⟩ := exists_tail dotted
    obtain ⟨listed, rfl, againList⟩ := ih
    obtain ⟨d, rfl, again⟩ := suffixOf_again marks
    refine ⟨c ++ .ident x :: (tail segments ++ .punct .lt :: (listed ++ .punct .gt :: d)),
      by simp, ?_⟩
    intro rest' ends
    simp only [List.append_assoc, List.cons_append]
    refine .generic (alike _ ?_) ?_ (againList _ (endsType_punct (by decide)) (by simp))
      (again rest' ends).1
    · cases segments with
      | nil => exact .inl rfl
      | cons s segments => exact .inl rfl
    · rw [segmentsOf_tail]
      exact segmentsOf_of_peek (by simp)
  case last =>
    intro ls rest t _ _ ih
    obtain ⟨c, rfl, again⟩ := ih
    refine ⟨c, rfl, ?_⟩
    intro rest' ends stop
    exact .last (again rest' ends) stop
  case more =>
    intro ls behind rest t ts _ _ ih ihMore
    obtain ⟨c, rfl, again⟩ := ih
    obtain ⟨d, rfl, againMore⟩ := ihMore
    refine ⟨c ++ .punct .comma :: d, by simp, ?_⟩
    intro rest' ends stop
    simp only [List.append_assoc, List.cons_append]
    exact .more (again _ (endsType_punct (by decide))) (againMore rest' ends stop)

/-- A type is read again, whatever stands behind it that ends a type. -/
theorem TypeAt.again {ls rest : List Lexeme} {t : TypeRef} (h : TypeAt ls t rest) :
    ∃ c, ls = c ++ rest ∧ ∀ rest', EndsType rest' → TypeAt (c ++ rest') t rest' :=
  typeAt_and_typesAt_again.1 h

theorem ArgsAt.again {ls rest : List Lexeme} {args : List TypeRef} (h : ArgsAt ls args rest) :
    ∃ c, ls = c ++ .punct .gt :: rest ∧ ∀ rest', endsTypeArgs (peek rest') = true →
      ArgsAt (c ++ .punct .gt :: rest') args rest' := by
  obtain ⟨inner, rfl, listed, -⟩ := h
  obtain ⟨c, rfl, again⟩ := typeAt_and_typesAt_again.2 listed
  refine ⟨.punct .lt :: c, rfl, ?_⟩
  intro rest' ends
  exact ⟨_, rfl, again _ (endsType_punct (by decide)) (by simp), ends⟩

theorem CastAt.again {ls rest : List Lexeme} {t : TypeRef} (h : CastAt ls t rest) :
    ∃ c, ls = c ++ .punct .rparen :: rest ∧ ∀ rest', beginsOperand (peek rest') = true →
      CastAt (c ++ .punct .rparen :: rest') t rest' := by
  obtain ⟨inner, rfl, type, -⟩ := h
  obtain ⟨c, rfl, again⟩ := type.again
  refine ⟨.punct .lparen :: c, rfl, ?_⟩
  intro rest' begins
  exact ⟨_, rfl, again _ (endsType_punct (by decide)), begins⟩

theorem lambdaOf_again {ls inner : List Lexeme} {xs : List String}
    (h : lambdaOf ls = some (xs, inner)) :
    ∃ c, ls = c ++ .punct .arrow :: inner ∧
      ∀ inner', lambdaOf (c ++ .punct .arrow :: inner') = some (xs, inner') := by
  unfold lambdaOf at h
  split at h
  · next x behind =>
    cases h
    exact ⟨[.ident x], rfl, fun _ => rfl⟩
  · cases h
    exact ⟨[.punct .lparen, .punct .rparen], rfl, fun _ => rfl⟩
  · split at h
    · next params =>
      cases h
      obtain ⟨nonempty, rfl⟩ := paramsOf_eq params
      refine ⟨.punct .lparen :: (Expr.paramLexemes xs ++ [.punct .rparen]), by simp, ?_⟩
      intro inner'
      have read := paramsOf_lexemes nonempty (.punct .arrow :: inner')
      simp only [List.append_assoc, List.cons_append, List.nil_append]
      match xs, nonempty with
      | [x], _ => rfl
      | x :: y :: ys, _ =>
        rw [Expr.paramLexemes] at read ⊢
        simp only [List.cons_append] at read ⊢
        rw [lambdaOf, read]
        simp
    · cases h
  · cases h

/-! ### Lexemes that are cut off -/

/-- Lexemes without the last `m` of them, and the end of the text. -/
def cutOff (m : Nat) (ls : List Lexeme) : List Lexeme := ls.take (ls.length - m) ++ [.eof]

variable {m : Nat} {ls rest : List Lexeme}

theorem cutOff_of_le (few : ls.length ≤ m) : cutOff m ls = [.eof] := by
  rw [cutOff, Nat.sub_eq_zero_of_le few]
  rfl

theorem cutOff_cons (l : Lexeme) (kept : m ≤ ls.length) :
    cutOff m (l :: ls) = l :: cutOff m ls := by
  rw [cutOff, cutOff, List.length_cons, Nat.succ_sub kept]
  rfl

theorem cutOff_append (c : List Lexeme) (kept : m ≤ rest.length) :
    cutOff m (c ++ rest) = c ++ cutOff m rest := by
  induction c with
  | nil => rfl
  | cons l c ih =>
    have kept' : m ≤ (c ++ rest).length := by
      rw [List.length_append]
      omega
    rw [List.cons_append, cutOff_cons l kept', ih]
    rfl

/-- A lexeme that is left was there, with the same lexemes in front of it. -/
theorem exists_of_cutOff_eq {c us : List Lexeme} {l : Lexeme} (h : cutOff m ls = c ++ l :: us)
    (some : l ≠ .eof) : ∃ rest, ls = c ++ l :: rest ∧ us = cutOff m rest ∧ m ≤ rest.length := by
  induction c generalizing ls with
  | nil =>
    by_cases few : ls.length ≤ m
    · rw [cutOff_of_le few] at h
      cases h
      exact absurd rfl some
    · cases ls with
      | nil => exact absurd (Nat.zero_le m) few
      | cons k ls =>
        rw [List.length_cons] at few
        rw [cutOff_cons k (by omega)] at h
        cases h
        exact ⟨ls, rfl, rfl, by omega⟩
  | cons k c ih =>
    by_cases few : ls.length ≤ m
    · rw [cutOff_of_le few] at h
      simp at h
    · cases ls with
      | nil => exact absurd (Nat.zero_le m) few
      | cons k' ls =>
        rw [List.length_cons] at few
        rw [cutOff_cons k' (by omega), List.cons_append] at h
        obtain ⟨rfl, h'⟩ := List.cons.inj h
        obtain ⟨rest, rfl, same, kept⟩ := ih h'
        exact ⟨rest, rfl, same, kept⟩

theorem peek_cutOff (m : Nat) (ls : List Lexeme) :
    peek (cutOff m ls) = peek ls ∨ ls.length ≤ m ∧ peek (cutOff m ls) = .eof := by
  by_cases few : ls.length ≤ m
  · rw [cutOff_of_le few]
    exact .inr ⟨few, rfl⟩
  · cases ls with
    | nil => exact absurd (Nat.zero_le m) few
    | cons l ls =>
      rw [List.length_cons] at few
      rw [cutOff_cons l (by omega)]
      exact .inl rfl

theorem peek_of_cutOff {p : Punct} (front : peek (cutOff m ls) = .punct p) :
    peek ls = .punct p := by
  rcases peek_cutOff m ls with same | ⟨_, ends⟩
  · rw [← same]
    exact front
  · rw [ends] at front
    cases front

/-- If type arguments are closed right before the last `m` lexemes, these end type arguments. -/
def ClosesWell (m : Nat) (ls : List Lexeme) : Prop :=
  ∀ c rest, ls = c ++ .punct .gt :: rest → rest.length = m → endsTypeArgs (peek rest) = true

theorem ClosesWell.suffix {us : List Lexeme} (closes : ClosesWell m ls) (sub : us <:+ ls) :
    ClosesWell m us := by
  obtain ⟨front, rfl⟩ := sub
  rintro c rest rfl left
  exact closes (front ++ c) rest (List.append_assoc _ _ _).symm left

/-! ### Heads that are cut off -/

theorem TypeAt.shortened {p : Punct} {t : TypeRef} (h : TypeAt ls t (.punct p :: rest))
    (kept : m ≤ rest.length) (ends : p ∉ [Punct.dot, .lt, .question, .lbracket, .colonColon]) :
    TypeAt (cutOff m ls) t (.punct p :: cutOff m rest) := by
  obtain ⟨c, rfl, again⟩ := h.again
  rw [cutOff_append c (Nat.le_succ_of_le kept), cutOff_cons _ kept]
  exact again _ (endsType_punct ends)

theorem endsTypeArgs_cutOff (ends : endsTypeArgs (peek rest) = true) :
    endsTypeArgs (peek (cutOff m rest)) = true := by
  rcases peek_cutOff m rest with same | ⟨_, stop⟩
  · rw [same]
    exact ends
  · rw [stop]
    rfl

theorem ArgsAt.shortened {args : List TypeRef} (h : ArgsAt ls args rest) (kept : m ≤ rest.length) :
    ArgsAt (cutOff m ls) args (cutOff m rest) := by
  have ends : endsTypeArgs (peek rest) = true := by
    obtain ⟨_, _, _, ends⟩ := h
    exact ends
  obtain ⟨c, rfl, again⟩ := h.again
  rw [cutOff_append c (Nat.le_succ_of_le kept), cutOff_cons _ kept]
  exact again _ (endsTypeArgs_cutOff ends)

/-- Where type arguments are read before the cut, they were read without it. -/
theorem ArgsAt.of_shortened {args : List TypeRef} {behind : List Lexeme}
    (h : ArgsAt (cutOff m ls) args behind) (closes : ClosesWell m ls) :
    ∃ rest, ArgsAt ls args rest := by
  have ends : endsTypeArgs (peek behind) = true := by
    obtain ⟨_, _, _, ends⟩ := h
    exact ends
  obtain ⟨c, split, again⟩ := h.again
  obtain ⟨rest, rfl, rfl, kept⟩ := exists_of_cutOff_eq split (by simp)
  refine ⟨rest, again rest ?_⟩
  rcases peek_cutOff m rest with same | ⟨few, _⟩
  · rw [← same]
    exact ends
  · exact closes c rest rfl (by omega)

theorem CastAt.shortened {t : TypeRef} (h : CastAt ls t rest) (kept : m < rest.length) :
    CastAt (cutOff m ls) t (cutOff m rest) := by
  have begins : beginsOperand (peek rest) = true := by
    obtain ⟨_, _, _, begins⟩ := h
    exact begins
  obtain ⟨c, rfl, again⟩ := h.again
  rw [cutOff_append c (by rw [List.length_cons]; omega), cutOff_cons _ (by omega)]
  refine again _ ?_
  rcases peek_cutOff m rest with same | ⟨few, _⟩
  · rw [same]
    exact begins
  · exact absurd kept (by omega)

theorem CastAt.of_shortened {t : TypeRef} {behind : List Lexeme}
    (h : CastAt (cutOff m ls) t behind) : ∃ rest, CastAt ls t rest := by
  have begins : beginsOperand (peek behind) = true := by
    obtain ⟨_, _, _, begins⟩ := h
    exact begins
  obtain ⟨c, split, again⟩ := h.again
  obtain ⟨rest, rfl, rfl, -⟩ := exists_of_cutOff_eq split (by simp)
  refine ⟨rest, again rest ?_⟩
  rcases peek_cutOff m rest with same | ⟨_, stop⟩
  · rw [← same]
    exact begins
  · rw [stop] at begins
    cases begins

theorem NameAt.shortened {n : SimpleName} (h : NameAt ls n rest) (kept : m ≤ rest.length)
    (closes : ClosesWell m ls) : NameAt (cutOff m ls) n (cutOff m rest) := by
  cases h with
  | bare none =>
    rw [cutOff_cons _ kept]
    refine .bare ?_
    rintro ⟨args, behind, some⟩
    obtain ⟨rest', some'⟩ := some.of_shortened (closes.suffix (List.suffix_cons _ _))
    exact none ⟨args, rest', some'⟩
  | generic some =>
    rw [cutOff_cons _ (Nat.le_trans kept some.suffix.length_le)]
    exact .generic (some.shortened kept)

theorem aliased_cutOff {x : String} {more : List Lexeme} (h : aliased ls = .ident x :: more)
    (kept : m ≤ more.length) : aliased (cutOff m ls) = cutOff m (aliased ls) := by
  obtain ⟨c, rfl, again⟩ := aliased_again h
  rw [h, cutOff_append c (Nat.le_succ_of_le kept), cutOff_cons _ kept]
  refine again _ ?_
  rcases peek_cutOff m more with same | ⟨_, stop⟩
  · exact .inl same
  · rw [stop]
    exact .inr (by simp)

theorem NameAt.shortened_aliased {n : SimpleName} (h : NameAt (aliased ls) n rest)
    (kept : m ≤ rest.length) (closes : ClosesWell m ls) :
    NameAt (aliased (cutOff m ls)) n (cutOff m rest) := by
  obtain ⟨x, more, front⟩ := h.front
  have more_le : rest.length ≤ more.length := by
    rw [front] at h
    cases h with
    | bare => exact Nat.le_refl _
    | generic some => exact some.suffix.length_le
  rw [aliased_cutOff front (by omega)]
  exact h.shortened kept (closes.suffix (aliased_suffix ls))

theorem lambdaOf_cutOff {inner : List Lexeme} {xs : List String}
    (h : lambdaOf ls = some (xs, inner)) (kept : m ≤ inner.length) :
    lambdaOf (cutOff m ls) = some (xs, cutOff m inner) := by
  obtain ⟨c, rfl, again⟩ := lambdaOf_again h
  rw [cutOff_append c (Nat.le_succ_of_le kept), cutOff_cons _ kept]
  exact again _

theorem lambdaOf_cutOff_eq_none (h : lambdaOf ls = none) : lambdaOf (cutOff m ls) = none := by
  cases found : lambdaOf (cutOff m ls) with
  | none => rfl
  | some head =>
    obtain ⟨xs, inner⟩ := head
    obtain ⟨c, split, again⟩ := lambdaOf_again found
    obtain ⟨rest, rfl, -, -⟩ := exists_of_cutOff_eq split (by simp)
    rw [again rest] at h
    cases h

/-! ### Phrases that are cut off -/

theorem exists_lexemes (ls : List Lexeme) : ∃ ts, lexemes ts = ls := by
  refine ⟨ls.map fun l => ⟨l, .zero⟩, ?_⟩
  rw [lexemes, List.map_map]
  exact List.map_id ls

/-- An operand takes a lexeme at least. -/
theorem Derives.length_lt_unary {e : Expr} (h : Derives (.unary e) ls rest) :
    rest.length < ls.length := by
  obtain ⟨ts, rfl⟩ := exists_lexemes ls
  obtain ⟨s, -, -, left⟩ := isParsed_of_derives h ts rfl
  rw [← left, lexemes, lexemes, List.length_map, List.length_map]
  exact s.bound

/-- A phrase is read alike if what stands behind it is cut off. -/
theorem Derives.shortened {phrase : Phrase} (h : Derives phrase ls rest) (kept : m ≤ rest.length)
    (closes : ClosesWell m ls) : Derives phrase (cutOff m ls) (cutOff m rest) := by
  induction h with
  | lambda head tail ih =>
    have kept' := Nat.le_trans kept tail.suffix.length_le
    exact .lambda (lambdaOf_cutOff head kept') (ih kept (closes.suffix (lambdaOf_suffix head)))
  | operation plain _ ih => exact .operation (lambdaOf_cutOff_eq_none plain) (ih kept closes)
  | chain first others ihFirst ihOthers =>
    have kept' := Nat.le_trans kept others.suffix.length_le
    exact .chain (ihFirst kept' closes) (ihOthers kept (closes.suffix first.suffix))
  | stop loose => exact .stop fun op front => loose op (peek_of_cutOff front)
  | step tight operand others ihRight ihOthers =>
    have kept' := Nat.le_trans kept others.suffix.length_le
    have inside := closes.suffix (List.suffix_cons _ _)
    rw [cutOff_cons _ (Nat.le_trans kept' operand.suffix.length_le)]
    exact .step tight (ihRight kept' inside) (ihOthers kept (inside.suffix operand.suffix))
  | mark tail ih =>
    rw [cutOff_cons _ (Nat.le_trans kept tail.suffix.length_le)]
    exact .mark (ih kept (closes.suffix (List.suffix_cons _ _)))
  | cast head tail ih =>
    exact .cast (head.shortened (Nat.lt_of_le_of_lt kept tail.length_lt_unary))
      (ih kept (closes.suffix head.suffix))
  | operand unmarked uncast first others ihFirst ihOthers =>
    have kept' := Nat.le_trans kept others.suffix.length_le
    refine .operand (fun op front => unmarked op (peek_of_cutOff front)) ?_
      (ihFirst kept' closes) (ihOthers kept (closes.suffix first.suffix))
    rintro ⟨t, inner, head⟩
    exact uncast ⟨t, head.of_shortened⟩
  | member name others ih =>
    have kept' := Nat.le_trans kept others.suffix.length_le
    have inside := closes.suffix (List.suffix_cons _ _)
    rw [cutOff_cons _ (Nat.le_trans kept' name.suffix.length_le)]
    exact .member (name.shortened kept' inside) (ih kept (inside.suffix name.suffix))
  | invoke listed others ihArgs ih =>
    have kept' := Nat.le_trans kept others.suffix.length_le
    have inside := closes.suffix (List.suffix_cons _ _)
    rw [cutOff_cons _ (Nat.le_trans kept' listed.suffix.length_le)]
    exact .invoke (ihArgs kept' inside) (ih kept (inside.suffix listed.suffix))
  | index listed others ihArgs ih =>
    have kept' := Nat.le_trans kept others.suffix.length_le
    have inside := closes.suffix (List.suffix_cons _ _)
    rw [cutOff_cons _ (Nat.le_trans kept' listed.suffix.length_le)]
    exact .index (ihArgs kept' inside) (ih kept (inside.suffix listed.suffix))
  | done other => exact .done fun p mem front => other p mem (peek_of_cutOff front)
  | noArguments =>
    rw [cutOff_cons _ kept]
    exact .noArguments
  | someArguments nonempty _ ih =>
    exact .someArguments (fun front => nonempty (peek_of_cutOff front)) (ih kept closes)
  | lastArgument _ ih =>
    have first := ih (Nat.le_succ_of_le kept) closes
    rw [cutOff_cons _ kept] at first
    exact .lastArgument first
  | moreArguments distinct first others ihFirst ihOthers =>
    have kept' := Nat.le_trans kept others.suffix.length_le
    have head := ihFirst (Nat.le_succ_of_le kept') closes
    rw [cutOff_cons _ kept'] at head
    have behind := (List.suffix_cons _ _).trans first.suffix
    exact .moreArguments distinct head (ihOthers kept (closes.suffix behind))
  | this =>
    rw [cutOff_cons _ kept]
    exact .this
  | literal read =>
    rw [cutOff_cons _ kept]
    exact .literal read
  | new type listed ih =>
    have kept' := Nat.le_trans kept listed.suffix.length_le
    have sub := (List.suffix_cons _ _).trans type.suffix
    rw [cutOff_cons _ (Nat.le_trans kept' sub.length_le)]
    exact .new (type.shortened kept' (by decide))
      (ih kept (closes.suffix (sub.trans (List.suffix_cons _ _))))
  | paren whole ih =>
    have inner := ih (Nat.le_succ_of_le kept) (closes.suffix (List.suffix_cons _ _))
    have sub := (List.suffix_cons _ _).trans whole.suffix
    rw [cutOff_cons _ kept] at inner
    rw [cutOff_cons _ (Nat.le_trans kept sub.length_le)]
    exact .paren inner
  | name read => exact .name (read.shortened_aliased kept closes)

end Marksmith.Syntax

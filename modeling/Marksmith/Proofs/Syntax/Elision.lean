import Marksmith.Proofs.Syntax.Lexemes
import Marksmith.Proofs.Syntax.Shape

/-!
What canonical text leaves out of the text that was read.

* `Elides`: lexemes from which alias qualifiers, the parentheses of a single lambda parameter,
  array suffixes beyond the greatest rank and the final semicolon may have been dropped;
* `Elides.peek_eq_punct_iff`: in the middle of an operand the same mark is next, so every decision by
  one lexeme is the same;
* `typeAt_and_typesAt_of_elides`: a type in the shortened lexemes is a type in the lexemes that were
  read, unless an arrow follows it; so `castAt_of_elides` and `argsAt_of_elides`: a speculation that
  failed on the lexemes that were read fails on the shortened ones;
* `TypeAt.elides`: the lexemes of a type that was read are a shortened form of what it was read from.
-/

namespace Marksmith.Syntax

open TypeRef (pairs pairs_succ tail saturated)

/-- Where a lexeme stands: at the beginning of an expression, or anywhere else. -/
inductive Gap where
  | start | plain

/-- Where the lexeme behind a given one stands. -/
def gapAfter : Lexeme → Gap
  | .punct .lparen | .punct .comma | .punct .lbracket | .punct .arrow => .start
  | _ => .plain

/-- Whether a mark is always kept as it stands. -/
def Punct.isKept : Punct → Bool
  | .colonColon | .dot => false
  | _ => true

/-- The second list is the first one without some of what canonical text leaves out. -/
inductive Elides : Gap → List Lexeme → List Lexeme → Prop where
  | finish {gap : Gap} {ls : List Lexeme} (ends : peek ls = .eof) : Elides gap ls [.eof]
  | semicolon {gap : Gap} {ls : List Lexeme} (ends : peek ls = .eof) :
      Elides gap (.punct .semicolon :: ls) [.eof]
  | keep {gap : Gap} {l : Lexeme} {ls us : List Lexeme} (noAlias : l ≠ .punct .colonColon)
      (noDot : l ≠ .punct .dot) (rest : Elides (gapAfter l) ls us) : Elides gap (l :: ls) (l :: us)
  | dot {gap : Gap} {x : String} {ls us : List Lexeme} (rest : Elides .plain ls us) :
      Elides gap (.punct .dot :: .ident x :: ls) (.punct .dot :: .ident x :: us)
  | alias {gap : Gap} {x : String} {ls us : List Lexeme} (rest : Elides .plain ls us) :
      Elides gap (.ident "global" :: .punct .colonColon :: .ident x :: ls) (.ident x :: us)
  | lambda {x : String} {ls us : List Lexeme} (rest : Elides .start ls us) :
      Elides .start (.punct .lparen :: .ident x :: .punct .rparen :: .punct .arrow :: ls)
        (.ident x :: .punct .arrow :: us)
  | surplus {gap : Gap} {ls us : List Lexeme} (rest : Elides .plain (pairs 255 ++ ls) us) :
      Elides gap (.punct .lbracket :: .punct .rbracket :: (pairs 255 ++ ls)) us

namespace Elides

variable {gap : Gap} {ls us : List Lexeme}

theorem keepPunct {p : Punct} (kept : p.isKept = true) (h : Elides (gapAfter (.punct p)) ls us) :
    Elides gap (.punct p :: ls) (.punct p :: us) := by
  refine .keep ?_ ?_ h
  · rintro eq
    cases eq
    cases kept
  · rintro eq
    cases eq
    cases kept

/-- What may be dropped in the middle of an operand may be dropped anywhere. -/
theorem weaken (h : Elides .plain ls us) : Elides gap ls us := by
  generalize eq : Gap.plain = g at h
  cases h with
  | finish ends => exact .finish ends
  | semicolon ends => exact .semicolon ends
  | keep noAlias noDot rest => exact .keep noAlias noDot rest
  | dot rest => exact .dot rest
  | «alias» rest => exact .alias rest
  | lambda => cases eq
  | surplus rest => exact .surplus rest

/-! ### The next lexeme -/

theorem peek_pairs (n : Nat) (ls : List Lexeme) :
    peek (pairs (n + 1) ++ ls) = .punct .lbracket := by
  rw [pairs_succ]
  rfl

/-- The next lexeme is the same, or another identifier, or what follows is the end; at the beginning
of an expression the parenthesis of a single parameter may have been dropped too. -/
theorem front (h : Elides gap ls us) :
    peek us = peek ls ∨ (∃ x y, peek ls = .ident x ∧ peek us = .ident y) ∨
      (peek ls = .punct .semicolon ∧ peek us = .eof) ∨
      (gap = .start ∧ peek ls = .punct .lparen ∧
        ∃ x behind, us = .ident x :: .punct .arrow :: behind) := by
  induction h with
  | finish ends => exact .inl ends.symm
  | semicolon => exact .inr (.inr (.inl ⟨rfl, rfl⟩))
  | keep => exact .inl rfl
  | dot => exact .inl rfl
  | «alias» => exact .inr (.inl ⟨_, _, rfl, rfl⟩)
  | lambda => exact .inr (.inr (.inr ⟨rfl, rfl, _, _, rfl⟩))
  | surplus _ ih =>
    rw [peek_pairs 254] at ih
    obtain same | ⟨x, y, eq, -⟩ | ⟨eq, -⟩ | ⟨eq, -⟩ := ih
    · exact .inl same
    · cases eq
    · cases eq
    · cases eq

/-- No mark comes next that was not next. -/
theorem peek_ne (h : Elides gap ls us) {p : Punct} (other : peek ls ≠ .punct p) :
    peek us ≠ .punct p := by
  obtain same | ⟨x, y, -, right⟩ | ⟨-, right⟩ | ⟨-, -, x, behind, rfl⟩ := h.front
  · rw [same]
    exact other
  · rw [right]
    simp
  · rw [right]
    simp
  · simp

/-- In the middle of an operand a mark is next in both, or in none. -/
theorem peek_eq_punct_iff (h : Elides .plain ls us) {p : Punct} (other : p ≠ .semicolon) :
    peek us = .punct p ↔ peek ls = .punct p := by
  obtain same | ⟨x, y, left, right⟩ | ⟨left, right⟩ | ⟨eq, -⟩ := h.front
  · rw [same]
  · rw [left, right]
    exact ⟨nofun, nofun⟩
  · rw [left, right]
    refine ⟨nofun, fun eq => ?_⟩
    cases eq
    exact absurd rfl other
  · cases eq

theorem endsTypeArgs_eq (h : Elides .plain ls us) :
    endsTypeArgs (peek us) = endsTypeArgs (peek ls) := by
  obtain same | ⟨x, y, left, right⟩ | ⟨left, right⟩ | ⟨eq, -⟩ := h.front
  · rw [same]
  · rw [left, right]; rfl
  · rw [left, right]; rfl
  · cases eq

theorem beginsOperand_eq (h : Elides .plain ls us) :
    beginsOperand (peek us) = beginsOperand (peek ls) := by
  obtain same | ⟨x, y, left, right⟩ | ⟨left, right⟩ | ⟨eq, -⟩ := h.front
  · rw [same]
  · rw [left, right]; rfl
  · rw [left, right]; rfl
  · cases eq

/-- What is left was there, or is the end. -/
theorem mem (h : Elides gap ls us) : ∀ l ∈ us, l ∈ ls ∨ l = .eof := by
  induction h with
  | finish | semicolon => exact fun l mem => .inr (List.mem_singleton.mp mem)
  | keep _ _ _ ih =>
    intro l mem
    rcases List.mem_cons.mp mem with rfl | mem
    · exact .inl List.mem_cons_self
    · exact (ih l mem).imp_left (List.mem_cons_of_mem _)
  | dot _ ih =>
    intro l mem
    rw [List.mem_cons, List.mem_cons] at mem
    rcases mem with rfl | rfl | mem
    · simp
    · simp
    · exact (ih l mem).imp_left fun among => by simp [among]
  | «alias» _ ih =>
    intro l mem
    rcases List.mem_cons.mp mem with rfl | mem
    · simp
    · exact (ih l mem).imp_left fun among => by simp [among]
  | lambda _ ih =>
    intro l mem
    rw [List.mem_cons, List.mem_cons] at mem
    rcases mem with rfl | rfl | mem
    · simp
    · simp
    · exact (ih l mem).imp_left fun among => by simp [among]
  | surplus _ ih =>
    intro l mem
    exact (ih l mem).imp_left fun among =>
      List.mem_cons_of_mem _ (List.mem_cons_of_mem _ among)

/-! ### Going back to what was read -/

theorem of_punct {p : Punct} (h : Elides gap ls (.punct p :: us)) (noDot : p ≠ .dot)
    (noBracket : p ≠ .lbracket) :
    ∃ behind, ls = .punct p :: behind ∧ Elides (gapAfter (.punct p)) behind us := by
  cases h with
  | keep _ _ rest => exact ⟨_, rfl, rest⟩
  | dot => exact absurd rfl noDot
  | surplus rest =>
    have bracket := (rest.peek_eq_punct_iff (by decide)).mpr (peek_pairs 254 _)
    cases bracket
    exact absurd rfl noBracket

theorem of_dot (h : Elides gap ls (.punct .dot :: us)) :
    ∃ x behind more, ls = .punct .dot :: .ident x :: behind ∧ us = .ident x :: more ∧
      Elides .plain behind more := by
  cases h with
  | keep _ noDot => exact absurd rfl noDot
  | dot rest => exact ⟨_, _, _, rfl, rfl, rest⟩
  | surplus rest => cases (rest.peek_eq_punct_iff (by decide)).mpr (peek_pairs 254 _)

theorem not_colonColon : ¬Elides gap (.punct .colonColon :: ls) us := by
  intro h
  cases h with
  | finish ends => cases ends
  | keep noAlias => exact absurd rfl noAlias

theorem peek_ne_colonColon (h : Elides .plain ls us) :
    peek us ≠ .punct .colonColon ∧ peek ls ≠ .punct .colonColon := by
  have source : peek ls ≠ .punct .colonColon := by
    intro front
    obtain ⟨behind, rfl⟩ := peek_eq_punct front
    exact not_colonColon h
  exact ⟨fun front => source ((h.peek_eq_punct_iff (by decide)).mp front), source⟩

/-- An identifier with no arrow behind it is read in both, behind an alias qualifier or not. -/
theorem of_ident {x : String} (h : Elides gap ls (.ident x :: us))
    (noArrow : peek us ≠ .punct .arrow) :
    ∃ behind, aliased ls = .ident x :: behind ∧ Elides .plain behind us := by
  cases h with
  | keep _ _ rest => exact ⟨_, aliased_of_peek rest.peek_ne_colonColon.2, rest⟩
  | «alias» rest => exact ⟨_, rfl, rest⟩
  | lambda => exact absurd rfl noArrow
  | surplus rest => cases (rest.peek_eq_punct_iff (by decide)).mpr (peek_pairs 254 _)

/-- No alias qualifier is left. -/
theorem aliased_eq (h : Elides gap ls us) : aliased us = us := by
  unfold aliased
  split
  · obtain ⟨behind, -, rest⟩ := h.of_ident (by simp)
    exact absurd rfl rest.peek_ne_colonColon.1
  · rfl

theorem segments (h : Elides .plain ls us) {x name : String} {behind' : List Lexeme}
    (read : segmentsOf x us = (name, behind')) :
    ∃ behind, segmentsOf x ls = (name, behind) ∧ Elides .plain behind behind' := by
  fun_induction segmentsOf x us generalizing ls with
  | case1 x segment more ih =>
    obtain ⟨y, behind, rest, rfl, eq, shorter⟩ := h.of_dot
    cases eq
    exact ih shorter read
  | case2 x us other =>
    cases read
    unfold segmentsOf
    split
    · cases h with
      | finish ends => cases ends
      | keep _ noDot => exact absurd rfl noDot
      | dot => exact absurd rfl (other _ _)
    · exact ⟨_, rfl, h⟩

theorem le_of_pairs {k n : Nat} {rest : List Lexeme} (eq : pairs n ++ rest = pairs k ++ ls)
    (stop : ∀ behind, rest ≠ .punct .lbracket :: .punct .rbracket :: behind) : k ≤ n := by
  induction k generalizing n with
  | zero => exact Nat.zero_le n
  | succ k ih =>
    rw [pairs_succ] at eq
    cases n with
    | zero => exact absurd eq (stop _)
    | succ n =>
      rw [pairs_succ] at eq
      exact Nat.succ_le_succ (ih (List.cons.inj (List.cons.inj eq).2).2)

/-- Both have the same number of array suffixes, or both have at least as many as a rank counts. -/
theorem of_pairs {n : Nat} {rest : List Lexeme} (h : Elides .plain (pairs n ++ rest) us)
    (stop : ∀ behind, rest ≠ .punct .lbracket :: .punct .rbracket :: behind) :
    ∃ m rest', us = pairs m ++ rest' ∧ min m 255 = min n 255 ∧ Elides .plain rest rest' ∧
      ∀ behind, rest' ≠ .punct .lbracket :: .punct .rbracket :: behind := by
  induction n generalizing us with
  | zero =>
    refine ⟨0, us, rfl, rfl, h, ?_⟩
    rintro behind rfl
    rw [TypeRef.pairs_zero, List.nil_append] at h
    cases h with
    | keep _ _ shorter =>
      obtain ⟨more, rfl, -⟩ := shorter.of_punct (by decide) (by decide)
      exact stop more rfl
    | surplus => exact stop _ rfl
  | succ n ih =>
    rw [pairs_succ, List.cons_append, List.cons_append] at h
    generalize eq : Lexeme.punct .lbracket :: .punct .rbracket :: (pairs n ++ rest) = all at h
    cases h with
    | finish ends => rw [← eq] at ends; cases ends
    | semicolon => cases eq
    | keep _ _ shorter =>
      obtain ⟨rfl, rfl⟩ := List.cons.inj eq
      cases shorter with
      | finish ends => cases ends
      | keep _ _ shorter =>
        obtain ⟨m, rest', rfl, same, left, stop'⟩ := ih shorter
        exact ⟨m + 1, rest', by rw [pairs_succ]; rfl, by omega, left, stop'⟩
    | dot => cases eq
    | «alias» => cases eq
    | surplus shorter =>
      have eq := (List.cons.inj (List.cons.inj eq).2).2
      have enough := le_of_pairs eq stop
      obtain ⟨m, rest', rfl, same, left, stop'⟩ := ih (eq ▸ shorter)
      exact ⟨m, rest', rfl, by omega, left, stop'⟩

theorem ranks (h : Elides .plain ls us) :
    (ranksOf 0 ls).1 = (ranksOf 0 us).1 ∧ Elides .plain (ranksOf 0 ls).2 (ranksOf 0 us).2 := by
  generalize read : ranksOf 0 ls = r
  obtain ⟨rank, rest⟩ := r
  obtain ⟨n, rfl, rfl, stop⟩ := TypeRef.exists_pairs (m := 0) read
  obtain ⟨m, rest', rfl, same, left, stop'⟩ := h.of_pairs stop
  have read' : ranksOf 0 (pairs m ++ rest') = (saturated m, rest') := by
    have all := TypeRef.ranksOf_pairs 0 m rest'
    rw [TypeRef.ranksOf_of_stop stop', Nat.zero_add] at all
    exact all
  rw [read', Nat.zero_add]
  exact ⟨congrArg UInt8.ofNat same.symm, left⟩

theorem suffix (h : Elides .plain ls us) {name : String} {args : List TypeRef} {t : TypeRef}
    {rest' : List Lexeme} (read : suffixOf name args us = (t, rest')) :
    ∃ rest, suffixOf name args ls = (t, rest) ∧ Elides .plain rest rest' := by
  by_cases marked : peek us = .punct .question
  · obtain ⟨more, rfl⟩ := peek_eq_punct marked
    obtain ⟨behind, rfl, shorter⟩ := h.of_punct (by decide) (by decide)
    obtain ⟨same, left⟩ := shorter.ranks
    rw [suffixOf] at read ⊢
    cases read
    exact ⟨_, by rw [same], left⟩
  · have unmarked := mt (h.peek_eq_punct_iff (by decide)).mpr marked
    obtain ⟨same, left⟩ := h.ranks
    rw [suffixOf_of_peek marked] at read
    rw [suffixOf_of_peek unmarked]
    cases read
    exact ⟨_, by rw [same], left⟩

end Elides

/-! ### Types in shortened lexemes -/

theorem typeAt_and_typesAt_of_elides :
    (∀ {us t rest'}, TypeAt us t rest' → peek rest' ≠ .punct .arrow → ∀ gap ls, Elides gap ls us →
      ∃ rest, TypeAt ls t rest ∧ Elides .plain rest rest') ∧
    ∀ {us types rest'}, TypesAt us types rest' → peek rest' ≠ .punct .arrow →
      ∀ gap ls, Elides gap ls us → ∃ rest, TypesAt ls types rest ∧ Elides .plain rest rest' := by
  refine TypeAt.induct ?plain ?generic ?last ?more
  case plain =>
    intro us behind rest' more x name t head dotted bare marks stop gap ls h
    rw [h.aliased_eq] at head
    subst head
    have noArrow : peek more ≠ .punct .arrow := by
      intro arrow
      rw [segmentsOf_of_peek (by rw [arrow]; decide)] at dotted
      cases dotted
      rw [suffixOf_of_peek (by rw [arrow]; decide), ranksOf_of_peek (by rw [arrow]; decide)] at marks
      cases marks
      exact stop arrow
    obtain ⟨source, head, shorter⟩ := h.of_ident noArrow
    obtain ⟨behind', dotted', left⟩ := shorter.segments dotted
    have bare' := mt (left.peek_eq_punct_iff (by decide)).mpr bare
    obtain ⟨rest, marks', left⟩ := left.suffix marks
    exact ⟨rest, .plain head dotted' bare' marks', left⟩
  case generic =>
    intro us inner behind rest' more x name args t head dotted _ marks ih stop gap ls h
    rw [h.aliased_eq] at head
    subst head
    have noArrow : peek more ≠ .punct .arrow := by
      intro arrow
      rw [segmentsOf_of_peek (by rw [arrow]; decide)] at dotted
      cases dotted
      cases arrow
    obtain ⟨source, head, shorter⟩ := h.of_ident noArrow
    obtain ⟨opening, dotted', left⟩ := shorter.segments dotted
    obtain ⟨inner', rfl, shorter⟩ := left.of_punct (by decide) (by decide)
    obtain ⟨closing, listed, left⟩ := ih (by simp) _ inner' shorter
    obtain ⟨behind', rfl, shorter⟩ := left.of_punct (by decide) (by decide)
    obtain ⟨rest, marks', left⟩ := shorter.suffix marks
    exact ⟨rest, .generic head dotted' listed marks', left⟩
  case last =>
    intro us rest' t _ stop ih noArrow gap ls h
    obtain ⟨rest, type, left⟩ := ih noArrow gap ls h
    exact ⟨rest, .last type (mt (left.peek_eq_punct_iff (by decide)).mpr stop), left⟩
  case more =>
    intro us behind rest' t types _ _ ih ihMore noArrow gap ls h
    obtain ⟨rest, type, left⟩ := ih (by simp) gap ls h
    obtain ⟨more, rfl, shorter⟩ := left.of_punct (by decide) (by decide)
    obtain ⟨rest, others, left⟩ := ihMore noArrow _ more shorter
    exact ⟨rest, .more type others, left⟩

/-- A cast in shortened lexemes is a cast in those that were read. -/
theorem castAt_of_elides {ls us inner' : List Lexeme} {t : TypeRef} (h : CastAt us t inner')
    (shorter : Elides .plain ls us) : ∃ inner, CastAt ls t inner := by
  obtain ⟨list', rfl, type', begins⟩ := h
  obtain ⟨list, rfl, inside⟩ := shorter.of_punct (by decide) (by decide)
  obtain ⟨closing, type, left⟩ := typeAt_and_typesAt_of_elides.1 type' (by simp) _ list inside
  obtain ⟨inner, rfl, left'⟩ := left.of_punct (by decide) (by decide)
  exact ⟨inner, list, rfl, type, by rw [← left'.beginsOperand_eq]; exact begins⟩

/-- Type arguments in shortened lexemes are type arguments in those that were read. -/
theorem argsAt_of_elides {ls us rest' : List Lexeme} {args : List TypeRef}
    (h : ArgsAt us args rest') (shorter : Elides .plain ls us) : ∃ rest, ArgsAt ls args rest := by
  obtain ⟨list', rfl, listed', ends⟩ := h
  obtain ⟨list, rfl, inside⟩ := shorter.of_punct (by decide) (by decide)
  obtain ⟨closing, listed, left⟩ := typeAt_and_typesAt_of_elides.2 listed' (by simp) _ list inside
  obtain ⟨rest, rfl, left'⟩ := left.of_punct (by decide) (by decide)
  exact ⟨rest, list, rfl, listed, by rw [← left'.endsTypeArgs_eq]; exact ends⟩

/-! ### Types that were read -/

/-- No identifier has a point in it. -/
def Dotless (ls : List Lexeme) : Prop := ∀ x, .ident x ∈ ls → '.' ∉ x.toList

theorem Dotless.mono {ls rest : List Lexeme} (h : Dotless ls) (sub : rest <:+ ls) : Dotless rest :=
  fun x mem => h x (sub.subset mem)

theorem Dotless.segments {ls behind : List Lexeme} {x : String} {more : List String}
    (h : Dotless ls) (head : aliased ls = .ident x :: (TypeRef.tail more ++ behind)) :
    ∀ s ∈ x :: more, '.' ∉ s.toList := by
  have among := h.mono (aliased_suffix ls)
  rw [head] at among
  intro s mem
  rw [List.mem_cons] at mem
  obtain rfl | mem := mem
  · exact among s List.mem_cons_self
  · refine among s (List.mem_cons_of_mem _ (List.mem_append_left _ ?_))
    exact List.mem_flatMap.mpr ⟨s, mem, by simp⟩

namespace Elides

variable {gap : Gap} {ls us : List Lexeme}

theorem tail (more : List String) (h : Elides .plain ls us) :
    Elides .plain (TypeRef.tail more ++ ls) (TypeRef.tail more ++ us) := by
  induction more with
  | nil => exact h
  | cons s more ih => exact .dot ih

theorem ident {x : String} {more : List Lexeme} (head : aliased ls = .ident x :: more)
    (h : Elides .plain more us) : Elides gap ls (.ident x :: us) := by
  unfold aliased at head
  split at head
  · subst head
    exact .alias h
  · subst head
    exact .keep (by simp) (by simp) h

theorem pairs (n : Nat) (h : Elides .plain ls us) :
    Elides .plain (pairs n ++ ls) (TypeRef.pairs (min n 255) ++ us) := by
  induction n with
  | zero => exact h
  | succ n ih =>
    by_cases few : n < 255
    · have counts : min (n + 1) 255 = min n 255 + 1 := by omega
      rw [counts, pairs_succ, pairs_succ]
      exact .keepPunct rfl (.keepPunct rfl ih)
    · obtain ⟨k, rfl⟩ := Nat.exists_eq_add_of_le (Nat.le_of_not_lt few)
      have counts : min (255 + k + 1) 255 = min (255 + k) 255 := by omega
      rw [TypeRef.pairs_add, List.append_assoc] at ih
      rw [counts, pairs_succ, TypeRef.pairs_add, List.cons_append, List.cons_append,
        List.append_assoc]
      exact .surplus ih

theorem ranksOf {rank : UInt8} {behind rest rest' : List Lexeme}
    (read : ranksOf 0 behind = (rank, rest)) (h : Elides .plain rest rest') :
    Elides .plain behind (TypeRef.pairs rank.toNat ++ rest') := by
  obtain ⟨n, rfl, rfl, -⟩ := TypeRef.exists_pairs (m := 0) read
  rw [Nat.zero_add, TypeRef.toNat_saturated]
  exact h.pairs n

theorem marks {name : String} {args : List TypeRef} {t : TypeRef} {behind rest rest' : List Lexeme}
    (read : suffixOf name args behind = (t, rest)) (h : Elides .plain rest rest') :
    ∃ nullable rank, t = ⟨name, args, nullable, rank⟩ ∧ Elides .plain behind
      ((if nullable then [Lexeme.punct .question] else []) ++
        (TypeRef.pairs rank.toNat ++ rest')) := by
  by_cases marked : peek behind = .punct .question
  · obtain ⟨more, rfl⟩ := peek_eq_punct marked
    rw [suffixOf, Prod.mk.injEq] at read
    obtain ⟨rfl, rfl⟩ := read
    exact ⟨true, _, rfl, .keepPunct rfl (ranksOf rfl h)⟩
  · rw [suffixOf_of_peek marked, Prod.mk.injEq] at read
    obtain ⟨rfl, rfl⟩ := read
    exact ⟨false, _, rfl, ranksOf rfl h⟩

end Elides

open TypeRef (moreLexemes) in
theorem typeAt_and_typesAt_elides :
    (∀ {ls t rest}, TypeAt ls t rest → Dotless ls → ∀ gap rest', Elides .plain rest rest' →
      Elides gap ls (t.lexemes ++ rest')) ∧
    ∀ {ls types rest}, TypesAt ls types rest → Dotless ls → ∀ gap rest', Elides .plain rest rest' →
      ∃ t more, types = t :: more ∧ Elides gap ls (t.lexemes ++ (moreLexemes more ++ rest')) := by
  refine TypeAt.induct ?plain ?generic ?last ?more
  case plain =>
    intro ls behind rest more x name t head dotted _ marks dotless gap rest' h
    obtain ⟨nullable, rank, rfl, left⟩ := Elides.marks marks h
    obtain ⟨segments, rfl, rfl⟩ := TypeRef.exists_tail dotted
    have names := TypeRef.nameLexemes_joined (dotless.segments head)
    rw [TypeRef.lexemes, TypeRef.argLexemes, names]
    simp only [List.cons_append, List.append_assoc, List.nil_append]
    exact .ident head (left.tail segments)
  case generic =>
    intro ls inner behind rest more x name args t head dotted listed marks ih dotless gap rest' h
    obtain ⟨nullable, rank, rfl, left⟩ := Elides.marks marks h
    obtain ⟨segments, rfl, rfl⟩ := TypeRef.exists_tail dotted
    have names := TypeRef.nameLexemes_joined (dotless.segments head)
    have inside : Dotless inner := dotless.mono
      ((List.suffix_cons _ _).trans ((List.suffix_append _ _).trans
        ((List.suffix_cons _ _).trans (head ▸ aliased_suffix ls))))
    obtain ⟨u, us, rfl, shorter⟩ := ih inside .plain _ (.keepPunct rfl left)
    rw [TypeRef.lexemes, TypeRef.argLexemes, names]
    simp only [List.cons_append, List.append_assoc, List.nil_append]
    exact .ident head ((Elides.keepPunct (p := .lt) rfl shorter).tail segments)
  case last =>
    intro ls rest t _ _ ih dotless gap rest' h
    exact ⟨t, [], rfl, ih dotless gap rest' h⟩
  case more =>
    intro ls behind rest t types first _ ih ihMore dotless gap rest' h
    have inside : Dotless behind := dotless.mono ((List.suffix_cons _ _).trans first.suffix)
    obtain ⟨u, us, rfl, shorter⟩ := ihMore inside .start rest' h
    refine ⟨t, u :: us, rfl, ?_⟩
    rw [TypeRef.moreLexemes, List.cons_append, List.append_assoc]
    exact ih dotless gap _ (.keepPunct rfl shorter)

theorem TypeAt.elides {ls rest rest' : List Lexeme} {t : TypeRef} {gap : Gap}
    (h : TypeAt ls t rest) (dotless : Dotless ls) (left : Elides .plain rest rest') :
    Elides gap ls (t.lexemes ++ rest') :=
  typeAt_and_typesAt_elides.1 h dotless gap rest' left

/-- The lexemes of a name are a shortened form of what it was read from, and read as that name. -/
theorem NameAt.elides {more rest rest' : List Lexeme} {x : String} {n : SimpleName}
    (h : NameAt (.ident x :: more) n rest) (dotless : Dotless more)
    (left : Elides .plain rest rest') :
    n.ident = x ∧ Elides .plain more (TypeRef.argLexemes n.typeArgs ++ rest') ∧
      NameAt (n.lexemes ++ rest') n rest' := by
  cases h with
  | bare none =>
    refine ⟨rfl, left, .bare ?_⟩
    rintro ⟨args, behind', some⟩
    obtain ⟨behind, some⟩ := argsAt_of_elides some left
    exact none ⟨args, behind, some⟩
  | generic some =>
    obtain ⟨inner, rfl, listed, ends⟩ := some
    have inside : Dotless inner := dotless.mono (List.suffix_cons _ _)
    have closing : Elides .plain (.punct .gt :: rest) (.punct .gt :: rest') := .keepPunct rfl left
    obtain ⟨t, ts, rfl, shorter⟩ := typeAt_and_typesAt_elides.2 listed inside .plain _ closing
    have ends' : endsTypeArgs (peek rest') = true := by
      rw [left.endsTypeArgs_eq]
      exact ends
    refine ⟨rfl, ?_, .generic (TypeRef.argsAt_lexemes (List.cons_ne_nil t ts) ends')⟩
    simp only [TypeRef.argLexemes, List.cons_append, List.append_assoc, List.nil_append]
    exact .keepPunct (p := .lt) rfl shorter

end Marksmith.Syntax

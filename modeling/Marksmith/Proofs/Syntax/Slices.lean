import Marksmith.Proofs.Syntax.Nodes
import Marksmith.Proofs.Syntax.RoundTrip

/-!
Every node of an expression is its slice of the text.

* `Detached`, `Behind`: what may stand behind a token in place of the text that stood there;
  `scan_again`: then the token is scanned again;
* `lexFrom_suffix`, `lexFrom_cut`: the tokens from one place of a text to another are those of the
  slice in between, some bytes further on;
* `exists_parseExpr_slice`: the span of a node is a part of the text, and this is read as the node.
-/

namespace Marksmith.Syntax

open Text (isBlank)

/-! ### Slices of a text -/

/-- The characters from a byte offset on. -/
def dropBytes (n : Nat) : List Char → List Char
  | [] => []
  | c :: s => if n = 0 then c :: s else dropBytes (n - c.utf8Size) s

/-- The characters before a byte offset. -/
def takeBytes (n : Nat) : List Char → List Char
  | [] => []
  | c :: s => if n = 0 then [] else c :: takeBytes (n - c.utf8Size) s

/-- The part of a text in a range of bytes. -/
def Span.slice (span : Span) (text : String) : String :=
  String.ofList (takeBytes (span.stop - span.start) (dropBytes span.start text.toList))

theorem byteSize_cons_ne_zero (c : Char) (s : List Char) : byteSize (c :: s) ≠ 0 :=
  Nat.ne_of_gt (byteSize_pos (List.cons_ne_nil c s))

theorem dropBytes_append (before s : List Char) :
    dropBytes (byteSize before) (before ++ s) = s := by
  induction before with
  | nil => cases s <;> rfl
  | cons c before ih =>
    rw [List.cons_append, dropBytes, if_neg (byteSize_cons_ne_zero c before), byteSize_cons,
      Nat.add_sub_cancel_left, ih]

theorem takeBytes_append (inside s : List Char) :
    takeBytes (byteSize inside) (inside ++ s) = inside := by
  induction inside with
  | nil => cases s <;> rfl
  | cons c inside ih =>
    rw [List.cons_append, takeBytes, if_neg (byteSize_cons_ne_zero c inside), byteSize_cons,
      Nat.add_sub_cancel_left, ih]

theorem slice_eq {text : String} {before inside behind : List Char}
    (split : text.toList = before ++ (inside ++ behind)) :
    Span.slice ⟨byteSize before, byteSize before + byteSize inside⟩ text =
      String.ofList inside := by
  rw [Span.slice, split, dropBytes_append, Nat.add_sub_cancel_left, takeBytes_append]

/-! ### Scanning with other text behind -/

/-- A text that no token in front of it goes on into: it is empty, or white space comes first. -/
def Detached (v : List Char) : Prop := ∀ c ∈ v.head?, isBlank c = true

theorem detached_nil : Detached [] := nofun

theorem detached_blank {c : Char} (v : List Char) (blank : isBlank c = true) :
    Detached (c :: v) := by
  intro d front
  cases front
  exact blank

theorem Detached.not_part {v : List Char} (detached : Detached v) :
    ∀ c ∈ v.head?, isIdentPart c = false := by
  intro c front
  cases part : isIdentPart c with
  | false => rfl
  | true => exact absurd ((isBlank_of_isIdentPart part).symm.trans (detached c front)) (by decide)

theorem Detached.endsWord {v : List Char} (detached : Detached v) : EndsWord v := by
  cases v with
  | nil => trivial
  | cons c v =>
    refine ⟨detached.not_part c rfl, ?_⟩
    rintro rfl
    exact absurd (detached '.' rfl) (by decide)

theorem Detached.apart {v : List Char} (detached : Detached v) (p : Punct) : p.Apart v := by
  intro c front join
  have solid : p.joins.all (!isBlank ·) = true := by cases p <;> decide
  have other := List.all_eq_true.mp solid c join
  rw [detached c front] at other
  cases other

/-- What may stand behind a token in place of the text that stood there: a front part of that, or a
text that no token goes on into. -/
def Behind (rest v : List Char) : Prop := v <+: rest ∨ Detached v

theorem takeWhile_again {p : Char → Bool} {s v : List Char}
    (behind : v <+: s.dropWhile p ∨ ∀ c ∈ v.head?, p c = false) :
    (s.takeWhile p ++ v).takeWhile p = s.takeWhile p ∧
      (s.takeWhile p ++ v).dropWhile p = v := by
  have stops : v.takeWhile p = [] ∧ v.dropWhile p = v := by
    cases v with
    | nil => exact ⟨rfl, rfl⟩
    | cons c v =>
      have head : p c = false := by
        rcases behind with ⟨x, split⟩ | stops
        · have found := List.head?_dropWhile_not p s
          rw [← split] at found
          simpa using found
        · exact stops c rfl
      rw [List.takeWhile_cons_of_neg (by simp [head]), List.dropWhile_cons_of_neg (by simp [head])]
      exact ⟨rfl, rfl⟩
  have inside : ∀ c ∈ s.takeWhile p, p c = true := fun c mem => List.mem_takeWhile_imp mem
  rw [List.takeWhile_append_of_pos inside, List.dropWhile_append_of_pos inside, stops.1, stops.2]
  exact ⟨List.append_nil _, rfl⟩

theorem part_again {s v : List Char} (behind : Behind (s.dropWhile isIdentPart) v) :
    (s.takeWhile isIdentPart ++ v).takeWhile isIdentPart = s.takeWhile isIdentPart ∧
      (s.takeWhile isIdentPart ++ v).dropWhile isIdentPart = v :=
  takeWhile_again (behind.imp_right Detached.not_part)

theorem StopsNumber.again {point : Bool} {s v : List Char} (stop : StopsNumber point s)
    (sub : v <+: s) : StopsNumber point v := by
  obtain ⟨x, rfl⟩ := sub
  match v with
  | [] => trivial
  | [c] => exact ⟨stop.1, stop.2.1, nofun⟩
  | c :: d :: v => exact stop

theorem stopsNumber_splitNumber (point : Bool) (s : List Char) :
    StopsNumber (splitNumber point s).2.2 (splitNumber point s).2.1 := by
  fun_induction splitNumber point s with
  | case1 => trivial
  | case2 _ _ _ _ body rest q read ih => rwa [read] at ih
  | case3 _ _ _ _ _ body rest q read ih => rwa [read] at ih
  | case4 point c s noDigit noPoint =>
    simp only [Bool.or_eq_true, not_or, Bool.not_eq_true, beq_eq_false_iff_ne] at noDigit
    refine ⟨noDigit.1, noDigit.2, ?_⟩
    intro dot (unseen : point = false) d front
    cases digit : d.isDigit with
    | false => rfl
    | true => exact absurd (by simp [dot, unseen, Option.mem_def.mp front, digit]) noPoint

theorem splitSuffix_again {s mark v : List Char} {suffix : NumberSuffix} {rest : List Char}
    (h : splitSuffix s = (suffix, mark, rest)) (behind : Behind rest v) :
    splitSuffix (mark ++ v) = (suffix, mark, v) := by
  obtain sub | detached := behind
  swap
  · exact splitSuffix_append h detached.endsWord
  unfold splitSuffix at h
  split at h
  · cases h
    cases List.prefix_nil.mp sub
    rfl
  · next c s =>
    split at h
    · next real =>
      cases h
      rw [List.singleton_append, splitSuffix, if_pos real]
    · next real =>
      split at h
      · next integer =>
        cases h
        rw [List.singleton_append, splitSuffix, if_neg real, if_pos integer]
      · next integer =>
        cases h
        cases v with
        | nil => rfl
        | cons d v =>
          obtain ⟨rfl, -⟩ := List.cons_prefix_cons.mp sub
          rw [List.nil_append, splitSuffix, if_neg real, if_neg integer]

variable {pos pos' : Nat} {c : Char} {s s' v : List Char} {r : Scan}

theorem scanEscapedWord_again (h : scanEscapedWord pos s = .ok r) (behind : Behind r.rest v)
    (split : '@' :: s' = r.written ++ v) :
    scanEscapedWord pos' s' = .ok ⟨r.lexeme, r.written, v⟩ := by
  unfold scanEscapedWord at h
  split at h
  · cases h
  · next some =>
    cases h
    obtain ⟨-, rfl⟩ := List.cons.inj split
    obtain ⟨taken, dropped⟩ := part_again behind
    rw [scanEscapedWord, List.append_eq, taken, dropped, if_neg some]

theorem scanWord_again (behind : Behind (scanWord s).rest v) :
    scanWord ((scanWord s).written ++ v) = ⟨(scanWord s).lexeme, (scanWord s).written, v⟩ := by
  obtain ⟨taken, dropped⟩ := part_again (s := s) behind
  simp only [scanWord] at taken dropped ⊢
  rw [taken, dropped]

theorem scanNumber_again (h : scanNumber pos s = .ok r) (behind : Behind r.rest v) :
    scanNumber pos' (r.written ++ v) = .ok ⟨r.lexeme, r.written, v⟩ := by
  unfold scanNumber at h
  have stops := stopsNumber_splitNumber false s
  rcases split : splitNumber false s with ⟨body, afterBody, point⟩
  rcases splitMark : splitSuffix afterBody with ⟨suffix, mark, rest⟩
  rw [split] at stops
  simp only [split, splitMark] at h
  have whole := splitSuffix_split afterBody
  rw [splitMark] at whole
  have again : Behind rest v →
      splitNumber false (body ++ (mark ++ v)) = (body, mark ++ v, point) := by
    intro behind
    apply splitNumber_append split
    rcases behind with sub | detached
    · apply stops.again
      rw [← whole]
      exact (List.prefix_append_right_inj mark).mpr sub
    · exact stopsNumber_mark splitMark detached.endsWord
  split at h
  · next real =>
    cases h
    rw [scanNumber, List.append_assoc]
    simp only [again behind, splitSuffix_again splitMark behind]
    rw [if_pos real]
  · next whole =>
    split at h
    · next small =>
      cases h
      rw [scanNumber, List.append_assoc]
      simp only [again behind, splitSuffix_again splitMark behind]
      rw [if_neg whole, if_pos small]
    · cases h

theorem scanStringBody_again {start start' : Nat} {value written rest : List Char}
    (h : scanStringBody start pos s = .ok (value, written, rest)) (v : List Char) :
    scanStringBody start' pos' (written ++ v) = .ok (value, written, v) := by
  fun_induction scanStringBody start pos s generalizing value written rest pos' with
  | case1 => cases h
  | case2 =>
    cases h
    rfl
  | case3 => cases h
  | case4 pos c s ih =>
    obtain ⟨⟨value, written, rest⟩, read, made⟩ := bind_eq_ok_iff.mp h
    cases made
    exact scanStringBody_escaped (ih read)
  | case5 pos c s noQuote noEscape other ih =>
    obtain ⟨⟨value, written, rest⟩, read, made⟩ := bind_eq_ok_iff.mp h
    cases made
    refine scanStringBody_plain noQuote ?_ (ih read)
    rintro rfl
    cases s with
    | nil => exact noEscape rfl rfl
    | cons d s => exact other d s rfl rfl

theorem scanString_again (h : scanString pos s = .ok r) (v : List Char)
    (split : '"' :: s' = r.written ++ v) :
    scanString pos' s' = .ok ⟨r.lexeme, r.written, v⟩ := by
  obtain ⟨⟨value, written, rest⟩, read, made⟩ := bind_eq_ok_iff.mp h
  cases made
  obtain ⟨-, rfl⟩ := List.cons.inj split
  exact bind_eq_ok_iff.mpr ⟨_, scanStringBody_again read v, rfl⟩

theorem Punct.atFront?_again {p : Punct} (h : Punct.atFront? s = some p)
    (sub : p.chars ++ v <+: s) : Punct.atFront? (p.chars ++ v) = some p := by
  obtain ⟨front, before, after, split, none⟩ := List.find?_eq_some_iff_append.mp h
  refine List.find?_eq_some_iff_append.mpr ⟨?_, before, after, split, ?_⟩
  · exact List.isPrefixOf_iff_prefix.mpr (List.prefix_append _ _)
  · intro q mem
    have other := none q mem
    simp only [Bool.not_eq_true', Bool.eq_false_iff, ne_eq, List.isPrefixOf_iff_prefix] at other ⊢
    exact fun front => other (front.trans sub)

/-- A token is scanned again if some of the text behind it is cut off, or if white space or nothing
stands behind it. -/
theorem scan_again (h : scan pos c s = .ok r) (behind : Behind r.rest v)
    (split : c :: s' = r.written ++ v) : scan pos' c s' = .ok ⟨r.lexeme, r.written, v⟩ := by
  unfold scan at h ⊢
  split at h
  · next at_sign =>
    obtain rfl := beq_iff_eq.mp at_sign
    rw [if_pos at_sign]
    exact scanEscapedWord_again h behind split
  · next noAt =>
    rw [if_neg noAt]
    split at h
    · next start =>
      cases h
      rw [if_pos start, split, scanWord_again behind]
    · next noWord =>
      rw [if_neg noWord]
      split at h
      · next digit =>
        rw [if_pos digit, split]
        exact scanNumber_again h behind
      · next noDigit =>
        rw [if_neg noDigit]
        split at h
        · next quote =>
          obtain rfl := beq_iff_eq.mp quote
          rw [if_pos quote]
          exact scanString_again h v split
        · next noQuote =>
          rw [if_neg noQuote]
          split at h
          · next p front =>
            cases h
            have again : Punct.atFront? (p.chars ++ v) = some p := by
              rcases behind with sub | detached
              · apply Punct.atFront?_again front
                rw [← Punct.atFront?_split front]
                exact (List.prefix_append_right_inj p.chars).mpr sub
              · exact Punct.atFront?_chars (detached.apart p)
            rw [split, again]
            dsimp only
            rw [List.drop_left]
          · cases h

/-! ### The tokens of a slice -/

theorem not_comment_again {w : List Char} (noComment : ¬(c == '/' && s.head? == some '/') = true)
    (split : w ++ r.rest = s) (behind : Behind r.rest v) :
    ¬(c == '/' && (w ++ v).head? == some '/') = true := by
  simp only [Bool.and_eq_true, beq_iff_eq, not_and] at noComment ⊢
  intro slash front
  apply noComment slash
  rw [← split]
  cases w with
  | cons d w => exact front
  | nil =>
    rcases behind with ⟨x, sub⟩ | detached
    · rw [List.nil_append] at front ⊢
      rw [← sub, List.head?_append, front]
      rfl
    · exact absurd (detached '/' front) (by decide)

theorem lexFrom_token_again {us : List Token} (solid : ¬isBlank c = true)
    (noComment : ¬(c == '/' && s.head? == some '/') = true) (read : scan pos c s = .ok r)
    (sub : Behind r.rest v) (behind : lexFrom (pos' + byteSize r.written) v = .ok us) :
    lexFrom pos' (r.written ++ v) =
      .ok (⟨r.lexeme, ⟨pos', pos' + byteSize r.written⟩⟩ :: us) := by
  obtain ⟨split, some⟩ := scan_split read
  obtain ⟨d, w, written⟩ := List.exists_cons_of_ne_nil some
  rw [written, List.cons_append] at split
  obtain ⟨rfl, tail⟩ := List.cons.inj split
  have whole : d :: (w ++ v) = r.written ++ v := by rw [written, List.cons_append]
  rw [← whole]
  exact lexFrom_token (r := ⟨r.lexeme, r.written, v⟩) solid (not_comment_again noComment tail sub)
    (scan_again read sub whole) behind

theorem takeWhile_comment (comment : (c == '/' && s.head? == some '/') = true) :
    (c :: s).takeWhile (· != '\n') = c :: s.takeWhile (· != '\n') := by
  rw [Bool.and_eq_true, beq_iff_eq] at comment
  rw [comment.1]
  rfl

theorem lexFrom_comment_again {us : List Token} (solid : ¬isBlank c = true)
    (comment : (c == '/' && s.head? == some '/') = true) (sub : v <+: s.dropWhile (· != '\n'))
    (behind : lexFrom (pos + byteSize ((c :: s).takeWhile (· != '\n'))) v = .ok us) :
    lexFrom pos ((c :: s).takeWhile (· != '\n') ++ v) = .ok us := by
  have comment' : (c == '/' && (s.takeWhile (· != '\n') ++ v).head? == some '/') = true := by
    rw [Bool.and_eq_true, beq_iff_eq, beq_iff_eq] at comment ⊢
    obtain ⟨tail, rfl⟩ := List.head?_eq_some_iff.mp comment.2
    exact ⟨comment.1, rfl⟩
  obtain ⟨taken, dropped⟩ := takeWhile_again (.inl sub)
  rw [takeWhile_comment comment, List.cons_append, lexFrom, if_neg solid, if_pos comment',
    takeWhile_comment comment', taken, dropped, ← takeWhile_comment comment]
  exact behind

/-- The last tokens of a text are those of the text from the first of them on. -/
theorem lexFrom_suffix {ts us : List Token} (h : lexFrom pos s = .ok ts) (sub : us <:+ ts)
    (some : us ≠ []) : ∃ before s', s = before ++ s' ∧
      (frontSpan us).start = pos + byteSize before ∧ lexFrom (frontSpan us).start s' = .ok us := by
  fun_induction lexFrom pos s generalizing ts with
  | case1 pos =>
    cases h
    rcases List.suffix_cons_iff.mp sub with rfl | sub
    · exact ⟨[], [], rfl, rfl, lexFrom_nil pos⟩
    · exact absurd (List.suffix_nil.mp sub) some
  | case2 pos c tail blank ih =>
    obtain ⟨before, s', rfl, place, read⟩ := ih h sub
    refine ⟨c :: before, s', rfl, ?_, read⟩
    rw [place, byteSize_cons, Nat.add_assoc]
  | case3 pos c tail solid comment ih =>
    obtain ⟨before, s', split, place, read⟩ := ih h sub
    refine ⟨(c :: tail).takeWhile (· != '\n') ++ before, s', ?_, ?_, read⟩
    · rw [List.append_assoc, ← split, takeWhile_comment comment, List.cons_append,
        List.takeWhile_append_dropWhile]
    · rw [place, byteSize_append, Nat.add_assoc]
  | case4 => cases h
  | case5 pos c tail solid noComment r read stop =>
    rename_i ih
    obtain ⟨tokens, others, made⟩ := bind_eq_ok_iff.mp h
    cases made
    rcases List.suffix_cons_iff.mp sub with rfl | sub
    · exact ⟨[], c :: tail, rfl, rfl, lexFrom_token solid noComment read others⟩
    · obtain ⟨before, s', split, place, read'⟩ := ih others sub
      refine ⟨r.written ++ before, s', ?_, ?_, read'⟩
      · rw [List.append_assoc, ← split, (scan_split read).1]
      · rw [place, byteSize_append, Nat.add_assoc]

theorem Excerpt.cons {k : Nat} {rest ts us : List Token} (h : Excerpt k rest ts us) (t : Token) :
    Excerpt k rest (t.shift k :: ts) (t :: us) := by
  obtain ⟨front, stop, rfl, rfl⟩ := h
  exact ⟨t :: front, stop, rfl, rfl⟩

/-- The first tokens of a text are those of the text up to the last of them. -/
theorem lexFrom_cut {k : Nat} {front rest : List Token} {last : Token}
    (h : lexFrom (pos + k) s = .ok (front ++ last :: rest)) (some : last.lexeme ≠ .eof) :
    ∃ inside behind us, s = inside ++ behind ∧ last.span.stop = pos + k + byteSize inside ∧
      lexFrom pos inside = .ok us ∧ Excerpt k rest (front ++ last :: rest) us := by
  generalize place : pos + k = q at h ⊢
  fun_induction lexFrom q s generalizing front pos with
  | case1 =>
    cases front with
    | nil =>
      cases h
      exact absurd rfl some
    | cons t front =>
      obtain ⟨-, same⟩ := List.cons.inj (Except.ok.inj h)
      exact absurd same.symm (by simp)
  | case2 q c tail blank ih =>
    obtain ⟨inside, behind, us, rfl, stop, read, excerpt⟩ :=
      @ih (pos + c.utf8Size) front (by omega) h
    refine ⟨c :: inside, behind, us, rfl, ?_, ?_, excerpt⟩
    · rw [stop, byteSize_cons, Nat.add_assoc]
    · rw [lexFrom, if_pos blank]
      exact read
  | case3 q c tail solid comment ih =>
    obtain ⟨inside, behind, us, split, stop, read, excerpt⟩ :=
      @ih (pos + byteSize ((c :: tail).takeWhile (· != '\n'))) front (by omega) h
    refine ⟨(c :: tail).takeWhile (· != '\n') ++ inside, behind, us, ?_, ?_, ?_, excerpt⟩
    · rw [List.append_assoc, ← split, takeWhile_comment comment, List.cons_append,
        List.takeWhile_append_dropWhile]
    · rw [stop, byteSize_append, Nat.add_assoc]
    · exact lexFrom_comment_again solid comment ⟨behind, split.symm⟩ read
  | case4 => cases h
  | case5 q c tail solid noComment r read stop =>
    rename_i ih
    obtain ⟨tokens, others, made⟩ := bind_eq_ok_iff.mp h
    have moved : (⟨r.lexeme, ⟨q, stop⟩⟩ : Token) =
        Token.shift k ⟨r.lexeme, ⟨pos, pos + byteSize r.written⟩⟩ := by
      simp only [Token.shift, Span.shift, stop, ← place, Nat.add_right_comm]
    cases front with
    | nil =>
      cases made
      refine ⟨r.written ++ [], r.rest, _, ?_, ?_,
        lexFrom_token_again solid noComment read (.inl List.nil_prefix) (lexFrom_nil _), ?_⟩
      · rw [List.append_nil, (scan_split read).1]
      · rw [List.append_nil]
      · rw [List.nil_append, moved]
        exact .cons ⟨[], _, rfl, rfl⟩ _
    | cons t front =>
      obtain ⟨rfl, rfl⟩ := List.cons.inj (Except.ok.inj made)
      obtain ⟨inside, behind, us, split, stop', read', excerpt⟩ :=
        @ih (pos + byteSize r.written) front (by omega) others
      refine ⟨r.written ++ inside, behind, _, ?_, ?_,
        lexFrom_token_again solid noComment read (.inl ⟨behind, split.symm⟩) read', ?_⟩
      · rw [List.append_assoc, ← split, (scan_split read).1]
      · rw [stop', byteSize_append, Nat.add_assoc]
      · rw [List.cons_append, moved]
        exact excerpt.cons _

/-! ### Nodes and their slices -/

theorem StandsAlone.slice {text : String} {ts : List Token} {n : Expr} (alone : StandsAlone ts n)
    (lexed : lex text = .ok ts) : n.span.Fits text ∧
      ∃ n', parseExpr (n.span.slice text) = .ok n' ∧ n'.shift n.span.start = n := by
  obtain ⟨us, rest, sub, spells, whole⟩ := alone
  obtain ⟨front, last, rfl, some, -⟩ := spells.endsBefore
  -- Cut the text in front of the node and behind it.
  obtain ⟨before, s', split, place, lexed'⟩ := lexFrom_suffix lexed sub (by simp)
  rw [place] at lexed'
  obtain ⟨inside, behind, us', rfl, stop, cut, excerpt⟩ := lexFrom_cut lexed' some
  rw [Nat.zero_add] at place stop
  -- What is left is read as the node, up to spans.
  rw [← excerpt.lexemes_eq] at whole
  obtain ⟨s, read, same, ended⟩ := expression_complete whole
  have order := (inOrder_of_lexFrom cut).1
  obtain ⟨moved, behind'⟩ := spells.eq_shift (expression_exposed us' order s read).spells same
    (List.suffix_refl rest) excerpt spells.endsBefore.closesWell
  -- Its span is that of its tokens, further on.
  have covers : Covers (front ++ last :: rest)
      ⟨byteSize before, byteSize before + byteSize inside⟩ rest :=
    ⟨place.symm, front, last, rfl, some, stop.symm⟩
  have span : n.span = ⟨byteSize before, byteSize before + byteSize inside⟩ := by
    rw [moved, Expr.span_shift]
    exact (covers.eq_shift (expression_occupies us' order s read).covers excerpt behind'
      (List.suffix_refl rest)).symm
  rw [span]
  refine ⟨Span.fits_piece split, s.value, ?_, moved.symm⟩
  rw [slice_eq split]
  refine parseAll_eq_ok_iff.mpr ⟨us', s, ?_, read, rfl, .inl (by rw [ended]; rfl)⟩
  rw [lex, String.toList_ofList, cut]

/-- The span of every node is a part of the text, and that part is read as the node, with spans from
the start of the part on. -/
theorem exists_parseExpr_slice {text : String} {e n : Expr} (read : parseExpr text = .ok e)
    (part : n ∈ e.nodes) : n.span.Fits text ∧
      ∃ n', parseExpr (n.span.slice text) = .ok n' ∧ n'.shift n.span.start = n := by
  obtain ⟨ts, s, lexed, parsed, rfl, -⟩ := parseAll_eq_ok_iff.mp read
  have alone := (expression_exposed ts (inOrder_of_lex lexed) s parsed).nodes n part
  exact alone.slice lexed

/-- In front of the cast stands a character of two bytes, and a comment behind it. -/
theorem exists_parseExpr_slice_cast : ∃ e n, parseExpr "ä + (A<int>)f<B>(z => 1) // 2" = .ok e ∧
    n ∈ e.nodes ∧ n.span.slice "ä + (A<int>)f<B>(z => 1) // 2" = "(A<int>)f<B>(z => 1)" ∧
    n.span.Fits "ä + (A<int>)f<B>(z => 1) // 2" ∧
    ∃ n', parseExpr (n.span.slice "ä + (A<int>)f<B>(z => 1) // 2") = .ok n' ∧
      n'.shift n.span.start = n := by
  have read : ((parseExpr "ä + (A<int>)f<B>(z => 1) // 2").toOption.bind (·.nodes[2]?)).map
      Expr.span = some ⟨5, 25⟩ := by decide +kernel
  cases accepted : parseExpr "ä + (A<int>)f<B>(z => 1) // 2" with
  | error e =>
    rw [accepted] at read
    cases read
  | ok e =>
    rw [accepted] at read
    obtain ⟨n, found, span⟩ := Option.map_eq_some_iff.mp read
    have part : n ∈ e.nodes := List.mem_of_getElem? found
    have sliced : n.span.slice "ä + (A<int>)f<B>(z => 1) // 2" = "(A<int>)f<B>(z => 1)" := by
      rw [span]
      decide
    exact ⟨e, n, rfl, part, sliced, exists_parseExpr_slice accepted part⟩

end Marksmith.Syntax

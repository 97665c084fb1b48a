import Marksmith.Proofs.Syntax.Tiling
import Marksmith.Proofs.Text.Braces

/-!
Identifiers that are made from any text, read by the lexer and made once more.

* `ReadsAsName`: a text that the lexer reads as one identifier and nothing else;
* `readsAsName_word`, `readsAsName_escaped`: words and escaped words are such texts;
* `parts_of_readsAsName`: such a text that begins with a part of an identifier is made of them;
* `raisedChars`: the characters of a text that are raised; `parts_keptChars_iff`: what is kept are
  parts of identifiers unless a raised character has something else in its upper-case form;
* `readsAsName_sanitize_iff`: the texts whose identifiers are read, and stay as they are when they
  are made into identifiers again.
-/

namespace Marksmith.Identifier

open Syntax Text

variable {s : List Char} {c : Char} {text id : String}

/-! ### Characters that are kept -/

theorem keptChars_of_parts (parts : ∀ c ∈ s, isIdentPart c = true) (begun : Bool) :
    keptChars false begun s = s := by
  induction s generalizing begun with
  | nil => rfl
  | cons c s ih =>
    obtain ⟨here, later⟩ := List.forall_mem_cons.mp parts
    rw [isIdentPart] at here
    rw [keptChars, if_pos here, ih later]
    rfl

/-- The first character that is kept is the first part of an identifier in the text. -/
theorem head?_keptChars (s : List Char) :
    (keptChars false false s).head? = s.find? isIdentPart := by
  induction s with
  | nil => rfl
  | cons c s ih =>
    rw [keptChars, List.find?_cons]
    split
    · next part =>
      rw [isIdentPart, part]
      rfl
    · next other =>
      rw [isIdentPart, Bool.eq_false_iff.mpr other, ih]

/-- The characters of a text that are raised: those behind dropped ones, other than the first that
is kept. -/
def raisedChars (raise begun : Bool) : List Char → List Char
  | [] => []
  | c :: s =>
    if isIdentPart c then (if raise then [c] else []) ++ raisedChars false true s
    else raisedChars begun begun s

/-- What is kept are parts of identifiers exactly if the upper-case forms of the raised characters
are. -/
theorem parts_keptChars_iff (raise begun : Bool) (s : List Char) :
    (∀ c ∈ keptChars raise begun s, isIdentPart c = true) ↔
      ∀ c ∈ raisedChars raise begun s, ∀ d ∈ toUpper c, isIdentPart d = true := by
  induction s generalizing raise begun with
  | nil => simp [keptChars, raisedChars]
  | cons c s ih =>
    by_cases part : isIdentPart c = true
    · have kept : (isAlphanumeric c || c == '_') = true := part
      rw [keptChars, if_pos kept, raisedChars, if_pos part, List.forall_mem_append,
        List.forall_mem_append, ih]
      refine and_congr_left fun _ => ?_
      cases raise with
      | false => simp [part]
      | true => simp
    · have dropped : ¬(isAlphanumeric c || c == '_') = true := part
      rw [keptChars, if_neg dropped, raisedChars, if_neg part, ih]

/-! ### Characters that are skipped -/

/-- Whether a character ends what is skipped between tokens: neither white space nor a slash. -/
def IsSolid (c : Char) : Prop := isBlank c = false ∧ c ≠ '/'

/-- White space and the slash, as ranges of code points. -/
def skippedRanges : Ranges := (0x2F, 0x2F) :: blankRanges

theorem isSolid_iff : IsSolid c ↔ ∀ q ∈ skippedRanges, c.toNat < q.1 ∨ q.2 < c.toNat := by
  rw [IsSolid, skippedRanges, List.forall_mem_cons, ← Bool.not_eq_true, isBlank_iff, and_comm]
  push Not
  refine and_congr ?_ (forall₂_congr fun q _ => ?_)
  · rw [← Nat.ne_iff_lt_or_gt]
    exact not_congr Char.toNat_inj.symm
  · omega

theorem isSolid_of_isIdentPart (part : isIdentPart c = true) : IsSolid c := by
  refine ⟨isBlank_of_isIdentPart part, ?_⟩
  rintro rfl
  exact absurd part (by decide +kernel)

/-- No upper-case form has white space or slashes. -/
theorem isSolid_toUpper (solid : IsSolid c) : ∀ d ∈ toUpper c, IsSolid d := by
  have positive : ∀ q ∈ skippedRanges, 0 < q.1 := by decide
  have several : ∀ q ∈ skippedRanges, ∀ e ∈ upperExpansions, ∀ n ∈ e.2, n < q.1 ∨ q.2 < n := by
    decide +kernel
  have single : ∀ q ∈ skippedRanges, ∀ r ∈ upperRuns, r.Misses q := by decide +kernel
  intro d mem
  refine isSolid_iff.mpr fun q among => ?_
  exact mapCase_misses (positive q among) (several q among) (single q among)
    (isSolid_iff.mp solid q among) d mem

theorem isSolid_keptChars (raise begun : Bool) (s : List Char) :
    ∀ c ∈ keptChars raise begun s, IsSolid c := by
  induction s generalizing raise begun with
  | nil => exact List.forall_mem_nil _
  | cons c s ih =>
    rw [keptChars]
    split
    · next part =>
      have solid := isSolid_of_isIdentPart part
      refine List.forall_mem_append.mpr ⟨?_, ih false true⟩
      cases raise with
      | false => exact List.forall_mem_singleton.mpr solid
      | true => exact isSolid_toUpper solid
    · exact ih begun begun

/-! ### Texts that are read as one identifier -/

/-- Whether a text is read as one identifier and nothing else. -/
def ReadsAsName (id : String) : Prop :=
  ∃ name span ends, lex id = .ok [⟨.ident name, span⟩, ⟨.eof, ends⟩]

theorem readsAsName_of_readsAs {written : List Char} {name : String}
    (reads : ReadsAs written (.ident name)) : ReadsAsName (String.ofList written) :=
  ⟨name, _, _, reads.alone⟩

/-- A word that is not reserved. -/
theorem readsAsName_word (start : isIdentStart c = true)
    (parts : ∀ d ∈ c :: s, isIdentPart d = true)
    (free : Keyword.ofText? (String.ofList (c :: s)) = none) :
    ReadsAsName (String.ofList (c :: s)) := by
  have whole : (c :: s).takeWhile isIdentPart = c :: s := List.takeWhile_eq_self_iff.mpr parts
  have solid := isBlank_of_isIdentPart (parts c List.mem_cons_self)
  have noEscape : ¬(c == '@') = true := by
    rintro escape
    rw [beq_iff_eq.mp escape] at start
    exact absurd start (by decide)
  have noComment : ¬(c == '/' && s.head? == some '/') = true := by
    rw [Bool.and_eq_true, beq_iff_eq]
    rintro ⟨rfl, -⟩
    exact absurd start (by decide)
  have read : scan 0 c s = .ok (scanWord (c :: s)) := by
    rw [scan, if_neg noEscape, if_pos start]
  have reads := readsAs_of_scan (Bool.eq_false_iff.mp solid) noComment read
  rw [scanWord, whole, wordLexeme, free] at reads
  exact readsAsName_of_readsAs reads

/-- An escaped word, which may be a reserved one. -/
theorem readsAsName_escaped (some : s ≠ []) (parts : ∀ d ∈ s, isIdentPart d = true) :
    ReadsAsName (String.ofList ('@' :: s)) := by
  have whole : s.takeWhile isIdentPart = s := List.takeWhile_eq_self_iff.mpr parts
  have read : scan 0 '@' s = .ok ⟨.ident (String.ofList s), '@' :: s, s.dropWhile isIdentPart⟩ := by
    rw [scan, if_pos (beq_self_eq_true '@'), scanEscapedWord, whole, if_neg some]
  have reads := readsAs_of_scan (by decide) (by simp) read
  exact readsAsName_of_readsAs reads

theorem scanNumber_ne_ident {pos : Nat} {r : Scan} (h : scanNumber pos s = .ok r)
    (name : String) : r.lexeme ≠ .ident name := by
  intro same
  unfold scanNumber at h
  dsimp only at h
  split at h
  · cases h
    cases same
  · split at h
    · cases h
      cases same
    · cases h

/-- What is read as no token is skipped. -/
theorem skipped_of_lexFrom {pos : Nat} {ends : Span}
    (read : lexFrom pos s = .ok [⟨.eof, ends⟩]) : Skipped s := by
  cases tiles_of_lexFrom read with
  | last skipped => exact skipped
  | token _ reads => exact absurd rfl reads.solid

/-- Without white space and slashes there is nothing to skip. -/
theorem eq_nil_of_skipped (solid : ∀ d ∈ s, IsSolid d) (skipped : Skipped s) :
    s = [] := by
  cases skipped with
  | nil => rfl
  | blank blank rest =>
    have := (solid _ List.mem_cons_self).1
    rw [blank] at this
    cases this
  | comment => exact absurd rfl (solid '/' List.mem_cons_self).2

/-- What is read as one identifier, and begins with a part of an identifier, begins with the start
of one and is made of such parts. -/
theorem parts_of_readsAsName (part : isIdentPart c = true)
    (solid : ∀ d ∈ s, IsSolid d) (reads : ReadsAsName (String.ofList (c :: s))) :
    isIdentStart c = true ∧ ∀ d ∈ s, isIdentPart d = true := by
  obtain ⟨name, span, ends, read⟩ := reads
  have noComment : ¬(c == '/' && s.head? == some '/') = true := by
    rw [Bool.and_eq_true, beq_iff_eq]
    rintro ⟨rfl, -⟩
    exact absurd part (by decide +kernel)
  have noBlank := Bool.eq_false_iff.mp (isBlank_of_isIdentPart part)
  rw [lex, String.toList_ofList, lexFrom, if_neg noBlank, if_neg noComment] at read
  split at read
  · cases read
  · next r scanned =>
    obtain ⟨ts, behind, made⟩ := bind_eq_ok_iff.mp read
    obtain ⟨first, rfl⟩ := List.cons.inj (Except.ok.inj made)
    have lexeme : r.lexeme = .ident name := congrArg Token.lexeme first
    rcases scan_cases scanned with ⟨rfl, -⟩ | ⟨start, rfl⟩ | ⟨-, number⟩ | ⟨rfl, -⟩ | ⟨p, rfl⟩
    · exact absurd part (by decide +kernel)
    · refine ⟨start, ?_⟩
      have rest : s.dropWhile isIdentPart = [] := by
        refine eq_nil_of_skipped (fun d mem => ?_) ?_
        · exact solid d ((List.dropWhile_sublist _).subset mem)
        · rw [← List.dropWhile_cons_of_pos part]
          exact skipped_of_lexFrom behind
      exact List.dropWhile_eq_nil_iff.mp rest
    · exact absurd lexeme (scanNumber_ne_ident number name)
    · exact absurd part (by decide +kernel)
    · cases lexeme

/-! ### Guards -/

/-- Text that begins with the start of an identifier and is made of its parts. -/
def IsPlain (s : List Char) : Prop :=
  s.head?.any isIdentStart = true ∧ ∀ c ∈ s, isIdentPart c = true

theorem isPlain_cons : IsPlain (c :: s) ↔
    isIdentStart c = true ∧ isIdentPart c = true ∧ ∀ d ∈ s, isIdentPart d = true := by
  rw [IsPlain, List.head?_cons, Option.any_some, List.forall_mem_cons]

/-- Keywords are words. -/
theorem isPlain_keyword {k : String} (keyword : k ∈ keywords) : IsPlain k.toList := by
  have each : keywords.all (fun k =>
      k.toList.head?.any isIdentStart && k.toList.all isIdentPart) = true := by
    decide +kernel
  have word := List.all_eq_true.mp each k keyword
  rw [Bool.and_eq_true, List.all_eq_true] at word
  exact word

theorem isKeyword_text (k : Keyword) : isKeyword k.text = true := by
  cases k <;> decide +kernel

/-- What the lexer takes for a keyword is escaped. -/
theorem ofText?_eq_none {word : String} (other : isKeyword word = false) :
    Keyword.ofText? word = none := by
  cases found : Keyword.ofText? word with
  | none => rfl
  | some k =>
    rw [Keyword.ofText?] at found
    have same : k.text = word := beq_iff_eq.mp (List.find?_some found :)
    rw [← same, isKeyword_text] at other
    cases other

/-- An escaped keyword is read as a name, and so is any other word. -/
theorem readsAsName_guardKeyword (plain : IsPlain s) :
    ReadsAsName (String.ofList (guardKeyword s)) := by
  cases s with
  | nil => cases plain.1
  | cons c s =>
    obtain ⟨start, parts⟩ := plain
    rw [guardKeyword]
    split
    · exact readsAsName_escaped (List.cons_ne_nil c s) parts
    · next other =>
      exact readsAsName_word start parts (ofText?_eq_none (Bool.eq_false_iff.mpr other))

theorem sanitize_eq_some_iff : sanitize text = some id ↔
    keptChars false false text.toList ≠ [] ∧
      String.ofList (guardKeyword (guardDigit (keptChars false false text.toList))) = id := by
  rw [sanitize]
  split
  · next none =>
    rw [none]
    constructor
    · intro made
      cases made
    · intro made
      exact absurd rfl made.1
  · next some => rw [Option.some.injEq, and_iff_right some]

/-- The guard of a digit adds an underscore in front, or nothing. -/
theorem guardDigit_cases (s : List Char) : guardDigit s = '_' :: s ∨ guardDigit s = s := by
  rw [guardDigit]
  split
  · exact .inl rfl
  · exact .inr rfl

theorem guardDigit_of_isPlain (plain : IsPlain s) : guardDigit s = s := by
  cases s with
  | nil => cases plain.1
  | cons c s =>
    have start := (isPlain_cons.mp plain).1
    rw [guardDigit, List.head?_cons, Option.any_some, if_neg]
    intro digit
    rw [(digit_facts digit).1] at start
    cases start

/-- A word, escaped if it is a keyword, is made into itself. -/
theorem sanitize_guardKeyword (plain : IsPlain s) :
    sanitize (String.ofList (guardKeyword s)) = some (String.ofList (guardKeyword s)) := by
  have kept : keptChars false false (guardKeyword s) = s := by
    rw [guardKeyword]
    split
    · have escape : ¬(isAlphanumeric '@' || '@' == '_') = true := by decide
      rw [keptChars, if_neg escape, keptChars_of_parts plain.2]
    · exact keptChars_of_parts plain.2 false
  rw [sanitize_eq_some_iff, String.toList_ofList, kept, guardDigit_of_isPlain plain]
  refine ⟨?_, rfl⟩
  rintro rfl
  cases plain.1

/-- A word that is read as a name, with an escape if it is a keyword, is plain. -/
theorem isPlain_of_readsAsName (part : isIdentPart c = true) (solid : ∀ d ∈ s, IsSolid d)
    (reads : ReadsAsName (String.ofList (guardKeyword (c :: s)))) : IsPlain (c :: s) := by
  rw [guardKeyword] at reads
  split at reads
  · next keyword =>
    have plain := isPlain_keyword (List.contains_iff_mem.mp keyword)
    rwa [String.toList_ofList] at plain
  · obtain ⟨start, parts⟩ := parts_of_readsAsName part solid reads
    exact isPlain_cons.mpr ⟨start, part, parts⟩

/-- What is kept becomes plain if it is made of parts of identifiers and begins with the start of
one or with a digit that is guarded. -/
theorem isPlain_guardDigit_iff (some : s ≠ []) : IsPlain (guardDigit s) ↔
    (∀ c ∈ s.head?, isIdentStart c = true ∨ c.isDigit = true) ∧
      ∀ c ∈ s, isIdentPart c = true := by
  cases s with
  | nil => exact absurd rfl some
  | cons c s =>
    rw [guardDigit, List.head?_cons, Option.any_some]
    split
    · next digit =>
      have underscore : isIdentStart '_' = true ∧ isIdentPart '_' = true := by decide
      rw [isPlain_cons, ← and_assoc, and_iff_right underscore]
      refine (and_iff_right ?_).symm
      rintro _ ⟨⟩
      exact .inr digit
    · next undigited =>
      rw [isPlain_cons, List.forall_mem_cons]
      simp [undigited]

/-! ### Identifiers made from texts -/

/-- Whether the identifier that is made from a text is one: what is kept of the text begins with the
start of an identifier or with a digit of ASCII, which is guarded, and the characters that are
raised have upper-case forms of parts of identifiers only. -/
structure Usable (text : String) : Prop where
  front : ∀ c ∈ text.toList.find? isIdentPart, isIdentStart c = true ∨ c.isDigit = true
  raised : ∀ c ∈ raisedChars false false text.toList, ∀ d ∈ toUpper c, isIdentPart d = true

theorem usable_iff : Usable text ↔
    (text.toList.find? isIdentPart).all (fun c => isIdentStart c || c.isDigit) = true ∧
      (raisedChars false false text.toList).all (fun c => (toUpper c).all isIdentPart) = true := by
  simp only [Option.all_eq_true, List.all_eq_true, Bool.or_eq_true]
  exact ⟨fun ⟨front, raised⟩ => ⟨front, raised⟩, fun ⟨front, raised⟩ => ⟨front, raised⟩⟩

instance : DecidablePred Usable := fun _ => decidable_of_iff _ usable_iff.symm

/-- The identifier that is made from a text is read as one identifier, and stays as it is when it is
made into an identifier again, exactly if the text is usable. -/
theorem readsAsName_sanitize_iff (made : sanitize text = some id) :
    (ReadsAsName id ∧ sanitize id = some id) ↔ Usable text := by
  obtain ⟨some, rfl⟩ := sanitize_eq_some_iff.mp made
  have solid := isSolid_keptChars false false text.toList
  have usable : IsPlain (guardDigit (keptChars false false text.toList)) ↔ Usable text := by
    rw [isPlain_guardDigit_iff some, head?_keptChars, parts_keptChars_iff]
    exact ⟨fun ⟨front, raised⟩ => ⟨front, raised⟩, fun usable => ⟨usable.front, usable.raised⟩⟩
  rw [← usable]
  constructor
  · rintro ⟨reads, -⟩
    obtain ⟨c, rest, kept⟩ := List.exists_cons_of_ne_nil some
    have part : isIdentPart c = true := by
      have first := head?_keptChars text.toList
      rw [kept, List.head?_cons] at first
      exact List.find?_some first.symm
    rw [kept] at solid reads ⊢
    rcases guardDigit_cases (c :: rest) with guarded | bare
    · rw [guarded] at reads ⊢
      exact isPlain_of_readsAsName (by decide) solid reads
    · rw [bare] at reads ⊢
      exact isPlain_of_readsAsName part (List.forall_mem_cons.mp solid).2 reads
  · intro plain
    exact ⟨readsAsName_guardKeyword plain, sanitize_guardKeyword plain⟩

/-- The digit in front is guarded, and the letter behind the space is raised. -/
theorem readsAsName_lights : sanitize "2D lights" = some "_2DLights" ∧ Usable "2D lights" ∧
    ReadsAsName "_2DLights" ∧ sanitize "_2DLights" = some "_2DLights" := by
  have made : sanitize "2D lights" = some "_2DLights" := by decide +kernel
  have usable : Usable "2D lights" := by decide +kernel
  exact ⟨made, usable, (readsAsName_sanitize_iff made).mpr usable⟩

/-- A digit of another script is kept in front without a guard, and no identifier begins with
one. -/
theorem not_readsAsName_sanitize :
    ¬∀ text id, sanitize text = some id → ReadsAsName id ∧ sanitize id = some id := by
  intro always
  have made : sanitize "٣D Lights" = some (String.ofList ('٣' :: "DLights".toList)) := by
    decide +kernel
  have part : isIdentPart '٣' = true := by decide +kernel
  have solid : ∀ d ∈ "DLights".toList, IsSolid d := fun d mem =>
    isSolid_of_isIdentPart (List.all_eq_true.mp (by decide +kernel) d mem)
  have start := (parts_of_readsAsName part solid (always _ _ made).1).1
  exact absurd start (by decide +kernel)

end Marksmith.Identifier

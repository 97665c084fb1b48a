import Marksmith.Proofs.Syntax.TypeGrammar
import Marksmith.Syntax.Lexer
import Marksmith.Syntax.Printer

/-!
How single lexemes are spelled and read back.

* `Lexes`: a text reads as lexemes, wherever it stands;
* `Lexeme.Writable`: a lexeme that its plain spelling reads as; `writable_of_scan`: what the lexer
  reads without an `@` is writable;
* `Lexes.punct`, `Lexes.ident`, `Lexes.keyword`, `Lexes.int`, `Lexes.float`, `Lexes.string`: the
  spelling of a lexeme reads as that lexeme, if the text behind it does not continue it.
-/

namespace Marksmith.Syntax

open Text (isBlank)

/-! ### Tokens at the front of a text -/

theorem lexFrom_nil (pos : Nat) : lexFrom pos [] = .ok [⟨.eof, ⟨pos, pos⟩⟩] := by
  rw [lexFrom]

theorem lexFrom_token {pos : Nat} {c : Char} {tail : List Char} {r : Scan} {ts : List Token}
    (solid : ¬isBlank c = true) (noComment : ¬(c == '/' && tail.head? == some '/') = true)
    (read : scan pos c tail = .ok r)
    (behind : lexFrom (pos + byteSize r.written) r.rest = .ok ts) :
    lexFrom pos (c :: tail) = .ok (⟨r.lexeme, ⟨pos, pos + byteSize r.written⟩⟩ :: ts) := by
  rw [lexFrom, if_neg solid, if_neg noComment]
  split
  · next failed =>
    rw [read] at failed
    cases failed
  · next again =>
    rw [read, Except.ok.injEq] at again
    subst again
    exact bind_eq_ok_iff.mpr ⟨ts, behind, rfl⟩

/-- A text reads as lexemes, wherever it stands. -/
def Lexes (s : List Char) (ls : List Lexeme) : Prop :=
  ∀ pos, ∃ ts, lexFrom pos s = .ok ts ∧ lexemes ts = ls

theorem Lexes.nil : Lexes [] [.eof] :=
  fun pos => ⟨_, lexFrom_nil pos, rfl⟩

theorem Lexes.blank {s : List Char} {ls : List Lexeme} (h : Lexes s ls) : Lexes (' ' :: s) ls := by
  intro pos
  obtain ⟨ts, read, same⟩ := h (pos + ' '.utf8Size)
  have blank : isBlank ' ' = true := by decide
  rw [lexFrom, if_pos blank]
  exact ⟨ts, read, same⟩

theorem Lexes.token {c : Char} {tail rest : List Char} {l : Lexeme} {ls : List Lexeme}
    (solid : isBlank c = false) (noComment : c = '/' → tail.head? ≠ some '/')
    (read : ∀ pos, ∃ r, scan pos c tail = .ok r ∧ r.lexeme = l ∧ r.rest = rest)
    (h : Lexes rest ls) : Lexes (c :: tail) (l :: ls) := by
  intro pos
  obtain ⟨r, scanned, rfl, rfl⟩ := read pos
  obtain ⟨ts, others, rfl⟩ := h (pos + byteSize r.written)
  have noComment' : ¬(c == '/' && tail.head? == some '/') = true := by
    intro comment
    rw [Bool.and_eq_true, beq_iff_eq, beq_iff_eq] at comment
    exact noComment comment.1 comment.2
  exact ⟨_, lexFrom_token (Bool.eq_false_iff.mp solid) noComment' scanned others, rfl⟩

/-! ### Marks -/

/-- The characters that would make another mark, or a comment, of a mark before them. -/
def Punct.joins : Punct → List Char
  | lt | gt | bang => ['=']
  | assign => ['=', '>']
  | question => ['?']
  | slash => ['/']
  | _ => []

/-- Whether a text does not continue a mark before it. -/
def Punct.Apart (p : Punct) (s : List Char) : Prop := ∀ c ∈ s.head?, c ∉ p.joins

theorem Punct.atFront?_self (p : Punct) : Punct.atFront? p.chars = some p := by
  cases p <;> rfl

/-- What a longer mark goes on with joins the shorter one. -/
theorem Punct.mem_joins {p q : Punct} {c : Char} {s : List Char}
    (longer : p.chars ++ c :: s = q.chars) : c ∈ p.joins := by
  have all : ∀ p ∈ Punct.all, ∀ q ∈ Punct.all, p.chars.isPrefixOf q.chars = true →
      (q.chars.drop p.chars.length).head?.all (p.joins.contains ·) = true := by
    decide +kernel
  have listed : ∀ p : Punct, p ∈ Punct.all := fun p => List.mem_of_find?_eq_some p.atFront?_self
  have joined := all p (listed p) q (listed q)
    (List.isPrefixOf_iff_prefix.mpr ⟨c :: s, longer⟩)
  rw [← longer, List.drop_left, List.head?_cons, Option.all_some] at joined
  exact List.contains_iff_mem.mp joined

theorem Punct.atFront?_chars {p : Punct} {s : List Char} (apart : p.Apart s) :
    Punct.atFront? (p.chars ++ s) = some p := by
  have alike : ∀ q : Punct, q.chars.isPrefixOf (p.chars ++ s) = q.chars.isPrefixOf p.chars := by
    intro q
    rw [Bool.eq_iff_iff, List.isPrefixOf_iff_prefix, List.isPrefixOf_iff_prefix]
    constructor
    · intro front
      rcases List.prefix_or_prefix_of_prefix front (List.prefix_append p.chars s) with
        shorter | ⟨rest, longer⟩
      · exact shorter
      · cases rest with
        | nil => exact ⟨[], by rw [← longer, List.append_nil, List.append_nil]⟩
        | cons c rest =>
          rw [← longer] at front
          obtain ⟨behind, rfl⟩ := (List.prefix_append_right_inj p.chars).mp front
          exact absurd (Punct.mem_joins longer) (apart c rfl)
    · exact fun shorter => shorter.trans (List.prefix_append p.chars s)
  rw [Punct.atFront?, funext alike]
  exact p.atFront?_self

theorem Punct.chars_front (p : Punct) : ∃ c tail, p.chars = c :: tail ∧ isBlank c = false ∧
    c ≠ '@' ∧ isIdentStart c = false ∧ c.isDigit = false ∧ c ≠ '"' := by
  cases p <;> exact ⟨_, _, rfl, by decide⟩

theorem Punct.chars_slash {p : Punct} {tail : List Char} (h : p.chars = '/' :: tail) :
    p = .slash ∧ tail = [] := by
  cases p <;> simp_all [Punct.chars]

/-- A mark reads as itself, if what follows does not continue it. -/
theorem Lexes.punct {p : Punct} {s : List Char} {ls : List Lexeme} (apart : p.Apart s)
    (h : Lexes s ls) : Lexes (p.chars ++ s) (.punct p :: ls) := by
  have found := Punct.atFront?_chars apart
  obtain ⟨c, tail, chars, solid, noAt, noWord, noDigit, noQuote⟩ := p.chars_front
  rw [chars] at found
  rw [chars, List.cons_append]
  refine .token solid ?_ (fun pos => ?_) h
  · rintro rfl
    obtain ⟨rfl, rfl⟩ := Punct.chars_slash chars
    intro slash
    exact apart '/' slash (by decide)
  · rw [scan, if_neg (by simpa using noAt), if_neg (by simp [noWord]), if_neg (by simp [noDigit]),
      if_neg (by simpa using noQuote), ← List.cons_append, found]
    refine ⟨_, rfl, rfl, ?_⟩
    rw [← chars, List.drop_left]

theorem Punct.apart_of_joins {p : Punct} (none : p.joins = []) (s : List Char) : p.Apart s := by
  intro c _ join
  rw [none] at join
  cases join

/-! ### Words -/

/-- Whether a text is read as one word without an escape. -/
def IsWord (x : List Char) : Prop :=
  (∃ c tail, x = c :: tail ∧ isIdentStart c = true ∧ isBlank c = false) ∧
    ∀ d ∈ x, isIdentPart d = true

/-- What can stand behind a word or a number without continuing it. -/
def EndsWord : List Char → Prop
  | [] => True
  | c :: s => isIdentPart c = false ∧ (c = '.' → ∀ d ∈ s.head?, d.isDigit = false)

theorem Lexes.word {x s : List Char} {ls : List Lexeme} (word : IsWord x) (ends : EndsWord s)
    (h : Lexes s ls) : Lexes (x ++ s) (wordLexeme x :: ls) := by
  have take : (x ++ s).takeWhile isIdentPart = x := by
    rw [List.takeWhile_append_of_pos word.2]
    cases s with
    | nil => simp
    | cons c s => rw [List.takeWhile_cons_of_neg (by simp [ends.1]), List.append_nil]
  have drop : (x ++ s).dropWhile isIdentPart = s := by
    rw [List.dropWhile_append_of_pos word.2]
    cases s with
    | nil => rfl
    | cons c s => rw [List.dropWhile_cons_of_neg (by simp [ends.1])]
  obtain ⟨⟨c, tail, rfl, start, solid⟩, -⟩ := word
  have noAt : isIdentStart '@' = false := by decide
  have noSlash : isIdentStart '/' = false := by decide
  rw [List.cons_append] at take drop ⊢
  refine .token solid ?_ (fun pos => ?_) h
  · rintro rfl
    rw [noSlash] at start
    cases start
  · have other : c ≠ '@' := by
      rintro rfl
      rw [noAt] at start
      cases start
    rw [scan, if_neg (by simpa using other), if_pos start, scanWord, take, drop]
    exact ⟨_, rfl, rfl, rfl⟩

theorem isWord_keyword (k : Keyword) : IsWord k.text.toList := by
  cases k <;> exact ⟨⟨_, _, rfl, by decide⟩, List.all_eq_true.mp (by decide +kernel)⟩

theorem wordLexeme_keyword (k : Keyword) : wordLexeme k.text.toList = .keyword k := by
  cases k <;> rfl

theorem Lexes.keyword (k : Keyword) {s : List Char} {ls : List Lexeme} (ends : EndsWord s)
    (h : Lexes s ls) : Lexes (k.text.toList ++ s) (.keyword k :: ls) := by
  have read := h.word (isWord_keyword k) ends
  rw [wordLexeme_keyword] at read
  exact read

/-- Whether a name reads as an identifier without an escape. -/
def IsName (x : String) : Prop := IsWord x.toList ∧ Keyword.ofText? x = none

/-- No character of an identifier is white space. -/
theorem isBlank_of_isIdentPart {c : Char} (part : isIdentPart c = true) : isBlank c = false := by
  have all : (Text.blankRanges.flatMap fun r => List.range' r.1 (r.2 + 1 - r.1)).all (fun n =>
      !isIdentPart (Char.ofNat n)) = true := by
    decide +kernel
  rw [← Bool.not_eq_true]
  intro blank
  obtain ⟨r, mem, low, high⟩ := Text.isBlank_iff.mp blank
  have listed : c.toNat ∈ Text.blankRanges.flatMap fun r => List.range' r.1 (r.2 + 1 - r.1) :=
    List.mem_flatMap.mpr ⟨r, mem, List.mem_range'_1.mpr ⟨low, by omega⟩⟩
  have other := List.all_eq_true.mp all c.toNat listed
  rw [Char.ofNat_toNat, part] at other
  cases other

/-- A name is a word that is not reserved. -/
theorem isName_iff {x : String} : IsName x ↔
    x.toList.head?.any isIdentStart = true ∧ x.toList.all isIdentPart = true ∧
      Keyword.ofText? x = none := by
  rw [IsName, IsWord, List.all_eq_true, ← and_assoc]
  refine and_congr_left fun _ => and_congr_left fun parts => ?_
  rw [Option.any_eq_true]
  constructor
  · rintro ⟨c, tail, chars, start, -⟩
    exact ⟨c, by rw [chars]; rfl, start⟩
  · rintro ⟨c, front, start⟩
    obtain ⟨tail, chars⟩ := List.head?_eq_some_iff.mp front
    have part : isIdentPart c = true := parts c (chars ▸ List.mem_cons_self)
    exact ⟨c, tail, chars, start, isBlank_of_isIdentPart part⟩

instance : DecidablePred IsName := fun _ => decidable_of_iff _ isName_iff.symm

theorem Lexes.ident {x : String} {s : List Char} {ls : List Lexeme} (name : IsName x)
    (ends : EndsWord s) (h : Lexes s ls) : Lexes (x.toList ++ s) (.ident x :: ls) := by
  have read := h.word name.1 ends
  rw [wordLexeme, String.ofList_toList, name.2] at read
  exact read

/-! ### Numbers -/

theorem isDigit_cases {c : Char} (h : c.isDigit = true) :
    c ∈ ['0', '1', '2', '3', '4', '5', '6', '7', '8', '9'] := by
  have bounds : 48 ≤ c.toNat ∧ c.toNat ≤ 57 := by
    simp only [Char.isDigit, Bool.and_eq_true, decide_eq_true_eq, ge_iff_le,
      UInt32.le_iff_toNat_le] at h
    exact h
  have all : ∀ n, 48 ≤ n → n ≤ 57 →
      Char.ofNat n ∈ ['0', '1', '2', '3', '4', '5', '6', '7', '8', '9'] := by
    intro n low high
    obtain ⟨k, rfl⟩ := Nat.exists_eq_add_of_le low
    have digits : ∀ k < 10,
        Char.ofNat (48 + k) ∈ ['0', '1', '2', '3', '4', '5', '6', '7', '8', '9'] := by decide
    exact digits k (by omega)
  have found := all c.toNat bounds.1 bounds.2
  rw [Char.ofNat_toNat] at found
  exact found

theorem digit_facts {c : Char} (h : c.isDigit = true) : isIdentStart c = false ∧
    isIdentPart c = true ∧ isBlank c = false ∧ c ≠ '@' ∧ c ≠ '/' ∧ c ≠ '_' := by
  have all : ['0', '1', '2', '3', '4', '5', '6', '7', '8', '9'].all (fun c =>
      decide (isIdentStart c = false ∧ isIdentPart c = true ∧ isBlank c = false ∧ c ≠ '@' ∧
        c ≠ '/' ∧ c ≠ '_')) = true := by
    decide
  exact of_decide_eq_true (List.all_eq_true.mp all c (isDigit_cases h))

/-- What can stand behind the digits of a number: neither a digit nor an underscore, nor a point
before a digit if no point has been read. -/
def StopsNumber (point : Bool) : List Char → Prop
  | [] => True
  | c :: s => c.isDigit = false ∧ c ≠ '_' ∧
      (c = '.' → point = false → ∀ d ∈ s.head?, d.isDigit = false)

theorem splitNumber_stop {point : Bool} {s : List Char} (stop : StopsNumber point s) :
    splitNumber point s = ([], s, point) := by
  cases s with
  | nil => rfl
  | cons c s =>
    obtain ⟨noDigit, noBar, noPoint⟩ := stop
    rw [splitNumber, if_neg (by simp [noDigit, noBar]), if_neg]
    intro dot
    simp only [Bool.and_eq_true, beq_iff_eq, Bool.not_eq_true', Option.any_eq_true] at dot
    obtain ⟨⟨dot, none⟩, d, front, digit⟩ := dot
    rw [noPoint dot none d front] at digit
    cases digit

/-- The digits that were split off are split off again, whatever other text follows. -/
theorem splitNumber_append {point q : Bool} {s body rest s' : List Char}
    (h : splitNumber point s = (body, rest, q)) (stop : StopsNumber q s') :
    splitNumber point (body ++ s') = (body, s', q) := by
  fun_induction splitNumber point s generalizing body rest with
  | case1 point => cases h; exact splitNumber_stop stop
  | case2 point c s digit body' rest' q' read ih =>
    cases h
    rw [List.cons_append, splitNumber, if_pos digit, ih read]
  | case3 point c s noDigit dot body' rest' q' read ih =>
    cases h
    have front : (body' ++ s').head? = s.head? := by
      cases s with
      | nil => simp at dot
      | cons d t =>
        have digit : d.isDigit = true := by
          simp only [Bool.and_eq_true, List.head?_cons, Option.any_some] at dot
          exact dot.2
        rw [splitNumber, if_pos (by simp [digit])] at read
        cases read
        rfl
    rw [List.cons_append, splitNumber, if_neg noDigit, front, if_pos dot, ih read]
  | case4 point c s => cases h; exact splitNumber_stop stop

theorem splitNumber_digits {digits s : List Char} (all : ∀ c ∈ digits, c.isDigit = true)
    (stop : StopsNumber false s) : splitNumber false (digits ++ s) = (digits, s, false) := by
  induction digits with
  | nil => exact splitNumber_stop stop
  | cons c digits ih =>
    have ih := ih fun d mem => all d (List.mem_cons_of_mem _ mem)
    rw [List.cons_append, splitNumber, if_pos (by simp [all c List.mem_cons_self]), ih]

theorem EndsWord.stopsNumber {s : List Char} (ends : EndsWord s) (point : Bool) :
    StopsNumber point s := by
  cases s with
  | nil => trivial
  | cons c s =>
    refine ⟨?_, ?_, fun dot _ => ends.2 dot⟩
    · cases digit : c.isDigit with
      | false => rfl
      | true => exact absurd ((digit_facts digit).2.1.symm.trans ends.1) (by decide)
    · rintro rfl
      exact absurd ends.1 (by decide)

theorem splitSuffix_of_endsWord {s : List Char} (ends : EndsWord s) :
    splitSuffix s = (.absent, [], s) := by
  cases s with
  | nil => rfl
  | cons c s =>
    have other : ∀ letters : List Char, letters.all isIdentPart = true → c ∉ letters := by
      intro letters part mem
      exact absurd ((List.all_eq_true.mp part c mem).symm.trans ends.1) (by decide)
    have real := other ['f', 'F', 'd', 'D', 'm', 'M'] (by decide)
    have integer := other ['l', 'L', 'u', 'U'] (by decide)
    rw [splitSuffix, if_neg real, if_neg integer]

/-- An integer in range reads as itself. -/
theorem Lexes.int {n : Nat} {s : List Char} {ls : List Lexeme} (small : n ≤ maxInteger)
    (ends : EndsWord s) (h : Lexes s ls) : Lexes (Nat.toDigits 10 n ++ s) (.int n :: ls) := by
  have digits : ∀ c ∈ Nat.toDigits 10 n, c.isDigit = true :=
    fun c mem => Nat.isDigit_of_mem_toDigits (by decide) (by decide) mem
  have split := splitNumber_digits digits (ends.stopsNumber false)
  have value : digitsValue (Nat.toDigits 10 n) = n := by
    have read := Nat.ofDigitChars_ten_toDigits (n := n)
    rw [Nat.ofDigitChars_eq_foldl] at read
    exact read
  have plain : (Nat.toDigits 10 n).filter (· != '_') = Nat.toDigits 10 n := by
    refine List.filter_eq_self.mpr fun c mem => ?_
    simpa using (digit_facts (digits c mem)).2.2.2.2.2
  have nonempty := Nat.toDigits_ne_nil (n := n) (b := 10)
  generalize Nat.toDigits 10 n = written at *
  cases written with
  | nil => exact absurd rfl nonempty
  | cons c tail =>
    have digit := digits c List.mem_cons_self
    obtain ⟨noWord, -, solid, noAt, noSlash, -⟩ := digit_facts digit
    rw [List.cons_append] at split ⊢
    refine .token solid (fun slash => absurd slash noSlash) (fun pos => ?_) h
    rw [scan, if_neg (by simpa using noAt), if_neg (by simp [noWord]), if_pos digit, scanNumber]
    simp only [split, splitSuffix_of_endsWord ends, plain, value]
    rw [if_neg (by decide), if_pos small]
    exact ⟨_, rfl, rfl, rfl⟩

/-- Whether a text is read as one real number. -/
def IsReal (text : String) : Prop :=
  (∃ c tail, text.toList = c :: tail ∧ c.isDigit = true) ∧
    ∀ pos s, EndsWord s →
      scanNumber pos (text.toList ++ s) = .ok ⟨.float text, text.toList, s⟩

theorem Lexes.float {text : String} {s : List Char} {ls : List Lexeme} (real : IsReal text)
    (ends : EndsWord s) (h : Lexes s ls) : Lexes (text.toList ++ s) (.float text :: ls) := by
  obtain ⟨⟨c, tail, eq, digit⟩, read⟩ := real
  obtain ⟨noWord, -, solid, noAt, noSlash, -⟩ := digit_facts digit
  have read := fun pos => read pos s ends
  rw [eq, List.cons_append] at read ⊢
  refine .token solid (fun slash => absurd slash noSlash) (fun pos => ?_) h
  rw [scan, if_neg (by simpa using noAt), if_neg (by simp [noWord]), if_pos digit, read pos]
  exact ⟨_, rfl, rfl, rfl⟩

/-! ### Strings -/

theorem scanStringBody_escaped {start pos : Nat} {c : Char} {s value written rest : List Char}
    (h : scanStringBody start (pos + 1 + c.utf8Size) s = .ok (value, written, rest)) :
    scanStringBody start pos ('\\' :: c :: s)
      = .ok (unescape c :: value, '\\' :: c :: written, rest) := by
  rw [scanStringBody, h]
  rfl

theorem scanStringBody_plain {start pos : Nat} {c : Char} {s value written rest : List Char}
    (noQuote : c ≠ '"') (noEscape : c ≠ '\\')
    (h : scanStringBody start (pos + c.utf8Size) s = .ok (value, written, rest)) :
    scanStringBody start pos (c :: s) = .ok (c :: value, c :: written, rest) := by
  rw [scanStringBody, h]
  · rfl
  · exact noQuote
  · exact fun eq => absurd eq noEscape
  · exact fun _ _ eq => absurd eq noEscape

/-- The characters of a string literal are read back from their escapes. -/
theorem scanStringBody_escape (start : Nat) (value s : List Char) (pos : Nat) :
    ∃ written, scanStringBody start pos (value.flatMap escapeInString ++ '"' :: s)
      = .ok (value, written, s) := by
  induction value generalizing pos with
  | nil => exact ⟨_, rfl⟩
  | cons c value ih =>
    rw [List.flatMap_cons, List.append_assoc]
    unfold escapeInString
    split
    all_goals try exact ⟨_, scanStringBody_escaped (ih _).choose_spec⟩
    next noQuote noEscape _ _ _ _ =>
      exact ⟨_, scanStringBody_plain noQuote noEscape (ih _).choose_spec⟩

theorem Lexes.string (value : String) {s : List Char} {ls : List Lexeme} (h : Lexes s ls) :
    Lexes ((Literal.string value).written ++ s) (.string value :: ls) := by
  rw [Literal.written, List.cons_append, List.append_assoc]
  refine .token (by decide) (fun slash => absurd slash (by decide)) (fun pos => ?_) h
  obtain ⟨written, read⟩ := scanStringBody_escape pos value.toList s (pos + 1)
  have noAt : ('"' == '@') = false := by decide
  have noWord : isIdentStart '"' = false := by decide
  rw [scan, if_neg (by simp [noAt]), if_neg (by simp [noWord]), if_neg (by decide),
    if_pos (by decide), scanString]
  simp only [List.singleton_append, read, bind, Except.bind, pure, Except.pure]
  exact ⟨_, rfl, congrArg _ String.ofList_toList, rfl⟩

/-! ### What the lexer reads can be written -/

/-- Whether a lexeme is read from its plain spelling. -/
def Lexeme.Writable : Lexeme → Prop
  | ident x => IsName x
  | int n => n ≤ maxInteger
  | float text => IsReal text
  | _ => True

theorem isIdentPart_of_start {c : Char} (h : isIdentStart c = true) : isIdentPart c = true := by
  simp only [isIdentStart, isIdentPart, Text.isAlphanumeric, Bool.or_eq_true] at h ⊢
  obtain letter | bar := h
  · exact .inl (.inl letter)
  · exact .inr bar

theorem isWord_takeWhile {c : Char} {s : List Char} (start : isIdentStart c = true) :
    IsWord ((c :: s).takeWhile isIdentPart) := by
  have part := isIdentPart_of_start start
  refine ⟨⟨c, s.takeWhile isIdentPart, ?_, start, isBlank_of_isIdentPart part⟩, fun d mem => ?_⟩
  · rw [List.takeWhile_cons_of_pos part]
  · exact List.all_eq_true.mp List.all_takeWhile d mem

theorem writable_wordLexeme {word : List Char} (h : IsWord word) : (wordLexeme word).Writable := by
  unfold wordLexeme
  split
  · trivial
  · next none => exact ⟨by rw [String.toList_ofList]; exact h, none⟩

theorem splitSuffix_append {s mark rest s' : List Char} {suffix : NumberSuffix}
    (h : splitSuffix s = (suffix, mark, rest)) (ends : EndsWord s') :
    splitSuffix (mark ++ s') = (suffix, mark, s') := by
  unfold splitSuffix at h
  split at h
  · cases h
    exact splitSuffix_of_endsWord ends
  · next c s =>
    split at h
    · next real =>
      cases h
      rw [List.singleton_append, splitSuffix, if_pos real]
    · next real =>
      split at h
      · next integer =>
        cases h
        rw [List.singleton_append, splitSuffix, if_neg real, if_pos integer]
      · cases h
        exact splitSuffix_of_endsWord ends

theorem stopsNumber_mark {s mark rest s' : List Char} {suffix : NumberSuffix} {point : Bool}
    (h : splitSuffix s = (suffix, mark, rest)) (ends : EndsWord s') :
    StopsNumber point (mark ++ s') := by
  have letters : ['f', 'F', 'd', 'D', 'm', 'M', 'l', 'L', 'u', 'U'].all (fun c =>
      decide (c.isDigit = false ∧ c ≠ '_' ∧ c ≠ '.')) = true := by decide
  have single : ∀ c ∈ ['f', 'F', 'd', 'D', 'm', 'M', 'l', 'L', 'u', 'U'],
      StopsNumber point ([c] ++ s') := by
    intro c mem
    obtain ⟨noDigit, noBar, noDot⟩ := of_decide_eq_true (List.all_eq_true.mp letters c mem)
    exact ⟨noDigit, noBar, fun dot => absurd dot noDot⟩
  unfold splitSuffix at h
  split at h
  · cases h
    exact ends.stopsNumber point
  · split at h
    · next mem =>
      cases h
      exact single _ (List.mem_append_left ['l', 'L', 'u', 'U'] mem)
    · split at h
      · next mem =>
        cases h
        exact single _ (List.mem_append_right ['f', 'F', 'd', 'D', 'm', 'M'] mem)
      · cases h
        exact ends.stopsNumber point

theorem writable_scanNumber {pos : Nat} {c : Char} {s : List Char} {r : Scan}
    (digit : c.isDigit = true) (h : scanNumber pos (c :: s) = .ok r) : r.lexeme.Writable := by
  unfold scanNumber at h
  rcases split : splitNumber false (c :: s) with ⟨body, afterBody, point⟩
  rcases splitMark : splitSuffix afterBody with ⟨suffix, mark, rest⟩
  simp only [split, splitMark] at h
  split at h
  · next real =>
    cases h
    refine ⟨?_, fun pos' s' ends => ?_⟩
    · rw [splitNumber, if_pos (by simp [digit])] at split
      cases split
      exact ⟨c, _, String.toList_ofList, digit⟩
    · have again := splitNumber_append split (stopsNumber_mark splitMark ends)
      have again' := splitSuffix_append splitMark ends
      rw [scanNumber, String.toList_ofList, List.append_assoc]
      simp only [again, again']
      rw [if_pos real]
  · split at h
    · next small => cases h; exact small
    · cases h

/-- What is scanned at a character: an escaped word, a word, a number, a string or a mark. -/
theorem scan_cases {pos : Nat} {c : Char} {s : List Char} {r : Scan} (h : scan pos c s = .ok r) :
    (c = '@' ∧ r = ⟨.ident (String.ofList (s.takeWhile isIdentPart)),
      '@' :: s.takeWhile isIdentPart, s.dropWhile isIdentPart⟩) ∨
    (isIdentStart c = true ∧ r = scanWord (c :: s)) ∨
    (c.isDigit = true ∧ scanNumber pos (c :: s) = .ok r) ∨
    (c = '"' ∧ scanString pos s = .ok r) ∨
    ∃ p : Punct, r = ⟨.punct p, p.chars, (c :: s).drop p.chars.length⟩ := by
  unfold scan at h
  split at h
  · next escape =>
    unfold scanEscapedWord at h
    split at h
    · cases h
    · cases h
      exact .inl ⟨beq_iff_eq.mp escape, rfl⟩
  · split at h
    · next start =>
      cases h
      exact .inr (.inl ⟨start, rfl⟩)
    · split at h
      · next digit => exact .inr (.inr (.inl ⟨digit, h⟩))
      · split at h
        · next quote => exact .inr (.inr (.inr (.inl ⟨beq_iff_eq.mp quote, h⟩)))
        · split at h
          · next p front =>
            cases h
            exact .inr (.inr (.inr (.inr ⟨p, rfl⟩)))
          · cases h

/-- What is read without an `@` is read from its plain spelling too. -/
theorem writable_of_scan {pos : Nat} {c : Char} {s : List Char} {r : Scan} (noAt : c ≠ '@')
    (h : scan pos c s = .ok r) : r.lexeme.Writable := by
  rcases scan_cases h with ⟨escape, -⟩ | ⟨start, rfl⟩ | ⟨digit, read⟩ | ⟨-, read⟩ | ⟨p, rfl⟩
  · exact absurd escape noAt
  · exact writable_wordLexeme (isWord_takeWhile start)
  · exact writable_scanNumber digit read
  · obtain ⟨v, body, made⟩ := bind_eq_ok_iff.mp read
    cases made
    trivial
  · trivial

/-- What holds of the end and of every lexeme that is scanned holds of all lexemes of a text. -/
theorem forall_lexFrom {P : Lexeme → Prop} (eof : P .eof)
    (scanned : ∀ pos c s r, scan pos c s = .ok r → P r.lexeme) {pos : Nat} {s : List Char}
    {ts : List Token} (h : lexFrom pos s = .ok ts) : ∀ t ∈ ts, P t.lexeme := by
  fun_induction lexFrom pos s generalizing ts with
  | case1 pos =>
    cases h
    exact List.forall_mem_singleton.mpr eof
  | case2 pos c tail blank ih => exact ih h
  | case3 pos c tail solid comment ih => exact ih h
  | case4 pos c tail solid noComment e failed => cases h
  | case5 pos c tail solid noComment r read stop =>
    rename_i ih
    obtain ⟨tokens, others, h⟩ := bind_eq_ok_iff.mp h
    cases h
    exact List.forall_mem_cons.mpr ⟨scanned pos c tail r read, ih others⟩

/-- Whether no identifier of a text is escaped: no token begins at an `@`. -/
def Unescaped (text : String) : Prop :=
  ∀ ts, lex text = .ok ts → ∀ before behind, text.toList = before ++ '@' :: behind →
    ∀ t ∈ ts, t.span.start ≠ byteSize before

theorem writable_of_lexFrom {pos : Nat} {s : List Char} {ts : List Token} (before : List Char)
    (h : lexFrom pos s = .ok ts) (place : pos = byteSize before)
    (unescaped : ∀ before' behind, before ++ s = before' ++ '@' :: behind →
      ∀ t ∈ ts, t.span.start ≠ byteSize before') : ∀ t ∈ ts, t.lexeme.Writable := by
  fun_induction lexFrom pos s generalizing before ts with
  | case1 pos =>
    cases h
    intro t mem
    rw [List.mem_singleton] at mem
    subst mem
    trivial
  | case2 pos c tail blank ih =>
    refine ih (before ++ [c]) h (by simp [place]) ?_
    simpa using unescaped
  | case3 pos c tail solid comment ih =>
    have slash : c = '/' := by
      rw [Bool.and_eq_true, beq_iff_eq] at comment
      exact comment.1
    have line : (c :: tail).takeWhile (· != '\n') ++ tail.dropWhile (· != '\n') = c :: tail := by
      subst slash
      exact List.takeWhile_append_dropWhile
    refine ih (before ++ (c :: tail).takeWhile (· != '\n')) h (by simp [place]) ?_
    rw [List.append_assoc, line]
    exact unescaped
  | case4 pos c tail solid noComment e failed => cases h
  | case5 pos c tail solid noComment r read stop =>
    rename_i ih
    obtain ⟨tokens, others, h⟩ := bind_eq_ok_iff.mp h
    cases h
    have noAt : c ≠ '@' := by
      rintro rfl
      exact unescaped before tail rfl _ List.mem_cons_self place
    have split := (scan_split read).1
    intro t mem
    rw [List.mem_cons] at mem
    obtain rfl | mem := mem
    · exact writable_of_scan noAt read
    · refine ih (before ++ r.written) others (by simp [stop, place]) ?_ t mem
      rw [List.append_assoc, split]
      exact fun before' behind eq u among =>
        unescaped before' behind eq u (List.mem_cons_of_mem _ among)

/-- The tokens of a text without escaped identifiers can be written plainly. -/
theorem Unescaped.writable {text : String} (unescaped : Unescaped text) {ts : List Token}
    (h : lex text = .ok ts) : ∀ l ∈ lexemes ts, l.Writable := by
  intro l mem
  obtain ⟨t, among, rfl⟩ := List.mem_map.mp mem
  exact writable_of_lexFrom [] h rfl (unescaped ts h) t among

end Marksmith.Syntax

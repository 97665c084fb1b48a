import Marksmith.Json.Decode
import Marksmith.Proofs.Json.Writing

/-!
Quoted texts and integers are read again as they were written.

* `readsBody_escaped`: the inside of a quoted text is read as it was before it was escaped;
* `readNumber_intChars`, `value?_toDigits`: an integer is read up to its last digit, and as itself if
  it fits 64 bits.
-/

namespace Marksmith.Json

/-! ### Blanks -/

theorem skipBlank_of_front {s : List Char} (front : ∀ c ∈ s.head?, isJsonBlank c = false) :
    (skipBlank s).rest = s := by
  cases s with
  | nil => rfl
  | cons c s => exact List.dropWhile_cons_of_neg (Bool.eq_false_iff.mp (front c rfl))

/-! ### Quoted texts -/

/-- A text is read as the body of a string up to and with its closing quote. -/
def ReadsBody (s body rest : List Char) : Prop :=
  ∃ bound, readStringBody s = .ok (some body, ⟨rest, bound⟩)

theorem readsBody_quote {x : List Char} (plain : ∀ c ∈ x, isPlain c) (rest : List Char) :
    ReadsBody (x ++ '"' :: rest) x rest := by
  have behind : (x ++ '"' :: rest).dropWhile isPlain = '"' :: rest := by
    rw [List.dropWhile_append_of_pos plain]
    rfl
  have front : (x ++ '"' :: rest).takeWhile isPlain = x := by
    rw [List.takeWhile_append_of_pos plain]
    exact List.append_nil x
  rw [ReadsBody, readStringBody]
  split
  · next h =>
    rw [behind] at h
    cases h
  · next h =>
    rw [behind] at h
    cases h
    rw [front]
    exact ⟨by simp; omega, rfl⟩
  · next h =>
    rw [behind] at h
    cases h
  · next noQuote _ => exact absurd behind (noQuote _)

theorem readsBody_escape {x e s body rest : List Char} {c : Char} {bound}
    (plain : ∀ c ∈ x, isPlain c) (escape : readEscape e = .ok (some c, ⟨s, bound⟩))
    (more : ReadsBody s body rest) : ReadsBody (x ++ '\\' :: e) (x ++ c :: body) rest := by
  obtain ⟨bound', more⟩ := more
  have behind : (x ++ '\\' :: e).dropWhile isPlain = '\\' :: e := by
    rw [List.dropWhile_append_of_pos plain]
    rfl
  have front : (x ++ '\\' :: e).takeWhile isPlain = x := by
    rw [List.takeWhile_append_of_pos plain]
    exact List.append_nil x
  rw [ReadsBody, readStringBody]
  split
  · next h =>
    rw [behind] at h
    cases h
  · next h =>
    rw [behind] at h
    cases h
  · next h =>
    rw [behind] at h
    cases h
    rw [escape]
    dsimp only
    rw [more, front]
    exact ⟨by simp; omega, rfl⟩
  · next noEscape => exact absurd behind (noEscape _)

theorem readHex_hexValue_hexDigit (n : Nat) : readHex.hexValue (hexDigit n) = some (n % 16) := by
  have all : ∀ m < 16, readHex.hexValue (Nat.digitChar m) = some m := by decide
  exact all (n % 16) (Nat.mod_lt n (by decide))

theorem readHex_control {n : Nat} (control : n < 32) (s : List Char) :
    ∃ bound, readHex ('0' :: '0' :: hexDigit (n / 16) :: hexDigit n :: s)
      = .ok (n, ⟨s, bound⟩) := by
  have value : ((0 * 16 + 0) * 16 + n / 16 % 16) * 16 + n % 16 = n := by omega
  have zero : readHex.hexValue '0' = some 0 := rfl
  refine ⟨by simp; omega, ?_⟩
  simp only [readHex, zero, readHex_hexValue_hexDigit, value]

/-- A character that does not stand for itself is escaped, and the escape is read again. -/
theorem exists_escape {c : Char} (special : isPlain c = false) :
    ∃ e, escapeChar c = '\\' :: e ∧
      ∀ s, ∃ bound, readEscape (e ++ s) = .ok (some c, ⟨s, bound⟩) := by
  unfold escapeChar
  split
  · exact ⟨_, rfl, fun s => ⟨by simp, rfl⟩⟩
  · exact ⟨_, rfl, fun s => ⟨by simp, rfl⟩⟩
  · exact ⟨_, rfl, fun s => ⟨by simp, rfl⟩⟩
  · exact ⟨_, rfl, fun s => ⟨by simp, rfl⟩⟩
  · exact ⟨_, rfl, fun s => ⟨by simp, rfl⟩⟩
  · exact ⟨_, rfl, fun s => ⟨by simp, rfl⟩⟩
  · exact ⟨_, rfl, fun s => ⟨by simp, rfl⟩⟩
  · next noQuote noSlash _ _ _ _ _ =>
    split
    · next control =>
      refine ⟨_, rfl, fun s => ?_⟩
      obtain ⟨bound, read⟩ := readHex_control control s
      have low : isLowSurrogate c.toNat = false := by simp [isLowSurrogate]; omega
      have high : isHighSurrogate c.toNat = false := by simp [isHighSurrogate]; omega
      simp only [List.cons_append, List.nil_append, readEscape]
      rw [read]
      simp only [bind, Except.bind, pure, Except.pure, low, high, Char.ofNat_toNat]
      exact ⟨by simp; omega, rfl⟩
    · next printable =>
      have plain : isPlain c = true := by
        simp only [isPlain, Bool.and_eq_true, bne_iff_ne, ne_eq, decide_eq_true_eq]
        exact ⟨⟨noQuote, noSlash⟩, by omega⟩
      rw [plain] at special
      cases special

theorem escapeChar_of_plain {c : Char} (plain : isPlain c) : escapeChar c = [c] := by
  unfold escapeChar
  split
  · exact absurd plain (by decide)
  · exact absurd plain (by decide)
  · exact absurd plain (by decide)
  · exact absurd plain (by decide)
  · exact absurd plain (by decide)
  · exact absurd plain (by decide)
  · exact absurd plain (by decide)
  · rw [isPlain, Bool.and_eq_true, decide_eq_true_eq] at plain
    rw [if_neg (by omega)]

/-- The inside of a quoted text is read as it was before it was escaped. -/
theorem readsBody_escaped {x : List Char} (plain : ∀ c ∈ x, isPlain c) (y rest : List Char) :
    ReadsBody (x ++ (y.flatMap escapeChar ++ '"' :: rest)) (x ++ y) rest := by
  induction y generalizing x with
  | nil =>
    rw [List.append_nil]
    exact readsBody_quote plain rest
  | cons c y ih =>
    rw [List.flatMap_cons, List.append_assoc]
    cases kind : isPlain c with
    | true =>
      rw [escapeChar_of_plain kind]
      have longer : ∀ d ∈ x ++ [c], isPlain d := by
        intro d mem
        rcases List.mem_append.mp mem with before | last
        · exact plain d before
        · rw [List.mem_singleton.mp last]
          exact kind
      have read := ih longer
      rw [List.append_assoc, List.append_assoc] at read
      exact read
    | false =>
      obtain ⟨e, escaped, reads⟩ := exists_escape kind
      obtain ⟨bound, read⟩ := reads (y.flatMap escapeChar ++ '"' :: rest)
      have none : ∀ d ∈ ([] : List Char), isPlain d := by
        intro d mem
        cases mem
      have more := ih none
      rw [escaped]
      exact readsBody_escape plain read more

/-! ### Numbers -/

/-- Nothing that a number could go on with. -/
def EndsNumber (s : List Char) : Prop :=
  ∀ c ∈ s.head?, c.isDigit = false ∧ c ≠ '.' ∧ c ≠ 'e' ∧ c ≠ 'E'

theorem takeDigits_of_lt {m : Nat} {ds : List Char}
    (small : ds.foldl (fun n c => 10 * n + digitValue c) m < wordLimit) :
    takeDigits m ds = (ds.foldl (fun n c => 10 * n + digitValue c) m, 0) := by
  have grows : ∀ (ds : List Char) (m : Nat),
      m ≤ ds.foldl (fun n c => 10 * n + digitValue c) m := by
    intro ds
    induction ds with
    | nil => exact fun m => Nat.le_refl m
    | cons c ds ih =>
      intro m
      have step := ih (10 * m + digitValue c)
      rw [List.foldl_cons]
      omega
  induction ds generalizing m with
  | nil => rfl
  | cons c ds ih =>
    rw [List.foldl_cons] at small ⊢
    have step := grows ds (10 * m + digitValue c)
    rw [takeDigits, if_pos (by omega), ih small]

theorem takeDigits_toDigits {n : Nat} (small : n < wordLimit) :
    takeDigits 0 (Nat.toDigits 10 n) = (n, 0) := by
  have value : (Nat.toDigits 10 n).foldl (fun n c => 10 * n + digitValue c) 0 = n :=
    Nat.ofDigitChars_toDigits (by decide) (by decide)
  rw [takeDigits_of_lt (by rw [value]; exact small), value]

/-- Only zero is written with a zero in front. -/
theorem front_toDigits {n : Nat} (positive : 0 < n) {c : Char} {s : List Char}
    (front : Nat.toDigits 10 n = c :: s) : c ≠ '0' := by
  induction n using Nat.strong_induction_on generalizing s with
  | _ n ih =>
    by_cases single : n < 10
    · rw [Nat.toDigits_of_lt_base single] at front
      have digits : ∀ m < 10, 0 < m → Nat.digitChar m ≠ '0' := by decide
      rw [← (List.cons.inj front).1]
      exact digits n single positive
    · rw [Nat.toDigits_of_base_le (by decide) (by omega)] at front
      cases shorter : Nat.toDigits 10 (n / 10) with
      | nil => exact absurd shorter Nat.toDigits_ne_nil
      | cons d t =>
        rw [shorter] at front
        cases front
        exact ih (n / 10) (by omega) (by omega) shorter

theorem EndsNumber.takeWhile {s : List Char} (ends : EndsNumber s) : s.takeWhile Char.isDigit = [] := by
  cases s with
  | nil => rfl
  | cons c s => exact List.takeWhile_cons_of_neg (Bool.eq_false_iff.mp (ends c rfl).1)

theorem EndsNumber.dropWhile {s : List Char} (ends : EndsNumber s) : s.dropWhile Char.isDigit = s := by
  cases s with
  | nil => rfl
  | cons c s => exact List.dropWhile_cons_of_neg (Bool.eq_false_iff.mp (ends c rfl).1)

variable {rest : List Char}

theorem digitsOf_toDigits (n : Nat) (ends : EndsNumber rest) :
    digitsOf (Nat.toDigits 10 n ++ rest) = Nat.toDigits 10 n := by
  rw [digitsOf, List.takeWhile_append_of_pos fun c mem => isDigit_of_mem mem, ends.takeWhile,
    List.append_nil]

theorem afterDigits_toDigits (n : Nat) (ends : EndsNumber rest) :
    afterDigits (Nat.toDigits 10 n ++ rest) = rest := by
  rw [afterDigits, List.dropWhile_append_of_pos fun c mem => isDigit_of_mem mem, ends.dropWhile]

theorem readWhole_toDigits (n : Nat) (ends : EndsNumber rest) :
    ∃ bound, readWhole (Nat.toDigits 10 n ++ rest) = .ok (Nat.toDigits 10 n, ⟨rest, bound⟩) := by
  rcases Nat.eq_zero_or_pos n with rfl | positive
  · have apart : ¬rest.head?.any Char.isDigit = true := by
      intro digit
      obtain ⟨c, front, isDigit⟩ := (Option.any_eq_true ..).mp digit
      rw [(ends c front).1] at isDigit
      cases isDigit
    rw [Nat.toDigits_zero]
    refine ⟨by simp, ?_⟩
    show (if rest.head?.any Char.isDigit then _ else _) = _
    rw [if_neg apart]
    rfl
  · have digits := digitsOf_toDigits n ends
    have after := afterDigits_toDigits n ends
    generalize text : Nat.toDigits 10 n ++ rest = s at digits after
    rw [readWhole.eq_def]
    split
    · next zero =>
      cases front : Nat.toDigits 10 n with
      | nil => exact absurd front Nat.toDigits_ne_nil
      | cons c t =>
        rw [front] at text
        cases text
        exact absurd rfl (front_toDigits positive front)
    · have some : ¬(digitsOf s).isEmpty = true := by
        rw [digits, List.isEmpty_iff]
        exact Nat.toDigits_ne_nil
      have shorter := afterDigits_lt some
      rw [after] at shorter
      refine ⟨shorter, ?_⟩
      rw [dif_neg some]
      simp only [digits, after]

theorem readFraction_of_ends (ends : EndsNumber rest) :
    ∃ bound, readFraction rest = .ok (none, ⟨rest, bound⟩) := by
  rw [readFraction.eq_def]
  split
  · exact absurd rfl (ends '.' rfl).2.1
  · exact ⟨Nat.le_refl _, rfl⟩

theorem readExponent_of_ends (ends : EndsNumber rest) :
    ∃ bound, readExponent rest = .ok (none, ⟨rest, bound⟩) := by
  rw [readExponent.eq_def]
  split
  · exact ⟨Nat.le_refl _, rfl⟩
  · next c behind =>
    obtain ⟨-, -, small, capital⟩ := ends c rfl
    rw [if_neg (by simp [small, capital])]
    exact ⟨Nat.le_refl _, rfl⟩

/-- A number that has no more than digits behind its sign is read up to the last one. -/
theorem readNumber_of_digits {c : Char} {behind s digits : List Char} {bound}
    (front : (if c = '-' then behind else c :: behind) = s)
    (whole : readWhole s = .ok (digits, ⟨rest, bound⟩)) (ends : EndsNumber rest) :
    ∃ bound, readNumber (c :: behind) = .ok (⟨c = '-', digits, none, none⟩, ⟨rest, bound⟩) := by
  obtain ⟨_, fraction⟩ := readFraction_of_ends ends
  obtain ⟨_, exponent⟩ := readExponent_of_ends ends
  have start : (if c = '-' then Remainder.behind c behind
      else ⟨c :: behind, by simp⟩ : Remainder (c :: behind)).rest = s := by
    rw [← front]
    split <;> rfl
  have read : ∃ bound, readWhole (if c = '-' then Remainder.behind c behind
      else ⟨c :: behind, by simp⟩ : Remainder (c :: behind)).rest
        = .ok (digits, ⟨rest, bound⟩) := by
    rw [start]
    exact ⟨bound, whole⟩
  obtain ⟨_, read⟩ := read
  have shorter : s.length ≤ (c :: behind).length := by
    rw [← front]
    split
    · exact Nat.le_succ _
    · exact Nat.le_refl _
  refine ⟨Nat.lt_of_lt_of_le bound shorter, ?_⟩
  rw [readNumber]
  simp only [read, fraction, exponent, bind, Except.bind, pure, Except.pure]

/-- An integer is read up to its last digit. -/
theorem readNumber_intChars (n : Int) (ends : EndsNumber rest) :
    ∃ bound, readNumber (intChars n ++ rest)
      = .ok (⟨decide (n < 0), Nat.toDigits 10 n.natAbs, none, none⟩, ⟨rest, bound⟩) := by
  obtain ⟨bound, whole⟩ := readWhole_toDigits n.natAbs ends
  rw [intChars_eq]
  by_cases negative : n < 0
  · rw [decide_eq_true negative]
    exact readNumber_of_digits (if_pos rfl) whole ends
  · rw [decide_eq_false negative]
    obtain ⟨c, t, digits⟩ := List.exists_cons_of_ne_nil (@Nat.toDigits_ne_nil n.natAbs 10)
    have unsigned : c ≠ '-' := by
      rintro rfl
      exact sign_notMem n.natAbs (digits ▸ List.mem_cons_self)
    have text : c :: (t ++ rest) = Nat.toDigits 10 n.natAbs ++ rest := by
      rw [digits, List.cons_append]
    have number := readNumber_of_digits ((if_neg unsigned).trans text) whole ends
    rw [decide_eq_false unsigned, text] at number
    exact number

/-- An integer that fits 64 bits is read as itself. -/
theorem value?_toDigits {n : Int} (low : -0x8000000000000000 ≤ n) (high : n < 0x10000000000000000) :
    NumberText.value? ⟨decide (n < 0), Nat.toDigits 10 n.natAbs, none, none⟩ = some (.int n) := by
  have small : n.natAbs < wordLimit := by
    rw [wordLimit]
    omega
  simp only [NumberText.value?, takeDigits_toDigits small]
  rw [if_pos trivial]
  by_cases negative : n < 0
  · rw [decide_eq_true negative, if_neg (by simp), if_neg (by simp; omega)]
    exact congrArg some (congrArg Number.int (by omega))
  · rw [decide_eq_false negative, if_pos (by decide)]
    exact congrArg some (congrArg Number.int (by omega))

end Marksmith.Json

import Marksmith.Json.Value
import Marksmith.Proofs.Lists

/-!
The compact text of a value can be read in one way only. A text has no marks of length, so the proof
follows the text from its front: the first character tells the kind of the value, and the value ends
where its kind says.

* `escaped_inj`: a quoted text ends at the first quote that is not escaped;
* `realChars_injective`: a real number is determined by its exact decimal value;
* `written_append_inj`: equal texts behind which no number can go on begin with equal values;
* `written_injective`: different values have different texts.
-/

namespace Marksmith.Json

/-! ### Quoted texts -/

/-- The value of a hexadecimal digit. -/
def hexValue (c : Char) : Nat := "0123456789abcdef".toList.idxOf c

theorem hexValue_hexDigit (n : Nat) : hexValue (hexDigit n) = n % 16 := by
  have all : ∀ m < 16, hexValue (Nat.digitChar m) = m := by decide
  exact all (n % 16) (Nat.mod_lt n (by decide))

/-- The first character of the inside of a quoted text, and what follows. -/
def unescape : List Char → Option (Char × List Char)
  | '\\' :: '"' :: r => some ('"', r)
  | '\\' :: '\\' :: r => some ('\\', r)
  | '\\' :: 'n' :: r => some ('\n', r)
  | '\\' :: 'r' :: r => some ('\r', r)
  | '\\' :: 't' :: r => some ('\t', r)
  | '\\' :: 'b' :: r => some ('\x08', r)
  | '\\' :: 'f' :: r => some ('\x0c', r)
  | '\\' :: 'u' :: '0' :: '0' :: high :: low :: r =>
    some (Char.ofNat (16 * hexValue high + hexValue low), r)
  | c :: r => some (c, r)
  | [] => none

/-- Escaping a character can be undone. -/
theorem unescape_escapeChar (c : Char) (r : List Char) :
    unescape (escapeChar c ++ r) = some (c, r) := by
  unfold escapeChar
  split
  · rfl
  · rfl
  · rfl
  · rfl
  · rfl
  · rfl
  · rfl
  · next plain _ _ _ _ _ _ =>
    split
    · next control =>
      have value : 16 * (c.toNat / 16 % 16) + c.toNat % 16 = c.toNat := by omega
      simp only [List.cons_append, List.nil_append, unescape, hexValue_hexDigit, value,
        Char.ofNat_toNat]
    · rw [List.singleton_append, unescape.eq_def]
      split <;> simp_all

theorem escapeChar_append_inj {c d : Char} {s t : List Char}
    (same : escapeChar c ++ s = escapeChar d ++ t) : c = d ∧ s = t := by
  have read := congrArg unescape same
  rw [unescape_escapeChar, unescape_escapeChar] at read
  exact Prod.mk.inj (Option.some.inj read)

/-- No character is escaped as a quote. -/
theorem escapeChar_ne_quote (c : Char) (s t : List Char) : escapeChar c ++ s ≠ '"' :: t := by
  intro same
  have read := congrArg unescape same
  rw [unescape_escapeChar] at read
  have quote : c = '"' := (Prod.mk.inj (Option.some.inj read)).1
  subst quote
  cases same

/-- The inside of a quoted text ends at the first quote that is not escaped. -/
theorem escaped_inj {x y s t : List Char}
    (same : x.flatMap escapeChar ++ '"' :: s = y.flatMap escapeChar ++ '"' :: t) :
    x = y ∧ s = t := by
  induction x generalizing y with
  | nil =>
    cases y with
    | nil => exact ⟨rfl, (List.cons.inj same).2⟩
    | cons d y =>
      rw [List.flatMap_cons, List.append_assoc] at same
      exact absurd same.symm (escapeChar_ne_quote d _ _)
  | cons c x ih =>
    rw [List.flatMap_cons, List.append_assoc] at same
    cases y with
    | nil => exact absurd same (escapeChar_ne_quote c _ _)
    | cons d y =>
      rw [List.flatMap_cons, List.append_assoc] at same
      obtain ⟨here, later⟩ := escapeChar_append_inj same
      obtain ⟨rest, behind⟩ := ih later
      exact ⟨by rw [here, rest], behind⟩

theorem quotedChars_append_inj {k l : String} {s t : List Char}
    (same : quotedChars k ++ s = quotedChars l ++ t) : k = l ∧ s = t := by
  simp only [quotedChars, List.cons_append, List.append_assoc, List.cons.injEq,
    true_and] at same
  obtain ⟨inside, behind⟩ := escaped_inj same
  exact ⟨String.toList_injective inside, behind⟩

/-! ### Numbers -/

/-- The characters that numbers are written with. -/
def isNumeral (c : Char) : Bool := c.isDigit || c == '-' || c == 'e'

theorem toDigits_injective {m n : Nat} (same : Nat.toDigits 10 m = Nat.toDigits 10 n) : m = n := by
  have value := congrArg (Nat.ofDigitChars 10 · 0) same
  simpa using value

theorem isDigit_of_mem {c : Char} {n : Nat} (mem : c ∈ Nat.toDigits 10 n) : c.isDigit :=
  Nat.isDigit_of_mem_toDigits (by decide) (by decide) mem

theorem isNumeral_of_mem {c : Char} {n : Nat} (mem : c ∈ Nat.toDigits 10 n) : isNumeral c := by
  rw [isNumeral, isDigit_of_mem mem]
  rfl

theorem sign_notMem (n : Nat) : '-' ∉ Nat.toDigits 10 n :=
  fun mem => absurd (isDigit_of_mem mem) (by decide)

theorem exponent_notMem (n : Nat) : 'e' ∉ Nat.toDigits 10 n :=
  fun mem => absurd (isDigit_of_mem mem) (by decide)

/-- The sign of a number. -/
def signChars (negative : Bool) : List Char := if negative then ['-'] else []

theorem exponent_notMem_signed (negative : Bool) (n : Nat) :
    'e' ∉ signChars negative ++ Nat.toDigits 10 n := by
  intro mem
  rcases List.mem_append.mp mem with sign | digit
  · cases negative with
    | false => cases sign
    | true => cases List.mem_singleton.mp sign
  · exact exponent_notMem n digit

theorem isNumeral_of_mem_signed {c : Char} {negative : Bool} {n : Nat}
    (mem : c ∈ signChars negative ++ Nat.toDigits 10 n) : isNumeral c := by
  rcases List.mem_append.mp mem with sign | digit
  · cases negative with
    | false => cases sign
    | true =>
      rw [List.mem_singleton.mp sign]
      rfl
  · exact isNumeral_of_mem digit

/-- A sign can be told from digits. -/
theorem signed_inj {a b : Bool} {m n : Nat}
    (same : signChars a ++ Nat.toDigits 10 m = signChars b ++ Nat.toDigits 10 n) :
    a = b ∧ m = n := by
  cases a with
  | false =>
    cases b with
    | false => exact ⟨rfl, toDigits_injective same⟩
    | true =>
      have front : Nat.toDigits 10 m = '-' :: Nat.toDigits 10 n := same
      have mem : '-' ∈ Nat.toDigits 10 m := front ▸ List.mem_cons_self
      exact absurd mem (sign_notMem m)
  | true =>
    cases b with
    | false =>
      have front : '-' :: Nat.toDigits 10 m = Nat.toDigits 10 n := same
      have mem : '-' ∈ Nat.toDigits 10 n := front ▸ List.mem_cons_self
      exact absurd mem (sign_notMem n)
    | true => exact ⟨rfl, toDigits_injective (List.cons.inj same).2⟩

theorem intChars_eq (n : Int) :
    intChars n = signChars (decide (n < 0)) ++ Nat.toDigits 10 n.natAbs := by
  cases n with
  | ofNat n => rfl
  | negSucc n =>
    rw [decide_eq_true (Int.negSucc_lt_zero n)]
    rfl

theorem intChars_injective {m n : Int} (same : intChars m = intChars n) : m = n := by
  rw [intChars_eq, intChars_eq] at same
  obtain ⟨sign, size⟩ := signed_inj same
  have sides := decide_eq_decide.mp sign
  omega

/-- The digits in front of the exponent, as a number, and the exponent of a scaled significand. -/
inductive Scaled : Nat × Int → Nat → List Char → Prop
  | whole (n k : Nat) : Scaled (n, .ofNat k) (n <<< k) ['0']
  | fraction (n k : Nat) :
    Scaled (n, .negSucc k) (n * Nat.pow 5 (k + 1)) ('-' :: Nat.toDigits 10 (k + 1))

theorem exists_scaled (bits : UInt64) :
    ∃ m exponent, Scaled (significand bits) m exponent ∧
      realChars bits = signChars (decide (¬bits.toNat < 0x8000000000000000)) ++
        Nat.toDigits 10 m ++ 'e' :: exponent := by
  have sign : (if bits.toNat < 0x8000000000000000 then [] else ['-'])
      = signChars (decide (¬bits.toNat < 0x8000000000000000)) := by
    by_cases small : bits.toNat < 0x8000000000000000
    · simp [small, signChars]
    · simp [small, signChars]
  rw [realChars, sign]
  rcases significand bits with ⟨n, k | k⟩
  · exact ⟨_, _, .whole n k, by simp⟩
  · exact ⟨_, _, .fraction n k, by simp⟩

/-- A significand that is scaled up uses all its bits. -/
theorem significand_whole {bits : UInt64} {n k : Nat} (whole : significand bits = (n, .ofNat k)) :
    fractionLimit ≤ n ∧ n < 2 * fractionLimit := by
  have small : bits.toNat % fractionLimit < fractionLimit := Nat.mod_lt _ (by decide)
  rw [significand] at whole
  split at whole
  · cases (Prod.mk.inj whole).2
  · have size := (Prod.mk.inj whole).1
    omega

theorem shifted_inj {m n j k : Nat} (low : fractionLimit ≤ m ∧ m < 2 * fractionLimit)
    (low' : fractionLimit ≤ n ∧ n < 2 * fractionLimit) (same : m <<< j = n <<< k) :
    m = n ∧ j = k := by
  -- The larger shift would have to make up for a significand less than half as large.
  have ordered : ∀ {m n j d : Nat}, m < 2 * fractionLimit → fractionLimit ≤ n →
      m <<< j = n <<< (j + d) → d = 0 := by
    intro m n j d high low same
    rw [Nat.shiftLeft_eq, Nat.shiftLeft_eq, Nat.pow_add, Nat.mul_left_comm, Nat.mul_comm m] at same
    have value : m = n * 2 ^ d := Nat.eq_of_mul_eq_mul_left (Nat.two_pow_pos j) same
    cases d with
    | zero => rfl
    | succ d =>
      have grows : n * 2 ≤ n * 2 ^ (d + 1) :=
        Nat.mul_le_mul_left n (Nat.le_self_pow (by omega) 2)
      omega
  have shifts : j = k := by
    rcases Nat.le_total j k with le | le
    · obtain ⟨d, rfl⟩ := Nat.exists_eq_add_of_le le
      rw [ordered low.2 low'.1 same, Nat.add_zero]
    · obtain ⟨d, rfl⟩ := Nat.exists_eq_add_of_le le
      rw [ordered low'.2 low.1 same.symm, Nat.add_zero]
  subst shifts
  rw [Nat.shiftLeft_eq, Nat.shiftLeft_eq] at same
  exact ⟨Nat.eq_of_mul_eq_mul_right (Nat.two_pow_pos j) same, rfl⟩

theorem Scaled.significand_inj {a b : UInt64} {m : Nat} {exponent : List Char}
    (scaled : Scaled (significand a) m exponent) (scaled' : Scaled (significand b) m exponent) :
    significand a = significand b := by
  generalize shape : significand a = p at scaled
  generalize shape' : significand b = q at scaled'
  cases scaled with
  | whole n k =>
    generalize product : n <<< k = m at scaled'
    cases scaled' with
    | whole n' k' =>
      obtain ⟨rfl, rfl⟩ := shifted_inj (significand_whole shape) (significand_whole shape') product
      rfl
  | fraction n k =>
    generalize product : n * Nat.pow 5 (k + 1) = m at scaled'
    generalize power : '-' :: Nat.toDigits 10 (k + 1) = exponent at scaled'
    cases scaled' with
    | whole n' k' => cases (List.cons.inj power).1
    | fraction n' k' =>
      have scale := toDigits_injective (List.cons.inj power).2
      cases Nat.succ.inj scale
      rw [Nat.eq_of_mul_eq_mul_right (Nat.pow_pos (by decide)) product]

/-- A double is determined by its sign and its scaled significand. -/
theorem bits_inj {a b : UInt64}
    (sign : ¬a.toNat < 0x8000000000000000 ↔ ¬b.toNat < 0x8000000000000000)
    (same : significand a = significand b) : a = b := by
  have bound := a.toNat_lt
  have bound' := b.toNat_lt
  apply UInt64.toNat_inj.mp
  simp only [significand] at same
  by_cases zero : a.toNat / fractionLimit % 2048 = 0
  · by_cases zero' : b.toNat / fractionLimit % 2048 = 0
    · rw [if_pos zero, if_pos zero'] at same
      have fraction := (Prod.mk.inj same).1
      simp only [fractionLimit] at zero zero' fraction
      omega
    · rw [if_pos zero, if_neg zero'] at same
      have fraction := (Prod.mk.inj same).1
      simp only [fractionLimit] at fraction
      omega
  · by_cases zero' : b.toNat / fractionLimit % 2048 = 0
    · rw [if_neg zero, if_pos zero'] at same
      have fraction := (Prod.mk.inj same).1
      simp only [fractionLimit] at fraction
      omega
    · rw [if_neg zero, if_neg zero'] at same
      obtain ⟨fraction, exponent⟩ := Prod.mk.inj same
      simp only [fractionLimit] at fraction exponent
      omega

/-- The text of a real number determines its bits. -/
theorem realChars_injective {a b : UInt64} (same : realChars a = realChars b) : a = b := by
  obtain ⟨m, exponent, scaled, text⟩ := exists_scaled a
  obtain ⟨m', exponent', scaled', text'⟩ := exists_scaled b
  rw [text, text'] at same
  obtain ⟨front, rfl⟩ := before_inj (exponent_notMem_signed _ _) (exponent_notMem_signed _ _) same
  obtain ⟨sign, rfl⟩ := signed_inj front
  exact bits_inj (decide_eq_decide.mp sign) (scaled.significand_inj scaled')

theorem Scaled.isNumeral_exponent {p : Nat × Int} {m : Nat} {exponent : List Char}
    (scaled : Scaled p m exponent) {c : Char} (mem : c ∈ exponent) : isNumeral c := by
  cases scaled with
  | whole n k =>
    rw [List.mem_singleton.mp mem]
    rfl
  | fraction n k =>
    rcases List.mem_cons.mp mem with rfl | digit
    · rfl
    · exact isNumeral_of_mem digit

theorem isNumeral_intChars {n : Int} {c : Char} (mem : c ∈ intChars n) : isNumeral c := by
  rw [intChars_eq] at mem
  exact isNumeral_of_mem_signed mem

theorem isNumeral_realChars {bits : UInt64} {c : Char} (mem : c ∈ realChars bits) :
    isNumeral c := by
  obtain ⟨m, exponent, scaled, text⟩ := exists_scaled bits
  rw [text] at mem
  rcases List.mem_append.mp mem with front | behind
  · exact isNumeral_of_mem_signed front
  · rcases List.mem_cons.mp behind with rfl | digit
    · rfl
    · exact scaled.isNumeral_exponent digit

/-- Real numbers are written with an exponent, integers without. -/
theorem intChars_ne_realChars (n : Int) (bits : UInt64) : intChars n ≠ realChars bits := by
  intro same
  obtain ⟨m, exponent, _, text⟩ := exists_scaled bits
  have mem : 'e' ∈ intChars n := by
    rw [same, text]
    exact List.mem_append_right _ List.mem_cons_self
  rw [intChars_eq] at mem
  exact exponent_notMem_signed _ _ mem

/-! ### Fronts -/

/-- The kinds of values that the first character tells apart. -/
inductive Kind where
  | null | bool | number | string | array | object

/-- The kind of a value. -/
def kind : Json → Kind
  | .null => .null
  | .bool _ => .bool
  | .int _ | .real _ => .number
  | .string _ => .string
  | .array _ => .array
  | .object _ => .object

/-- The kind of the values that begin with a character. -/
def kindOf (c : Char) : Option Kind :=
  if isNumeral c then some .number
  else match c with
    | 'n' => some .null
    | 't' | 'f' => some .bool
    | '"' => some .string
    | '[' => some .array
    | '\x7b' => some .object
    | _ => none

theorem intChars_ne_nil (n : Int) : intChars n ≠ [] := by
  cases n with
  | ofNat n => exact Nat.toDigits_ne_nil
  | negSucc n => exact List.cons_ne_nil _ _

theorem realChars_ne_nil (bits : UInt64) : realChars bits ≠ [] := by
  obtain ⟨m, exponent, _, text⟩ := exists_scaled bits
  rw [text]
  exact List.append_ne_nil_of_right_ne_nil _ (List.cons_ne_nil _ _)

/-- A text made of the characters of numbers begins like a number. -/
theorem exists_front_numeral {x : List Char} (filled : x ≠ []) (inside : ∀ c ∈ x, isNumeral c) :
    ∃ c r, x = c :: r ∧ kindOf c = some .number := by
  cases x with
  | nil => exact absurd rfl filled
  | cons c r => exact ⟨c, r, rfl, if_pos (inside c List.mem_cons_self)⟩

/-- The text of a value begins with a character that tells its kind. -/
theorem exists_front (j : Json) : ∃ c r, written j = c :: r ∧ kindOf c = some (kind j) := by
  cases j with
  | null => exact ⟨'n', _, rfl, rfl⟩
  | bool value =>
    cases value with
    | true => exact ⟨'t', _, rfl, rfl⟩
    | false => exact ⟨'f', _, rfl, rfl⟩
  | int n =>
    rw [written]
    exact exists_front_numeral (intChars_ne_nil n) fun _ => isNumeral_intChars
  | real bits =>
    rw [written]
    exact exists_front_numeral (realChars_ne_nil bits) fun _ => isNumeral_realChars
  | string s =>
    rw [written, quotedChars]
    exact ⟨'"', _, rfl, rfl⟩
  | array items =>
    cases items with
    | nil => exact ⟨'[', _, rfl, rfl⟩
    | cons item items =>
      rw [written]
      exact ⟨'[', _, rfl, rfl⟩
  | object entries =>
    cases entries with
    | nil => exact ⟨'\x7b', _, rfl, rfl⟩
    | cons entry entries =>
      rw [written]
      exact ⟨'\x7b', _, rfl, rfl⟩

theorem kind_eq_of_append {j k : Json} {s t : List Char} (same : written j ++ s = written k ++ t) :
    kind j = kind k := by
  obtain ⟨c, r, front, tells⟩ := exists_front j
  obtain ⟨d, q, front', tells'⟩ := exists_front k
  rw [front, front'] at same
  cases (List.cons.inj same).1
  exact Option.some.inj (tells.symm.trans tells')

/-- No value begins with a character that tells no kind. -/
theorem written_append_ne {c : Char} (none : kindOf c = none) (j : Json) (s t : List Char) :
    written j ++ s ≠ c :: t := by
  intro same
  obtain ⟨d, r, front, tells⟩ := exists_front j
  rw [front] at same
  cases (List.cons.inj same).1
  cases none.symm.trans tells

/-! ### Values -/

/-- A number before the text ends there. -/
def Stops (s : List Char) : Prop := ∀ c ∈ s.head?, ¬isNumeral c

theorem stops_nil : Stops [] := nofun

theorem stops_cons {c : Char} (other : isNumeral c = false) (s : List Char) : Stops (c :: s) := by
  intro d here
  cases here
  rw [other]
  exact Bool.false_ne_true

theorem stops_writtenItems (items : List Json) (s : List Char) :
    Stops (writtenItems items ++ ']' :: s) := by
  cases items with
  | nil => exact stops_cons rfl _
  | cons item items =>
    rw [writtenItems]
    exact stops_cons rfl _

theorem stops_writtenEntries (entries : List (String × Json)) (s : List Char) :
    Stops (writtenEntries entries ++ '\x7d' :: s) := by
  cases entries with
  | nil => exact stops_cons rfl _
  | cons entry entries =>
    rw [writtenEntries]
    exact stops_cons rfl _

mutual

/-- Equal texts behind which no number can go on begin with equal values. -/
theorem written_append_inj : ∀ {j k : Json} {s t : List Char}, Stops s → Stops t →
    written j ++ s = written k ++ t → j = k ∧ s = t
  | .null, k, s, t, _, _, same => by
    have kinds := kind_eq_of_append same
    cases k with
    | null => exact ⟨rfl, List.append_cancel_left same⟩
    | _ => cases kinds
  | .bool a, k, s, t, _, _, same => by
    have kinds := kind_eq_of_append same
    cases k with
    | bool b =>
      cases a <;> cases b
      · exact ⟨rfl, List.append_cancel_left same⟩
      · cases (List.cons.inj same).1
      · cases (List.cons.inj same).1
      · exact ⟨rfl, List.append_cancel_left same⟩
    | _ => cases kinds
  | .int m, k, s, t, stop, stop', same => by
    have kinds := kind_eq_of_append same
    cases k with
    | int n =>
      rw [written, written] at same
      obtain ⟨numbers, behind⟩ := run_inj (fun _ => isNumeral_intChars)
        (fun _ => isNumeral_intChars) stop stop' same
      exact ⟨congrArg int (intChars_injective numbers), behind⟩
    | real bits =>
      rw [written, written] at same
      obtain ⟨numbers, _⟩ := run_inj (fun _ => isNumeral_intChars)
        (fun _ => isNumeral_realChars) stop stop' same
      exact absurd numbers (intChars_ne_realChars m bits)
    | _ => cases kinds
  | .real a, k, s, t, stop, stop', same => by
    have kinds := kind_eq_of_append same
    cases k with
    | int n =>
      rw [written, written] at same
      obtain ⟨numbers, _⟩ := run_inj (fun _ => isNumeral_realChars)
        (fun _ => isNumeral_intChars) stop stop' same
      exact absurd numbers.symm (intChars_ne_realChars n a)
    | real b =>
      rw [written, written] at same
      obtain ⟨numbers, behind⟩ := run_inj (fun _ => isNumeral_realChars)
        (fun _ => isNumeral_realChars) stop stop' same
      exact ⟨congrArg real (realChars_injective numbers), behind⟩
    | _ => cases kinds
  | .string a, k, s, t, _, _, same => by
    have kinds := kind_eq_of_append same
    cases k with
    | string b =>
      rw [written, written] at same
      obtain ⟨texts, behind⟩ := quotedChars_append_inj same
      exact ⟨congrArg string texts, behind⟩
    | _ => cases kinds
  | .array [], k, s, t, _, _, same => by
    have kinds := kind_eq_of_append same
    cases k with
    | array items =>
      cases items with
      | nil => exact ⟨rfl, List.append_cancel_left same⟩
      | cons item items =>
        simp only [written, List.cons_append, List.append_assoc, List.nil_append,
          List.cons.injEq, true_and] at same
        exact absurd same.symm (written_append_ne rfl item _ _)
    | _ => cases kinds
  | .array (item :: items), k, s, t, _, _, same => by
    have kinds := kind_eq_of_append same
    cases k with
    | array items' =>
      cases items' with
      | nil =>
        simp only [written, List.cons_append, List.append_assoc, List.nil_append,
          List.cons.injEq, true_and] at same
        exact absurd same (written_append_ne rfl item _ _)
      | cons item' items' =>
        simp only [written, List.cons_append, List.append_assoc, List.nil_append,
          List.cons.injEq, true_and] at same
        obtain ⟨here, later⟩ :=
          written_append_inj (stops_writtenItems _ _) (stops_writtenItems _ _) same
        obtain ⟨rest, behind⟩ := writtenItems_append_inj later
        exact ⟨by rw [here, rest], behind⟩
    | _ => cases kinds
  | .object [], k, s, t, _, _, same => by
    have kinds := kind_eq_of_append same
    cases k with
    | object entries =>
      cases entries with
      | nil => exact ⟨rfl, List.append_cancel_left same⟩
      | cons entry entries =>
        rw [written, written, quotedChars] at same
        cases (List.cons.inj (List.cons.inj same).2).1
    | _ => cases kinds
  | .object ((key, value) :: entries), k, s, t, _, _, same => by
    have kinds := kind_eq_of_append same
    cases k with
    | object entries' =>
      cases entries' with
      | nil =>
        rw [written, written, quotedChars] at same
        cases (List.cons.inj (List.cons.inj same).2).1
      | cons entry' entries' =>
        simp only [written, List.cons_append, List.append_assoc, List.nil_append,
          List.cons.injEq, true_and] at same
        obtain ⟨keys, values⟩ := quotedChars_append_inj same
        obtain ⟨here, later⟩ := written_append_inj (stops_writtenEntries _ _)
          (stops_writtenEntries _ _) (List.cons.inj values).2
        obtain ⟨rest, behind⟩ := writtenEntries_append_inj later
        exact ⟨by rw [keys, here, rest], behind⟩
    | _ => cases kinds

theorem writtenItems_append_inj : ∀ {items items' : List Json} {s t : List Char},
    writtenItems items ++ ']' :: s = writtenItems items' ++ ']' :: t → items = items' ∧ s = t
  | [], items', s, t, same => by
    cases items' with
    | nil => exact ⟨rfl, (List.cons.inj same).2⟩
    | cons item' items' =>
      rw [writtenItems, writtenItems] at same
      cases (List.cons.inj same).1
  | item :: items, items', s, t, same => by
    cases items' with
    | nil =>
      rw [writtenItems, writtenItems] at same
      cases (List.cons.inj same).1
    | cons item' items' =>
      simp only [writtenItems, List.cons_append, List.append_assoc, List.cons.injEq,
        true_and] at same
      obtain ⟨here, later⟩ :=
        written_append_inj (stops_writtenItems _ _) (stops_writtenItems _ _) same
      obtain ⟨rest, behind⟩ := writtenItems_append_inj later
      exact ⟨by rw [here, rest], behind⟩

theorem writtenEntries_append_inj : ∀ {entries entries' : List (String × Json)} {s t : List Char},
    writtenEntries entries ++ '\x7d' :: s = writtenEntries entries' ++ '\x7d' :: t →
      entries = entries' ∧ s = t
  | [], entries', s, t, same => by
    cases entries' with
    | nil => exact ⟨rfl, (List.cons.inj same).2⟩
    | cons entry' entries' =>
      rw [writtenEntries, writtenEntries] at same
      cases (List.cons.inj same).1
  | (key, value) :: entries, entries', s, t, same => by
    cases entries' with
    | nil =>
      rw [writtenEntries, writtenEntries] at same
      cases (List.cons.inj same).1
    | cons entry' entries' =>
      simp only [writtenEntries, List.cons_append, List.append_assoc, List.cons.injEq,
        true_and] at same
      obtain ⟨keys, values⟩ := quotedChars_append_inj same
      obtain ⟨here, later⟩ := written_append_inj (stops_writtenEntries _ _)
        (stops_writtenEntries _ _) (List.cons.inj values).2
      obtain ⟨rest, behind⟩ := writtenEntries_append_inj later
      exact ⟨by rw [keys, here, rest], behind⟩

end

/-- Different values have different texts. -/
theorem written_injective {j k : Json} (same : written j = written k) : j = k := by
  have padded : written j ++ [] = written k ++ [] := by rw [same]
  exact (written_append_inj stops_nil stops_nil padded).1

theorem text_injective {j k : Json} (same : text j = text k) : j = k :=
  written_injective (String.ofList_injective same)

end Marksmith.Json

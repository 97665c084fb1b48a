/-!
Reading of JSON numbers. A number without fraction and exponent that fits 64 bits is an integer.
Every other number is a real number: the leading digits that fit 64 bits, scaled by a power of ten;
it has to be finite. Minus zero is a real number.
-/

namespace Marksmith.Json

/-- A number that has been read. -/
inductive Number where
  | int (value : Int)
  | real (bits : UInt64)
deriving DecidableEq, Repr

/-- What stops the reading of a number. -/
inductive NumberFault where
  /-- The text of the number is malformed. -/
  | malformed
  /-- The text ends where a digit is needed. -/
  | truncated
deriving DecidableEq, Repr

/-- The value of a digit. -/
def digitValue (c : Char) : Nat := c.toNat - '0'.toNat

/-- The least number that does not fit 64 bits. -/
def wordLimit : Nat := 0x10000000000000000

/-- Digits taken into a significand as long as it fits 64 bits, and the number of digits behind
those. -/
def takeDigits (significand : Nat) : List Char → Nat × Nat
  | [] => (significand, 0)
  | c :: s =>
    if 10 * significand + digitValue c < wordLimit then
      takeDigits (10 * significand + digitValue c) s
    else
      (significand, s.length + 1)

/-- The greatest power of ten that a double holds. -/
def maxPowerOfTen : Nat := 308

/-- A double divided by ten to the `n`, in steps of at most `10 ^ 308`. -/
def divideByPower (x : Float) (n : Nat) : Float :=
  if n ≤ maxPowerOfTen then x / Float.ofScientific 1 false n
  else if x == 0 then x
  else divideByPower (x / Float.ofScientific 1 false maxPowerOfTen) (n - maxPowerOfTen)
termination_by n
decreasing_by simp [maxPowerOfTen] at *; omega

/-- The double nearest to `significand`, scaled by a power of ten; nothing if it is not finite. -/
def scale (significand : Nat) (exponent : Int) : Option Float :=
  let x := significand.toUInt64.toFloat
  match exponent with
  | .ofNat n =>
    if n ≤ maxPowerOfTen then
      let y := x * Float.ofScientific 1 false n
      if y.isInf then none else some y
    else if significand = 0 then some x
    else none
  | .negSucc n => some (divideByPower x (n + 1))

/-- The parts of a number's text. -/
structure NumberText where
  negative : Bool
  whole : List Char
  fraction : Option (List Char)
  exponent : Option Int
deriving Repr

/-- Exponents from here on are all alike. -/
def exponentLimit : Nat := 0x80000000

/-- The number that a text denotes; nothing if it is out of range. -/
def NumberText.value? (t : NumberText) : Option Number :=
  let sign (x : Float) : Number := .real (if t.negative then -x else x).toBits
  match t.fraction, t.exponent with
  | none, none =>
    let (n, dropped) := takeDigits 0 t.whole
    if dropped = 0 then
      if !t.negative then some (.int n)
      else if n = 0 || 0x8000000000000000 < n then some (sign n.toUInt64.toFloat)
      else some (.int (-n))
    else (scale n dropped).map sign
  | fraction, exponent =>
    let (whole, dropped) := takeDigits 0 t.whole
    let digits := fraction.getD []
    let (significand, left) := takeDigits whole digits
    let shift : Int := dropped + left - digits.length
    let e := exponent.getD 0
    if e.natAbs < exponentLimit then (scale significand (shift + e)).map sign
    else if significand = 0 || e < 0 then some (sign 0)
    else none

/-- The digits at the front of a text. -/
def digitsOf (s : List Char) : List Char := s.takeWhile Char.isDigit

/-- What stands behind the digits at the front. -/
def afterDigits (s : List Char) : List Char := s.dropWhile Char.isDigit

/-- A result with what remains of `s`. -/
structure Remainder (s : List Char) where
  rest : List Char
  bound : rest.length ≤ s.length

/-- What remains behind the first character. -/
def Remainder.behind (c : Char) (rest : List Char) : Remainder (c :: rest) := ⟨rest, by simp⟩

theorem Remainder.behind_lt {s behind : List Char} {c : Char} (r : Remainder s)
    (h : r.rest = c :: behind) : behind.length < s.length := by
  have := r.bound
  simp [h] at this
  omega

/-- What remains of `s` behind something that is not empty. -/
structure Shorter (s : List Char) where
  rest : List Char
  bound : rest.length < s.length

theorem afterDigits_le (s : List Char) : (afterDigits s).length ≤ s.length :=
  (List.dropWhile_sublist _).length_le

theorem afterDigits_lt {s : List Char} (h : ¬ (digitsOf s).isEmpty = true) :
    (afterDigits s).length < s.length := by
  have all := congrArg List.length (List.takeWhile_append_dropWhile (p := Char.isDigit) (l := s))
  have some : (digitsOf s).length ≠ 0 := by simpa [List.isEmpty_iff] using h
  simp only [List.length_append] at all
  simp only [afterDigits, digitsOf] at *
  omega

/-- The fault of a text that lacks a digit at its front. -/
def missingDigit (s : List Char) : NumberFault :=
  if s.isEmpty then .truncated else .malformed

/-- The digits of the whole part; a leading zero stands alone. -/
def readWhole (s : List Char) : Except NumberFault (List Char × Shorter s) :=
  match s with
  | '0' :: rest =>
    if rest.head?.any Char.isDigit then .error .malformed
    else .ok (['0'], ⟨rest, by simp⟩)
  | s =>
    if none : (digitsOf s).isEmpty then .error (missingDigit s)
    else .ok (digitsOf s, ⟨afterDigits s, afterDigits_lt none⟩)

/-- The fraction, if there is a point. -/
def readFraction (s : List Char) : Except NumberFault (Option (List Char) × Remainder s) :=
  match s with
  | '.' :: rest =>
    if (digitsOf rest).isEmpty then .error (missingDigit rest)
    else .ok (some (digitsOf rest), ⟨afterDigits rest, by
      have := afterDigits_le rest; simp; omega⟩)
  | s => .ok (none, ⟨s, by simp⟩)

/-- The value of decimal digits. -/
def digitsNat (s : List Char) : Nat := s.foldl (fun n c => 10 * n + digitValue c) 0

/-- The sign of an exponent: whether it is negative, and what follows. -/
def exponentSign (s : List Char) : Bool × Remainder s :=
  match s with
  | '+' :: rest => (false, .behind '+' rest)
  | '-' :: rest => (true, .behind '-' rest)
  | s => (false, ⟨s, by simp⟩)

/-- The exponent, if there is one. -/
def readExponent (s : List Char) : Except NumberFault (Option Int × Remainder s) :=
  match s with
  | [] => .ok (none, ⟨[], by simp⟩)
  | c :: behind =>
    if c = 'e' || c = 'E' then
      let (negative, digits) := exponentSign behind
      if (digitsOf digits.rest).isEmpty then .error (missingDigit digits.rest)
      else
        let n : Int := digitsNat (digitsOf digits.rest)
        .ok (some (if negative then -n else n), ⟨afterDigits digits.rest, by
          have := afterDigits_le digits.rest; have := digits.bound; simp; omega⟩)
    else .ok (none, ⟨c :: behind, by simp⟩)

/-- The parts of the number at the front of a text, and what remains. -/
def readNumber (s : List Char) : Except NumberFault (NumberText × Shorter s) :=
  match s with
  | [] => .error .truncated
  | c :: behind => do
    let start : Remainder (c :: behind) :=
      if c = '-' then .behind c behind else ⟨c :: behind, by simp⟩
    let (whole, r) ← readWhole start.rest
    let (fraction, r') ← readFraction r.rest
    let (exponent, r'') ← readExponent r'.rest
    return (⟨c = '-', whole, fraction, exponent⟩, ⟨r''.rest, by
      have := start.bound; have := r.bound; have := r'.bound; have := r''.bound; omega⟩)

end Marksmith.Json

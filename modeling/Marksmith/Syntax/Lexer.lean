import Marksmith.Syntax.Token
import Marksmith.Text.Alphabetic
import Marksmith.Text.Ranges

/-!
The lexer. `scan` reads one token at the front of a text and returns the lexeme with the text it was
written with and the text that remains; the two texts are the input again (`scan_split`). `lex`
skips white space and line comments between tokens and ends with `eof` at the end of the text.
-/

namespace Marksmith.Syntax

open Text

/-- A character that may begin an identifier without an escape. -/
def isIdentStart (c : Char) : Bool := isAlphabetic c || c == '_'

/-- A character that may continue an identifier. -/
def isIdentPart (c : Char) : Bool := isAlphanumeric c || c == '_'

/-- What was read: the lexeme, the text it was written with and the text that follows it. -/
structure Scan where
  lexeme : Lexeme
  written : List Char
  rest : List Char

/-- The lexeme of an identifier without an escape: a reserved word or a name. -/
def wordLexeme (word : List Char) : Lexeme :=
  match Keyword.ofText? (String.ofList word) with
  | some k => .keyword k
  | none => .ident (String.ofList word)

/-- An identifier or a reserved word. -/
def scanWord (s : List Char) : Scan :=
  ⟨wordLexeme (s.takeWhile isIdentPart), s.takeWhile isIdentPart, s.dropWhile isIdentPart⟩

/-- The identifier behind an `@`, which is never a reserved word. -/
def scanEscapedWord (pos : Nat) (s : List Char) : Except SyntaxError Scan :=
  if s.takeWhile isIdentPart = [] then
    .error ⟨.missingEscapedName, ⟨pos, pos + 1⟩⟩
  else
    .ok ⟨.ident (String.ofList (s.takeWhile isIdentPart)), '@' :: s.takeWhile isIdentPart,
      s.dropWhile isIdentPart⟩

/-- The digits of a number literal: underscores may stand between them, and one point may if a digit
follows it. Also tells whether there was a point. -/
def splitNumber (pointSeen : Bool) : List Char → List Char × List Char × Bool
  | [] => ([], [], pointSeen)
  | c :: s =>
    if c.isDigit || c == '_' then
      let (body, rest, point) := splitNumber pointSeen s
      (c :: body, rest, point)
    else if c == '.' && !pointSeen && (s.head?.any Char.isDigit) then
      let (body, rest, point) := splitNumber true s
      (c :: body, rest, point)
    else
      ([], c :: s, pointSeen)

/-- The kind of a number suffix: a real-number suffix, an integer suffix, or none. -/
inductive NumberSuffix where
  | real | integer | absent
deriving DecidableEq, Repr

/-- Splits off the suffix of a number literal. -/
def splitSuffix : List Char → NumberSuffix × List Char × List Char
  | [] => (.absent, [], [])
  | c :: s =>
    if c ∈ ['f', 'F', 'd', 'D', 'm', 'M'] then (.real, [c], s)
    else if c ∈ ['l', 'L', 'u', 'U'] then (.integer, [c], s)
    else (.absent, [], c :: s)

/-- The value of a list of decimal digits. -/
def digitsValue (digits : List Char) : Nat :=
  digits.foldl (fun n c => 10 * n + (c.toNat - '0'.toNat)) 0

/-- The greatest value of an integer literal. -/
def maxInteger : Nat := 0x7FFFFFFFFFFFFFFF

/-- A number literal. A point or a real-number suffix makes it a real number, which keeps its text;
otherwise its value must fit 63 bits. -/
def scanNumber (pos : Nat) (s : List Char) : Except SyntaxError Scan :=
  let (body, afterBody, point) := splitNumber false s
  let (suffix, mark, rest) := splitSuffix afterBody
  if point || suffix == .real then
    .ok ⟨.float (String.ofList (body ++ mark)), body ++ mark, rest⟩
  else
    let digits := body.filter (· != '_')
    if digitsValue digits ≤ maxInteger then
      .ok ⟨.int (digitsValue digits), body ++ mark, rest⟩
    else
      .error ⟨.integerOutOfRange (String.ofList digits), ⟨pos, pos + byteSize body⟩⟩

/-- The character that an escape letter stands for. -/
def unescape (c : Char) : Char :=
  match c with
  | 'n' => '\n'
  | 't' => '\t'
  | 'r' => '\r'
  | '0' => '\x00'
  | c => c

/-- The body of a string literal behind its opening quote: its value, the text up to and including
the closing quote, and the rest. `start` is the position of the opening quote and `pos` that of the
text. -/
def scanStringBody (start : Nat) :
    Nat → List Char → Except SyntaxError (List Char × List Char × List Char)
  | pos, [] => .error ⟨.unterminatedString, ⟨start, pos⟩⟩
  | _, '"' :: s => .ok ([], ['"'], s)
  | pos, '\\' :: [] => .error ⟨.unterminatedEscape, ⟨pos, pos + 1⟩⟩
  | pos, '\\' :: c :: s => do
    let (value, written, rest) ← scanStringBody start (pos + 1 + c.utf8Size) s
    return (unescape c :: value, '\\' :: c :: written, rest)
  | pos, c :: s => do
    let (value, written, rest) ← scanStringBody start (pos + c.utf8Size) s
    return (c :: value, c :: written, rest)

/-- A string literal, from behind its opening quote. -/
def scanString (pos : Nat) (s : List Char) : Except SyntaxError Scan := do
  let (value, written, rest) ← scanStringBody pos (pos + 1) s
  return ⟨.string (String.ofList value), '"' :: written, rest⟩

/-- Reads the token that starts with `c` at byte `pos`. -/
def scan (pos : Nat) (c : Char) (s : List Char) : Except SyntaxError Scan :=
  if c == '@' then scanEscapedWord pos s
  else if isIdentStart c then .ok (scanWord (c :: s))
  else if c.isDigit then scanNumber pos (c :: s)
  else if c == '"' then scanString pos s
  else
    match Punct.atFront? (c :: s) with
    | some p => .ok ⟨.punct p, p.chars, (c :: s).drop p.chars.length⟩
    | none => .error ⟨.unexpectedCharacter c, ⟨pos, pos + c.utf8Size⟩⟩

/-! ### What is read is the front of the input -/

theorem splitNumber_split (point : Bool) (s : List Char) :
    (splitNumber point s).1 ++ (splitNumber point s).2.1 = s := by
  induction s generalizing point with
  | nil => rfl
  | cons c s ih => simp only [splitNumber]; split <;> (try split) <;> simp [ih]

theorem splitSuffix_split (s : List Char) : (splitSuffix s).2.1 ++ (splitSuffix s).2.2 = s := by
  cases s with
  | nil => rfl
  | cons c s => simp only [splitSuffix]; split <;> (try split) <;> simp

theorem scanStringBody_split {start pos : Nat} {s value written rest : List Char}
    (h : scanStringBody start pos s = .ok (value, written, rest)) : written ++ rest = s := by
  fun_induction scanStringBody start pos s generalizing value written rest with
  | case1 => cases h
  | case2 => cases h; rfl
  | case3 => cases h
  | case4 pos c s ih =>
    cases hb : scanStringBody start (pos + 1 + c.utf8Size) s with
    | error e => simp [hb, bind, Except.bind] at h
    | ok r =>
      simp only [hb, bind, Except.bind, pure, Except.pure, Except.ok.injEq, Prod.mk.injEq] at h
      obtain ⟨_, rfl, rfl⟩ := h
      simp [ih hb]
  | case5 pos c s _ _ _ ih =>
    cases hb : scanStringBody start (pos + c.utf8Size) s with
    | error e => simp [hb, bind, Except.bind] at h
    | ok r =>
      simp only [hb, bind, Except.bind, pure, Except.pure, Except.ok.injEq, Prod.mk.injEq] at h
      obtain ⟨_, rfl, rfl⟩ := h
      simp [ih hb]

theorem splitNumber_ne_nil {point : Bool} {c : Char} {s : List Char} (h : c.isDigit = true) :
    (splitNumber point (c :: s)).1 ≠ [] := by
  simp [splitNumber, h]

/-- A mark at the front of a text is its first characters. -/
theorem Punct.atFront?_split {s : List Char} {p : Punct} (h : Punct.atFront? s = some p) :
    p.chars ++ s.drop p.chars.length = s := by
  have found := List.find?_some h
  obtain ⟨t, ht⟩ := List.isPrefixOf_iff_prefix.mp found
  simp [← ht]

theorem Punct.chars_ne_nil (p : Punct) : p.chars ≠ [] := by
  cases p <;> simp [Punct.chars]

/-- The written text and the rest are the input, and the written text is not empty. -/
theorem scan_split {pos : Nat} {c : Char} {s : List Char} {r : Scan} (h : scan pos c s = .ok r) :
    r.written ++ r.rest = c :: s ∧ r.written ≠ [] := by
  unfold scan at h
  split at h
  · rename_i at_sign
    have at_sign : c = '@' := by simpa using at_sign
    subst at_sign
    unfold scanEscapedWord at h
    split at h
    · cases h
    · cases h; simp
  · split at h
    · rename_i start
      cases h
      have part : isIdentPart c = true := by
        simp only [isIdentStart, isIdentPart, isAlphanumeric, Bool.or_eq_true] at start ⊢
        grind
      simp [scanWord, part]
    · split at h
      · rename_i digit
        have body := splitNumber_split false (c :: s)
        have suffix := splitSuffix_split (splitNumber false (c :: s)).2.1
        have nonempty : (splitNumber false (c :: s)).1 ≠ [] := splitNumber_ne_nil digit
        simp only [scanNumber] at h
        split at h
        · cases h
          simp [nonempty, suffix, body]
        · split at h
          · cases h
            simp [nonempty, suffix, body]
          · cases h
      · split at h
        · rename_i quote
          have quote : c = '"' := by simpa using quote
          subst quote
          unfold scanString at h
          cases hb : scanStringBody pos (pos + 1) s with
          | error e => simp [hb, bind, Except.bind] at h
          | ok v =>
            obtain ⟨value, written, rest⟩ := v
            simp only [hb, bind, Except.bind, pure, Except.pure, Except.ok.injEq] at h
            subst h
            simp [scanStringBody_split hb]
        · split at h
          · rename_i p front
            cases h
            exact ⟨Punct.atFront?_split front, Punct.chars_ne_nil p⟩
          · cases h

/-- Tokens of the text `s`, which starts at byte `pos`. -/
def lexFrom (pos : Nat) (s : List Char) : Except SyntaxError (List Token) :=
  match s with
  | [] => .ok [⟨.eof, ⟨pos, pos⟩⟩]
  | c :: tail =>
    if isBlank c then
      lexFrom (pos + c.utf8Size) tail
    else if c == '/' && tail.head? == some '/' then
      lexFrom (pos + byteSize (s.takeWhile (· != '\n'))) (tail.dropWhile (· != '\n'))
    else
      match _h : scan pos c tail with
      | .error e => .error e
      | .ok r => do
        let stop := pos + byteSize r.written
        let tokens ← lexFrom stop r.rest
        return ⟨r.lexeme, ⟨pos, stop⟩⟩ :: tokens
termination_by s.length
decreasing_by
  · simp
  · have := (List.dropWhile_sublist (· != '\n') (l := tail)).length_le
    simp at this ⊢; omega
  · obtain ⟨split, nonempty⟩ := scan_split _h
    have := congrArg List.length split
    have := List.length_pos_iff.mpr nonempty
    simp at *; omega

/-- Tokens of a text. The last one is `eof` at the end of the text. -/
def lex (text : String) : Except SyntaxError (List Token) := lexFrom 0 text.toList

end Marksmith.Syntax

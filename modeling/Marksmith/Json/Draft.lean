import Marksmith.Json.Number
import Marksmith.Json.Value

/-!
JSON text as far as it can be read. A text is read once from the front; where it breaks off, the
draft ends. Some faults stand only in the way of reading a value and not of skipping it: a number
out of range, an escape that is half of a surrogate pair, and containers nested too deeply. Such a
value is `flawed`, and reading goes on behind it. What a reader of a draft meets first is therefore
what it would meet first in the text.
-/

namespace Marksmith.Json

/-- Why a text is not JSON. -/
inductive Break where
  /-- A character that cannot stand here. -/
  | malformed
  /-- The text ends too early. -/
  | truncated
deriving DecidableEq, Repr

/-- The place where a text breaks off, as it appears to one who reads the value there, to one who
skips it, and to one who wants a word there. -/
structure Cut where
  read : Break
  skipped : Break
  word : Break
deriving DecidableEq, Repr

/-- A cut that looks alike to all. -/
def Cut.of (b : Break) : Cut := ⟨b, b, b⟩

/-- A cut in or behind something that no word begins with: one who wants a word does not get as far
as the cut. -/
def Cut.inOther (cut : Cut) : Cut := { cut with word := .malformed }

/-- A JSON text as far as it can be read. -/
inductive Draft where
  | null
  | bool (value : Bool)
  | number (value : Number)
  | string (value : String)
  /-- A whole value that can be skipped and not read. -/
  | flawed
  /-- An array; `stop` tells that it is not closed behind its items. -/
  | array (items : List Draft) (stop : Option Cut)
  /-- An object; a key that cannot be read is `none`. -/
  | object (entries : List (Option String × Draft)) (stop : Option Cut)
  /-- No value: the text breaks off. -/
  | broken (cut : Cut)
deriving Repr, Inhabited

namespace Draft

mutual

/-- What one who skips a draft meets: the place where it breaks off, if it does. -/
def break? : Draft → Option Break
  | broken cut => some cut.skipped
  | array items stop => (breakItems? items).or (stop.map (·.skipped))
  | object entries stop => (breakEntries? entries).or (stop.map (·.skipped))
  | _ => none

def breakItems? : List Draft → Option Break
  | [] => none
  | item :: items => (break? item).or (breakItems? items)

def breakEntries? : List (Option String × Draft) → Option Break
  | [] => none
  | (_, value) :: entries => (break? value).or (breakEntries? entries)

end

/-- The number of containers that may stand around one another. -/
def maxDepth : Nat := 127

/-- A container with `level` containers around it: beyond the depth limit it can only be skipped. -/
def atLevel (level : Nat) (d : Draft) : Draft :=
  if level < maxDepth then d
  else
    match d.break? with
    | none => flawed
    | some b => broken ⟨.malformed, b, .malformed⟩

end Draft

/-! ### Strings -/

/-- Four hexadecimal digits. The text must have at least four bytes left. -/
def readHex (s : List Char) : Except Break (Nat × Remainder s) :=
  match s with
  | a :: b :: c :: d :: rest =>
    match hexValue a, hexValue b, hexValue c, hexValue d with
    | some a, some b, some c, some d =>
      .ok (((a * 16 + b) * 16 + c) * 16 + d, ⟨rest, by simp; omega⟩)
    | _, _, _, _ => .error .malformed
  | s => .error (if s.foldr (fun c n => c.utf8Size + n) 0 < 4 then .truncated else .malformed)
where
  hexValue (c : Char) : Option Nat :=
    if c.isDigit then some (c.toNat - '0'.toNat)
    else if 'a' ≤ c && c ≤ 'f' then some (c.toNat - 'a'.toNat + 10)
    else if 'A' ≤ c && c ≤ 'F' then some (c.toNat - 'A'.toNat + 10)
    else none

/-- The first half of a surrogate pair. -/
def isHighSurrogate (n : Nat) : Bool := 0xD800 ≤ n && n ≤ 0xDBFF

/-- The second half of a surrogate pair. -/
def isLowSurrogate (n : Nat) : Bool := 0xDC00 ≤ n && n ≤ 0xDFFF

/-- The character that a surrogate pair stands for. -/
def joinSurrogates (high low : Nat) : Char :=
  Char.ofNat (0x10000 + (high - 0xD800) * 0x400 + (low - 0xDC00))

/-- The character that a single letter behind a backslash stands for. -/
def simpleEscape (c : Char) : Option Char :=
  match c with
  | '"' => some '"'
  | '\\' => some '\\'
  | '/' => some '/'
  | 'b' => some '\x08'
  | 'f' => some '\x0c'
  | 'n' => some '\n'
  | 'r' => some '\r'
  | 't' => some '\t'
  | _ => none

/-- The escape behind a backslash; half a surrogate pair is read as no character. -/
def readEscape (s : List Char) : Except Break (Option Char × Remainder s) :=
  match s with
  | [] => .error .truncated
  | 'u' :: digits => do
    let (n, r) ← readHex digits
    let behind : Remainder ('u' :: digits) := ⟨r.rest, by have := r.bound; simp; omega⟩
    if isLowSurrogate n then
      return (none, behind)
    else if isHighSurrogate n then
      match h : r.rest with
      | [] => .error .truncated
      | ['\\'] => .error .truncated
      | '\\' :: 'u' :: more => do
        let (low, r') ← readHex more
        if isLowSurrogate low then
          return (some (joinSurrogates n low), ⟨r'.rest, by
            have := r.bound; have := r'.bound; simp [h] at *; omega⟩)
        else
          return (none, behind)
      | _ => return (none, behind)
    else
      return (some (Char.ofNat n), behind)
  | c :: rest =>
    match simpleEscape c with
    | some e => .ok (some e, .behind c rest)
    | none => .error .malformed

/-- A character that stands for itself in a string. -/
def isPlain (c : Char) : Bool := c != '"' && c != '\\' && 32 ≤ c.toNat

/-- The body of a string behind its opening quote, up to and with the closing one. -/
def readStringBody (s : List Char) : Except Cut (Option (List Char) × Remainder s) :=
  have behind : (s.dropWhile isPlain).length ≤ s.length := (List.dropWhile_sublist _).length_le
  match h : s.dropWhile isPlain with
  | [] => .error (.of .truncated)
  | '"' :: rest => .ok (some (s.takeWhile isPlain), ⟨rest, by simp [h] at behind; omega⟩)
  | '\\' :: escape =>
    match readEscape escape with
    | .error b => .error (.of b)
    | .ok (c?, r) =>
      have : r.rest.length < s.length := by
        have := r.bound; simp [h] at behind; omega
      match c?, readStringBody r.rest with
      | some c, .ok (body?, r') =>
        .ok (body?.map (s.takeWhile isPlain ++ c :: ·), ⟨r'.rest, by have := r'.bound; omega⟩)
      | none, .ok (_, r') => .ok (none, ⟨r'.rest, by have := r'.bound; omega⟩)
      | some _, .error cut => .error cut
      | none, .error cut => .error ⟨.malformed, cut.skipped, .malformed⟩
  | _ => .error (.of .malformed)
termination_by s.length

/-! ### Values -/

/-- Blanks between the parts of a JSON text. -/
def isJsonBlank (c : Char) : Bool := c == ' ' || c == '\n' || c == '\t' || c == '\r'

/-- What stands behind blanks. -/
def skipBlank (s : List Char) : Remainder s :=
  ⟨s.dropWhile isJsonBlank, (List.dropWhile_sublist _).length_le⟩

/-- A draft, with what remains unless the text breaks off. -/
structure Reading (s : List Char) where
  draft : Draft
  rest? : Option (Shorter s)

/-- The text breaks off. -/
def Reading.broken {s : List Char} (cut : Cut) : Reading s := ⟨.broken cut, none⟩

/-- A word such as `null`, from behind its first letter. -/
def readWord : List Char → (s : List Char) → Except Break (Remainder s)
  | [], s => .ok ⟨s, by simp⟩
  | _ :: _, [] => .error .truncated
  | w :: word, c :: s =>
    if c = w then (readWord word s).map fun r => ⟨r.rest, by have := r.bound; simp; omega⟩
    else .error .malformed

/-- The items of an array, with what remains behind its end. -/
structure Items (s : List Char) where
  items : List Draft
  stop : Option Cut
  rest? : Option (Shorter s)

/-- The entries of an object, with what remains behind its end. -/
structure Entries (s : List Char) where
  entries : List (Option String × Draft)
  stop : Option Cut
  rest? : Option (Shorter s)

/-- The key at the front of an entry, with its colon. -/
structure Key (s : List Char) where
  key : Option String
  /-- What remains behind the colon, or why there is none. -/
  value : Except Break (Shorter s)

/-- The key of an entry, from its opening quote on. -/
def readKey (s : List Char) : Except Cut (Key s) :=
  match s with
  | '"' :: body => do
    let (key, r) ← readStringBody body
    let r' := skipBlank r.rest
    match h : r'.rest with
    | ':' :: rest => return ⟨key.map String.ofList, .ok ⟨rest, by
        have := r.bound; have := r'.bound; simp [h] at *; omega⟩⟩
    | [] => return ⟨key.map String.ofList, .error .truncated⟩
    | _ => return ⟨key.map String.ofList, .error .malformed⟩
  | [] => .error (.of .truncated)
  | _ => .error (.of .malformed)

mutual

/-- The value at the front of a text, with `level` containers around it. -/
def readValue (level : Nat) (s : List Char) : Reading s :=
  let r := skipBlank s
  match h : r.rest with
  | [] => .broken (.of .truncated)
  | '[' :: behind =>
    have := r.behind_lt h
    let items := readArray (level + 1) behind
    ⟨(Draft.array items.items items.stop).atLevel level,
      items.rest?.map fun r => ⟨r.rest, by have := r.bound; omega⟩⟩
  | '\x7b' :: behind =>
    have := r.behind_lt h
    let entries := readObject (level + 1) behind
    ⟨(Draft.object entries.entries entries.stop).atLevel level,
      entries.rest?.map fun r => ⟨r.rest, by have := r.bound; omega⟩⟩
  | '"' :: behind =>
    have := r.behind_lt h
    match readStringBody behind with
    | .error cut => .broken cut
    | .ok (body?, r) =>
      ⟨(body?.map fun body => .string (String.ofList body)).getD .flawed,
        some ⟨r.rest, by have := r.bound; omega⟩⟩
  | 'n' :: behind => word "ull" .null behind (r.behind_lt h)
  | 't' :: behind => word "rue" (.bool true) behind (r.behind_lt h)
  | 'f' :: behind => word "alse" (.bool false) behind (r.behind_lt h)
  | c :: behind =>
    have := r.behind_lt h
    if c == '-' || c.isDigit then
      match readNumber (c :: behind) with
      | .error fault =>
        .broken ⟨if fault = .truncated then .truncated else .malformed, .malformed, .malformed⟩
      | .ok (number, r) =>
        ⟨(number.value?.map .number).getD .flawed, some ⟨r.rest, by
          have := r.bound; simp at this; omega⟩⟩
    else .broken (.of .malformed)
termination_by 3 * s.length + 1
where
  /-- A word that stands for a value. -/
  word {s : List Char} (letters : String) (value : Draft) (behind : List Char)
      (bound : behind.length < s.length) : Reading s :=
    match readWord letters.toList behind with
    | .error b => .broken (Cut.of b).inOther
    | .ok r => ⟨value, some ⟨r.rest, by have := r.bound; omega⟩⟩

/-- The items of an array from behind its opening bracket. -/
def readArray (level : Nat) (s : List Char) : Items s :=
  let r := skipBlank s
  match h : r.rest with
  | [] => ⟨[], some (.of .truncated), none⟩
  | ']' :: rest => ⟨[], none, some ⟨rest, by have := r.bound; simp [h] at this; omega⟩⟩
  | _ => readItems level s
termination_by 3 * s.length + 3

/-- One item or more, and the closing bracket. -/
def readItems (level : Nat) (s : List Char) : Items s :=
  let value := readValue level s
  match value.rest? with
  | none => ⟨[value.draft], none, none⟩
  | some behind =>
    let r := skipBlank behind.rest
    match h : r.rest with
    | ',' :: rest =>
      have : rest.length < s.length := by
        have := behind.bound; have := r.bound; simp [h] at *; omega
      let more := readItems level rest
      ⟨value.draft :: more.items, more.stop,
        more.rest?.map fun r => ⟨r.rest, by have := r.bound; omega⟩⟩
    | ']' :: rest => ⟨[value.draft], none, some ⟨rest, by
        have := behind.bound; have := r.bound; simp [h] at *; omega⟩⟩
    | [] => ⟨[value.draft], some (.of .truncated), none⟩
    | _ => ⟨[value.draft], some (.of .malformed), none⟩
termination_by 3 * s.length + 2

/-- The entries of an object from behind its opening brace. -/
def readObject (level : Nat) (s : List Char) : Entries s :=
  let r := skipBlank s
  match h : r.rest with
  | [] => ⟨[], some (.of .truncated), none⟩
  | '\x7d' :: rest => ⟨[], none, some ⟨rest, by have := r.bound; simp [h] at this; omega⟩⟩
  | _ => readEntries level s
termination_by 3 * s.length + 3

/-- One entry or more, and the closing brace. -/
def readEntries (level : Nat) (s : List Char) : Entries s :=
  let start := skipBlank s
  match readKey start.rest with
  | .error cut => ⟨[], some cut, none⟩
  | .ok key =>
    match key.value with
    | .error b => ⟨[(key.key, .broken (.of b))], none, none⟩
    | .ok colon =>
      have : colon.rest.length < s.length := by have := start.bound; have := colon.bound; omega
      let value := readValue level colon.rest
      let entry := (key.key, value.draft)
      match value.rest? with
      | none => ⟨[entry], none, none⟩
      | some behind =>
        let r := skipBlank behind.rest
        match h : r.rest with
        | ',' :: rest =>
          have : rest.length < s.length := by
            have := behind.bound; have := r.bound; simp [h] at *; omega
          let more := readEntries level rest
          ⟨entry :: more.entries, more.stop.map Cut.inOther,
            more.rest?.map fun r => ⟨r.rest, by have := r.bound; omega⟩⟩
        | '\x7d' :: rest => ⟨[entry], none, some ⟨rest, by
            have := behind.bound; have := r.bound; simp [h] at *; omega⟩⟩
        | [] => ⟨[entry], some (.of .truncated), none⟩
        | _ => ⟨[entry], some (.of .malformed), none⟩
termination_by 3 * s.length + 2

end

/-- A whole text: its value, and whether something stands behind it. -/
structure Document where
  draft : Draft
  trailing : Bool
deriving Repr

/-- Reads a whole text. -/
def Document.read (text : String) : Document :=
  let value := readValue 0 text.toList
  ⟨value.draft, (value.rest?.map fun r => !(skipBlank r.rest).rest.isEmpty).getD false⟩

end Marksmith.Json

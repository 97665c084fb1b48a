import Marksmith.Json.Draft

/-!
Decoding of drafts into domain values. A decoder reports what is met first from the front of the
text: a value of the wrong shape, or the place where the text breaks off. Scalars are read before
their shape is judged and containers are judged at their opening. A record may be written as an
object, whose unknown keys are skipped and whose known keys may not repeat, or as an array of its
fields in order.
-/

namespace Marksmith.Json

/-- Why a text is not the record that it should be. -/
inductive DecodeError (ε : Type) where
  /-- The text is not JSON. -/
  | notJson (b : Break)
  /-- The text is JSON of another shape. -/
  | wrongShape
  /-- A text in it is refused by its own format. -/
  | refused (cause : ε)
deriving DecidableEq, Repr

/-- A decoder of drafts. -/
abbrev Decoder (ε α : Type) := Draft → Except (DecodeError ε) α

namespace Decoder

variable {ε α β σ : Type}

/-- The error of a draft whose shape is not the wanted one. -/
def mismatch : Draft → DecodeError ε
  | .broken cut => .notJson cut.read
  | .flawed => .notJson .malformed
  | _ => .wrongShape

/-- A truth value. -/
def bool : Decoder ε Bool
  | .bool value => .ok value
  | d => .error (mismatch d)

/-- A text. -/
def string : Decoder ε String
  | .string value => .ok value
  | d => .error (mismatch d)

/-- A value or `null`. -/
def option (decode : Decoder ε α) : Decoder ε (Option α)
  | .null => .ok none
  | d => (decode d).map some

/-- The items of an array. -/
def items (decode : Decoder ε α) (stop : Option Cut) : List Draft → Except (DecodeError ε) (List α)
  | [] =>
    match stop with
    | none => .ok []
    | some cut => .error (.notJson cut.read)
  | d :: ds => do
    let first ← decode d
    let rest ← items decode stop ds
    return first :: rest

/-- An array. -/
def list (decode : Decoder ε α) : Decoder ε (List α)
  | .array ds stop => items decode stop ds
  | d => .error (mismatch d)

/-- A value whose text has a format of its own. -/
def refine (decode : Decoder ε α) (read : α → Except ε β) : Decoder ε β := fun d => do
  let a ← decode d
  (read a).mapError .refused

/-- One of a list of words; it may also be written as an object whose only key is the word and whose
value is `null`. A value of another kind cannot begin a word, and a comma cannot follow the
value. -/
def word (words : List (String × α)) : Decoder ε α
  | .string s => lookup s
  | .object ((some key, value) :: more) stop => do
    let a ← lookup key
    match value, more, stop with
    | .null, [], none => .ok a
    | .null, [], some cut => .error (.notJson cut.word)
    | .null, _ :: _, _ => .error (.notJson .malformed)
    | d, _, _ => .error (mismatch d)
  | .object ((none, _) :: _) _ => .error (.notJson .malformed)
  | .object [] (some cut) | .broken cut => .error (.notJson cut.word)
  | _ => .error (.notJson .malformed)
where
  lookup (s : String) : Except (DecodeError ε) α :=
    match words.lookup s with
    | some a => .ok a
    | none => .error .wrongShape

mutual

/-- Any value. -/
def any : Decoder ε Json
  | .null => .ok .null
  | .bool b => .ok (.bool b)
  | .number (.int n) => .ok (.int n)
  | .number (.real bits) => .ok (.real bits)
  | .string s => .ok (.string s)
  | .flawed => .error (.notJson .malformed)
  | .array ds stop => (anyItems stop ds).map .array
  | .object entries stop => (anyEntries stop entries).map .object
  | .broken cut => .error (.notJson cut.read)

def anyItems (stop : Option Cut) : List Draft → Except (DecodeError ε) (List Json)
  | [] =>
    match stop with
    | none => .ok []
    | some cut => .error (.notJson cut.read)
  | d :: ds => do
    let first ← any d
    let rest ← anyItems stop ds
    return first :: rest

def anyEntries (stop : Option Cut) :
    List (Option String × Draft) → Except (DecodeError ε) (List (String × Json))
  | [] =>
    match stop with
    | none => .ok []
    | some cut => .error (.notJson cut.read)
  | (none, _) :: _ => .error (.notJson .malformed)
  | (some key, d) :: entries => do
    let first ← any d
    let rest ← anyEntries stop entries
    return (key, first) :: rest

end

/-- A value that is read as a whole before its shape is judged. -/
def whole (read : Json → Option α) : Decoder ε α := fun d => do
  match read (← any d) with
  | some a => return a
  | none => throw .wrongShape

/-! ### Records -/

/-- A field of a record that is read into a partial record `σ`. -/
structure Field (ε σ : Type) where
  key : String
  read : σ → Decoder ε σ

/-- A field with its place in the partial record. A second value for it is refused. -/
def field (key : String) (get : σ → Option α) (set : α → σ → σ) (decode : Decoder ε α) :
    Field ε σ :=
  ⟨key, fun s d =>
    if (get s).isSome then .error .wrongShape
    else do return set (← decode d) s⟩

/-- The entries of an object, read into a partial record. -/
def entries (fields : List (Field ε σ)) (stop : Option Cut) (s : σ) :
    List (Option String × Draft) → Except (DecodeError ε) σ
  | [] =>
    match stop with
    | none => .ok s
    | some cut => .error (.notJson cut.read)
  | (none, _) :: _ => .error (.notJson .malformed)
  | (some key, d) :: rest =>
    match fields.find? (·.key == key) with
    | some f => do entries fields stop (← f.read s d) rest
    | none =>
      match d.break? with
      | some b => .error (.notJson b)
      | none => entries fields stop s rest

/-- The items of an array, read into a partial record in the order of the fields. -/
def slots (stop : Option Cut) : List (Field ε σ) → σ → List Draft → Except (DecodeError ε) σ
  | [], s, [] =>
    match stop with
    | none => .ok s
    | some cut => .error (.notJson cut.read)
  | [], _, _ :: _ => .error (.notJson .malformed)
  | _ :: _, s, [] =>
    match stop with
    | none => .ok s
    | some cut => .error (.notJson cut.read)
  | f :: fields, s, d :: ds => do slots stop fields (← f.read s d) ds

/-- A record. A field without a value is filled in by `finish`, which fails if it has to be
there. -/
def record (fields : List (Field ε σ)) (empty : σ) (finish : σ → Option α) : Decoder ε α := fun d =>
  match d with
  | .object es stop => do close (← entries fields stop empty es)
  | .array ds stop => do close (← slots stop fields empty ds)
  | d => .error (mismatch d)
where
  close (s : σ) : Except (DecodeError ε) α :=
    match finish s with
    | some a => .ok a
    | none => .error .wrongShape

/-- Decodes a whole text. -/
def document (decode : Decoder ε α) (text : String) : Except (DecodeError ε) α := do
  let doc := Document.read text
  let a ← decode doc.draft
  if doc.trailing then throw (.notJson .malformed)
  return a

end Decoder

mutual

/-- The draft of a value. -/
def Draft.ofJson : Json → Draft
  | .null => .null
  | .bool b => .bool b
  | .int n => .number (.int n)
  | .real bits => .number (.real bits)
  | .string s => .string s
  | .array items => .array (Draft.ofItems items) none
  | .object entries => .object (Draft.ofEntries entries) none

def Draft.ofItems : List Json → List Draft
  | [] => []
  | item :: items => Draft.ofJson item :: Draft.ofItems items

def Draft.ofEntries : List (String × Json) → List (Option String × Draft)
  | [] => []
  | (key, value) :: entries => (some key, Draft.ofJson value) :: Draft.ofEntries entries

end

/-- Reads a text as any value. -/
def ofText? (text : String) : Option Json :=
  match Decoder.document (ε := Empty) Decoder.any text with
  | .ok j => some j
  | .error _ => none

end Marksmith.Json

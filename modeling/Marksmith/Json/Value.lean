/-!
JSON values. Objects keep their entries in a list; integers are those between `-2 ^ 63` and `2 ^ 64`
that are written without fraction and exponent, and every other number is a real number, kept by its
bits. `Json.written` is the compact text of a value.
-/

namespace Marksmith

/-- JSON values. -/
inductive Json where
  | null
  | bool (value : Bool)
  | int (value : Int)
  /-- A real number, by the bits of its double. -/
  | real (bits : UInt64)
  | string (value : String)
  | array (items : List Json)
  | object (entries : List (String × Json))
deriving Repr, Inhabited

namespace Json

/-- An optional value, with `null` for none. -/
def ofOption (j : Option Json) : Json := j.getD null

/-- An optional text. -/
def ofString? (s : Option String) : Json := ofOption (s.map string)

/-- A natural number. -/
def nat (n : Nat) : Json := int n

/-- A list of texts. -/
def strings (items : List String) : Json := array (items.map string)

/-- The value of an entry, if the value is an object that has one. -/
def get? (key : String) : Json → Option Json
  | object entries => entries.lookup key
  | _ => none

/-! ### Order of entries -/

/-- The entry list with an entry put where its key belongs; an entry with the same key is
replaced. -/
def insertEntry (key : String) (value : Json) : List (String × Json) → List (String × Json)
  | [] => [(key, value)]
  | (k, v) :: rest =>
    if key = k then (key, value) :: rest
    else if key < k then (key, value) :: (k, v) :: rest
    else (k, v) :: insertEntry key value rest

mutual

/-- The value with the entries of every object sorted by key; of entries with the same key the last
one stays. -/
def sorted : Json → Json
  | array items => array (sortedItems items)
  | object entries => object (sortedEntries entries [])
  | value => value

/-- Several sorted values. -/
def sortedItems : List Json → List Json
  | [] => []
  | item :: items => sorted item :: sortedItems items

/-- Entries sorted into those that stand before them. -/
def sortedEntries : List (String × Json) → List (String × Json) → List (String × Json)
  | [], done => done
  | (key, value) :: rest, done => sortedEntries rest (insertEntry key (sorted value) done)

end

/-! ### Compact text -/

/-- A hexadecimal digit. -/
def hexDigit (n : Nat) : Char := Nat.digitChar (n % 16)

/-- A character inside a JSON string. -/
def escapeChar (c : Char) : List Char :=
  match c with
  | '"' => ['\\', '"']
  | '\\' => ['\\', '\\']
  | '\n' => ['\\', 'n']
  | '\r' => ['\\', 'r']
  | '\t' => ['\\', 't']
  | '\x08' => ['\\', 'b']
  | '\x0c' => ['\\', 'f']
  | c =>
    if c.toNat < 32 then ['\\', 'u', '0', '0', hexDigit (c.toNat / 16), hexDigit c.toNat]
    else [c]

/-- The JSON form of a text. -/
def quotedChars (s : String) : List Char := '"' :: (s.toList.flatMap escapeChar ++ ['"'])

/-- The text of an integer. -/
def intChars : Int → List Char
  | .ofNat n => Nat.toDigits 10 n
  | .negSucc n => '-' :: Nat.toDigits 10 (n + 1)

/-- The fraction of a double has 52 bits. -/
def fractionLimit : Nat := 0x10000000000000

/-- The significand of a double and the power of two that scales it, by the bits of the double. -/
def significand (bits : UInt64) : Nat × Int :=
  let exponent : Nat := bits.toNat / fractionLimit % 2048
  let fraction : Nat := bits.toNat % fractionLimit
  if exponent = 0 then (fraction, -1074)
  else (fractionLimit + fraction, (exponent : Int) - 1075)

/-- The text of a real number: its exact decimal value, with an exponent, as no integer has one. -/
def realChars (bits : UInt64) : List Char :=
  let sign := if bits.toNat < 0x8000000000000000 then [] else ['-']
  match significand bits with
  | (n, .ofNat k) => sign ++ Nat.toDigits 10 (n <<< k) ++ ['e', '0']
  | (n, .negSucc k) =>
    sign ++ Nat.toDigits 10 (n * Nat.pow 5 (k + 1)) ++ ['e', '-'] ++ Nat.toDigits 10 (k + 1)

mutual

/-- The compact text of a value. -/
def written : Json → List Char
  | null => "null".toList
  | bool true => "true".toList
  | bool false => "false".toList
  | int n => intChars n
  | real bits => realChars bits
  | string s => quotedChars s
  | array [] => ['[', ']']
  | array (item :: items) => '[' :: (written item ++ writtenItems items ++ [']'])
  | object [] => ['\x7b', '\x7d']
  | object ((key, value) :: entries) =>
    '\x7b' :: (quotedChars key ++ ':' :: (written value ++ writtenEntries entries ++ ['\x7d']))

/-- The items behind the first one. -/
def writtenItems : List Json → List Char
  | [] => []
  | item :: items => ',' :: (written item ++ writtenItems items)

/-- The entries behind the first one. -/
def writtenEntries : List (String × Json) → List Char
  | [] => []
  | (key, value) :: entries =>
    ',' :: (quotedChars key ++ ':' :: (written value ++ writtenEntries entries))

end

/-- The compact text of a value. -/
def text (j : Json) : String := String.ofList j.written

end Json

end Marksmith

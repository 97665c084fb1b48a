import Marksmith.Cache.Closure
import Marksmith.Model.Writer

/-!
Fingerprints: the stream of bytes that stands for everything a result reads. A stream is made of
parts; each part is a tag, a zero byte, the text of a value, and a byte that occurs in no text.
Equal fingerprints stand for equal inputs.
-/

namespace Marksmith

/-- A stream of bytes. -/
structure Fingerprint where
  bytes : List UInt8
deriving DecidableEq, Repr

namespace Fingerprint

/-- The bytes of a text. -/
def textBytes (s : List Char) : List UInt8 := s.flatMap String.utf8EncodeChar

/-- The byte behind a tag. -/
def tagEnd : UInt8 := 0

/-- The byte behind a value. -/
def valueEnd : UInt8 := 0xff

/-- The bytes of a part. -/
def partBytes (part : String × Json) : List UInt8 :=
  textBytes part.1.toList ++ tagEnd :: (textBytes part.2.written ++ [valueEnd])

/-- The fingerprint of parts. -/
def ofParts (parts : List (String × Json)) : Fingerprint := ⟨parts.flatMap partBytes⟩

/-- The fingerprint of a single value. -/
def ofJson (value : Json) : Fingerprint := ofParts [("value", value)]

/-- The parts of a dependency: its symbol, and its declaration if it has one. -/
def dependencyParts (host : Host) (s : Symbol) : List (String × Json) :=
  [("key", .string s.text),
   match host.declaration? s with
   | some d => ("decl", d.toJson)
   | none => ("missing", .null)]

/-- The fingerprint of everything that generating for some roots can read, and of what it reads
besides. -/
def ofDeclarations (host : Host) (token : Token) (roots : List Symbol) (extras : Json) :
    Except Cancelled Fingerprint := do
  let closure ← host.dependencyClosureUnless token roots
  return ofParts (closure.flatMap (dependencyParts host) ++ [("extras", extras)])

end Fingerprint

end Marksmith

/-!
The cache of a generator. A result is kept under its key with the fingerprint of what it was made
from, and is served as long as the fingerprint stays the same. Results of a pass are stored all
together when the pass is committed; what the pass did not produce is dropped.
-/

namespace Marksmith

/-- What a pass took from the cache, made anew, and dropped. -/
structure CacheStats where
  hits : Nat := 0
  misses : Nat := 0
  swept : Nat := 0
deriving DecidableEq, Repr

/-- A result of a pass. -/
structure Computed (κ φ α : Type) where
  key : κ
  fingerprint : φ
  value : α
  /-- Whether the result came from the cache. -/
  hit : Bool
deriving DecidableEq, Repr

/-- Results of the last committed pass. -/
structure CacheGate (κ φ α : Type) where
  entries : List (κ × φ × α) := []
  last : CacheStats := {}
deriving Repr

namespace CacheGate

variable {κ φ α ε : Type} [DecidableEq κ] [DecidableEq φ]

/-- The stored result for a key. -/
def held? (gate : CacheGate κ φ α) (key : κ) : Option (φ × α) :=
  (gate.entries.find? fun e => e.1 = key).map (·.2)

/-- The stored result for a key, if it was made from the same fingerprint. -/
def probe (gate : CacheGate κ φ α) (key : κ) (fingerprint : φ) : Option α :=
  match gate.held? key with
  | some (stored, value) => if stored = fingerprint then some value else none
  | none => none

/-- Serves a result from the cache or makes it. -/
def getOrMaterialize (gate : CacheGate κ φ α) (key : κ) (fingerprint : φ)
    (materialize : Unit → Except ε α) : Except ε (Computed κ φ α) :=
  match gate.probe key fingerprint with
  | some value => .ok ⟨key, fingerprint, value, true⟩
  | none => do return ⟨key, fingerprint, ← materialize (), false⟩

/-- Entries with one more result; an older one under the same key is replaced. -/
def store (entries : List (κ × φ × α)) (c : Computed κ φ α) : List (κ × φ × α) :=
  (entries.filter fun e => e.1 ≠ c.key) ++ [(c.key, c.fingerprint, c.value)]

/-- Replaces the entries by the results of a pass. -/
def commit (gate : CacheGate κ φ α) (computed : List (Computed κ φ α)) : CacheGate κ φ α :=
  let next : CacheGate κ φ α := { entries := computed.foldl store [] }
  { next with
    last :=
      { hits := (computed.filter (·.hit)).length
        misses := (computed.filter fun c => !c.hit).length
        swept := (gate.entries.filter fun (key, fingerprint, _) =>
          (next.held? key).all fun e => e.1 ≠ fingerprint).length } }

/-- The number of stored results. -/
def size (gate : CacheGate κ φ α) : Nat := gate.entries.length

end CacheGate

end Marksmith

/-!
Type references such as `Game.Pool<Game.Enemy>?[]`: a dotted name, type arguments, a nullable mark
and a number of array suffixes. Equality is decidable, `TypeRef.compare` orders them by their parts,
and `TypeRef.text` is the canonical text.
-/

namespace Marksmith.Syntax

/-- A reference to a type by name. -/
structure TypeRef where
  /-- The dotted name, without an alias qualifier. -/
  name : String
  args : List TypeRef
  nullable : Bool
  /-- The number of `[]` suffixes, counted in eight bits. -/
  rank : UInt8
deriving Repr, Inhabited

namespace TypeRef

mutual

/-- Equality of type references is decided part by part. -/
def decEq : (a b : TypeRef) → Decidable (a = b)
  | ⟨n, as, q, r⟩, ⟨m, bs, p, s⟩ =>
    if name : n = m then
      match decEqList as bs with
      | isTrue args =>
        if nullable : q = p then
          if rank : r = s then isTrue (by rw [name, args, nullable, rank])
          else isFalse (by intro h; cases h; exact rank rfl)
        else isFalse (by intro h; cases h; exact nullable rfl)
      | isFalse args => isFalse (by intro h; cases h; exact args rfl)
    else isFalse (by intro h; cases h; exact name rfl)

/-- Equality of type argument lists. -/
def decEqList : (as bs : List TypeRef) → Decidable (as = bs)
  | [], [] => isTrue rfl
  | [], _ :: _ => isFalse (by simp)
  | _ :: _, [] => isFalse (by simp)
  | a :: as, b :: bs =>
    match decEq a b, decEqList as bs with
    | isTrue head, isTrue tail => isTrue (by rw [head, tail])
    | isFalse head, _ => isFalse (by intro h; cases h; exact head rfl)
    | _, isFalse tail => isFalse (by intro h; cases h; exact tail rfl)

end

instance : DecidableEq TypeRef := decEq

/-- A plain name. -/
def named (name : String) : TypeRef := ⟨name, [], false, 0⟩

/-- A name with type arguments. -/
def generic (name : String) (args : List TypeRef) : TypeRef := ⟨name, args, false, 0⟩

/-- The part of a dotted name behind its last point. -/
def lastSegment (name : String) : String :=
  String.ofList (name.toList.reverse.takeWhile (· != '.')).reverse

/-- The last segment of the dotted name. -/
def simpleName (t : TypeRef) : String := lastSegment t.name

/-- The rank with one more suffix; suffixes beyond the greatest rank are dropped. -/
def nextRank (rank : UInt8) : UInt8 := if rank = 255 then rank else rank + 1

mutual

/-- The order of type references: by name, type arguments, nullable mark and rank. -/
def compare : TypeRef → TypeRef → Ordering
  | ⟨n, as, q, r⟩, ⟨m, bs, p, s⟩ =>
    (Ord.compare n m).then <| (compareList as bs).then <|
      (Ord.compare q p).then (Ord.compare r s)

/-- Type argument lists are ordered lexicographically. -/
def compareList : List TypeRef → List TypeRef → Ordering
  | [], [] => .eq
  | [], _ :: _ => .lt
  | _ :: _, [] => .gt
  | a :: as, b :: bs => (compare a b).then (compareList as bs)

end

/-! ### Canonical text -/

/-- The text of array suffixes. -/
def brackets (rank : UInt8) : List Char := (List.replicate rank.toNat ['[', ']']).flatten

mutual

/-- The canonical text of a type reference. -/
def written : TypeRef → List Char
  | ⟨name, args, nullable, rank⟩ =>
    name.toList ++ writtenArgs args ++ (if nullable then ['?'] else []) ++ brackets rank

/-- Type arguments in angle brackets; nothing without arguments. -/
def writtenArgs : List TypeRef → List Char
  | [] => []
  | t :: ts => '<' :: (written t ++ writtenMore ts) ++ ['>']

/-- The arguments behind the first one. -/
def writtenMore : List TypeRef → List Char
  | [] => []
  | t :: ts => ',' :: ' ' :: (written t ++ writtenMore ts)

end

/-- The canonical text of a type reference. -/
def text (t : TypeRef) : String := String.ofList t.written

end TypeRef

end Marksmith.Syntax

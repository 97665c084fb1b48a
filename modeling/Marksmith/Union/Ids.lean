/-!
Type ids of union variants. Ids are the numbers from 1 to 255. A variant may force its id; the
others, sorted by name and then by their place in the list, take the lowest ids that nobody forces,
in increasing order.
-/

namespace Marksmith.Union

/-- The greatest id. -/
def maxId : Nat := 255

/-- A variant that wants an id. -/
structure IdCandidate where
  name : String
  forced : Option Nat
deriving DecidableEq, Repr

/-- Why ids cannot be assigned. -/
inductive IdError where
  | duplicateForced (id : Nat) (first second : String)
  | reservedId (name : String)
  | capacity (count : Nat)
deriving DecidableEq, Repr

/-- The wording of an id error. -/
def IdError.message : IdError → String
  | duplicateForced id first second =>
    "`" ++ first ++ "` and `" ++ second ++ "` both force id " ++ toString id
  | reservedId name => "`" ++ name ++ "` forces the reserved id 0"
  | capacity count =>
    toString count ++ " candidates exceed the " ++ toString maxId ++ " available ids"

/-- The first candidate whose forced id is reserved or forced before, with the candidates before it
in `earlier`. -/
def firstFault? (earlier : List IdCandidate) : List IdCandidate → Option IdError
  | [] => none
  | c :: cs =>
    match c.forced with
    | none => firstFault? (earlier ++ [c]) cs
    | some 0 => some (.reservedId c.name)
    | some id =>
      match earlier.find? (·.forced == some id) with
      | some first => some (.duplicateForced id first.name c.name)
      | none => firstFault? (earlier ++ [c]) cs

/-- The ids that candidates force. -/
def forcedIds (cs : List IdCandidate) : List Nat := cs.filterMap (·.forced)

/-- The ids that nobody forces, in increasing order. -/
def freeIds (cs : List IdCandidate) : List Nat :=
  ((List.range maxId).map (· + 1)).filter fun id => !(forcedIds cs).contains id

/-- Whether the candidate `a` at place `i` stands before `b` at place `j`. -/
def notAfter (a b : String × Nat) : Bool :=
  ((Ord.compare a.1 b.1).then (Ord.compare a.2 b.2)).isLE

/-- The candidates that force no id, with their places, in the order in which they take ids. -/
def unforced (cs : List IdCandidate) : List (String × Nat) :=
  ((cs.zipIdx.filter (·.1.forced.isNone)).map fun (c, i) => (c.name, i)).mergeSort notAfter

/-- The id that the candidate at a place gets. -/
def idAt? (cs : List IdCandidate) (c : IdCandidate) (place : Nat) : Option Nat :=
  match c.forced with
  | some id => some id
  | none => do
    let turn ← (unforced cs).findIdx? (·.2 == place)
    (freeIds cs)[turn]?

/-- Assigns ids to candidates, in the order of the candidates. -/
def assignIds (cs : List IdCandidate) : Except IdError (List Nat) :=
  if maxId < cs.length then .error (.capacity cs.length)
  else
    match firstFault? [] cs with
    | some fault => .error fault
    | none =>
      match cs.zipIdx.mapM fun (c, i) => idAt? cs c i with
      | some ids => .ok ids
      | none => .error (.capacity cs.length)

end Marksmith.Union

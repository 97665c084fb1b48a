/-!
Names that are unique within a scope. A name that is taken gets the least number behind it that
makes it new, from two on.
-/

namespace Marksmith.Source

/-- The names that are taken in a scope, latest first. -/
structure FreshNames where
  taken : List String := []
deriving DecidableEq, Repr

namespace FreshNames

/-- A name with a number behind it. -/
def numbered (base : String) (n : Nat) : String := base ++ "_" ++ toString n

/-- The least number from two on that makes a name new. One of the numbers tried does, as there are
more of them than names that are taken. -/
def leastNumber (taken : List String) (base : String) : Nat :=
  ((List.range' 2 (taken.length + 1)).find? fun n => !taken.contains (numbered base n)).getD 2

/-- Takes a name. -/
def reserve (names : FreshNames) (name : String) : FreshNames := ⟨name :: names.taken⟩

/-- The name that `allocate` gives. -/
def next (names : FreshNames) (base : String) : String :=
  if names.taken.contains base then numbered base (leastNumber names.taken base) else base

/-- A new name for a base, and the scope in which it is taken. -/
def allocate (names : FreshNames) (base : String) : String × FreshNames :=
  (names.next base, names.reserve (names.next base))

/-- New names for some bases, in order. -/
def allocateAll (names : FreshNames) : List String → List String
  | [] => []
  | base :: bases => names.next base :: allocateAll (names.reserve (names.next base)) bases

end FreshNames

end Marksmith.Source

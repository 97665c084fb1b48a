/-!
Sets of names as sorted lists without repetitions.
-/

namespace Marksmith.Text

/-- A sorted list of names with one more name. -/
def insertName (name : String) : List String → List String
  | [] => [name]
  | n :: names =>
    if name = n then n :: names
    else if name < n then name :: n :: names
    else n :: insertName name names

/-- The names of a list, sorted and each once. -/
def nameSet (names : List String) : List String := names.foldr insertName []

theorem mem_insertName {name x : String} {names : List String} :
    x ∈ insertName name names ↔ x = name ∨ x ∈ names := by
  induction names with
  | nil => simp [insertName]
  | cons n names ih =>
    simp only [insertName]
    split
    · rename_i h; subst h; simp
    · split
      · simp
      · simp only [List.mem_cons, ih]; grind

/-- The set has exactly the names of the list. -/
theorem mem_nameSet {x : String} {names : List String} : x ∈ nameSet names ↔ x ∈ names := by
  induction names with
  | nil => simp [nameSet]
  | cons n names ih =>
    have unfolded : nameSet (n :: names) = insertName n (nameSet names) := rfl
    rw [unfolded, mem_insertName, ih, List.mem_cons]

end Marksmith.Text

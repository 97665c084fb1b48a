import Marksmith.Analysis.Index
import Marksmith.Source.FreshNames

/-!
Cases of a union: each variant of a family with its id and the name of its type tag, in the order of
the ids. Header and variants take the names from here.
-/

namespace Marksmith

/-- A variant with its id and the name of its tag. -/
structure UnionCase where
  id : Nat
  name : String
  variant : UnionVariant
deriving DecidableEq, Repr

namespace UnionFamily

/-- The tag of no variant. -/
def unsetName : String := "Unset"

/-- The name that a variant asks for. -/
def baseName (v : UnionVariant) : String := (Identifier.sanitize v.symbol.simpleName).getD "Variant"

/-- Variants with ids, in the order of the ids. -/
def byId (ids : List Nat) (variants : List UnionVariant) : List (Nat × UnionVariant) :=
  (ids.zip variants).mergeSort fun a b => decide (a.1 ≤ b.1)

/-- The cases of a family with these ids. -/
def cases (family : UnionFamily) (ids : List Nat) : List UnionCase :=
  let sorted := byId ids family.variants
  let names := Source.FreshNames.allocateAll ⟨[unsetName]⟩ (sorted.map fun (_, v) => baseName v)
  (sorted.zip names).map fun ((id, variant), name) => ⟨id, name, variant⟩

/-- A family without variants. -/
def empty (root : Symbol) : UnionFamily := ⟨root, [], .ok []⟩

/-- The report that a family has no ids. -/
def idReport (root : Symbol) (file : Option String) (e : Union.IdError) : Diagnostic :=
  let code : DiagnosticCode := match e with
    | .duplicateForced .. => .duplicateForcedUnionId
    | .capacity _ => .unionCapacityExceeded
    | .reservedId _ => .malformedMarkerAttribute
  ⟨{ symbol := root.name, file }, code, "union family `" ++ root.text ++ "`: " ++ e.message⟩

end UnionFamily

end Marksmith

import Marksmith.Host.Resolve

/-!
Storage of values: whether a type is unmanaged, and how large its values are. A struct that contains
itself is no unmanaged type, and its inner occurrence takes no room.
-/

namespace Marksmith.Host

open Syntax (TypeRef)

variable (host : Host)

/-- The size of references, and of everything whose layout is unknown. -/
def pointerSize : Nat := 8

/-- The kind of a declared type. -/
def kindOf? (t : TypeRef) : Option TypeKind := (host.declaration? (.ofType t)).map TypeDecl.kind

/-- Whether `p` holds of every element, decided from the front. -/
def allWithin? {α : Type} (p : α → Option Bool) : List α → Option Bool
  | [] => some true
  | a :: as => do if ← p a then allWithin? p as else return false

/-- The sum of the sizes of all elements. -/
def sumWithin? {α : Type} (size : α → Option Nat) : List α → Option Nat
  | [] => some 0
  | a :: as => do return (← size a) + (← sumWithin? size as)

/-- Whether a type is unmanaged, with the structs around it; nothing if it is nested more deeply
than `depth`. -/
def isUnmanagedWithin? : (depth : Nat) → (around : List TypeRef) → TypeRef → Option Bool
  | 0, _, _ => none
  | depth + 1, around, t =>
    if t.nullable || t.rank > 0 then some false
    else if (Engine.primitiveSize? t.name).isSome then some true
    else
      match host.kindOf? t with
      | some .enum => some true
      | some .struct =>
        if t ∈ around then some false
        else
          allWithin?
            (fun field =>
              match field.2 with
              | some f => isUnmanagedWithin? depth (t :: around) f
              | none => some false)
            (host.instanceFields t)
      | _ => some false

/-- Whether a type is unmanaged: a primitive type, an enumeration, or a struct whose instance fields
are all unmanaged. -/
def isUnmanaged (t : TypeRef) : Bool :=
  (host.isUnmanagedWithin? host.stepLimit [] t).getD false

/-- The size of a value, with the structs around it; nothing if it is nested more deeply than
`depth`. -/
def sizeWithin? : (depth : Nat) → (around : List TypeRef) → TypeRef → Option Nat
  | 0, _, _ => none
  | depth + 1, around, t =>
    if t.rank > 0 then some pointerSize
    else
      match Engine.primitiveSize? t.name with
      | some size => some (if t.nullable then size + 1 else size)
      | none =>
        match host.kindOf? t with
        | some .enum => some 4
        | some .struct =>
          if t ∈ around then some 0
          else do
            let size ← sumWithin?
              (fun field =>
                match field.2 with
                | some f => sizeWithin? depth (t :: around) f
                | none => some pointerSize)
              (host.instanceFields t)
            return max size 1
        | _ => some pointerSize

/-- The size of a value of a type, without padding. -/
def estimateSize (t : TypeRef) : Nat := (host.sizeWithin? host.stepLimit [] t).getD 0

end Marksmith.Host

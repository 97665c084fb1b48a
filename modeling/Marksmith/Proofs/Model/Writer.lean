import Marksmith.Model.Writer
import Marksmith.Host.Host
import Mathlib.Data.List.Basic

/-!
What the serialized form of a declaration says about it. Types are written as texts, but attributes
are written in full.

* `Attribute.toJson_inj`: different attributes have different forms;
* `TypeDecl.alike_of_toJson_eq`: declarations of the same form define the same symbol, carry the same
  markers, and are reported at the same location.
-/

namespace Marksmith

theorem Json.ofString?_inj {s t : Option String} (same : Json.ofString? s = Json.ofString? t) :
    s = t := by
  cases s with
  | none =>
    cases t with
    | none => rfl
    | some t => cases same
  | some s =>
    cases t with
    | none => cases same
    | some t => rw [Json.string.inj same]

theorem Json.strings_inj {ss ts : List String} (same : Json.strings ss = Json.strings ts) :
    ss = ts :=
  List.map_injective_iff.mpr (fun _ _ texts => Json.string.inj texts) (Json.array.inj same)

/-! ### Attributes -/

mutual

theorem AttributeValue.toJson_inj :
    ∀ {v w : AttributeValue}, AttributeValue.toJson v = AttributeValue.toJson w → v = w
  | .bool b, w, same => by
    cases w with
    | bool c =>
      rw [AttributeValue.toJson, AttributeValue.toJson] at same
      rw [Json.bool.inj same]
    | _ =>
      rw [AttributeValue.toJson, AttributeValue.toJson] at same
      cases same
  | .int m, w, same => by
    cases w with
    | int n =>
      rw [AttributeValue.toJson, AttributeValue.toJson] at same
      rw [Json.int.inj same]
    | _ =>
      rw [AttributeValue.toJson, AttributeValue.toJson] at same
      cases same
  | .text s, w, same => by
    cases w with
    | text t =>
      rw [AttributeValue.toJson, AttributeValue.toJson] at same
      rw [Json.string.inj same]
    | _ =>
      rw [AttributeValue.toJson, AttributeValue.toJson] at same
      cases same
  | .list vs, w, same => by
    cases w with
    | list ws =>
      rw [AttributeValue.toJson, AttributeValue.toJson] at same
      rw [AttributeValue.listToJson_inj (Json.array.inj same)]
    | _ =>
      rw [AttributeValue.toJson, AttributeValue.toJson] at same
      cases same

theorem AttributeValue.listToJson_inj : ∀ {vs ws : List AttributeValue},
    AttributeValue.listToJson vs = AttributeValue.listToJson ws → vs = ws
  | [], ws, same => by
    cases ws with
    | nil => rfl
    | cons w ws =>
      rw [AttributeValue.listToJson, AttributeValue.listToJson] at same
      cases same
  | v :: vs, ws, same => by
    cases ws with
    | nil =>
      rw [AttributeValue.listToJson, AttributeValue.listToJson] at same
      cases same
    | cons w ws =>
      rw [AttributeValue.listToJson, AttributeValue.listToJson] at same
      obtain ⟨first, rest⟩ := List.cons.inj same
      rw [AttributeValue.toJson_inj first, AttributeValue.listToJson_inj rest]

end

theorem AttributeArg.toJson_inj {a b : AttributeArg} (same : a.toJson = b.toJson) : a = b := by
  obtain ⟨name, value⟩ := a
  obtain ⟨name', value'⟩ := b
  simp only [AttributeArg.toJson, Json.object.injEq, List.cons.injEq, Prod.mk.injEq,
    true_and, and_true] at same
  rw [Json.ofString?_inj same.1, AttributeValue.toJson_inj same.2]

/-- Different attributes have different forms. -/
theorem Attribute.toJson_inj {a b : Attribute} (same : a.toJson = b.toJson) : a = b := by
  obtain ⟨name, args⟩ := a
  obtain ⟨name', args'⟩ := b
  simp only [Attribute.toJson, Json.object.injEq, List.cons.injEq, Prod.mk.injEq, true_and,
    and_true, Json.string.injEq, Json.array.injEq] at same
  have equal := List.map_injective_iff.mpr (fun _ _ => AttributeArg.toJson_inj) same.2
  rw [same.1, equal]

/-! ### Declarations -/

theorem TypeKind.toJson_inj {k l : TypeKind} (same : k.toJson = l.toJson) : k = l := by
  have words := Json.string.inj same
  cases k <;> cases l <;> first | rfl | exact absurd words (by decide)

/-- Declarations that generating cannot tell apart by their markers and locations. -/
structure TypeDecl.Alike (d e : TypeDecl) : Prop where
  symbol : d.symbol = e.symbol
  kind : d.kind = e.kind
  attributes : d.attributes = e.attributes
  external : d.external = e.external
  file : d.file = e.file

/-- Declarations of the same form are alike. -/
theorem TypeDecl.alike_of_toJson_eq {d e : TypeDecl} (same : d.toJson = e.toJson) : d.Alike e := by
  simp only [TypeDecl.toJson, Json.object.injEq, List.cons.injEq, Prod.mk.injEq, true_and,
    and_true, Json.string.injEq, Json.array.injEq, Json.bool.injEq] at same
  obtain ⟨name, kind, params, -, -, -, -, attributes, -, -, -, -, -, -, external, file⟩ := same
  exact {
    symbol := by rw [TypeDecl.symbol, TypeDecl.symbol, name, Json.strings_inj params]
    kind := TypeKind.toJson_inj kind
    attributes := List.map_injective_iff.mpr (fun _ _ => Attribute.toJson_inj) attributes
    external
    file := Json.ofString?_inj file }

end Marksmith

import Marksmith.Model.Reader
import Marksmith.Model.Writer
import Marksmith.Proofs.Json.Depth
import Marksmith.Proofs.Json.Reading

/-!
Models that fit into a text: the integers in their attributes have 64 bits with their sign, and the
lists in their attributes are not nested too deeply. Nothing else in a model has a size that a text
could not hold.

* `fits_of_ofText`: a model that is read from a text fits into a text;
* `Model.Fits.readable`: the form of such a model is readable.
-/

namespace Marksmith

open Json

/-! ### Values that fit -/

mutual

/-- At most so many lists stand within one another, and integers fit 64 bits with their sign. -/
def AttributeValue.Fits : (levels : Nat) → AttributeValue → Prop
  | _, .int n => -0x8000000000000000 ≤ n ∧ n < 0x8000000000000000
  | levels, .list vs => 0 < levels ∧ AttributeValue.AllFit (levels - 1) vs
  | _, _ => True

def AttributeValue.AllFit : (levels : Nat) → List AttributeValue → Prop
  | _, [] => True
  | levels, v :: vs => AttributeValue.Fits levels v ∧ AttributeValue.AllFit levels vs

end

/-- The values of the arguments fit into so many levels. -/
def Attribute.Fits (levels : Nat) (a : Attribute) : Prop := ∀ arg ∈ a.args, arg.value.Fits levels

/-- The attributes of a declaration and of its methods fit: around the values in them stand the
model, the declaration, the attribute and its argument, each in a list, and for methods also the
method in a list. -/
structure TypeDecl.Fits (d : TypeDecl) : Prop where
  attributes : ∀ a ∈ d.attributes, a.Fits 120
  methods : ∀ m ∈ d.methods, ∀ a ∈ m.attributes, a.Fits 118

structure Model.Fits (m : Model) : Prop where
  assembly : ∀ a ∈ m.assemblyAttributes, a.Fits 122
  types : ∀ d ∈ m.types, d.Fits

/-! ### What is read from a text -/

namespace Model.Reader

open Decoder Draft

mutual

theorem fits_of_any : ∀ {d : Draft} {levels : Nat} {j : Json} {v : AttributeValue},
    Shallow levels d → any (ε := TypeTextError) d = .ok j → attributeValue? j = some v →
      v.Fits levels
  | .null, levels, j, v, shallow, read, valued => by
    cases read
    cases valued
  | .bool b, levels, j, v, shallow, read, valued => by
    cases read
    cases valued
    trivial
  | .number (.int n), levels, j, v, shallow, read, valued => by
    cases read
    rw [attributeValue?] at valued
    split at valued
    · next bounded =>
      cases valued
      exact bounded
    · cases valued
  | .number (.real bits), levels, j, v, shallow, read, valued => by
    cases read
    cases valued
  | .string s, levels, j, v, shallow, read, valued => by
    cases read
    cases valued
    trivial
  | .flawed, levels, j, v, shallow, read, valued => by
    cases read
  | .array ds stop, levels, j, v, shallow, read, valued => by
    obtain ⟨items, readItems, rfl⟩ := map_eq_ok_iff.mp read
    obtain ⟨vs, values, rfl⟩ := Option.map_eq_some_iff.mp valued
    exact ⟨shallow.1, allFit_of_anyItems shallow.2 readItems values⟩
  | .object es stop, levels, j, v, shallow, read, valued => by
    obtain ⟨entries, -, rfl⟩ := map_eq_ok_iff.mp read
    cases valued
  | .broken cut, levels, j, v, shallow, read, valued => by
    cases read

theorem allFit_of_anyItems : ∀ {ds : List Draft} {levels : Nat} {stop : Option Cut}
    {js : List Json} {vs : List AttributeValue}, ShallowItems levels ds →
      anyItems (ε := TypeTextError) stop ds = .ok js → attributeValues? js = some vs →
        AttributeValue.AllFit levels vs
  | [], levels, stop, js, vs, shallow, read, valued => by
    cases stop with
    | none =>
      cases read
      cases valued
      trivial
    | some cut => cases read
  | d :: ds, levels, stop, js, vs, shallow, read, valued => by
    rw [anyItems, bind_eq_ok_iff] at read
    obtain ⟨j, first, read⟩ := read
    obtain ⟨rest, later, made⟩ := bind_eq_ok_iff.mp read
    cases made
    rw [attributeValues?] at valued
    obtain ⟨v, here, valued⟩ := Option.bind_eq_some_iff.mp valued
    obtain ⟨others, there, made⟩ := Option.bind_eq_some_iff.mp valued
    cases made
    exact ⟨fits_of_any shallow.1 first here, allFit_of_anyItems shallow.2 later there⟩

end

theorem mem_some {α : Type} {P : α → Prop} {a : α} (holds : P a) : ∀ b ∈ some a, P b := by
  intro b same
  cases same
  exact holds

theorem mem_getD {α : Type} {Q : α → Prop} {as? : Option (List α)}
    (each : ∀ as ∈ as?, ∀ a ∈ as, Q a) : ∀ a ∈ as?.getD [], Q a := by
  cases as? with
  | none => exact List.forall_mem_nil _
  | some as => exact each as rfl

theorem ensures_value (levels : Nat) :
    Ensures levels (·.Fits levels) (whole (ε := TypeTextError) attributeValue?) := by
  intro d v shallow decoded
  obtain ⟨j, read, valued⟩ := whole_eq_ok_iff.mp decoded
  exact fits_of_any shallow read valued

theorem ensures_arg (levels : Nat) : Ensures (levels + 1) (·.value.Fits levels) arg := by
  refine Ensures.record (I := fun s => ∀ v ∈ s.value, v.Fits levels) ?_ nofun ?_
  · simp only [argFields, List.forall_mem_cons]
    exact ⟨.plain id, .ensured (ensures_value levels) fun fits _ => mem_some fits,
      List.forall_mem_nil _⟩
  · intro s a holds close
    obtain ⟨v, valued, close⟩ := Option.bind_eq_some_iff.mp close
    cases close
    exact holds v valued

theorem ensures_attributeDecl (levels : Nat) :
    Ensures (levels + 3) (·.Fits levels) attributeDecl := by
  refine Ensures.record (I := fun s => ∀ args ∈ s.args, ∀ arg ∈ args, arg.value.Fits levels) ?_
    nofun ?_
  · simp only [attributeFields, List.forall_mem_cons]
    exact ⟨.plain id, .ensured (ensures_arg levels).list fun fits _ => mem_some fits,
      List.forall_mem_nil _⟩
  · intro s a holds close
    obtain ⟨name, named, close⟩ := Option.bind_eq_some_iff.mp close
    cases close
    exact mem_getD holds

theorem ensures_methodDecl (levels : Nat) :
    Ensures (levels + 5) (fun m => ∀ a ∈ m.attributes, a.Fits levels) methodDecl := by
  refine Ensures.record (I := fun s => ∀ as ∈ s.attributes, ∀ a ∈ as, a.Fits levels) ?_ nofun ?_
  · simp only [methodFields, List.forall_mem_cons]
    exact ⟨.plain id, .plain id, .plain id, .plain id, .plain id, .plain id, .plain id,
      .ensured (ensures_attributeDecl levels).list fun fits _ => mem_some fits, .plain id,
      List.forall_mem_nil _⟩
  · intro s m holds close
    obtain ⟨name, named, close⟩ := Option.bind_eq_some_iff.mp close
    cases close
    exact mem_getD holds

theorem ensures_typeDecl : Ensures 125 TypeDecl.Fits typeDecl := by
  refine Ensures.record (I := fun s => (∀ as ∈ s.attributes, ∀ a ∈ as, a.Fits 120) ∧
    ∀ ms ∈ s.methods, ∀ m ∈ ms, ∀ a ∈ m.attributes, a.Fits 118) ?_ ⟨nofun, nofun⟩ ?_
  · simp only [typeFields, List.forall_mem_cons]
    exact ⟨.plain id, .plain id, .plain id, .plain id, .plain id, .plain id, .plain id,
      .ensured (ensures_attributeDecl 120).list fun fits holds => ⟨mem_some fits, holds.2⟩,
      .plain id, .plain id,
      .ensured (ensures_methodDecl 118).list fun fits holds => ⟨holds.1, mem_some fits⟩,
      .plain id, .plain id, .plain id, .plain id, .plain id, List.forall_mem_nil _⟩
  · intro s d holds close
    obtain ⟨name, named, close⟩ := Option.bind_eq_some_iff.mp close
    obtain ⟨kind, sort, close⟩ := Option.bind_eq_some_iff.mp close
    cases close
    exact ⟨mem_getD holds.1, mem_getD holds.2⟩

theorem ensures_model : Ensures 127 Model.Fits model := by
  refine Ensures.record (I := fun s => (∀ as ∈ s.assemblyAttributes, ∀ a ∈ as, a.Fits 122) ∧
    ∀ ds ∈ s.types, ∀ d ∈ ds, d.Fits) ?_ ⟨nofun, nofun⟩ ?_
  · simp only [modelFields, List.forall_mem_cons]
    exact ⟨.plain id,
      .ensured (ensures_attributeDecl 122).list fun fits holds => ⟨mem_some fits, holds.2⟩,
      .ensured ensures_typeDecl.list fun fits holds => ⟨holds.1, mem_some fits⟩,
      List.forall_mem_nil _⟩
  · intro s m holds close
    cases close
    exact ⟨mem_getD holds.1, mem_getD holds.2⟩

end Model.Reader

/-- A model that is read from a text fits into a text. -/
theorem Model.fits_of_ofText {text : String} {m : Model} (read : ofText text = .ok m) : m.Fits :=
  Reader.ensures_model (shallow_read text) (Decoder.document_eq_ok_iff.mp read).1

/-! ### Forms of what fits -/

mutual

theorem AttributeValue.Fits.readable : ∀ {v : AttributeValue} {levels : Nat}, v.Fits levels →
    Readable levels v.toJson
  | .bool _, _, _ => trivial
  | .int _, _, fits => ⟨fits.1, Int.lt_trans fits.2 (by decide)⟩
  | .text _, _, _ => trivial
  | .list vs, levels, fits => ⟨fits.1, AttributeValue.AllFit.readable fits.2⟩

theorem AttributeValue.AllFit.readable : ∀ {vs : List AttributeValue} {levels : Nat},
    AttributeValue.AllFit levels vs → ReadableItems levels (AttributeValue.listToJson vs)
  | [], _, _ => trivial
  | _ :: _, _, fit => ⟨AttributeValue.Fits.readable fit.1, AttributeValue.AllFit.readable fit.2⟩

end


section Forms

variable {levels : Nat}

theorem readable_array_map {α : Type} {write : α → Json} {as : List α}
    (each : ∀ a ∈ as, Readable levels (write a)) :
    Readable (levels + 1) (.array (as.map write)) :=
  readable_array_iff.mpr (List.forall_mem_map.mpr each)

theorem readable_string (s : String) : Readable levels (.string s) := trivial

theorem readable_ofString? (s : Option String) : Readable levels (.ofString? s) := by
  cases s <;> trivial

theorem readable_strings (ss : List String) : Readable (levels + 1) (.strings ss) :=
  readable_array_map fun s _ => readable_string s

theorem readable_type? (t : Option Syntax.TypeRef) : Readable levels (.type? t) := by
  cases t <;> trivial

theorem readable_types (ts : List Syntax.TypeRef) : Readable (levels + 1) (.types ts) :=
  readable_array_map fun t _ => readable_string t.text

theorem readable_accessibility (a : Accessibility) : Readable levels a.toJson := by
  cases a <;> trivial

theorem Attribute.Fits.readable {a : Attribute} (fits : a.Fits levels) :
    Readable (levels + 3) a.toJson := by
  simp only [toJson, readable_object_iff, List.forall_mem_cons]
  refine ⟨trivial, readable_array_map fun arg mem => ?_, List.forall_mem_nil _⟩
  simp only [AttributeArg.toJson, readable_object_iff, List.forall_mem_cons]
  exact ⟨readable_ofString? _, (fits arg mem).readable, List.forall_mem_nil _⟩

theorem readable_fieldDecl (f : FieldDecl) : Readable (levels + 1) f.toJson := by
  simp only [FieldDecl.toJson, readable_object_iff, List.forall_mem_cons]
  exact ⟨trivial, trivial, readable_accessibility _, trivial, trivial, List.forall_mem_nil _⟩

theorem readable_propertyDecl (p : PropertyDecl) : Readable (levels + 1) p.toJson := by
  simp only [PropertyDecl.toJson, readable_object_iff, List.forall_mem_cons]
  exact ⟨trivial, trivial, readable_accessibility _, trivial, trivial, List.forall_mem_nil _⟩

theorem readable_paramDecl (p : ParamDecl) : Readable (levels + 1) p.toJson := by
  simp only [ParamDecl.toJson, readable_object_iff, List.forall_mem_cons]
  exact ⟨trivial, trivial, trivial, List.forall_mem_nil _⟩

theorem readable_bodyStatement (s : BodyStatement) : Readable (levels + 1) s.toJson := by
  rw [BodyStatement.toJson]
  split
  · trivial
  · simp only [readable_object_iff, List.forall_mem_cons]
    exact ⟨trivial, trivial, List.forall_mem_nil _⟩

theorem readable_methodDecl {m : MethodDecl} (fits : ∀ a ∈ m.attributes, a.Fits levels) :
    Readable (levels + 5) m.toJson := by
  simp only [MethodDecl.toJson, readable_object_iff, List.forall_mem_cons]
  exact ⟨trivial, readable_strings _, readable_array_map fun p _ => readable_paramDecl p, trivial,
    readable_accessibility _, trivial, trivial, readable_array_map fun a mem => (fits a mem).readable,
    readable_array_map fun s _ => readable_bodyStatement s, List.forall_mem_nil _⟩

theorem TypeDecl.Fits.readable {d : TypeDecl} (fits : d.Fits) : Readable 125 d.toJson := by
  simp only [toJson, readable_object_iff, List.forall_mem_cons]
  exact ⟨trivial, trivial, readable_strings _, readable_accessibility _, readable_ofString? _,
    readable_type? _, readable_types _,
    readable_array_map fun a mem => (fits.attributes a mem).readable,
    readable_array_map fun f _ => readable_fieldDecl f,
    readable_array_map fun p _ => readable_propertyDecl p,
    readable_array_map fun m mem => readable_methodDecl (fits.methods m mem),
    trivial, trivial, trivial, trivial, readable_ofString? _, List.forall_mem_nil _⟩

/-- The form of a model that fits into a text is readable. -/
theorem Model.Fits.readable {m : Model} (fits : m.Fits) : Readable Draft.maxDepth m.toJson := by
  simp only [toJson, Draft.maxDepth, readable_object_iff, List.forall_mem_cons]
  refine ⟨?_, readable_array_map fun a mem => (fits.assembly a mem).readable,
    readable_array_map fun d mem => (fits.types d mem).readable, List.forall_mem_nil _⟩
  simp only [Settings.toJson, readable_object_iff, List.forall_mem_cons]
  exact ⟨trivial, trivial, readable_ofString? _, List.forall_mem_nil _⟩

end Forms

end Marksmith

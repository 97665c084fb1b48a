import Marksmith.Proofs.Json.Restoring
import Marksmith.Proofs.Model.Fitting
import Marksmith.Proofs.Model.Layout
import Marksmith.Proofs.Syntax.Reparsing

/-!
Models that are read again from the form that they are written in. Everything in a model is given
back except types, which are written as texts: a type is given back if its text is read as that type.

* `attributeDecl_ofJson`, `settings_ofJson`: what has no types in it is given back;
* `fieldDecl_ofJson_iff`, `methodDecl_ofJson_iff`, `typeDecl_ofJson_iff`: a declaration is given back
  exactly if the types in it are;
* `model_ofJson_eq_ok_iff`, `Model.ofText_toJson_iff`: so is a model.
-/

namespace Marksmith

open Json Syntax

/-- The types that stand in a method: in its signature, and as the types of statements. -/
def MethodDecl.writtenTypes (m : MethodDecl) : List TypeRef :=
  m.returns :: (m.params.map (·.type) ++ m.body.filterMap fun s => s.annotation)

/-- The types that stand in a declaration. -/
def TypeDecl.writtenTypes (d : TypeDecl) : List TypeRef :=
  d.base.toList ++ d.interfaces ++ d.fields.map (·.type) ++ d.properties.map (·.type) ++
    d.methods.flatMap (·.writtenTypes)

theorem TypeDecl.forall_mem_writtenTypes {d : TypeDecl} {P : TypeRef → Prop} :
    (∀ t ∈ d.writtenTypes, P t) ↔ (∀ t ∈ d.base, P t) ∧ (∀ t ∈ d.interfaces, P t) ∧
      (∀ f ∈ d.fields, P f.type) ∧ (∀ p ∈ d.properties, P p.type) ∧
        ∀ m ∈ d.methods, ∀ t ∈ m.writtenTypes, P t := by
  rw [writtenTypes]
  simp only [List.forall_mem_append, List.forall_mem_map, List.forall_mem_flatMap, and_assoc,
    Option.mem_toList, Option.mem_def]

/-- The types that stand in a model. -/
def Model.writtenTypes (m : Model) : List TypeRef := m.types.flatMap (·.writtenTypes)

namespace Model.Reader

open Decoder

/-! ### Words and types -/

theorem string_ofJson (s : String) :
    Decoder.string (ε := TypeTextError) (Draft.ofJson (.string s)) = .ok s := rfl

theorem bool_ofJson (b : Bool) :
    Decoder.bool (ε := TypeTextError) (Draft.ofJson (.bool b)) = .ok b := rfl

theorem string?_ofJson (s : Option String) :
    Decoder.option (Decoder.string (ε := TypeTextError)) (Draft.ofJson (.ofString? s)) = .ok s := by
  cases s <;> rfl

theorem strings_ofJson (ss : List String) : strings (Draft.ofJson (.strings ss)) = .ok ss :=
  list_ofJson_iff.mpr fun s _ => string_ofJson s

theorem kind_ofJson (k : TypeKind) : kind (Draft.ofJson k.toJson) = .ok k := by
  cases k <;> rfl

theorem accessibility_ofJson (a : Accessibility) :
    accessibility (Draft.ofJson a.toJson) = .ok a := by
  cases a <;> rfl

theorem mode_ofJson (m : PassMode) : mode (Draft.ofJson m.toJson) = .ok m := by
  cases m <;> rfl

theorem type_eq_ok_iff {t u : TypeRef} :
    type (Draft.ofJson t.toJson) = .ok u ↔ parseType t.text = .ok u := by
  rw [type, refine_eq_ok_iff]
  constructor
  · rintro ⟨_, text, read⟩
    cases text
    exact readType_eq_ok_iff.mp read
  · exact fun read => ⟨_, rfl, readType_eq_ok_iff.mpr read⟩

theorem type?_ofJson_iff {t : Option TypeRef} :
    type? (Draft.ofJson (.type? t)) = .ok t ↔ ∀ u ∈ t, u.Reparses := by
  cases t with
  | none => exact iff_of_true rfl nofun
  | some t =>
    have single : (∀ u ∈ some t, u.Reparses) ↔ t.Reparses := by simp
    rw [type?, refine_eq_ok_iff, single]
    constructor
    · rintro ⟨_, text, read⟩
      cases text
      obtain ⟨_, read, same⟩ := map_eq_ok_iff.mp read
      cases same
      exact readType_eq_ok_iff.mp read
    · exact fun read => ⟨_, rfl, map_eq_ok_iff.mpr ⟨t, readType_eq_ok_iff.mpr read, rfl⟩⟩

theorem types_ofJson_iff {ts : List TypeRef} :
    types (Draft.ofJson (.types ts)) = .ok ts ↔ ∀ t ∈ ts, t.Reparses := by
  have form : Json.types ts = .array ((ts.map (·.text)).map Json.string) := by
    rw [List.map_map]
    rfl
  have texts : Decoder.list (Decoder.string (ε := TypeTextError)) (Draft.ofJson (.types ts))
      = .ok (ts.map (·.text)) := by
    rw [form]
    exact list_ofJson_iff.mpr fun s _ => string_ofJson s
  rw [types, refine_eq_ok_iff, texts]
  constructor
  · rintro ⟨_, same, read⟩
    cases same
    rw [mapM_eq_ok_iff, List.forall₂_map_left_iff, List.forall₂_same] at read
    exact fun t mem => readType_eq_ok_iff.mp (read t mem)
  · intro reparse
    refine ⟨_, rfl, ?_⟩
    rw [mapM_eq_ok_iff, List.forall₂_map_left_iff, List.forall₂_same]
    exact fun t mem => readType_eq_ok_iff.mpr (reparse t mem)

/-! ### Attributes and settings -/

mutual

theorem attributeValue?_toJson : ∀ {v : AttributeValue} {levels : Nat}, v.Fits levels →
    attributeValue? v.toJson = some v
  | .bool _, _, _ => rfl
  | .int _, _, fits => if_pos fits
  | .text _, _, _ => rfl
  | .list vs, _, fits => by
    rw [AttributeValue.toJson, attributeValue?, attributeValues?_toJson fits.2]
    rfl

theorem attributeValues?_toJson : ∀ {vs : List AttributeValue} {levels : Nat},
    AttributeValue.AllFit levels vs → attributeValues? (AttributeValue.listToJson vs) = some vs
  | [], _, _ => rfl
  | v :: vs, _, fit => by
    rw [AttributeValue.listToJson, attributeValues?, attributeValue?_toJson fit.1,
      attributeValues?_toJson fit.2]
    rfl

end

/-- Attributes have no types in them. -/
theorem attributeDecl_ofJson {a : Attribute} {levels : Nat} (fits : a.Fits levels) :
    attributeDecl (Draft.ofJson a.toJson) = .ok a := by
  have args : Decoder.list arg (Draft.ofJson (.array (a.args.map AttributeArg.toJson)))
      = .ok a.args := by
    refine list_ofJson_iff.mpr fun b mem => ?_
    have value := (whole_ofJson_iff (ε := TypeTextError)).mpr
      (attributeValue?_toJson (fits b mem))
    rw [arg, AttributeArg.toJson, record_ofJson_iff (by decide) rfl]
    simp [argFields, slots_cons_eq_ok_iff, slots_nil_eq_ok_iff, string?_ofJson, value]
  rw [attributeDecl, Attribute.toJson, record_ofJson_iff (by decide) rfl]
  simp [attributeFields, slots_cons_eq_ok_iff, slots_nil_eq_ok_iff, string_ofJson, args]

theorem attributes_ofJson {as : List Attribute} {levels : Nat} (fit : ∀ a ∈ as, a.Fits levels) :
    Decoder.list attributeDecl (Draft.ofJson (.array (as.map Attribute.toJson))) = .ok as :=
  list_ofJson_iff.mpr fun a mem => attributeDecl_ofJson (fit a mem)

theorem settings_ofJson (s : Settings) : settings (Draft.ofJson s.toJson) = .ok s := by
  rw [settings, Settings.toJson, record_ofJson_iff (by decide) rfl]
  simp [settingsFields, slots_cons_eq_ok_iff, slots_nil_eq_ok_iff, bool_ofJson, string?_ofJson]

/-! ### Declarations -/

theorem fieldDecl_ofJson_iff {f : FieldDecl} :
    fieldDecl (Draft.ofJson f.toJson) = .ok f ↔ f.type.Reparses := by
  obtain ⟨name, type, accessibility, isStatic, isConst⟩ := f
  rw [fieldDecl, FieldDecl.toJson, record_ofJson_iff (by decide) rfl]
  simp [fieldFields, slots_cons_eq_ok_iff, slots_nil_eq_ok_iff, string_ofJson, bool_ofJson,
    accessibility_ofJson, type_eq_ok_iff, TypeRef.Reparses]

theorem propertyDecl_ofJson_iff {p : PropertyDecl} :
    propertyDecl (Draft.ofJson p.toJson) = .ok p ↔ p.type.Reparses := by
  obtain ⟨name, type, accessibility, isStatic, hasBody⟩ := p
  rw [propertyDecl, PropertyDecl.toJson, record_ofJson_iff (by decide) rfl]
  simp [propertyFields, slots_cons_eq_ok_iff, slots_nil_eq_ok_iff, string_ofJson, bool_ofJson,
    accessibility_ofJson, type_eq_ok_iff, TypeRef.Reparses]

theorem paramDecl_ofJson_iff {p : ParamDecl} :
    paramDecl (Draft.ofJson p.toJson) = .ok p ↔ p.type.Reparses := by
  obtain ⟨name, type, mode⟩ := p
  rw [paramDecl, ParamDecl.toJson, record_ofJson_iff (by decide) rfl]
  simp [paramFields, slots_cons_eq_ok_iff, slots_nil_eq_ok_iff, string_ofJson, mode_ofJson,
    type_eq_ok_iff, TypeRef.Reparses]

theorem bodyStatement_ofJson_iff {s : BodyStatement} :
    whole (ε := TypeTextError) bodyStatement? (Draft.ofJson s.toJson) = .ok s ↔
      ∀ t ∈ s.annotation, t.Reparses := by
  obtain ⟨text, annotation⟩ := s
  rw [whole_ofJson_iff]
  cases annotation with
  | none => exact iff_of_true rfl nofun
  | some t =>
    have texts : soleEntry? "text" [("text", .string text), ("type", t.toJson)]
        = some (.string text) := rfl
    have types : soleEntry? "type" [("text", .string text), ("type", t.toJson)]
        = some (.string t.text) := rfl
    cases parsed : parseType t.text with
    | error e => simp [BodyStatement.toJson, bodyStatement?, texts, types, TypeRef.Reparses, parsed]
    | ok u => simp [BodyStatement.toJson, bodyStatement?, texts, types, TypeRef.Reparses, parsed]

/-- A method is given back exactly if the types in it are. -/
theorem methodDecl_ofJson_iff {m : MethodDecl} {levels : Nat}
    (fit : ∀ a ∈ m.attributes, a.Fits levels) :
    methodDecl (Draft.ofJson m.toJson) = .ok m ↔ ∀ t ∈ m.writtenTypes, t.Reparses := by
  have attributes := attributes_ofJson fit
  have statements : (∀ t ∈ m.body.filterMap fun s => s.annotation, t.Reparses)
      ↔ ∀ s ∈ m.body, ∀ t ∈ s.annotation, t.Reparses := by
    simp only [List.mem_filterMap, Option.mem_def]
    grind
  obtain ⟨name, typeParams, params, returns, accessibility, isStatic, isExtension, as, body⟩ := m
  rw [methodDecl, MethodDecl.toJson, record_ofJson_iff (by decide) rfl, MethodDecl.writtenTypes,
    List.forall_mem_cons, List.forall_mem_append, List.forall_mem_map, statements]
  simp [methodFields, slots_cons_eq_ok_iff, slots_nil_eq_ok_iff, string_ofJson, bool_ofJson,
    strings_ofJson, accessibility_ofJson, type_eq_ok_iff, attributes, list_ofJson_iff,
    paramDecl_ofJson_iff, bodyStatement_ofJson_iff]
  exact and_left_comm

/-- A declaration is given back exactly if the types in it are. -/
theorem typeDecl_ofJson_iff {d : TypeDecl} (fits : d.Fits) :
    typeDecl (Draft.ofJson d.toJson) = .ok d ↔ ∀ t ∈ d.writtenTypes, t.Reparses := by
  have attributes := attributes_ofJson fits.attributes
  have methods : Decoder.list methodDecl (Draft.ofJson (.array (d.methods.map MethodDecl.toJson)))
      = .ok d.methods ↔ ∀ m ∈ d.methods, ∀ t ∈ m.writtenTypes, t.Reparses :=
    list_ofJson_iff.trans (forall₂_congr fun m mem => methodDecl_ofJson_iff (fits.methods m mem))
  have fields : Decoder.list fieldDecl (Draft.ofJson (.array (d.fields.map FieldDecl.toJson)))
      = .ok d.fields ↔ ∀ f ∈ d.fields, f.type.Reparses :=
    list_ofJson_iff.trans (forall₂_congr fun f _ => fieldDecl_ofJson_iff)
  have properties : Decoder.list propertyDecl
      (Draft.ofJson (.array (d.properties.map PropertyDecl.toJson))) = .ok d.properties ↔
        ∀ p ∈ d.properties, p.type.Reparses :=
    list_ofJson_iff.trans (forall₂_congr fun p _ => propertyDecl_ofJson_iff)
  obtain ⟨name, kind, typeParams, accessibility, containing, base, interfaces, as, fs,
    ps, ms, isStatic, isSealed, isAbstract, external, file⟩ := d
  dsimp only at attributes methods fields properties
  rw [typeDecl, TypeDecl.toJson, record_ofJson_iff (by decide) rfl,
    TypeDecl.forall_mem_writtenTypes]
  simp [typeFields, slots_cons_eq_ok_iff, slots_nil_eq_ok_iff, string_ofJson, bool_ofJson,
    kind_ofJson, string?_ofJson, strings_ofJson, accessibility_ofJson, attributes, methods, fields,
    properties, type?_ofJson_iff, types_ofJson_iff]

/-- What is read from the form of a model that fits into a text: the same settings and attributes,
and for each declaration what is read from its form. -/
theorem model_ofJson_eq_ok_iff {m m' : Model} (fits : m.Fits) :
    model (Draft.ofJson m.toJson) = .ok m' ↔ m'.settings = m.settings ∧
      m'.assemblyAttributes = m.assemblyAttributes ∧
      List.Forall₂ (fun d d' => typeDecl (Draft.ofJson d.toJson) = .ok d') m.types m'.types := by
  have attributes := attributes_ofJson fits.assembly
  obtain ⟨settings, as, types⟩ := m'
  rw [model, Model.toJson, record_ofJson_iff (by decide) rfl]
  simp only [modelFields, List.map_cons, List.map_nil, slots_cons_eq_ok_iff, slots_nil_eq_ok_iff,
    settings_ofJson, attributes, list_ofJson_eq_ok_iff]
  constructor
  · rintro ⟨_, ⟨_, settings, _, attributes, _, each, rfl⟩, close⟩
    cases settings
    cases attributes
    cases close
    exact ⟨rfl, rfl, each⟩
  · rintro ⟨rfl, rfl, each⟩
    exact ⟨_, ⟨_, rfl, _, rfl, _, each, rfl⟩, rfl⟩

end Model.Reader

namespace Model

variable {m m' : Model}

theorem ofText_toJson_eq_ok_iff (fits : m.Fits) :
    ofText m.toJson.text = .ok m' ↔ Reader.model (Draft.ofJson m.toJson) = .ok m' := by
  rw [ofText, document_text fits.readable]

/-- From the form of a model as many declarations are read as it has. -/
theorem length_types_of_ofText (fits : m.Fits) (read : ofText m.toJson.text = .ok m') :
    m'.types.length = m.types.length := by
  rw [ofText_toJson_eq_ok_iff fits, Reader.model_ofJson_eq_ok_iff fits] at read
  exact read.2.2.length_eq.symm

/-- A model that fits into a text is read again from its form exactly if each type in it reparses. -/
theorem ofText_toJson_iff (fits : m.Fits) :
    ofText m.toJson.text = .ok m ↔ ∀ t ∈ m.writtenTypes, t.Reparses := by
  rw [ofText_toJson_eq_ok_iff fits, Reader.model_ofJson_eq_ok_iff fits, and_iff_right rfl,
    and_iff_right rfl, List.forall₂_same, writtenTypes, List.forall_mem_flatMap]
  exact forall₂_congr fun d mem => Reader.typeDecl_ofJson_iff (fits.types d mem)

end Model

end Marksmith

import Marksmith.Json.Value
import Marksmith.Model.Declaration

/-!
JSON form of models. Every field is written, and types are written as their canonical texts.
-/

namespace Marksmith

open Syntax (TypeRef)

/-- A type by its text. -/
def Syntax.TypeRef.toJson (t : TypeRef) : Json := .string t.text

/-- Several types by their texts. -/
def Json.types (ts : List TypeRef) : Json := .array (ts.map TypeRef.toJson)

/-- An optional type. -/
def Json.type? (t : Option TypeRef) : Json := .ofOption (t.map TypeRef.toJson)

/-- The word for a kind in models. -/
def TypeKind.toJson (k : TypeKind) : Json := .string k.keyword

/-- The word for an accessibility in models. -/
def Accessibility.toJson : Accessibility → Json
  | priv => .string "private"
  | prot => .string "protected"
  | internal => .string "internal"
  | protInternal => .string "protected_internal"
  | pub => .string "public"

/-- The word for a mode in models. -/
def PassMode.toJson (m : PassMode) : Json := .string (m.keyword?.getD "none")

mutual

def AttributeValue.toJson : AttributeValue → Json
  | bool b => .bool b
  | int n => .int n
  | text s => .string s
  | list vs => .array (AttributeValue.listToJson vs)

def AttributeValue.listToJson : List AttributeValue → List Json
  | [] => []
  | v :: vs => AttributeValue.toJson v :: AttributeValue.listToJson vs

end

def AttributeArg.toJson (a : AttributeArg) : Json :=
  .object [("name", .ofString? a.name), ("value", a.value.toJson)]

def Attribute.toJson (a : Attribute) : Json :=
  .object [("name", .string a.name), ("args", .array (a.args.map AttributeArg.toJson))]

def FieldDecl.toJson (f : FieldDecl) : Json :=
  .object [("name", .string f.name), ("type", f.type.toJson),
    ("accessibility", f.accessibility.toJson), ("is_static", .bool f.isStatic),
    ("is_const", .bool f.isConst)]

def PropertyDecl.toJson (p : PropertyDecl) : Json :=
  .object [("name", .string p.name), ("type", p.type.toJson),
    ("accessibility", p.accessibility.toJson), ("is_static", .bool p.isStatic),
    ("has_body", .bool p.hasBody)]

def ParamDecl.toJson (p : ParamDecl) : Json :=
  .object [("name", .string p.name), ("type", p.type.toJson), ("modifier", p.mode.toJson)]

def BodyStatement.toJson (s : BodyStatement) : Json :=
  match s.annotation with
  | none => .string s.text
  | some t => .object [("text", .string s.text), ("type", t.toJson)]

def MethodDecl.toJson (m : MethodDecl) : Json :=
  .object [("name", .string m.name), ("type_params", .strings m.typeParams),
    ("params", .array (m.params.map ParamDecl.toJson)), ("returns", m.returns.toJson),
    ("accessibility", m.accessibility.toJson), ("is_static", .bool m.isStatic),
    ("is_extension", .bool m.isExtension),
    ("attributes", .array (m.attributes.map Attribute.toJson)),
    ("body", .array (m.body.map BodyStatement.toJson))]

def TypeDecl.toJson (d : TypeDecl) : Json :=
  .object [("name", .string d.name), ("kind", d.kind.toJson),
    ("type_params", .strings d.typeParams), ("accessibility", d.accessibility.toJson),
    ("containing", .ofString? d.containing),
    ("base", .type? d.base), ("interfaces", .types d.interfaces),
    ("attributes", .array (d.attributes.map Attribute.toJson)),
    ("fields", .array (d.fields.map FieldDecl.toJson)),
    ("properties", .array (d.properties.map PropertyDecl.toJson)),
    ("methods", .array (d.methods.map MethodDecl.toJson)), ("is_static", .bool d.isStatic),
    ("is_sealed", .bool d.isSealed), ("is_abstract", .bool d.isAbstract),
    ("external", .bool d.external), ("file", .ofString? d.file)]

def Settings.toJson (s : Settings) : Json :=
  .object [("emit_documentation", .bool s.emitDocumentation),
    ("always_emit_index", .bool s.alwaysEmitIndex),
    ("tag_manager_path", .ofString? s.tagManagerPath)]

def Model.toJson (m : Model) : Json :=
  .object [("settings", m.settings.toJson),
    ("assembly_attributes", .array (m.assemblyAttributes.map Attribute.toJson)),
    ("types", .array (m.types.map TypeDecl.toJson))]

end Marksmith

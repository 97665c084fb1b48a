import Marksmith.Json.Decode
import Marksmith.Model.Declaration
import Marksmith.Syntax.Parser

/-!
Reading of models. Optional fields take their defaults, every type text is parsed, and a text that
is no type is refused with the cause.
-/

namespace Marksmith

open Json Syntax

/-- A text that stands for a type and is none. -/
structure TypeTextError where
  text : String
  cause : SyntaxError
deriving DecidableEq, Repr

/-- The wording of the error. -/
def TypeTextError.message (e : TypeTextError) : String :=
  "invalid type `" ++ e.text ++ "`: " ++ e.cause.message

/-- Why a text is not a model. -/
abbrev ModelTextError := DecodeError TypeTextError

namespace Model.Reader

/-- Decoders of parts of a model. -/
abbrev Reads (α : Type) := Decoder TypeTextError α

/-- A field of a partial record. -/
abbrev Slot (σ : Type) := Decoder.Field TypeTextError σ

open Decoder (field record)

def readType (text : String) : Except TypeTextError TypeRef :=
  (parseType text).mapError (⟨text, ·⟩)

/-- The text of a type. -/
def type : Reads TypeRef := Decoder.string.refine readType

/-- The text of a type, or `null`. -/
def type? : Reads (Option TypeRef) :=
  (Decoder.option Decoder.string).refine fun text? =>
    match text? with
    | none => .ok none
    | some text => (readType text).map some

/-- Texts of types. They are parsed after all of them have been read. -/
def types : Reads (List TypeRef) := (Decoder.list Decoder.string).refine (·.mapM readType)

def strings : Reads (List String) := Decoder.list Decoder.string

def kind : Reads TypeKind :=
  Decoder.word [("class", .class), ("struct", .struct), ("interface", .interface), ("enum", .enum)]

def accessibility : Reads Accessibility :=
  Decoder.word [("private", .priv), ("protected", .prot), ("internal", .internal),
    ("protected_internal", .protInternal), ("public", .pub)]

def mode : Reads PassMode :=
  Decoder.word [("none", .value), ("ref", .ref), ("out", .out), ("in", .in)]

mutual

/-- The attribute value that a JSON value stands for. -/
def attributeValue? : Json → Option AttributeValue
  | .bool b => some (.bool b)
  | .int n => if -0x8000000000000000 ≤ n ∧ n < 0x8000000000000000 then some (.int n) else none
  | .string s => some (.text s)
  | .array items => (attributeValues? items).map .list
  | _ => none

def attributeValues? : List Json → Option (List AttributeValue)
  | [] => some []
  | item :: items => do
    let first ← attributeValue? item
    let rest ← attributeValues? items
    return first :: rest

end

/-- The only entry with this key. -/
def soleEntry? (key : String) (entries : List (String × Json)) : Option Json :=
  match entries.filter (·.1 == key) with
  | [(_, value)] => some value
  | _ => none

/-- A statement: its text, or an object with its text and the type of its value. -/
def bodyStatement? : Json → Option BodyStatement
  | .string s => some ⟨s, none⟩
  | .object entries =>
    match soleEntry? "text" entries, soleEntry? "type" entries with
    | some (.string text), some (.string type) =>
      match parseType type with
      | .ok t => some ⟨text, some t⟩
      | .error _ => none
    | _, _ => none
  | _ => none

/-! ### Records -/

structure PartialSettings where
  emitDocumentation : Option Bool := none
  alwaysEmitIndex : Option Bool := none
  tagManagerPath : Option (Option String) := none

def settingsFields : List (Slot PartialSettings) :=
  [field "emit_documentation" (·.emitDocumentation) (fun v s => { s with emitDocumentation := v })
     Decoder.bool,
   field "always_emit_index" (·.alwaysEmitIndex) (fun v s => { s with alwaysEmitIndex := v })
     Decoder.bool,
   field "tag_manager_path" (·.tagManagerPath) (fun v s => { s with tagManagerPath := some v })
     (Decoder.option Decoder.string)]

def settings : Reads Settings :=
  record settingsFields {} fun s => some
    { emitDocumentation := s.emitDocumentation.getD true
      alwaysEmitIndex := s.alwaysEmitIndex.getD false
      tagManagerPath := s.tagManagerPath.join }

structure PartialArg where
  name : Option (Option String) := none
  value : Option AttributeValue := none

def argFields : List (Slot PartialArg) :=
  [field "name" (·.name) (fun v s => { s with name := some v }) (Decoder.option Decoder.string),
   field "value" (·.value) (fun v s => { s with value := v }) (Decoder.whole attributeValue?)]

def arg : Reads AttributeArg :=
  record argFields {} fun s => do return { name := s.name.join, value := ← s.value }

structure PartialAttribute where
  name : Option String := none
  args : Option (List AttributeArg) := none

def attributeFields : List (Slot PartialAttribute) :=
  [field "name" (·.name) (fun v s => { s with name := v }) Decoder.string,
   field "args" (·.args) (fun v s => { s with args := v }) (Decoder.list arg)]

def attributeDecl : Reads Attribute :=
  record attributeFields {} fun s => do return { name := ← s.name, args := s.args.getD [] }

structure PartialField where
  name : Option String := none
  type : Option TypeRef := none
  accessibility : Option Accessibility := none
  isStatic : Option Bool := none
  isConst : Option Bool := none

def fieldFields : List (Slot PartialField) :=
  [field "name" (·.name) (fun v s => { s with name := v }) Decoder.string,
   field "type" (·.type) (fun v s => { s with type := v }) type,
   field "accessibility" (·.accessibility) (fun v s => { s with accessibility := v }) accessibility,
   field "is_static" (·.isStatic) (fun v s => { s with isStatic := v }) Decoder.bool,
   field "is_const" (·.isConst) (fun v s => { s with isConst := v }) Decoder.bool]

def fieldDecl : Reads FieldDecl :=
  record fieldFields {} fun s => do
    return { name := ← s.name
             type := ← s.type
             accessibility := s.accessibility.getD .internal
             isStatic := s.isStatic.getD false
             isConst := s.isConst.getD false }

structure PartialProperty where
  name : Option String := none
  type : Option TypeRef := none
  accessibility : Option Accessibility := none
  isStatic : Option Bool := none
  hasBody : Option Bool := none

def propertyFields : List (Slot PartialProperty) :=
  [field "name" (·.name) (fun v s => { s with name := v }) Decoder.string,
   field "type" (·.type) (fun v s => { s with type := v }) type,
   field "accessibility" (·.accessibility) (fun v s => { s with accessibility := v }) accessibility,
   field "is_static" (·.isStatic) (fun v s => { s with isStatic := v }) Decoder.bool,
   field "has_body" (·.hasBody) (fun v s => { s with hasBody := v }) Decoder.bool]

def propertyDecl : Reads PropertyDecl :=
  record propertyFields {} fun s => do
    return { name := ← s.name
             type := ← s.type
             accessibility := s.accessibility.getD .internal
             isStatic := s.isStatic.getD false
             hasBody := s.hasBody.getD false }

structure PartialParam where
  name : Option String := none
  type : Option TypeRef := none
  mode : Option PassMode := none

def paramFields : List (Slot PartialParam) :=
  [field "name" (·.name) (fun v s => { s with name := v }) Decoder.string,
   field "type" (·.type) (fun v s => { s with type := v }) type,
   field "modifier" (·.mode) (fun v s => { s with mode := v }) mode]

def paramDecl : Reads ParamDecl :=
  record paramFields {} fun s => do
    return { name := ← s.name, type := ← s.type, mode := s.mode.getD .value }

structure PartialMethod where
  name : Option String := none
  typeParams : Option (List String) := none
  params : Option (List ParamDecl) := none
  returns : Option TypeRef := none
  accessibility : Option Accessibility := none
  isStatic : Option Bool := none
  isExtension : Option Bool := none
  attributes : Option (List Attribute) := none
  body : Option (List BodyStatement) := none

def methodFields : List (Slot PartialMethod) :=
  [field "name" (·.name) (fun v s => { s with name := v }) Decoder.string,
   field "type_params" (·.typeParams) (fun v s => { s with typeParams := v }) strings,
   field "params" (·.params) (fun v s => { s with params := v }) (Decoder.list paramDecl),
   field "returns" (·.returns) (fun v s => { s with returns := v }) type,
   field "accessibility" (·.accessibility) (fun v s => { s with accessibility := v }) accessibility,
   field "is_static" (·.isStatic) (fun v s => { s with isStatic := v }) Decoder.bool,
   field "is_extension" (·.isExtension) (fun v s => { s with isExtension := v }) Decoder.bool,
   field "attributes" (·.attributes) (fun v s => { s with attributes := v })
     (Decoder.list attributeDecl),
   field "body" (·.body) (fun v s => { s with body := v })
     (Decoder.list (Decoder.whole bodyStatement?))]

def methodDecl : Reads MethodDecl :=
  record methodFields {} fun s => do
    return { name := ← s.name
             typeParams := s.typeParams.getD []
             params := s.params.getD []
             returns := s.returns.getD (.named "void")
             accessibility := s.accessibility.getD .internal
             isStatic := s.isStatic.getD false
             isExtension := s.isExtension.getD false
             attributes := s.attributes.getD []
             body := s.body.getD [] }

structure PartialType where
  name : Option String := none
  kind : Option TypeKind := none
  typeParams : Option (List String) := none
  accessibility : Option Accessibility := none
  containing : Option (Option String) := none
  base : Option (Option TypeRef) := none
  interfaces : Option (List TypeRef) := none
  attributes : Option (List Attribute) := none
  fields : Option (List FieldDecl) := none
  properties : Option (List PropertyDecl) := none
  methods : Option (List MethodDecl) := none
  isStatic : Option Bool := none
  isSealed : Option Bool := none
  isAbstract : Option Bool := none
  external : Option Bool := none
  file : Option (Option String) := none

def typeFields : List (Slot PartialType) :=
  [field "name" (·.name) (fun v s => { s with name := v }) Decoder.string,
   field "kind" (·.kind) (fun v s => { s with kind := v }) kind,
   field "type_params" (·.typeParams) (fun v s => { s with typeParams := v }) strings,
   field "accessibility" (·.accessibility) (fun v s => { s with accessibility := v }) accessibility,
   field "containing" (·.containing) (fun v s => { s with containing := some v })
     (Decoder.option Decoder.string),
   field "base" (·.base) (fun v s => { s with base := some v }) type?,
   field "interfaces" (·.interfaces) (fun v s => { s with interfaces := v }) types,
   field "attributes" (·.attributes) (fun v s => { s with attributes := v })
     (Decoder.list attributeDecl),
   field "fields" (·.fields) (fun v s => { s with fields := v }) (Decoder.list fieldDecl),
   field "properties" (·.properties) (fun v s => { s with properties := v })
     (Decoder.list propertyDecl),
   field "methods" (·.methods) (fun v s => { s with methods := v }) (Decoder.list methodDecl),
   field "is_static" (·.isStatic) (fun v s => { s with isStatic := v }) Decoder.bool,
   field "is_sealed" (·.isSealed) (fun v s => { s with isSealed := v }) Decoder.bool,
   field "is_abstract" (·.isAbstract) (fun v s => { s with isAbstract := v }) Decoder.bool,
   field "external" (·.external) (fun v s => { s with external := v }) Decoder.bool,
   field "file" (·.file) (fun v s => { s with file := some v }) (Decoder.option Decoder.string)]

def typeDecl : Reads TypeDecl :=
  record typeFields {} fun s => do
    return { name := ← s.name
             kind := ← s.kind
             typeParams := s.typeParams.getD []
             accessibility := s.accessibility.getD .internal
             containing := s.containing.join
             base := s.base.join
             interfaces := s.interfaces.getD []
             attributes := s.attributes.getD []
             fields := s.fields.getD []
             properties := s.properties.getD []
             methods := s.methods.getD []
             isStatic := s.isStatic.getD false
             isSealed := s.isSealed.getD false
             isAbstract := s.isAbstract.getD false
             external := s.external.getD false
             file := s.file.join }

structure PartialModel where
  settings : Option Settings := none
  assemblyAttributes : Option (List Attribute) := none
  types : Option (List TypeDecl) := none

def modelFields : List (Slot PartialModel) :=
  [field "settings" (·.settings) (fun v s => { s with settings := v }) settings,
   field "assembly_attributes" (·.assemblyAttributes)
     (fun v s => { s with assemblyAttributes := v }) (Decoder.list attributeDecl),
   field "types" (·.types) (fun v s => { s with types := v }) (Decoder.list typeDecl)]

def model : Reads Model :=
  record modelFields {} fun s => some
    { settings := s.settings.getD {}
      assemblyAttributes := s.assemblyAttributes.getD []
      types := s.types.getD [] }

end Model.Reader

/-- Reads a model from its text. -/
def Model.ofText (text : String) : Except ModelTextError Model :=
  Decoder.document Model.Reader.model text

/-- Reads a model from a JSON value, as from its compact text with sorted keys. -/
def Model.ofJson (j : Json) : Except ModelTextError Model :=
  Model.Reader.model (Draft.ofJson j.sorted)

/-- Reads settings from a JSON value. -/
def Settings.ofJson? (j : Json) : Option Settings :=
  (Model.Reader.settings (Draft.ofJson j)).toOption

/-- Reads an attribute from a JSON value. -/
def Attribute.ofJson? (j : Json) : Option Attribute :=
  (Model.Reader.attributeDecl (Draft.ofJson j)).toOption

end Marksmith

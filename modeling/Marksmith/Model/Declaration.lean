import Marksmith.Syntax.TypeRef
import Marksmith.Vocabulary.Marker

/-!
Declarations: what a project declares, as far as the generator looks at it. A model lists the types
of a project with their members, the attributes on them and the statements of their method bodies,
and the settings of the generator.
-/

namespace Marksmith

open Syntax (TypeRef)

/-- Settings of a project, read from its model and overridden by the command line. -/
structure Settings where
  /-- Write documentation comments on generated members. -/
  emitDocumentation : Bool := true
  /-- Give every tracked type an instance index, not only those that ask for it. -/
  alwaysEmitIndex : Bool := false
  /-- The tag manager asset, if it is not at its usual place. -/
  tagManagerPath : Option String := none
deriving DecidableEq, Repr, Inhabited

/-- The kinds of types. -/
inductive TypeKind where
  | «class» | struct | interface | enum
deriving DecidableEq, Repr

namespace TypeKind

/-- The keyword that declares a type of this kind. -/
def keyword : TypeKind → String
  | .class => "class"
  | struct => "struct"
  | interface => "interface"
  | enum => "enum"

/-- Whether values of such types are copied. -/
def isValue : TypeKind → Bool
  | struct | enum => true
  | _ => false

end TypeKind

/-- Accessibility of declarations. -/
inductive Accessibility where
  | priv | prot | internal | protInternal | pub
deriving DecidableEq, Repr

namespace Accessibility

/-- The keywords of an accessibility. -/
def keyword : Accessibility → String
  | priv => "private"
  | prot => "protected"
  | internal => "internal"
  | protInternal => "protected internal"
  | pub => "public"

end Accessibility

/-- How an argument is passed. -/
inductive PassMode where
  | value | ref | out | in
deriving DecidableEq, Repr

namespace PassMode

/-- The keyword of a mode, if it has one. -/
def keyword? : PassMode → Option String
  | value => none
  | ref => some "ref"
  | out => some "out"
  | .in => some "in"

end PassMode

/-- The value of an attribute argument. Names of enumeration members and operands of `typeof` are
texts. -/
inductive AttributeValue where
  | bool (value : Bool)
  | int (value : Int)
  | text (value : String)
  | list (items : List AttributeValue)
deriving Repr

/-- An argument of an attribute; a positional one has no name. -/
structure AttributeArg where
  name : Option String
  value : AttributeValue
deriving Repr

/-- An attribute as it is written on a declaration. -/
structure Attribute where
  name : String
  args : List AttributeArg
deriving Repr

/-- The marker that an attribute is. -/
def Attribute.marker? (a : Attribute) : Option Marker := Marker.ofAttributeName? a.name

/-- The first attribute in a list that is a given marker. -/
def Attribute.find? (marker : Marker) (attributes : List Attribute) : Option Attribute :=
  attributes.find? (·.marker? == some marker)

structure FieldDecl where
  name : String
  type : TypeRef
  accessibility : Accessibility := .internal
  isStatic : Bool := false
  isConst : Bool := false
deriving Repr

structure PropertyDecl where
  name : String
  type : TypeRef
  accessibility : Accessibility := .internal
  isStatic : Bool := false
  /-- An interface property with a body is not abstract. -/
  hasBody : Bool := false
deriving Repr

structure ParamDecl where
  name : String
  type : TypeRef
  mode : PassMode := .value
deriving Repr

/-- A statement of a method body. The compiler may already have found the type of its value. -/
structure BodyStatement where
  text : String
  annotation : Option TypeRef := none
deriving Repr

structure MethodDecl where
  name : String
  typeParams : List String := []
  params : List ParamDecl := []
  returns : TypeRef := .named "void"
  accessibility : Accessibility := .internal
  isStatic : Bool := false
  /-- The first parameter is the receiver. -/
  isExtension : Bool := false
  attributes : List Attribute := []
  body : List BodyStatement := []
deriving Repr

structure TypeDecl where
  /-- The qualified name, without a mark of arity. -/
  name : String
  kind : TypeKind
  typeParams : List String := []
  accessibility : Accessibility := .internal
  /-- The qualified name of the type around a nested one. -/
  containing : Option String := none
  base : Option TypeRef := none
  interfaces : List TypeRef := []
  attributes : List Attribute := []
  fields : List FieldDecl := []
  properties : List PropertyDecl := []
  methods : List MethodDecl := []
  isStatic : Bool := false
  isSealed : Bool := false
  isAbstract : Bool := false
  /-- Declared elsewhere: visible to lookups, never generated for. -/
  external : Bool := false
  /-- The source file, for diagnostics. -/
  file : Option String := none
deriving Repr

namespace TypeDecl

/-- The last segment of the name. -/
def simpleName (d : TypeDecl) : String := TypeRef.lastSegment d.name

/-- Whether values of the type are copied. -/
def isValueType (d : TypeDecl) : Bool := d.kind.isValue

/-- The names of the members of a type: fields, properties, methods. -/
def memberNames (d : TypeDecl) : List String :=
  d.fields.map (·.name) ++ d.properties.map (·.name) ++ d.methods.map (·.name)

/-- Whether a type declares a member of this name. -/
def declaresMember (d : TypeDecl) (name : String) : Bool := d.memberNames.contains name

/-- The type over its own type parameters, such as `Pool<T>`. -/
def selfType (d : TypeDecl) : TypeRef := .generic d.name (d.typeParams.map .named)

end TypeDecl

/-- A project: its settings, the attributes of its assembly, and its types. -/
structure Model where
  settings : Settings := {}
  assemblyAttributes : List Attribute := []
  types : List TypeDecl := []
deriving Repr, Inhabited

end Marksmith

/-!
Marker attributes: the annotations that ask for companion members. A marker may be written with or
without the suffix `Attribute`, with or without its namespace, and by an alias;
`Marker.ofAttributeName?` folds all spellings into one marker.

Capability interfaces: a tracked type opts into further registries by implementing one of them. The
generic ones carry the associated type as their type argument.
-/

namespace Marksmith

/-- The marker attributes. -/
inductive Marker where
  | track | singleton | inject | unionHeader | union | unmanagedAccess | generateUnityConstants
deriving DecidableEq, Repr

/-- The kind of declaration that a marker may stand on. -/
inductive MarkerTarget where
  | classOrInterface | «class» | struct | method | assembly
deriving DecidableEq, Repr

namespace Marker

/-- Every marker, in the order of its table. -/
def all : List Marker :=
  [track, singleton, inject, unionHeader, union, unmanagedAccess, generateUnityConstants]

/-- The canonical spelling of a marker. -/
def text : Marker → String
  | track => "Track"
  | singleton => "Singleton"
  | inject => "Inject"
  | unionHeader => "UnionHeader"
  | union => "Union"
  | unmanagedAccess => "UnmanagedAccess"
  | generateUnityConstants => "GenerateUnityConstants"

/-- Other spellings of a marker. -/
def aliases : Marker → List String
  | track => ["Tracked"]
  | union => ["UnionStruct"]
  | _ => []

/-- What a marker asks for. -/
def description : Marker → String
  | track => "Register enabled instances in a global tracked-instances registry."
  | singleton =>
    "Register the single enabled instance and expose it through a static `Instance` property."
  | inject => "Turn every `Name = expr;` assignment in the method into a generated property."
  | unionHeader => "Declare the shared header struct of a tagged union family."
  | union => "Declare one variant of a tagged union family."
  | unmanagedAccess => "Generate ref accessors that read instance fields through raw offsets."
  | generateUnityConstants =>
    "Generate tag and layer enumerations from the project's tag manager asset."

/-- The version that a marker is available since. -/
def since (_ : Marker) : String := "0.1.0"

/-- Where a marker may stand. -/
def target : Marker → MarkerTarget
  | track | singleton => .classOrInterface
  | unmanagedAccess => .class
  | unionHeader | union => .struct
  | inject => .method
  | generateUnityConstants => .assembly

/-- The namespace of the marker attributes. -/
def ownerNamespace : String := "Medicine"

/-- The marker with this spelling, aliases included. -/
def ofSpelling? (name : String) : Option Marker :=
  (all.find? (·.text == name)).or (all.find? (·.aliases.contains name))

/-- A text without a given ending; nothing if it does not end so. -/
def dropEnding? (ending name : String) : Option String :=
  if ending.toList.isSuffixOf name.toList then
    some (String.ofList (name.toList.take (name.toList.length - ending.toList.length)))
  else none

/-- A text without a given beginning; nothing if it does not begin so. -/
def dropBeginning? (beginning name : String) : Option String :=
  if beginning.toList.isPrefixOf name.toList then
    some (String.ofList (name.toList.drop beginning.toList.length))
  else none

/-- The marker with this simple name, which may end in `Attribute`. -/
def ofSimpleName? (name : String) : Option Marker :=
  (ofSpelling? name).or ((dropEnding? "Attribute" name).bind ofSpelling?)

/-- The marker that an attribute's name denotes. Only the markers' own namespace may qualify it. -/
def ofAttributeName? (name : String) : Option Marker :=
  let bare := (dropBeginning? "global::" name).getD name
  let simple := bare.toList.reverse.takeWhile (· != '.')
  match bare.toList.reverse.dropWhile (· != '.') with
  | [] => ofSimpleName? bare
  | _ :: qualifier =>
    if String.ofList qualifier.reverse = ownerNamespace then
      ofSimpleName? (String.ofList simple.reverse)
    else none

end Marker

/-! ### Capability interfaces -/

/-- The capability interfaces. -/
inductive Capability where
  /-- A parallel array of unmanaged payloads. -/
  | unmanagedData
  /-- A lookup table from ids to instances. -/
  | findById
  /-- A storage type of the user's own. -/
  | customStorage
  /-- The slot index of the instance. -/
  | instanceIndex
deriving DecidableEq, Repr

namespace Capability

/-- Every capability, in the order of its table. -/
def all : List Capability := [unmanagedData, findById, customStorage, instanceIndex]

/-- The simple name of the interface. -/
def simpleName : Capability → String
  | unmanagedData => "IUnmanagedData"
  | findById => "IFindByID"
  | customStorage => "ICustomStorage"
  | instanceIndex => "IInstanceIndex"

/-- The number of type parameters of the interface. -/
def arity : Capability → Nat
  | instanceIndex => 0
  | _ => 1

/-- The qualified name of the interface. -/
def qualifiedName (c : Capability) : String := Marker.ownerNamespace ++ "." ++ c.simpleName

/-- The capability that an interface of this qualified name and arity stands for. -/
def classify? (name : String) (arity : Nat) : Option Capability :=
  all.find? fun c => c.qualifiedName == name && c.arity == arity

end Capability

end Marksmith

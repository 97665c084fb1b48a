import Marksmith.Analysis.Cancellation
import Marksmith.Analysis.Layout
import Marksmith.Diagnostic.Diagnostic
import Marksmith.Host.Symbol
import Marksmith.Marking.Options
import Marksmith.Text.NameSet
import Marksmith.Union.Ids

/-!
The marker index: which declarations carry which markers, with their options, and how union headers
and variants belong together. A marker that stands on the wrong kind of declaration or whose options
cannot be read is left out of the tables and reported once.
-/

namespace Marksmith

open Syntax (TypeRef)

/-- A tracked type. -/
structure TrackedType where
  options : TrackOptions
  isInterface : Bool
deriving DecidableEq, Repr

/-- A union header. -/
structure UnionHeader where
  options : UnionHeaderOptions
  /-- The resolved dispatch interface. -/
  dispatch : Option TypeRef
  /-- The header that this one embeds and extends. -/
  parent : Option Symbol
  declaresTypeId : Bool
deriving DecidableEq, Repr

/-- A variant of a union. -/
structure UnionVariant where
  symbol : Symbol
  /-- The header that the variant embeds directly. -/
  header : Symbol
  headerField : String
  forcedId : Option Nat
  size : Nat
  members : List String
deriving DecidableEq, Repr

/-- The variants below a root header, in the order of their declarations, with their ids. -/
structure UnionFamily where
  root : Symbol
  variants : List UnionVariant
  ids : Except Union.IdError (List Nat)
deriving Repr

namespace UnionFamily

/-- The id of a variant. -/
def idOf? (f : UnionFamily) (s : Symbol) : Option Nat := do
  let place ← f.variants.findIdx? (·.symbol == s)
  let ids ← f.ids.toOption
  ids[place]?

/-- The size of the largest variant. -/
def maxVariantSize (f : UnionFamily) : Nat := (f.variants.map (·.size)).foldr max 0

end UnionFamily

/-- A method whose assignments become properties. -/
structure InjectMethod where
  name : String
  options : InjectOptions
deriving DecidableEq, Repr

/-- What the markers of a project say. -/
structure MarkerIndex where
  tracked : SymbolTable TrackedType
  singletons : SymbolTable SingletonOptions
  unionHeaders : SymbolTable UnionHeader
  families : SymbolTable UnionFamily
  /-- Variants that do not begin with a union header, in the order of their symbols. -/
  orphanVariants : List Symbol
  unmanagedAccess : SymbolTable UnmanagedAccessOptions
  injectors : SymbolTable (List InjectMethod)
  constants : Option ConstantsOptions
  diagnostics : List Diagnostic
deriving Repr

/-- Whether a marker may stand on types of a kind. -/
def Marker.accepts (marker : Marker) (kind : TypeKind) : Bool :=
  match marker.target with
  | .classOrInterface => kind == .class || kind == .interface
  | .class => kind == .class
  | .struct => kind == .struct
  | .method | .assembly => false

/-- The location of a declaration. -/
def TypeDecl.location (d : TypeDecl) : Location := { symbol := d.name, file := d.file }

namespace Diagnostic

/-- A marker's arguments cannot be read. -/
def malformedMarker (location : Location) (marker : Marker) (e : OptionError) : Diagnostic :=
  ⟨location, .malformedMarkerAttribute,
    "[" ++ marker.text ++ "] on `" ++ location.symbol ++ "`: " ++ e.message⟩

/-- A marker stands where it may not. -/
def invalidTarget (location : Location) (marker : Marker) (what : String) : Diagnostic :=
  ⟨location, .invalidMarkerTarget,
    "[" ++ marker.text ++ "] cannot be applied to " ++ what ++ " `" ++ location.symbol ++ "`"⟩

end Diagnostic

namespace MarkerIndex

/-! ### Markers on types and methods -/

/-- The markers among attributes, each at its first occurrence; `seen` have occurred before. -/
def firstMarkers (seen : List Marker) : List Attribute → List (Marker × Attribute)
  | [] => []
  | a :: as =>
    match a.marker? with
    | none => firstMarkers seen as
    | some marker =>
      if marker ∈ seen then firstMarkers seen as
      else (marker, a) :: firstMarkers (marker :: seen) as

/-- The options of a marker on a declaration, if the marker is there, may be there, and can be
read. -/
def optionsOf? {α : Type} (marker : Marker) (read : Attribute → Except OptionError α)
    (d : TypeDecl) : Option α :=
  if marker.accepts d.kind then
    (Attribute.find? marker d.attributes).bind fun a => (read a).toOption
  else none

/-- What is wrong with the arguments of a marker on a type. -/
def optionError? (marker : Marker) (a : Attribute) : Option OptionError :=
  match marker with
  | .track => errorOf (TrackOptions.read a)
  | .singleton => errorOf (SingletonOptions.read a)
  | .unmanagedAccess => errorOf (UnmanagedAccessOptions.read a)
  | .unionHeader => errorOf (UnionHeaderOptions.read a)
  | .union => errorOf (UnionOptions.read a)
  | .inject | .generateUnityConstants => none
where
  errorOf {α : Type} : Except OptionError α → Option OptionError
    | .ok _ => none
    | .error e => some e

/-- What is wrong with the markers of a type itself. -/
def typeProblems (d : TypeDecl) : List Diagnostic :=
  (firstMarkers [] d.attributes).filterMap fun (marker, a) =>
    if marker = .inject then none
    else if !marker.accepts d.kind then
      some (.invalidTarget d.location marker d.kind.keyword)
    else (optionError? marker a).map (.malformedMarker d.location marker)

/-- The methods whose assignments become properties. -/
def injectMethods (d : TypeDecl) : List InjectMethod :=
  if d.kind = .class then
    d.methods.filterMap fun m => do
      let a ← Attribute.find? .inject m.attributes
      let options ← (InjectOptions.read a).toOption
      return ⟨m.name, options⟩
  else []

/-- What is wrong with the markers of a type's methods. -/
def methodProblems (d : TypeDecl) : List Diagnostic :=
  d.methods.filterMap fun m => do
    let a ← Attribute.find? .inject m.attributes
    let location := { d.location with member := some m.name }
    if d.kind ≠ .class then
      return .invalidTarget location .inject ("a method of " ++ d.kind.keyword)
    else
      match InjectOptions.read a with
      | .ok _ => none
      | .error e => return .malformedMarker location .inject e

/-- What is wrong with the markers of a declaration. Nothing is reported on external ones. -/
def problems (d : TypeDecl) : List Diagnostic :=
  if d.external then [] else typeProblems d ++ methodProblems d

/-- The markers on an assembly: the first constants request that can be read, and what is wrong. -/
def assemblyMarkers (constants : Option ConstantsOptions) :
    List Attribute → Option ConstantsOptions × List Diagnostic
  | [] => (constants, [])
  | a :: as =>
    match a.marker?, constants with
    | some .generateUnityConstants, none =>
      match ConstantsOptions.read a with
      | .ok options => assemblyMarkers (some options) as
      | .error e =>
        let (found, rest) := assemblyMarkers none as
        (found, .malformedMarker .assembly .generateUnityConstants e :: rest)
    | some .generateUnityConstants, some _ | none, _ => assemblyMarkers constants as
    | some other, _ =>
      let (found, rest) := assemblyMarkers constants as
      (found, .invalidTarget .assembly other "the assembly" :: rest)

/-- The table of the declarations that `read` finds something on. -/
def tableOf {α : Type} (read : TypeDecl → Option α) (ds : List TypeDecl) : SymbolTable α :=
  ds.foldl (fun table d =>
    match read d with
    | some value => table.insert d.symbol value
    | none => table) {}

/-! ### Unions -/

section

variable (host : Host)

/-- The declarations that are union headers, with their options. -/
def headerDecls : List (TypeDecl × UnionHeaderOptions) :=
  host.declarations.filterMap fun d =>
    (optionsOf? .unionHeader UnionHeaderOptions.read d).map fun options => (d, options)

/-- The declarations that are union variants, with their options. -/
def variantDecls : List (TypeDecl × UnionOptions) :=
  host.declarations.filterMap fun d =>
    (optionsOf? .union UnionOptions.read d).map fun options => (d, options)

/-- The first instance field of a struct, if its type is a union header. -/
def headerField? (d : TypeDecl) : Option (String × Symbol) := do
  let (name, type?) ← (host.instanceFields d.selfType).head?
  let header := Symbol.ofType (← type?)
  if (headerDecls host).any fun (h, _) => h.symbol = header then return (name, header) else none

/-- The dispatch interface of a header: the one it names, or else the first interface nested in
it. -/
def dispatchOf? (d : TypeDecl) (options : UnionHeaderOptions) : Option TypeRef :=
  match options.dispatch with
  | some t => host.resolve? d.symbol t
  | none =>
    (host.declarations.find? fun i => i.kind == .interface && i.containing == some d.name).map
      (·.selfType)

/-- The dispatch interface of the header with a symbol. -/
def dispatchOfSymbol? (s : Symbol) : Option TypeRef := do
  let (d, options) ← (headerDecls host).find? fun (d, _) => d.symbol = s
  dispatchOf? host d options

/-- The header that another one extends: the one it embeds, unless both have dispatch interfaces and
the inner one does not extend the outer one. -/
def parentOf? (d : TypeDecl) (options : UnionHeaderOptions) : Option Symbol := do
  let (_, parent) ← headerField? host d
  match dispatchOf? host d options, dispatchOfSymbol? host parent with
  | some own, some outer => if host.implements own (.ofType outer) then return parent else none
  | _, _ => return parent

/-- The table of union headers. -/
def unionHeaderTable : SymbolTable UnionHeader :=
  (headerDecls host).foldl (fun table (d, options) =>
    table.insert d.symbol
      { options
        dispatch := dispatchOf? host d options
        parent := parentOf? host d options
        declaresTypeId := d.declaresMember "TypeID" }) {}

/-- The headers from one outwards, until there is no parent or a header would repeat. -/
def chainFrom (headers : SymbolTable UnionHeader) :
    (steps : Nat) → (before : List Symbol) → Symbol → List Symbol
  | 0, before, s => (s :: before).reverse
  | steps + 1, before, s =>
    match (headers.get? s).bind (·.parent) with
    | some parent =>
      if parent ∈ s :: before then (s :: before).reverse
      else chainFrom headers steps (s :: before) parent
    | none => (s :: before).reverse

/-- A header and those that it extends, innermost first. -/
def headerChainIn (headers : SymbolTable UnionHeader) (s : Symbol) : List Symbol :=
  chainFrom headers headers.size [] s

/-- The outermost header that a header extends. -/
def rootHeaderIn (headers : SymbolTable UnionHeader) (s : Symbol) : Symbol :=
  (headerChainIn headers s).getLast?.getD s

/-- A variant, if it begins with a header. -/
def variantOf? (d : TypeDecl) (options : UnionOptions) : Option UnionVariant := do
  let (headerField, header) ← headerField? host d
  return { symbol := d.symbol
           header
           headerField
           forcedId := options.id
           size := host.estimateSize d.selfType
           members := Text.nameSet d.memberNames }

/-- The families with a variant added to its own. -/
def addVariant (headers : SymbolTable UnionHeader) (families : SymbolTable (List UnionVariant))
    (v : UnionVariant) : SymbolTable (List UnionVariant) :=
  let root := rootHeaderIn headers v.header
  families.insert root ((families.get? root).getD [] ++ [v])

/-- The variants of each root header. -/
def variantsByRoot (headers : SymbolTable UnionHeader) : SymbolTable (List UnionVariant) :=
  ((variantDecls host).filterMap fun (d, options) => variantOf? host d options).foldl
    (addVariant headers) {}

/-- A family with its ids. -/
def familyOf (root : Symbol) (variants : List UnionVariant) : UnionFamily :=
  { root
    variants
    ids := Union.assignIds (variants.map fun v => ⟨v.symbol.simpleName, v.forcedId⟩) }

/-- The table of families. -/
def familyTable (headers : SymbolTable UnionHeader) : SymbolTable UnionFamily :=
  ⟨(variantsByRoot host headers).entries.map fun (root, variants) => (root, familyOf root variants)⟩

/-- The variants that do not begin with a header. -/
def orphans : List Symbol :=
  ((variantDecls host).filter fun (d, options) => (variantOf? host d options).isNone).foldr
    (fun (d, _) found => d.symbol.insertSorted found) []

/-- The index of a project. -/
def ofHost : MarkerIndex :=
  let (constants, assemblyProblems) := assemblyMarkers none host.model.assemblyAttributes
  let headers := unionHeaderTable host
  { tracked := tableOf
      (fun d => (optionsOf? .track TrackOptions.read d).map fun o => ⟨o, d.kind == .interface⟩)
      host.declarations
    singletons := tableOf (optionsOf? .singleton SingletonOptions.read) host.declarations
    unionHeaders := headers
    families := familyTable host headers
    orphanVariants := orphans host
    unmanagedAccess := tableOf (optionsOf? .unmanagedAccess UnmanagedAccessOptions.read)
      host.declarations
    injectors := tableOf
      (fun d => if (injectMethods d).isEmpty then none else some (injectMethods d))
      host.declarations
    constants
    diagnostics := host.declarations.flatMap problems ++ assemblyProblems }

/-- The index of a project, unless it is cancelled. -/
def build (token : Token) : Except Cancelled MarkerIndex := do
  token.checkpoint
  return ofHost host

end

/-! ### Queries -/

variable (index : MarkerIndex)

/-- A header and those that it extends, innermost first. -/
def headerChain (s : Symbol) : List Symbol := headerChainIn index.unionHeaders s

/-- The outermost header that a header extends. -/
def rootHeader (s : Symbol) : Symbol := rootHeaderIn index.unionHeaders s

/-- A variant with its family. -/
def variant? (s : Symbol) : Option (UnionFamily × UnionVariant) :=
  index.families.values.findSome? fun family =>
    (family.variants.find? (·.symbol == s)).map fun v => (family, v)

end MarkerIndex

end Marksmith

import Marksmith.Analysis.Index
import Marksmith.Vocabulary.Marker

/-!
Facts about a marked declaration: its place, its marked ancestors, and the capability interfaces
that it adds to those of its nearest marked ancestor.
-/

namespace Marksmith

open Syntax (TypeRef)

/-- A type around a declaration. -/
structure ContainingType where
  name : String
  kind : TypeKind
  typeParams : List String
deriving DecidableEq, Repr

/-- The type arguments of capability interfaces, each once, in the order in which they are met. -/
structure Capabilities where
  unmanagedData : List TypeRef := []
  findById : List TypeRef := []
  customStorage : List TypeRef := []
  instanceIndex : Bool := false
deriving DecidableEq, Repr

namespace Capabilities

/-- Whether there is no capability at all. -/
def isEmpty (c : Capabilities) : Bool :=
  c.unmanagedData.isEmpty && c.findById.isEmpty && c.customStorage.isEmpty && !c.instanceIndex

/-- A list with an element at its end, unless it is there already. -/
def addNew (t : TypeRef) (ts : List TypeRef) : List TypeRef := if t ∈ ts then ts else ts ++ [t]

/-- The capabilities with those of one more interface. -/
def add (c : Capabilities) (i : TypeRef) : Capabilities :=
  match Capability.classify? i.name i.args.length, i.args with
  | some .instanceIndex, _ => { c with instanceIndex := true }
  | some .unmanagedData, t :: _ => { c with unmanagedData := addNew t c.unmanagedData }
  | some .findById, t :: _ => { c with findById := addNew t c.findById }
  | some .customStorage, t :: _ => { c with customStorage := addNew t c.customStorage }
  | _, _ => c

/-- The capabilities that a list of interfaces stands for. -/
def ofInterfaces (is : List TypeRef) : Capabilities := is.foldl add {}

end Capabilities

/-- What generating for a marked declaration needs to know. -/
structure Facts where
  symbol : Symbol
  /-- The type over its own type parameters. -/
  type : TypeRef
  marker : Marker
  kind : TypeKind
  typeParams : List String
  /-- The least accessible of the declaration and the types around it. -/
  accessibility : Accessibility
  /-- The types around the declaration, outermost first. -/
  containing : List ContainingType
  nameSpace : Option String
  isSealed : Bool
  isAbstract : Bool
  isStatic : Bool
  /-- The nearest base type with a marker of the same family. -/
  markedAncestor : Option TypeRef
  trackedAncestor : Option TypeRef
  singletonAncestor : Option TypeRef
  /-- The tracked interfaces that the marked ancestor does not implement. -/
  markedInterfaces : List TypeRef
  capabilities : Capabilities
  track : Option TrackOptions
  singleton : Option SingletonOptions
  declaredMembers : List String
  diagnostics : List Diagnostic
deriving Repr

/-- Why there are no facts about a declaration. -/
inductive FactError where
  | notATypeDeclaration (symbol : Symbol)
  | invalidTarget (symbol : Symbol) (marker : Marker)
  | options (e : OptionError)
  | cancelled
deriving DecidableEq, Repr

/-- The wording of a fact error. -/
def FactError.message : FactError → String
  | notATypeDeclaration symbol =>
    "`" ++ symbol.text ++ "` is not a class, struct or interface declaration"
  | invalidTarget symbol marker =>
    "[" ++ marker.text ++ "] cannot be applied to `" ++ symbol.text ++ "`"
  | options e => e.message
  | cancelled => Cancelled.cancelled.message

namespace Accessibility

/-- The place of an accessibility, from the most restrictive one. -/
def openness : Accessibility → Nat
  | priv => 0
  | prot => 1
  | internal => 2
  | protInternal => 3
  | pub => 4

/-- The more restrictive of two. -/
def least (a b : Accessibility) : Accessibility := if b.openness < a.openness then b else a

end Accessibility

namespace Host

variable (host : Host)

/-- The declarations around a nested one, innermost first. -/
def outerDecls (d : TypeDecl) : List TypeDecl := (host.enclosing (maxNesting + 1) d).drop 1

/-- The types around a declaration, outermost first. -/
def nesting (d : TypeDecl) : List ContainingType :=
  ((host.outerDecls d).map fun o => ⟨o.simpleName, o.kind, o.typeParams⟩).reverse

/-- The least accessible of a declaration and the types around it. -/
def effectiveAccessibility (d : TypeDecl) : Accessibility :=
  (host.outerDecls d).foldl (fun a o => a.least o.accessibility) d.accessibility

/-- The base types from a type on, with the definitions met before; a definition that repeats ends
the chain. -/
def baseChainFrom : (steps : Nat) → (before : List Symbol) → TypeRef → List TypeRef
  | 0, _, _ => []
  | steps + 1, before, t =>
    match host.baseType? t with
    | some base =>
      if Symbol.ofType base ∈ before then []
      else base :: baseChainFrom steps (.ofType base :: before) base
    | none => []

/-- The base types of a type, nearest first. -/
def baseChain (t : TypeRef) : List TypeRef :=
  host.baseChainFrom (host.declarations.length + 1) [.ofType t] t

/-- The base types of a type, unless the search is cancelled. A type without a base has no
checkpoint. -/
def baseChainUnless (token : Token) (t : TypeRef) : Except Cancelled (List TypeRef) := do
  if (host.baseType? t).isSome then token.checkpoint
  return host.baseChain t

/-- The types of a list that have not been seen, each once. -/
def unseen (seen : List TypeRef) : List TypeRef → List TypeRef
  | [] => []
  | t :: ts => if t ∈ seen then unseen seen ts else t :: unseen (t :: seen) ts

/-- The walk of `allInterfaces`, breadth first; nothing if the steps do not suffice. -/
def allInterfacesWithin? : (steps : Nat) → (seen queue : List TypeRef) → Option (List TypeRef)
  | _, _, [] => some []
  | 0, _, _ :: _ => none
  | steps + 1, seen, t :: queue =>
    let interfaces := unseen seen (host.declaredInterfaces t)
    let base := unseen (interfaces ++ seen) (host.baseType? t).toList
    (allInterfacesWithin? steps (base ++ interfaces ++ seen) (queue ++ interfaces ++ base)).map
      (interfaces ++ ·)

/-- Every interface that a type implements, itself or through base types and other interfaces,
nearest first. -/
def allInterfaces (t : TypeRef) : List TypeRef :=
  (host.allInterfacesWithin? host.stepLimit [t] [t]).getD []

/-- Every interface of a type, unless the search is cancelled. -/
def allInterfacesUnless (token : Token) (t : TypeRef) : Except Cancelled (List TypeRef) := do
  token.checkpoint
  return host.allInterfaces t

end Host

namespace Facts

/-- How a type is registered, in words. -/
def modeText (manual : Bool) : String := if manual then "manual" else "automatic"

/-- The ancestor that registers in another mode than the declaration does, with the declaration's
mode: a tracked one is looked at before a singleton. -/
def mismatch? (index : MarkerIndex) (f : Facts) : Option (TypeRef × Bool) :=
  let tracked : Option (TypeRef × Bool) := do
    let own ← f.track
    let ancestor ← f.trackedAncestor
    let theirs ← index.tracked.ofType? ancestor
    if own.manual ≠ theirs.options.manual then return (ancestor, own.manual) else none
  let singleton : Option (TypeRef × Bool) := do
    let own ← f.singleton
    let ancestor ← f.singletonAncestor
    let theirs ← index.singletons.ofType? ancestor
    if own.manual ≠ theirs.manual then return (ancestor, own.manual) else none
  tracked.or singleton

/-- The report that a declaration registers in another mode than its ancestor. -/
def mismatchReport (location : Location) (f : Facts) (ancestor : TypeRef) (manual : Bool) :
    Diagnostic :=
  ⟨location, .registrationModeMismatch,
    "`" ++ f.symbol.name ++ "` uses " ++ modeText manual ++ " registration but its base `" ++
      ancestor.text ++ "` uses " ++ modeText (!manual) ++ " registration"⟩

/-- The base types that count as marked for a marker. -/
def isMarked (host : Host) (index : MarkerIndex) (marker : Marker) (t : TypeRef) : Bool :=
  match marker with
  | .track | .singleton => index.tracked.containsType t || index.singletons.containsType t
  | _ => ((host.declaration? (.ofType t)).map fun d =>
      (Attribute.find? marker d.attributes).isSome).getD false

/-- The facts about a declaration whose options have been read. -/
def ofDecl (host : Host) (index : MarkerIndex) (marker : Marker) (d : TypeDecl)
    (track : Option TrackOptions) (singleton : Option SingletonOptions) : Facts :=
  let type := d.selfType
  let ancestors := host.baseChain type
  let markedAncestor := ancestors.find? (isMarked host index marker)
  let inherited := (markedAncestor.map host.allInterfaces).getD []
  let own := (host.allInterfaces type).filter fun i => !inherited.contains i
  let facts : Facts :=
    { symbol := d.symbol
      type
      marker
      kind := d.kind
      typeParams := d.typeParams
      accessibility := host.effectiveAccessibility d
      containing := host.nesting d
      nameSpace := host.namespace? d.symbol
      isSealed := d.isSealed
      isAbstract := d.isAbstract
      isStatic := d.isStatic
      markedAncestor
      trackedAncestor := ancestors.find? index.tracked.containsType
      singletonAncestor := ancestors.find? index.singletons.containsType
      markedInterfaces :=
        own.filter fun i => ((index.tracked.ofType? i).map (·.isInterface)).getD false
      capabilities := .ofInterfaces own
      track
      singleton
      declaredMembers := Text.nameSet d.memberNames
      diagnostics := [] }
  { facts with
    diagnostics := ((mismatch? index facts).map fun (ancestor, manual) =>
      mismatchReport d.location facts ancestor manual).toList }

/-- The options of a marker, if it stands on a declaration. -/
def readOptions {α : Type} (marker : Marker) (read : Attribute → Except OptionError α)
    (d : TypeDecl) : Except FactError (Option α) :=
  match Attribute.find? marker d.attributes with
  | none => .ok none
  | some a =>
    match read a with
    | .ok options => .ok (some options)
    | .error e => .error (.options e)

/-- The facts about the declaration of a symbol under a marker. -/
def extract (host : Host) (index : MarkerIndex) (token : Token) (symbol : Symbol)
    (marker : Marker) : Except FactError Facts :=
  match host.declaration? symbol with
  | none => .error (.notATypeDeclaration symbol)
  | some d =>
    if d.kind = .enum then .error (.notATypeDeclaration symbol)
    else if !marker.accepts d.kind then .error (.invalidTarget symbol marker)
    else if token.cancelled then .error .cancelled
    else do
      let track ← readOptions .track TrackOptions.read d
      let singleton ← readOptions .singleton SingletonOptions.read d
      return ofDecl host index marker d track singleton

/-- Whether values of the type are copied. -/
def isValueType (f : Facts) : Bool := f.kind.isValue

def isInterface (f : Facts) : Bool := f.kind == .interface

/-- Whether the declaration has a member of this name. -/
def declares (f : Facts) (member : String) : Bool := f.declaredMembers.contains member

/-- The simple name with type parameters. -/
def displayName (f : Facts) : String :=
  if f.typeParams.isEmpty then f.symbol.simpleName
  else f.symbol.simpleName ++ "<" ++ String.intercalate ", " f.typeParams ++ ">"

end Facts

end Marksmith

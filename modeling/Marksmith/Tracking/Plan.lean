import Marksmith.Analysis.Facts
import Marksmith.Source.Project
import Marksmith.Vocabulary.Engine

/-!
Plans for tracked types and singletons. A plan lists what an instance registers with when it becomes
enabled, and the accessors that the type gets. What is undone when the instance becomes disabled is
read off the registrations: the owning registry comes first, as it yields the slot that the others
need, and the others follow in reverse.
-/

namespace Marksmith

open Syntax (TypeRef)

/-- Something that an enabled instance is registered with. -/
inductive Registration where
  /-- What the marked base class registers. -/
  | base
  | singleton
  | instances
  | interface (t : TypeRef)
  | unmanagedData (t : TypeRef)
  | customStorage (t : TypeRef)
  | lookupById (t : TypeRef)
  | transformAccess
  | instanceIds
deriving DecidableEq, Repr

/-- A generated accessor. -/
inductive Accessor where
  | instances
  | count
  | active
  | instanceIndex
  | enabledCache
  /-- The instance's own payload. -/
  | payload (name : String) (data : TypeRef)
  | storage (name : String) (storage : TypeRef)
  | findById (id : TypeRef)
  | transformAccessArray
  | instanceIds
deriving DecidableEq, Repr

/-- How the two lifecycle methods are declared. -/
inductive Lifecycle where
  /-- A marked ancestor declares them already. -/
  | overriding
  /-- Nothing derives from the type. -/
  | hidden
  | overridable
deriving DecidableEq, Repr

/-- The modifiers of the lifecycle methods. -/
def Lifecycle.modifiers : Lifecycle → String
  | overriding => "protected override"
  | hidden => "private"
  | overridable => "protected virtual"

/-- What calls the lifecycle methods. -/
inductive Forwarders where
  /-- Those of the marked ancestor. -/
  | inherited
  /-- The engine's messages, each unless the type declares it itself. -/
  | messages (enable disable : Bool)
  /-- Calls of the project. -/
  | manual
deriving DecidableEq, Repr

/-- What is generated for a tracked type or a singleton. -/
structure TrackingPlan where
  facts : Facts
  enable : List Registration
  disable : List Registration
  accessors : List Accessor
  lifecycle : Lifecycle
  forwarders : Forwarders
  diagnostics : List Diagnostic
deriving Repr

namespace Facts

variable (f : Facts)

def isTracked : Bool := f.track.isSome

def isSingleton : Bool := f.singleton.isSome

def trackOptions : TrackOptions := f.track.getD {}

/-- Instances are registered by calls of the project. -/
def isManual : Bool := (f.track.any (·.manual)) || (f.singleton.any (·.manual))

/-! ### Registrations -/

/-- The registry that yields the slot of an instance. -/
def owner : Registration := if f.isTracked then .instances else .singleton

/-- The registrations of the capabilities and options of a tracked type. -/
def trackedRegistrations : List Registration :=
  f.capabilities.unmanagedData.map .unmanagedData ++
    f.capabilities.customStorage.map .customStorage ++
    f.capabilities.findById.map .lookupById ++
    (if f.trackOptions.transformAccessArray then [.transformAccess] else []) ++
    (if f.trackOptions.instanceIdArray then [.instanceIds] else [])

/-- What an instance registers with, in order. -/
def enable : List Registration :=
  (if f.markedAncestor.isSome then [.base] else []) ++
    (if f.isSingleton then [.singleton] else []) ++
    (if f.isTracked then [.instances] else []) ++
    f.markedInterfaces.map .interface ++
    (if f.isTracked then f.trackedRegistrations else [])

/-- What an instance unregisters from, in order. -/
def disable : List Registration := f.owner :: f.enable.reverse.filter (· ≠ f.owner)

/-! ### Accessors -/

/-- The types that get an accessor with a name of their own, with that accessor and its name. -/
def namedAccessors : List (String × TypeRef × Accessor) :=
  f.capabilities.unmanagedData.map (fun t =>
    let name := "Local" ++ t.simpleName
    (name, t, .payload name t)) ++
  f.capabilities.customStorage.map (fun t =>
    let name := t.simpleName ++ "Storage"
    (name, t, .storage name t))

/-- The report that an accessor's name is taken by one for another type. -/
def collisionReport (name : String) (t first : TypeRef) : Diagnostic :=
  ⟨{ symbol := f.symbol.name, member := some name }, .duplicateGeneratedAccessor,
    "generated property `" ++ name ++ "` for `" ++ t.text ++ "` collides with the one for `" ++
      first.text ++ "`; skipped"⟩

/-- The accessors whose names are neither declared nor taken by an earlier one, and reports on those
whose names are taken. -/
def claimNames (taken : List (String × TypeRef)) :
    List (String × TypeRef × Accessor) → List Accessor × List Diagnostic
  | [] => ([], [])
  | (name, t, accessor) :: rest =>
    if f.declares name then claimNames taken rest
    else
      match taken.lookup name with
      | some first =>
        let (accessors, reports) := claimNames taken rest
        (accessors, f.collisionReport name t first :: reports)
      | none =>
        let (accessors, reports) := claimNames ((name, t) :: taken) rest
        (accessor :: accessors, reports)

/-- The accessors of a class. -/
def accessors (alwaysIndex : Bool) : List Accessor :=
  (if f.isTracked then [.instances, .count] else []) ++
    (if f.isSingleton then [.active] else []) ++
    (if f.isTracked && (f.capabilities.instanceIndex || alwaysIndex) then [.instanceIndex]
    else []) ++
    (if f.isTracked && f.trackOptions.cacheEnabledState then [.enabledCache] else []) ++
    (if f.isTracked then
      (f.claimNames [] f.namedAccessors).1 ++
        f.capabilities.findById.map .findById ++
        (if f.trackOptions.transformAccessArray then [.transformAccessArray] else []) ++
        (if f.trackOptions.instanceIdArray then [.instanceIds] else [])
    else [])

/-! ### Lifecycle -/

def lifecycle : Lifecycle :=
  if f.markedAncestor.isSome then .overriding else if f.isSealed then .hidden else .overridable

def forwarders : Forwarders :=
  if f.markedAncestor.isSome then .inherited
  else if f.isManual then .manual
  else .messages (!f.declares Engine.onEnable) (!f.declares Engine.onDisable)

/-- The plan for a declaration. A tracked interface gets its enumerable only. -/
def plan (settings : Settings) : TrackingPlan :=
  if f.isInterface then
    { facts := f, enable := [], disable := [], accessors := [.instances], lifecycle := .overridable,
      forwarders := .inherited, diagnostics := f.diagnostics }
  else
    { facts := f
      enable := f.enable
      disable := f.disable
      accessors := f.accessors settings.alwaysEmitIndex
      lifecycle := f.lifecycle
      forwarders := f.forwarders
      diagnostics :=
        f.diagnostics ++ (if f.isTracked then (f.claimNames [] f.namedAccessors).2 else []) }

end Facts

/-! ### Progress -/

/-- How far a tracked type or singleton has been dealt with. -/
inductive TrackingState where
  | unconfigured
  | analyzed (facts : Facts)
  /-- Nothing is generated; there may be something to report. -/
  | diagnosed (diagnostics : List Diagnostic)
  | ready (plan : TrackingPlan)
deriving Repr

namespace TrackingState

/-- Finds out the facts. What stands in the way of them has been reported with the index. -/
def analyze (project : Project) (token : Token) (symbol : Symbol) :
    TrackingState → Except Cancelled TrackingState
  | unconfigured =>
    let marker := if project.index.tracked.contains symbol then .track else .singleton
    match Facts.extract project.host project.index token symbol marker with
    | .ok facts =>
      if facts.diagnostics.any (·.isError) then .ok (diagnosed facts.diagnostics)
      else .ok (analyzed facts)
    | .error .cancelled => .error .cancelled
    | .error _ => .ok (diagnosed [])
  | state => .ok state

/-- Makes the plan. -/
def plan (settings : Settings) : TrackingState → TrackingState
  | analyzed facts => ready (facts.plan settings)
  | state => state

end TrackingState

end Marksmith

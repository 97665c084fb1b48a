import Marksmith.Source.File
import Marksmith.Source.Page
import Marksmith.Tracking.Plan

/-!
Generated members of tracked types and singletons: the accessors of a plan, the two lifecycle
methods, and what calls them.
-/

namespace Marksmith

open Syntax (TypeRef)
open Source (Piece)
open Source.Piece (block privateField property reference)

namespace TrackingPlan

variable (host : Host) (plan : TrackingPlan)

/-- The tracked type in generated text. -/
def self : String := host.typeText plan.facts.type

/-- The field with the slot of an instance. -/
def indexField : String := "instanceIndexINTERNAL"

/-- The field with the enabled state of an instance. -/
def enabledField : String := "enabledINTERNAL"

/-- Whether instances know their slot. -/
def hasIndexField : Bool := plan.accessors.contains .instanceIndex

/-- The modifier of a member that an ancestor has too. -/
def newModifier (ancestor : Option TypeRef) : String := if ancestor.isSome then "new " else ""

/-- The registry that a registration is made with; the base class has its own. -/
def registry (r : Registration) : String :=
  let self := plan.self host
  match r with
  | .base => "base"
  | .singleton => Runtime.generic Runtime.singleton [self]
  | .instances => Runtime.generic Runtime.instances [self]
  | .interface t => Runtime.generic Runtime.instances [host.typeText t]
  | .unmanagedData t => Runtime.generic Runtime.unmanagedData [self, host.typeText t]
  | .customStorage t => Runtime.generic Runtime.customStorage [self, host.typeText t]
  | .lookupById t => Runtime.generic Runtime.lookupById [self, host.typeText t]
  | .transformAccess => Runtime.generic Runtime.transformAccess [self]
  | .instanceIds => Runtime.generic Runtime.instanceIds [self]

/-! ### Accessors -/

/-- The text of an accessor. -/
def accessorPieces (a : Accessor) : List Piece :=
  let self := plan.self host
  let simple := plan.facts.symbol.simpleName
  let newTracked := newModifier plan.facts.trackedAncestor
  match a with
  | .instances =>
    let modifier := if plan.facts.isInterface then "" else newTracked
    .doc ("Enabled instances of " ++ reference simple ++ ".") ::
      property ("public static " ++ modifier ++
        Runtime.generic ("global::" ++ Runtime.trackedInstances) [self] ++ " Instances") "default"
  | .count =>
    .doc ("Number of enabled " ++ reference simple ++ " instances.") ::
      property ("public static " ++ newTracked ++ "int Count")
        (plan.registry host .instances ++ ".Count")
  | .active =>
    .doc ("The active " ++ reference simple ++ ", if one is enabled.") ::
      property
        ("public static " ++ newModifier plan.facts.singletonAncestor ++ self ++ "? Instance")
        (plan.registry host .singleton ++ ".Instance")
  | .instanceIndex =>
    privateField ("int " ++ indexField ++ " = -1") ++
      .blankLine ::
      .doc ("Slot of this instance in " ++ reference "Instances" ++ " of " ++
        plan.facts.displayName ++ ", or -1 while disabled.") ::
      property ("public " ++ newTracked ++ "int InstanceIndex") indexField
  | .enabledCache =>
    privateField ("bool " ++ enabledField) ++
      .blankLine ::
      .doc "Cached enabled state, updated by the generated lifecycle methods." ::
      block "public new bool enabled"
        (Piece.getter enabledField ++ [.line "set => base.enabled = value;"])
  | .payload name t =>
    .doc ("This instance's " ++ reference t.simpleName ++ " payload.") ::
      property ("public ref " ++ host.typeText t ++ " " ++ name)
        ("ref " ++ plan.registry host (.unmanagedData t) ++ ".ElementAt(this)")
  | .storage name t =>
    .doc ("Shared " ++ reference t.simpleName ++ " of " ++ name ++ ".") ::
      property ("public " ++ host.typeText t ++ " " ++ name)
        (plan.registry host (.customStorage t) ++ ".Get(this)")
  | .findById t =>
    [.doc "Find the enabled instance with the given id.",
     .attributeLine Runtime.aggressiveInlining,
     .line ("public static " ++ self ++ "? FindByID(" ++ host.typeText t ++ " id) => " ++
       plan.registry host (.lookupById t) ++ ".Find(id);")]
  | .transformAccessArray =>
    .doc ("Transforms of enabled instances, for jobs. Initial capacity " ++
        toString plan.facts.trackOptions.transformInitialCapacity ++ ".") ::
      property ("public static " ++ newTracked ++ Runtime.transformAccessArray ++
        " TransformAccessArray") (plan.registry host .transformAccess ++ ".Array")
  | .instanceIds =>
    .doc "Instance ids of enabled instances, in slot order." ::
      property ("public static " ++ newTracked ++ Runtime.generic Runtime.nativeArray ["int"] ++
        " InstanceIDs") (plan.registry host .instanceIds ++ ".Array")

/-! ### Lifecycle methods -/

/-- The statements that make a registration. -/
def enableLines (r : Registration) : List String :=
  let registry := plan.registry host r
  let options := plan.facts.trackOptions
  match r with
  | .base => ["base.OnEnableINTERNAL();"]
  | .singleton =>
    let strategy := (plan.facts.singleton.getD {}).strategy
    [registry ++ ".Register(this, " ++ Runtime.singletonStrategy ++ "." ++ strategy.text ++ ");"]
  | .instances =>
    (if options.cacheEnabledState then [enabledField ++ " = true;"] else []) ++
      [(if plan.hasIndexField then indexField ++ " = " else "") ++ registry ++ ".Register(this);"]
  | .transformAccess =>
    [registry ++ ".Register(this, initialCapacity: " ++ toString options.transformInitialCapacity ++
      ", desiredJobCount: " ++ toString options.transformDesiredJobCount ++ ");"]
  | .interface _ | .unmanagedData _ | .customStorage _ | .lookupById _ | .instanceIds =>
    [registry ++ ".Register(this);"]

/-- The statements that undo a registration. -/
def disableLines (r : Registration) : List String :=
  let registry := plan.registry host r
  match r with
  | .base => ["base.OnDisableINTERNAL();"]
  | .instances =>
    ["int index = " ++ registry ++ ".Unregister(this);"] ++
      (if plan.hasIndexField then [indexField ++ " = -1;"] else []) ++
      (if plan.facts.trackOptions.cacheEnabledState then [enabledField ++ " = false;"] else [])
  | .unmanagedData _ => [registry ++ ".Unregister(this, index);"]
  | .transformAccess | .instanceIds => [registry ++ ".Unregister(index);"]
  | .singleton | .interface _ | .customStorage _ | .lookupById _ =>
    [registry ++ ".Unregister(this);"]

/-- A lifecycle method. -/
def lifecycleMethod (name : String) (statements : List String) : List Piece :=
  block (plan.lifecycle.modifiers ++ " void " ++ name ++ "()") (statements.map .line)

/-- The two lifecycle methods. -/
def lifecyclePieces : List Piece :=
  plan.lifecycleMethod "OnEnableINTERNAL" (plan.enable.flatMap (plan.enableLines host)) ++
    .blankLine ::
    plan.lifecycleMethod "OnDisableINTERNAL" (plan.disable.flatMap (plan.disableLines host))

/-- The methods that call the lifecycle methods. -/
def forwarderPieces : List Piece :=
  match plan.forwarders with
  | .inherited => []
  | .messages enable disable =>
    (if enable then
      [.blankLine, .line ("void " ++ Engine.onEnable ++ "() => OnEnableINTERNAL();")] else []) ++
    (if disable then
      (if enable then [] else [.blankLine]) ++
        [.line ("void " ++ Engine.onDisable ++ "() => OnDisableINTERNAL();")] else [])
  | .manual =>
    [.blankLine,
     .doc "Register this instance. Registration is manual for this type.",
     .line "public void RegisterInstance() => OnEnableINTERNAL();",
     .blankLine,
     .doc "Unregister this instance.",
     .line "public void UnregisterInstance() => OnDisableINTERNAL();"]

/-! ### Files -/

/-- The members that a plan adds. -/
def memberPieces : List Piece :=
  Piece.members (plan.accessors.map (plan.accessorPieces host)) ++
    (if plan.facts.isInterface then []
    else .blankLine :: (plan.lifecyclePieces host ++ plan.forwarderPieces))

/-- The file of a plan. -/
def file (settings : Settings) : SourceFile :=
  { name := SourceFile.nameFor plan.facts.symbol .tracking
    text := SourceFile.textOf settings <|
      Piece.within
        (SourceFile.scope plan.facts.nameSpace plan.facts.containing
          (SourceFile.partialHeader plan.facts.kind plan.facts.symbol.simpleName
            plan.facts.typeParams))
        (plan.memberPieces host) }

end TrackingPlan

namespace TrackingState

/-- What is generated in a state. -/
def output (host : Host) (settings : Settings) : TrackingState → Output
  | ready plan => { files := [plan.file host settings], diagnostics := plan.diagnostics }
  | diagnosed diagnostics => { diagnostics }
  | unconfigured | analyzed _ => {}

end TrackingState

/-- The source for a tracked type or a singleton. -/
def Project.trackingOutput (project : Project) (token : Token) (symbol : Symbol) :
    Except Cancelled Output := do
  let state ← TrackingState.unconfigured.analyze project token symbol
  return (state.plan project.settings).output project.host project.settings

end Marksmith

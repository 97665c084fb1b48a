import Marksmith.Identifier
import Marksmith.Model.Declaration
import Marksmith.Syntax.Parser

/-!
Options of the markers. Every marker has a list of options in a fixed order. An argument with a name
gives the option of that name, whatever the case of its letters; arguments without a name give the
options in order; an option that is not given has a default.
-/

namespace Marksmith

open Syntax (TypeRef parseType)

/-- Why the arguments of a marker cannot be read. -/
inductive OptionError where
  | unknownOption (marker : Marker) (option : String)
  | tooManyArguments (marker : Marker) (max : Nat)
  | typeMismatch (option expected : String)
  | outOfRange (option : String) (value : Int)
  | unknownValue (option value : String)
deriving DecidableEq, Repr

/-- The wording of an option error. -/
def OptionError.message : OptionError → String
  | unknownOption marker option => "`" ++ marker.text ++ "` has no option named `" ++ option ++ "`"
  | tooManyArguments marker max =>
    "`" ++ marker.text ++ "` accepts at most " ++ toString max ++ " positional arguments"
  | typeMismatch option expected => "option `" ++ option ++ "` expects " ++ expected
  | outOfRange option value => "option `" ++ option ++ "` is out of range: " ++ toString value
  | unknownValue option value => "option `" ++ option ++ "` has unknown value `" ++ value ++ "`"

/-- What happens when a second instance of a singleton is enabled. -/
inductive SingletonStrategy where
  | replace | keepExisting | throws
deriving DecidableEq, Repr

/-- The name of a strategy in generated text. -/
def SingletonStrategy.text : SingletonStrategy → String
  | replace => "Replace"
  | keepExisting => "KeepExisting"
  | throws => "Throw"

structure TrackOptions where
  /-- Instances are registered by calls and not by the engine's messages. -/
  manual : Bool := false
  instanceIdArray : Bool := false
  transformAccessArray : Bool := false
  transformInitialCapacity : Int := 64
  transformDesiredJobCount : Int := -1
  cacheEnabledState : Bool := false
deriving DecidableEq, Repr

structure SingletonOptions where
  manual : Bool := false
  strategy : SingletonStrategy := .replace
deriving DecidableEq, Repr

structure InjectOptions where
  /-- Generated properties are public. -/
  isPublic : Bool := false
deriving DecidableEq, Repr

structure UnionOptions where
  /-- The type id that a variant asks for. -/
  id : Option Nat := none
deriving DecidableEq, Repr

structure UnionHeaderOptions where
  /-- The dispatch interface as it is written. -/
  dispatch : Option TypeRef := none
deriving DecidableEq, Repr

structure UnmanagedAccessOptions where
  safetyChecks : Bool := false
  includePrivate : Bool := true
deriving DecidableEq, Repr

structure ConstantsOptions where
  nameSpace : Option String := none
  className : String := "Constants"
deriving DecidableEq, Repr

/-! ### Arguments -/

/-- Whether two texts are equal up to the case of their letters a to z. -/
def sameLetters (a b : String) : Bool := a.toList.map Char.toLower == b.toList.map Char.toLower

/-- Arguments paired with the options that they are for. -/
structure OptionArgs where
  order : List String
  args : List AttributeArg

namespace OptionArgs

/-- The arguments without a name. -/
def positional (args : List AttributeArg) : List AttributeArg := args.filter (·.name.isNone)

/-- The first named argument that is for no option. -/
def firstUnknown? (order : List String) (args : List AttributeArg) : Option String :=
  (args.filterMap (·.name)).find? fun name => !(order.any (sameLetters · name))

/-- Pairs the arguments of a marker with its options. -/
def ofAttribute (marker : Marker) (order : List String) (a : Attribute) :
    Except OptionError OptionArgs :=
  if order.length < (positional a.args).length then .error (.tooManyArguments marker order.length)
  else
    match firstUnknown? order a.args with
    | some name => .error (.unknownOption marker name)
    | none => .ok ⟨order, a.args⟩

variable (args : OptionArgs)

/-- The value given for an option: the first argument of its name, or else the one in its place. -/
def get? (option : String) : Option AttributeValue :=
  match args.args.find? fun a => a.name.any (sameLetters · option) with
  | some a => some a.value
  | none => do
    let place ← args.order.findIdx? (· == option)
    return (← (positional args.args)[place]?).value

def bool (option : String) (default : Bool) : Except OptionError Bool :=
  match args.get? option with
  | none => .ok default
  | some (.bool b) => .ok b
  | some _ => .error (.typeMismatch option "a boolean")

def int? (option : String) : Except OptionError (Option Int) :=
  match args.get? option with
  | none => .ok none
  | some (.int n) => .ok (some n)
  | some _ => .error (.typeMismatch option "an integer")

/-- An integer within bounds. -/
def intWithin (option : String) (low high default : Int) : Except OptionError Int := do
  match ← args.int? option with
  | none => return default
  | some n => if low ≤ n ∧ n ≤ high then return n else throw (.outOfRange option n)

def text? (option : String) : Except OptionError (Option String) :=
  match args.get? option with
  | none => .ok none
  | some (.text s) => .ok (some s)
  | some _ => .error (.typeMismatch option "a string")

/-- The operand of `typeof`, or the text as it stands. -/
def typeofOperand (text : String) : String :=
  ((Marker.dropBeginning? "typeof(" text).bind (Marker.dropEnding? ")")).getD text

/-- A type, written as the operand of `typeof` or on its own. -/
def type? (option : String) : Except OptionError (Option TypeRef) := do
  match ← args.text? option with
  | none => return none
  | some text =>
    match parseType (typeofOperand text) with
    | .ok t => return some t
    | .error _ => throw (.typeMismatch option "a type")

end OptionArgs

/-! ### The options of each marker -/

def TrackOptions.order : List String :=
  ["manual", "instanceIdArray", "transformAccessArray", "transformInitialCapacity",
   "transformDesiredJobCount", "cacheEnabledState"]

def TrackOptions.read (a : Attribute) : Except OptionError TrackOptions := do
  let args ← OptionArgs.ofAttribute .track order a
  return {
    manual := ← args.bool "manual" false
    instanceIdArray := ← args.bool "instanceIdArray" false
    transformAccessArray := ← args.bool "transformAccessArray" false
    transformInitialCapacity := ← args.intWithin "transformInitialCapacity" 0 0xFFFFFFFF 64
    transformDesiredJobCount :=
      ← args.intWithin "transformDesiredJobCount" (-0x80000000) 0x7FFFFFFF (-1)
    cacheEnabledState := ← args.bool "cacheEnabledState" false }

def SingletonOptions.order : List String := ["strategy", "manual"]

/-- The strategy that a text names; it may be qualified. -/
def SingletonStrategy.ofText? (text : String) : Option SingletonStrategy :=
  match TypeRef.lastSegment text with
  | "Replace" | "AutoReplace" => some .replace
  | "KeepExisting" => some .keepExisting
  | "Throw" | "ThrowException" => some .throws
  | _ => none

def SingletonOptions.read (a : Attribute) : Except OptionError SingletonOptions := do
  let args ← OptionArgs.ofAttribute .singleton order a
  let strategy ← match ← args.text? "strategy" with
    | none => pure .replace
    | some text =>
      match SingletonStrategy.ofText? text with
      | some strategy => pure strategy
      | none => throw (.unknownValue "strategy" text)
  return { manual := ← args.bool "manual" false, strategy }

def InjectOptions.order : List String := ["public"]

def InjectOptions.read (a : Attribute) : Except OptionError InjectOptions := do
  let args ← OptionArgs.ofAttribute .inject order a
  return { isPublic := ← args.bool "public" false }

def UnionOptions.order : List String := ["id"]

/-- Zero is the id of no variant. -/
def UnionOptions.read (a : Attribute) : Except OptionError UnionOptions := do
  let args ← OptionArgs.ofAttribute .union order a
  match ← args.int? "id" with
  | none => return {}
  | some n => if 1 ≤ n ∧ n ≤ 255 then return { id := some n.toNat } else throw (.outOfRange "id" n)

def UnionHeaderOptions.order : List String := ["dispatch"]

def UnionHeaderOptions.read (a : Attribute) : Except OptionError UnionHeaderOptions := do
  let args ← OptionArgs.ofAttribute .unionHeader order a
  return { dispatch := ← args.type? "dispatch" }

def UnmanagedAccessOptions.order : List String := ["safetyChecks", "includePrivate"]

def UnmanagedAccessOptions.read (a : Attribute) : Except OptionError UnmanagedAccessOptions := do
  let args ← OptionArgs.ofAttribute .unmanagedAccess order a
  return {
    safetyChecks := ← args.bool "safetyChecks" false
    includePrivate := ← args.bool "includePrivate" true }

def ConstantsOptions.order : List String := ["namespace", "className"]

def ConstantsOptions.read (a : Attribute) : Except OptionError ConstantsOptions := do
  let args ← OptionArgs.ofAttribute .generateUnityConstants order a
  let className ← match ← args.text? "className" with
    | none => pure "Constants"
    | some text =>
      match Identifier.sanitize text with
      | some name => pure name
      | none => throw (.unknownValue "className" text)
  let qualifier ← args.text? "namespace"
  return { nameSpace := qualifier.filter (· ≠ ""), className }

end Marksmith

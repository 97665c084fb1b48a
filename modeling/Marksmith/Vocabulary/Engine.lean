/-!
What the generator knows about the engine and about the predefined types of the target language.
-/

namespace Marksmith.Engine

/-- The tags that every project has, in the engine's order. -/
def builtinTags : List String :=
  ["Untagged", "Respawn", "Finish", "EditorOnly", "MainCamera", "Player", "GameController"]

/-- The number of layer slots. -/
def layerCount : Nat := 32

/-- The message sent to a component that becomes enabled. -/
def onEnable : String := "OnEnable"

/-- The message sent to a component that becomes disabled. -/
def onDisable : String := "OnDisable"

/-- Where the tag manager asset lies in a project. -/
def tagManagerAsset : String := "ProjectSettings/TagManager.asset"

/-- Unmanaged primitive types with their sizes in bytes. -/
def primitiveSizes : List (String × Nat) :=
  [("bool", 1), ("byte", 1), ("sbyte", 1), ("char", 2), ("short", 2), ("ushort", 2), ("int", 4),
   ("uint", 4), ("float", 4), ("long", 8), ("ulong", 8), ("double", 8), ("nint", 8), ("nuint", 8),
   ("decimal", 16)]

/-- The size of a primitive type. -/
def primitiveSize? (name : String) : Option Nat := primitiveSizes.lookup name

/-- Predefined types that are never unmanaged. -/
def managedPrimitives : List String := ["string", "object", "dynamic"]

/-- Whether a name is a predefined type. -/
def isPredefinedType (name : String) : Bool :=
  name == "void" || (primitiveSize? name).isSome || managedPrimitives.contains name

end Marksmith.Engine

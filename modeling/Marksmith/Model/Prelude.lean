import Marksmith.Model.Declaration

/-!
Declarations that every project sees without declaring them: a few types of the base library, the
runtime's own types, and the engine's components. A project that declares one of them itself hides
the one here.
-/

namespace Marksmith.Prelude

open Syntax (TypeRef)

open Syntax.TypeRef (named generic)

/-- A public type that is declared elsewhere. -/
def declared (kind : TypeKind) (name : String) (typeParams : List String) : TypeDecl :=
  { name, kind, typeParams, accessibility := .pub, external := true }

/-- A public property. -/
def property (name : String) (type : TypeRef) : PropertyDecl :=
  { name, type, accessibility := .pub }

/-- A public method. -/
def method (name : String) (typeParams : List String) (params : List ParamDecl)
    (returns : TypeRef) : MethodDecl :=
  { name, typeParams, params, returns, accessibility := .pub }

/-- The type of sequences. -/
def sequence (item : TypeRef) : TypeRef :=
  generic "System.Collections.Generic.IEnumerable" [item]

/-- The type of lists. -/
def listOf (item : TypeRef) : TypeRef := generic "System.Collections.Generic.List" [item]

/-- The type of arrays. -/
def arrayOf (item : TypeRef) : TypeRef := { item with rank := item.rank + 1 }

/-- The type of functions from `TSource`. -/
def mapping (result : TypeRef) : TypeRef := generic "System.Func" [named "TSource", result]

/-- A public extension method of sequences of `TSource`, with its further type parameters and
parameters. -/
def extension (name : String) (typeParams : List String) (params : List ParamDecl)
    (returns : TypeRef) : MethodDecl :=
  { method name ("TSource" :: typeParams) (⟨"source", sequence (named "TSource"), .value⟩ :: params)
      returns with
    isStatic := true
    isExtension := true }

/-- The declarations that every project sees. -/
def types : List TypeDecl :=
  [ { declared .class "System.Object" [] with
      methods := [
        method "ToString" [] [] (named "string"),
        method "GetHashCode" [] [] (named "int")] },
    declared .class "System.Func" ["TResult"],
    declared .class "System.Func" ["T", "TResult"],
    declared .class "System.Func" ["T1", "T2", "TResult"],
    declared .class "System.Action" ["T"],
    declared .interface "System.Collections.Generic.IEnumerable" ["T"],
    { declared .class "System.Collections.Generic.List" ["T"] with
      interfaces := [sequence (named "T")]
      properties := [
        property "Count" (named "int"),
        property "Item" (named "T")]
      methods := [
        method "Add" [] [⟨"item", named "T", .value⟩] (named "void")] },
    { declared .class "System.Linq.Enumerable" [] with
      isStatic := true
      methods := [
        extension "Select" ["TResult"] [⟨"selector", mapping (named "TResult"), .value⟩]
          (sequence (named "TResult")),
        extension "Where" [] [⟨"predicate", mapping (named "bool"), .value⟩]
          (sequence (named "TSource")),
        extension "First" [] [] (named "TSource"),
        extension "FirstOrDefault" [] [] (named "TSource"),
        extension "Count" [] [] (named "int"),
        extension "Any" [] [] (named "bool"),
        extension "ToArray" [] [] (arrayOf (named "TSource")),
        extension "ToList" [] [] (listOf (named "TSource"))] },
    { declared .struct "Medicine.TrackedInstances" ["T"] with
      interfaces := [sequence (named "T")]
      properties := [
        property "Count" (named "int")] },
    declared .interface "Medicine.IUnmanagedData" ["TData"],
    { declared .interface "Medicine.IFindByID" ["TId"] with
      properties := [
        property "ID" (named "TId")] },
    declared .interface "Medicine.ICustomStorage" ["TStorage"],
    declared .interface "Medicine.IInstanceIndex" [],
    { declared .class "UnityEngine.Object" [] with
      properties := [
        property "name" (named "string")]
      methods := [
        method "GetInstanceID" [] [] (named "int")] },
    { declared .struct "UnityEngine.Vector3" [] with
      fields := ["x", "y", "z"].map fun name => ⟨name, named "float", .pub, false, false⟩ },
    { declared .class "UnityEngine.Transform" [] with
      base := some (named "UnityEngine.Component")
      properties := [
        property "position" (named "UnityEngine.Vector3"),
        property "parent" (named "UnityEngine.Transform")] },
    { declared .class "UnityEngine.GameObject" [] with
      base := some (named "UnityEngine.Object")
      properties := [
        property "transform" (named "UnityEngine.Transform")]
      methods := [
        method "GetComponent" ["T"] [] (named "T")] },
    { declared .class "UnityEngine.Component" [] with
      base := some (named "UnityEngine.Object")
      properties := [
        property "transform" (named "UnityEngine.Transform"),
        property "gameObject" (named "UnityEngine.GameObject")]
      methods := [
        method "GetComponent" ["T"] [] (named "T"),
        method "GetComponentInChildren" ["T"] [] (named "T"),
        method "GetComponentsInChildren" ["T"] [] (arrayOf (named "T"))] },
    { declared .class "UnityEngine.Behaviour" [] with
      base := some (named "UnityEngine.Component")
      properties := [
        property "enabled" (named "bool")] },
    { declared .class "UnityEngine.MonoBehaviour" [] with
      base := some (named "UnityEngine.Behaviour") },
    { declared .class "UnityEngine.Rigidbody" [] with
      base := some (named "UnityEngine.Component")
      properties := [
        property "mass" (named "float"),
        property "velocity" (named "UnityEngine.Vector3")] },
    { declared .class "UnityEngine.Camera" [] with
      base := some (named "UnityEngine.Behaviour")
      properties := [
        { property "main" (named "UnityEngine.Camera") with isStatic := true }] }]

end Marksmith.Prelude

/-!
Names of the runtime library that generated text calls into. Nothing here is generated; it is only
referred to.
-/

namespace Marksmith.Runtime

/-- The enumerable of the tracked instances of a type. -/
def trackedInstances : String := "Medicine.TrackedInstances"

/-- The registry of the instances of a tracked type. -/
def instances : String := "global::Medicine.Internal.Storage.Instances"

/-- The slot of a singleton. -/
def singleton : String := "global::Medicine.Internal.Storage.Singleton"

/-- Parallel arrays of unmanaged payloads. -/
def unmanagedData : String := "global::Medicine.Internal.Storage.UnmanagedData"

/-- Lookup tables from ids. -/
def lookupById : String := "global::Medicine.Internal.Storage.LookupByID"

/-- Storage of the user's own. -/
def customStorage : String := "global::Medicine.Internal.Storage.Custom"

/-- The transform access array of a tracked type. -/
def transformAccess : String := "global::Medicine.Internal.Storage.TransformAccess"

/-- The instance id array of a tracked type. -/
def instanceIds : String := "global::Medicine.Internal.Storage.InstanceIDs"

/-- The job system's view of transforms. -/
def transformAccessArray : String := "global::UnityEngine.Jobs.TransformAccessArray"

/-- The type of native arrays. -/
def nativeArray : String := "global::Unity.Collections.NativeArray"

/-- Helpers of unions. -/
def unionUtility : String := "global::Medicine.Internal.UnionUtility"

/-- The reinterpreting cast of references. -/
def unsafeAs : String := "global::Unity.Collections.LowLevel.Unsafe.UnsafeUtility.As"

/-- The raw reference wrapper of unmanaged accessors. -/
def unmanagedRef : String := "global::Medicine.Internal.UnmanagedRef"

/-- The lookup of field offsets. -/
def fieldOffset : String := "global::Medicine.Internal.FieldOffset.Of"

/-- The enumeration of singleton strategies. -/
def singletonStrategy : String := "global::Medicine.SingletonStrategy"

/-- The attribute on generated backing fields. -/
def nonSerialized : String := "global::System.NonSerialized"

/-- The attribute that lets a struct member return a reference to its own struct. -/
def unscopedRef : String := "global::System.Diagnostics.CodeAnalysis.UnscopedRef"

/-- The attribute on accessors that are called often. -/
def aggressiveInlining : String :=
  "global::System.Runtime.CompilerServices.MethodImpl(" ++
    "global::System.Runtime.CompilerServices.MethodImplOptions.AggressiveInlining)"

/-- A runtime name with type arguments. -/
def generic (api : String) (args : List String) : String :=
  api ++ "<" ++ String.intercalate ", " args ++ ">"

end Marksmith.Runtime

import Marksmith.Analysis.Layout
import Marksmith.Source.File
import Marksmith.Source.Page
import Marksmith.Source.Project

/-!
Generated views of the unmanaged fields of a class: a holder of field offsets, a struct that hands
out references to the fields, and a method that gives the view of an instance. The fields that a
view exposes are the instance fields of unmanaged types.
-/

namespace Marksmith

open Syntax (TypeRef)
open Source (Piece)
open Source.Piece (block)

/-! ### Fields of a view -/

/-- A field that a view exposes. -/
structure UnmanagedField where
  name : String
  type : TypeRef
deriving DecidableEq, Repr

namespace UnmanagedField

/-- Whether a field belongs to an instance and may be seen. -/
def isCandidate (options : UnmanagedAccessOptions) (f : FieldDecl) : Bool :=
  !f.isStatic && !f.isConst && (options.includePrivate || f.accessibility != .priv)

/-- The exposed field for a declared one. -/
def ofField? (host : Host) (d : TypeDecl) (options : UnmanagedAccessOptions) (f : FieldDecl) :
    Option UnmanagedField :=
  if isCandidate options f then
    match host.resolve? d.symbol f.type with
    | some t => if host.isUnmanaged t then some ⟨f.name, t⟩ else none
    | none => none
  else none

/-- The fields that the view of a declaration exposes. A declaration without fields leaves nothing
to cancel. -/
def ofDecl (host : Host) (token : Token) (d : TypeDecl) (options : UnmanagedAccessOptions) :
    Except Cancelled (List UnmanagedField) := do
  if !d.fields.isEmpty then token.checkpoint
  return d.fields.filterMap (ofField? host d options)

end UnmanagedField

/-! ### The view -/

namespace UnmanagedView

/-- The name of the view. -/
def viewName : String := "Unmanaged"

/-- The name of the holder of offsets. -/
def offsetsName : String := "UnmanagedOffsets"

/-- The offset of a field. -/
def offsetLine (self : String) (f : UnmanagedField) : Piece :=
  .line ("public static readonly int " ++ f.name ++ " = " ++
    Runtime.generic Runtime.fieldOffset [self] ++ "(\"" ++ f.name ++ "\");")

/-- The property with a reference to a field. -/
def fieldPieces (host : Host) (options : UnmanagedAccessOptions) (f : UnmanagedField) :
    List Piece :=
  let type := host.typeText f.type
  let access := "ref target.Field<" ++ type ++ ">(" ++ offsetsName ++ "." ++ f.name ++ ");"
  block ("public ref " ++ type ++ " " ++ f.name)
    (.attributeLine Runtime.aggressiveInlining ::
      if options.safetyChecks then
        block "get"
          [.line "if (target.IsNull) throw new global::System.NullReferenceException();",
           .line ("return " ++ access)]
      else [.line ("get => " ++ access)])

/-- The members of the view. -/
def viewPieces (host : Host) (options : UnmanagedAccessOptions) (self : String)
    (fields : List UnmanagedField) : List Piece :=
  let target := Runtime.generic Runtime.unmanagedRef [self]
  .line ("readonly " ++ target ++ " target;") ::
    .blankLine ::
    .line ("public " ++ viewName ++ "(" ++ self ++ " instance) => target = new " ++ target ++
      "(instance);") ::
    Piece.members (fields.map (fieldPieces host options))

/-- The members that a class gets. -/
def pieces (host : Host) (d : TypeDecl) (options : UnmanagedAccessOptions)
    (fields : List UnmanagedField) : List Piece :=
  let self := host.selfText d
  let access := (host.effectiveAccessibility d).keyword
  block ("static class " ++ offsetsName) (fields.map (offsetLine self)) ++
    .blankLine ::
    .doc "Direct references to the unmanaged fields of an instance." ::
    block (access ++ " readonly struct " ++ viewName) (viewPieces host options self fields) ++
    [.blankLine,
     .doc "A view over this instance's unmanaged fields.",
     .line (access ++ " " ++ viewName ++ " AsUnmanaged() => new " ++ viewName ++ "(this);")]

end UnmanagedView

/-- The source for a class with unmanaged access. -/
def Project.unmanagedOutput (project : Project) (token : Token) (symbol : Symbol) :
    Except Cancelled Output :=
  match project.host.declaration? symbol, project.index.unmanagedAccess.get? symbol with
  | some d, some options => do
    let fields ← UnmanagedField.ofDecl project.host token d options
    return {
      files :=
        [{ name := SourceFile.nameFor symbol .unmanaged
           text := SourceFile.textOf project.settings <|
             Piece.within (SourceFile.scopeOf project.host d)
               (UnmanagedView.pieces project.host d options fields) }] }
  | _, _ => .ok {}

end Marksmith

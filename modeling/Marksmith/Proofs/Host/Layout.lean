import Marksmith.Host.Load
import Marksmith.Proofs.Analysis.Unambiguous
import Marksmith.Proofs.Host.Silence
import Marksmith.Proofs.Model.Layout
import Marksmith.Proofs.Model.Writer

/-!
Hosts that differ in the layout of their statements. Silenced they are the same host, so they differ
in nothing that reads no statements; and statements that differ in layout mention the same types.

* `relaid_of_ofText`: texts that differ in layout load as such hosts;
* `Relaid.dependencyClosure_eq`: they have the same dependencies;
* `TypeDecl.Relaid.eq_of_spellings`, `TypeDecl.Relaid.eq_of_toJson`: a declaration whose statements
  are spelled as before is the same, and only the same one has the same serialized form.
-/

namespace Marksmith

open Syntax (TypeRef)

/-! ### Statements and methods -/

namespace BodyStatement.Relaid

theorem refl (s : BodyStatement) : s.Relaid s := ⟨.inl rfl, rfl⟩

variable {s s' : BodyStatement} (relaid : s.Relaid s')

include relaid

theorem eq_of_text (same : s'.text = s.text) : s' = s := by
  obtain ⟨text, annotation⟩ := s
  obtain ⟨text', annotation'⟩ := s'
  cases same
  cases relaid.annotation
  rfl

theorem eq_of_toJson (same : s'.toJson = s.toJson) : s' = s := by
  refine relaid.eq_of_text ?_
  rw [toJson, toJson, relaid.annotation] at same
  split at same
  · exact Json.string.inj same
  · simp only [Json.object.injEq, List.cons.injEq, Prod.mk.injEq, Json.string.injEq, true_and,
      and_true] at same
    exact same

theorem mentions_eq : s'.mentions = s.mentions :=
  relaid.text.mentions_eq s.annotation s'.annotation

end BodyStatement.Relaid

namespace MethodDecl.Relaid

theorem refl (m : MethodDecl) : m.Relaid m :=
  .body (List.forall₂_same.mpr fun s _ => .refl s)

variable {m m' : MethodDecl} (relaid : m.Relaid m')

include relaid

theorem statements : List.Forall₂ BodyStatement.Relaid m.body m'.body := by
  obtain ⟨each⟩ := relaid
  exact each

theorem silenced_eq : m'.silenced = m.silenced := by
  cases relaid
  rfl

theorem eq_of_body (same : m'.body = m.body) : m' = m := by
  cases relaid
  cases same
  rfl

theorem eq_of_toJson (same : m'.toJson = m.toJson) : m' = m := by
  simp only [toJson, Json.object.injEq, List.cons.injEq, Prod.mk.injEq, Json.array.injEq, true_and,
    and_true] at same
  obtain ⟨-, -, -, -, -, -, -, -, bodies⟩ := same
  refine relaid.eq_of_body ?_
  exact eq_of_map_eq_of_forall₂ relaid.statements bodies fun _ _ => BodyStatement.Relaid.eq_of_toJson

end MethodDecl.Relaid

/-! ### Declarations -/

/-- The statements of a declaration's methods, in order. -/
def TypeDecl.statements (d : TypeDecl) : List BodyStatement := d.methods.flatMap (·.body)

namespace TypeDecl.Relaid

theorem refl (d : TypeDecl) : d.Relaid d :=
  .methods (List.forall₂_same.mpr fun m _ => .refl m)

variable {d d' : TypeDecl} (relaid : d.Relaid d')

include relaid

theorem silenced_eq : d'.silenced = d.silenced := by
  obtain ⟨each⟩ := relaid
  have methods := map_eq_of_forall₂ each fun _ _ => MethodDecl.Relaid.silenced_eq
  exact congrArg (fun methods => { d with methods }) methods

theorem symbol_eq : d'.symbol = d.symbol := by
  cases relaid
  rfl

theorem statements : List.Forall₂ BodyStatement.Relaid d.statements d'.statements := by
  obtain ⟨each⟩ := relaid
  exact List.rel_flatMap each fun _ _ => MethodDecl.Relaid.statements

/-- A declaration whose statements are spelled as before is the same. -/
theorem eq_of_spellings (same : d'.statements.map (·.text) = d.statements.map (·.text)) :
    d' = d := by
  have statements : d'.statements = d.statements :=
    eq_of_map_eq_of_forall₂ relaid.statements same fun _ _ => BodyStatement.Relaid.eq_of_text
  obtain ⟨each⟩ := relaid
  have methods : ∀ {ms ms' : List MethodDecl}, List.Forall₂ MethodDecl.Relaid ms ms' →
      ms'.flatMap (·.body) = ms.flatMap (·.body) → ms' = ms := by
    intro ms ms' each same
    induction each with
    | nil => rfl
    | cons first _ ih =>
      rw [List.flatMap_cons, List.flatMap_cons] at same
      obtain ⟨body, rest⟩ := List.append_inj same first.statements.length_eq.symm
      rw [first.eq_of_body body, ih rest]
  rw [methods each statements]

theorem eq_of_toJson (same : d'.toJson = d.toJson) : d' = d := by
  obtain ⟨each⟩ := relaid
  simp only [toJson, Json.object.injEq, List.cons.injEq, Prod.mk.injEq, Json.array.injEq, true_and,
    and_true] at same
  rw [eq_of_map_eq_of_forall₂ each same fun _ _ => MethodDecl.Relaid.eq_of_toJson]

end TypeDecl.Relaid

/-! ### Hosts -/

namespace Host

/-- The host with its statements laid out anew. -/
inductive Relaid (host : Host) : Host → Prop
  | model {model : Model} (relaid : host.model.Relaid model) : Relaid host ⟨model, host.stepLimit⟩

theorem relaid_of_ofModel {limit : Nat} {model model' : Model} (relaid : model.Relaid model')
    {host host' : Host} (here : ofModel limit model = .ok host)
    (there : ofModel limit model' = .ok host') : host.Relaid host' := by
  obtain ⟨-, -, rfl⟩ := ofModel_eq_ok_iff.mp here
  obtain ⟨-, -, rfl⟩ := ofModel_eq_ok_iff.mp there
  obtain ⟨each⟩ := relaid
  rw [visiblePrelude_eq_of_symbols each fun _ _ => TypeDecl.Relaid.symbol_eq]
  have prelude := List.forall₂_same.mpr fun d (_ : d ∈ visiblePrelude model.types) =>
    TypeDecl.Relaid.refl d
  exact ⟨⟨List.rel_append each prelude⟩⟩

theorem ofText_eq_ok_iff {text : String} {host : Host} :
    ofText text = .ok host ↔
      ∃ model, Model.ofText text = .ok model ∧ ofModel usualStepLimit model = .ok host := by
  rw [ofText]
  cases Model.ofText text with
  | error e => exact iff_of_false (fun h => nomatch h) (fun ⟨_, h, _⟩ => nomatch h)
  | ok model =>
    refine mapError_eq_ok_iff.trans ⟨fun accepted => ⟨model, rfl, accepted⟩, ?_⟩
    rintro ⟨_, same, accepted⟩
    cases same
    exact accepted

/-- Texts that differ in layout load as hosts that differ in the layout of their statements. -/
theorem relaid_of_ofText {text text' : String} (relaid : Layout.ModelTexts text text')
    {host host' : Host} (here : ofText text = .ok host) (there : ofText text' = .ok host') :
    host.Relaid host' := by
  obtain ⟨model, read, accepted⟩ := ofText_eq_ok_iff.mp here
  obtain ⟨model', read', accepted'⟩ := ofText_eq_ok_iff.mp there
  exact relaid_of_ofModel (Model.relaid_of_ofText relaid read read') accepted accepted'

namespace Relaid

variable {host host' : Host} (relaid : host.Relaid host')

include relaid

theorem silenced_eq : host'.silenced = host.silenced := by
  obtain ⟨⟨each⟩⟩ := relaid
  have types := map_eq_of_forall₂ each fun _ _ => TypeDecl.Relaid.silenced_eq
  exact congrArg (fun types => (⟨{ host.model with types }, host.stepLimit⟩ : Host)) types

theorem declaration? (s : Symbol) :
    Option.Rel TypeDecl.Relaid (host.declaration? s) (host'.declaration? s) := by
  obtain ⟨⟨each⟩⟩ := relaid
  refine find?_of_forall₂ each fun d d' relaid => ?_
  cases relaid
  rfl

theorem reachedBy_eq : host'.reachedBy = host.reachedBy := by
  rw [← reachedBy_silenced, relaid.silenced_eq, reachedBy_silenced]

theorem bodiesOf (s : Symbol) :
    List.Forall₂ BodyStatement.Relaid (host.bodiesOf s) (host'.bodiesOf s) := by
  rw [Host.bodiesOf, Host.bodiesOf]
  have declared := relaid.declaration? s
  generalize host.declaration? s = d, host'.declaration? s = d' at declared
  cases declared with
  | none => exact .nil
  | some relaid => exact relaid.statements

theorem closureStart_eq (roots : List Symbol) :
    host'.closureStart roots = host.closureStart roots := by
  have bodies : host'.bodySuccessors = host.bodySuccessors := by
    funext s
    rw [bodySuccessors, bodySuccessors, relaid.reachedBy_eq]
    exact flatMap_eq_of_forall₂ (relaid.bodiesOf s) fun _ _ related => by
      rw [related.mentions_eq]
  have none (s : Symbol) : (host'.bodiesOf s).isEmpty = (host.bodiesOf s).isEmpty :=
    isEmpty_eq_of_forall₂ (relaid.bodiesOf s)
  have owners : host'.extensionOwners = host.extensionOwners := by
    rw [← extensionOwners_silenced, relaid.silenced_eq, extensionOwners_silenced]
  simp only [closureStart, bodies, none, owners]

/-- Layout adds no dependencies and takes none away. -/
theorem dependencyClosure_eq (roots : List Symbol) :
    host'.dependencyClosure roots = host.dependencyClosure roots := by
  have search : host'.closureWithin = host.closureWithin := by
    rw [← closureWithin_silenced, relaid.silenced_eq, closureWithin_silenced]
  have number : host'.declarations.length = host.declarations.length := by
    obtain ⟨⟨each⟩⟩ := relaid
    exact each.length_eq.symm
  rw [dependencyClosure, dependencyClosure, search, number, relaid.closureStart_eq]

end Relaid

end Host

end Marksmith

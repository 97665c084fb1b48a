import Marksmith.Model.Reader
import Marksmith.Proofs.Json.Decoding
import Marksmith.Proofs.Syntax.Layout

/-!
Layout of model texts: blanks and comments inside of the texts of types and statements.

* `Layout.Models`: drafts of models that differ in nothing but such layout;
* `Model.Relaid`: models that differ in nothing but the layout of their statements;
* `relaid_of_ofText`: types have no layout once they are read, so drafts of the first kind are read
  as models of the second kind.
-/

namespace Marksmith

open Json Syntax

/-! ### Models -/

/-- Statements that differ in layout alone. -/
structure BodyStatement.Relaid (s s' : BodyStatement) : Prop where
  text : Syntax.Relaid s.text s'.text
  annotation : s'.annotation = s.annotation

/-- The method with its statements laid out anew. -/
inductive MethodDecl.Relaid (m : MethodDecl) : MethodDecl → Prop
  | body {body : List BodyStatement} (each : List.Forall₂ BodyStatement.Relaid m.body body) :
    Relaid m { m with body }

/-- The declaration with its statements laid out anew. -/
inductive TypeDecl.Relaid (d : TypeDecl) : TypeDecl → Prop
  | methods {methods : List MethodDecl} (each : List.Forall₂ MethodDecl.Relaid d.methods methods) :
    Relaid d { d with methods }

/-- The model with its statements laid out anew. -/
inductive Model.Relaid (m : Model) : Model → Prop
  | types {types : List TypeDecl} (each : List.Forall₂ TypeDecl.Relaid m.types types) :
    Relaid m { m with types }

/-! ### Drafts -/

namespace Layout

open Draft Model.Reader

/-- Drafts that are equal, or texts of the same lexemes. -/
inductive Texts : Draft → Draft → Prop
  | same (d : Draft) : Texts d d
  | relaid {s t : String} (same : SameLexemes s t) : Texts (.string s) (.string t)

def Fields : Draft → Draft → Prop := RecordRelated (fieldFields.map (·.key)) [("type", Texts)]

def Properties : Draft → Draft → Prop := RecordRelated (propertyFields.map (·.key)) [("type", Texts)]

def Params : Draft → Draft → Prop := RecordRelated (paramFields.map (·.key)) [("type", Texts)]

/-- A statement is its text, or has a text and a type. -/
inductive Statements : Draft → Draft → Prop
  | text {d d' : Draft} (same : Texts d d') : Statements d d'
  | annotated {es es' : List (Option String × Draft)} (stop : Option Cut)
    (entries : List.Forall₂ (EntryRelated [("text", Texts), ("type", Texts)]) es es') :
    Statements (.object es stop) (.object es' stop)

def Methods : Draft → Draft → Prop :=
  RecordRelated (methodFields.map (·.key))
    [("params", ItemsRelated Params), ("returns", Texts), ("body", ItemsRelated Statements)]

def Types : Draft → Draft → Prop :=
  RecordRelated (typeFields.map (·.key))
    [("base", Texts), ("interfaces", ItemsRelated Texts), ("fields", ItemsRelated Fields),
      ("properties", ItemsRelated Properties), ("methods", ItemsRelated Methods)]

/-- Drafts of models that differ in nothing but the layout of type texts and statements. -/
def Models : Draft → Draft → Prop :=
  RecordRelated (modelFields.map (·.key)) [("types", ItemsRelated Types)]

end Layout

/-- Texts of models that differ in nothing but the layout of type texts and statements. Blanks
between the parts of the JSON text do not matter either. -/
def Layout.ModelTexts (text text' : String) : Prop :=
  Models (Document.read text).draft (Document.read text').draft

/-! ### Types have no layout once they are read -/

namespace Model.Reader

open Layout Decoder Draft

theorem respects_string : Respects Texts Syntax.Relaid (Decoder.string (ε := TypeTextError)) := by
  intro d d' s s' related here there
  cases related with
  | same =>
    rw [here] at there
    exact .inl (Except.ok.inj there)
  | relaid same =>
    cases here
    cases there
    exact .inr same

theorem readType_eq_ok_iff {s : String} {t : TypeRef} :
    readType s = .ok t ↔ parseType s = .ok t :=
  mapError_eq_ok_iff

/-- The types of texts that differ in layout are equal. -/
theorem readType_eq {s s' : String} {t t' : TypeRef} (relaid : Syntax.Relaid s s')
    (here : readType s = .ok t) (there : readType s' = .ok t') : t = t' :=
  relaid.parseType_eq (readType_eq_ok_iff.mp here) (readType_eq_ok_iff.mp there)

theorem respects_type : Respects Texts Eq type :=
  respects_string.refine fun _ _ _ _ => readType_eq

theorem respects_type? : Respects Texts Eq type? := by
  intro d d' t t' related here there
  cases related with
  | same =>
    rw [here] at there
    exact Except.ok.inj there
  | relaid same =>
    obtain ⟨_, text, here⟩ := refine_eq_ok_iff.mp here
    obtain ⟨_, text', there⟩ := refine_eq_ok_iff.mp there
    cases text
    cases text'
    obtain ⟨t, read, rfl⟩ := map_eq_ok_iff.mp here
    obtain ⟨t', read', rfl⟩ := map_eq_ok_iff.mp there
    exact congrArg some (readType_eq (.inr same) read read')

theorem respects_types : Respects (ItemsRelated Texts) Eq types := by
  refine respects_string.list.refine fun ss ss' ts ts' relaid here there => ?_
  rw [mapM_eq_ok_iff] at here there
  induction relaid generalizing ts ts' with
  | nil =>
    cases here
    cases there
    rfl
  | cons first _ ih =>
    cases here with
    | cons read here =>
      cases there with
      | cons read' there => rw [readType_eq first read read', ih _ _ here there]

/-! ### Statements -/

/-- Equal values, or texts of the same lexemes. -/
def TextValues (j j' : Json) : Prop :=
  j = j' ∨ ∃ s t, j = .string s ∧ j' = .string t ∧ SameLexemes s t

theorem TextValues.relaid {s s' : String} (related : TextValues (.string s) (.string s')) :
    Syntax.Relaid s s' := by
  rcases related with same | ⟨t, t', here, there, same⟩
  · exact .inl (Json.string.inj same)
  · cases here
    cases there
    exact .inr same

theorem respects_any : Respects Texts TextValues (any (ε := TypeTextError)) := by
  intro d d' j j' related here there
  cases related with
  | same =>
    rw [here] at there
    exact .inl (Except.ok.inj there)
  | relaid same =>
    rw [any] at here there
    cases here
    cases there
    exact .inr ⟨_, _, rfl, rfl, same⟩

/-- Entries of an object with the same key whose values are related if the key is that of a text. -/
structure EntryValues (v v' : String × Json) : Prop where
  key : v.1 = v'.1
  value : v.1 = "text" ∨ v.1 = "type" → TextValues v.2 v'.2

theorem entryValues_of_anyEntries {stop : Option Cut} {es es' : List (Option String × Draft)}
    (related : List.Forall₂ (EntryRelated [("text", Texts), ("type", Texts)]) es es')
    {vs vs' : List (String × Json)} (here : anyEntries (ε := TypeTextError) stop es = .ok vs)
    (there : anyEntries (ε := TypeTextError) stop es' = .ok vs') :
    List.Forall₂ EntryValues vs vs' := by
  induction related generalizing vs vs' with
  | nil =>
    cases stop with
    | none =>
      cases here
      cases there
      exact .nil
    | some cut => cases here
  | @cons e e' es es' first _ ih =>
    obtain ⟨key?, d⟩ := e
    obtain ⟨key?', d'⟩ := e'
    obtain ⟨same, value⟩ := first
    dsimp only at same value
    subst same
    cases key? with
    | none => cases here
    | some key =>
      rw [anyEntries, bind_eq_ok_iff] at here there
      obtain ⟨j, read, here⟩ := here
      obtain ⟨j', read', there⟩ := there
      rw [bind_eq_ok_iff] at here there
      obtain ⟨vs, rest, here⟩ := here
      obtain ⟨vs', rest', there⟩ := there
      cases here
      cases there
      refine .cons ⟨rfl, ?_⟩ (ih rest rest')
      rintro (rfl | rfl)
      · exact respects_any (value _ rfl) read read'
      · exact respects_any (value _ rfl) read read'

theorem related_soleEntry {key : String} (textual : key = "text" ∨ key = "type")
    {vs vs' : List (String × Json)} (related : List.Forall₂ EntryValues vs vs') {j j' : Json}
    (here : soleEntry? key vs = some j) (there : soleEntry? key vs' = some j') :
    TextValues j j' := by
  have values : List.Forall₂ (fun v v' : String × Json => TextValues v.2 v'.2)
      (vs.filter (·.1 == key)) (vs'.filter (·.1 == key)) := by
    clear here there
    induction related with
    | nil => exact .nil
    | @cons v v' vs vs' first _ ih =>
      rw [List.filter_cons, List.filter_cons, ← first.key]
      split
      · next named => exact .cons (first.value (eq_of_beq named ▸ textual)) ih
      · exact ih
  rw [ soleEntry?] at here there
  split at here
  · next sole =>
    split at there
    · next sole' =>
      rw [sole, sole'] at values
      cases values with
      | cons only _ =>
        cases here
        cases there
        exact only
    · cases there
  · cases here

theorem bodyStatement?_object {vs : List (String × Json)} {b : BodyStatement}
    (read : bodyStatement? (.object vs) = some b) :
    ∃ text type t, soleEntry? "text" vs = some (.string text) ∧
      soleEntry? "type" vs = some (.string type) ∧ readType type = .ok t ∧ b = ⟨text, some t⟩ := by
  rw [bodyStatement?] at read
  split at read
  · next text type here there =>
    split at read
    · next t parsed =>
      cases read
      exact ⟨text, type, t, here, there, readType_eq_ok_iff.mpr parsed, rfl⟩
    · cases read
  · cases read

/-- Statements that differ in layout are read as such. -/
theorem respects_bodyStatement :
    Respects Statements BodyStatement.Relaid (whole (ε := TypeTextError) bodyStatement?) := by
  intro d d' b b' related here there
  obtain ⟨j, value, here⟩ := whole_eq_ok_iff.mp here
  obtain ⟨j', value', there⟩ := whole_eq_ok_iff.mp there
  cases related with
  | text texts =>
    rcases respects_any texts value value' with rfl | ⟨s, s', rfl, rfl, same⟩
    · rw [here] at there
      cases there
      exact ⟨.inl rfl, rfl⟩
    · cases here
      cases there
      exact ⟨.inr same, rfl⟩
  | annotated stop entries =>
    rw [any] at value value'
    obtain ⟨vs, read, rfl⟩ := map_eq_ok_iff.mp value
    obtain ⟨vs', read', rfl⟩ := map_eq_ok_iff.mp value'
    have values := entryValues_of_anyEntries entries read read'
    obtain ⟨text, type, t, hasText, hasType, typed, rfl⟩ := bodyStatement?_object here
    obtain ⟨text', type', t', hasText', hasType', typed', rfl⟩ := bodyStatement?_object there
    have texts := (related_soleEntry (.inl rfl) values hasText hasText').relaid
    have types := (related_soleEntry (.inr rfl) values hasType hasType').relaid
    exact ⟨texts, congrArg some (readType_eq types typed typed').symm⟩

/-! ### Declarations -/

theorem respects_fieldDecl : Respects Fields Eq fieldDecl := by
  refine respects_record_eq ?_
  simp only [fieldFields, List.forall_mem_cons]
  exact ⟨.plain_eq rfl, .related_eq rfl respects_type, .plain_eq rfl, .plain_eq rfl, .plain_eq rfl,
    List.forall_mem_nil _⟩

theorem respects_propertyDecl : Respects Properties Eq propertyDecl := by
  refine respects_record_eq ?_
  simp only [propertyFields, List.forall_mem_cons]
  exact ⟨.plain_eq rfl, .related_eq rfl respects_type, .plain_eq rfl, .plain_eq rfl, .plain_eq rfl,
    List.forall_mem_nil _⟩

theorem respects_paramDecl : Respects Params Eq paramDecl := by
  refine respects_record_eq ?_
  simp only [paramFields, List.forall_mem_cons]
  exact ⟨.plain_eq rfl, .related_eq rfl respects_type, .plain_eq rfl, List.forall_mem_nil _⟩

theorem forall₂_getD {α : Type} {S : α → α → Prop} {as as' : Option (List α)}
    (related : Option.Rel (List.Forall₂ S) as as') : List.Forall₂ S (as.getD []) (as'.getD []) := by
  cases related with
  | none => exact .nil
  | some each => exact each

/-- Partial records of methods that differ in the layout of their statements. -/
inductive PartialMethod.Relaid (s : PartialMethod) : PartialMethod → Prop
  | body {body : Option (List BodyStatement)}
    (each : Option.Rel (List.Forall₂ BodyStatement.Relaid) s.body body) : Relaid s { s with body }

theorem respects_methodFields : ∀ f ∈ methodFields, f.Respects
    [("params", ItemsRelated Params), ("returns", Texts), ("body", ItemsRelated Statements)]
    PartialMethod.Relaid := by
  simp only [methodFields, List.forall_mem_cons]
  refine ⟨.plain rfl ?_, .plain rfl ?_, .related rfl respects_paramDecl.list ?params,
    .related rfl respects_type ?returns, .plain rfl ?_, .plain rfl ?_, .plain rfl ?_,
    .plain rfl ?_, .related rfl respects_bodyStatement.list ?body, List.forall_mem_nil _⟩
  case params =>
    rintro params params' s _ same ⟨each⟩
    rw [eq_of_forall₂ same]
    exact ⟨each⟩
  case returns =>
    rintro type _ s _ rfl ⟨each⟩
    exact ⟨each⟩
  case body =>
    rintro body body' s _ relaid ⟨each⟩
    exact ⟨.some relaid⟩
  all_goals
    rintro _ s _ ⟨each⟩
    exact ⟨each⟩

theorem respects_methodDecl : Respects Methods MethodDecl.Relaid methodDecl := by
  refine Respects.record respects_methodFields ⟨.none⟩ ?_
  rintro s _ m m' ⟨each⟩ close close'
  obtain ⟨name, named, close⟩ := Option.bind_eq_some_iff.mp close
  obtain ⟨name', named', close'⟩ := Option.bind_eq_some_iff.mp close'
  cases named.symm.trans named'
  cases close
  cases close'
  exact ⟨forall₂_getD each⟩

/-- Partial records of declarations that differ in the layout of their statements. -/
inductive PartialType.Relaid (s : PartialType) : PartialType → Prop
  | methods {methods : Option (List MethodDecl)}
    (each : Option.Rel (List.Forall₂ MethodDecl.Relaid) s.methods methods) :
    Relaid s { s with methods }

theorem respects_typeFields : ∀ f ∈ typeFields, f.Respects
    [("base", Texts), ("interfaces", ItemsRelated Texts), ("fields", ItemsRelated Fields),
      ("properties", ItemsRelated Properties), ("methods", ItemsRelated Methods)]
    PartialType.Relaid := by
  simp only [typeFields, List.forall_mem_cons]
  refine ⟨.plain rfl ?_, .plain rfl ?_, .plain rfl ?_, .plain rfl ?_, .plain rfl ?_,
    .related rfl respects_type? ?base, .related rfl respects_types ?interfaces, .plain rfl ?_,
    .related rfl respects_fieldDecl.list ?fields,
    .related rfl respects_propertyDecl.list ?properties,
    .related rfl respects_methodDecl.list ?methods, .plain rfl ?_, .plain rfl ?_, .plain rfl ?_,
    .plain rfl ?_, .plain rfl ?_, List.forall_mem_nil _⟩
  case base =>
    rintro base _ s _ rfl ⟨each⟩
    exact ⟨each⟩
  case interfaces =>
    rintro interfaces _ s _ rfl ⟨each⟩
    exact ⟨each⟩
  case fields =>
    rintro fields fields' s _ same ⟨each⟩
    rw [eq_of_forall₂ same]
    exact ⟨each⟩
  case properties =>
    rintro properties properties' s _ same ⟨each⟩
    rw [eq_of_forall₂ same]
    exact ⟨each⟩
  case methods =>
    rintro methods methods' s _ relaid ⟨each⟩
    exact ⟨.some relaid⟩
  all_goals
    rintro _ s _ ⟨each⟩
    exact ⟨each⟩

theorem respects_typeDecl : Respects Types TypeDecl.Relaid typeDecl := by
  refine Respects.record respects_typeFields ⟨.none⟩ ?_
  rintro s _ d d' ⟨each⟩ close close'
  obtain ⟨name, named, close⟩ := Option.bind_eq_some_iff.mp close
  obtain ⟨name', named', close'⟩ := Option.bind_eq_some_iff.mp close'
  cases named.symm.trans named'
  obtain ⟨kind, sort, close⟩ := Option.bind_eq_some_iff.mp close
  obtain ⟨kind', sort', close'⟩ := Option.bind_eq_some_iff.mp close'
  cases sort.symm.trans sort'
  cases close
  cases close'
  exact ⟨forall₂_getD each⟩

/-- Partial records of models that differ in the layout of their statements. -/
inductive PartialModel.Relaid (s : PartialModel) : PartialModel → Prop
  | types {types : Option (List TypeDecl)}
    (each : Option.Rel (List.Forall₂ TypeDecl.Relaid) s.types types) : Relaid s { s with types }

theorem respects_modelFields :
    ∀ f ∈ modelFields, f.Respects [("types", ItemsRelated Types)] PartialModel.Relaid := by
  simp only [modelFields, List.forall_mem_cons]
  refine ⟨.plain rfl ?_, .plain rfl ?_, .related rfl respects_typeDecl.list ?types,
    List.forall_mem_nil _⟩
  case types =>
    rintro types types' s _ relaid ⟨each⟩
    exact ⟨.some relaid⟩
  all_goals
    rintro _ s _ ⟨each⟩
    exact ⟨each⟩

theorem respects_model : Respects Models Model.Relaid model := by
  refine Respects.record respects_modelFields ⟨.none⟩ ?_
  rintro s _ m m' ⟨each⟩ close close'
  cases close
  cases close'
  exact ⟨forall₂_getD each⟩

end Model.Reader

/-- Texts of models that differ in layout alone are read as models that differ in the layout of
their statements alone. -/
theorem Model.relaid_of_ofText {text text' : String} (relaid : Layout.ModelTexts text text')
    {m m' : Model} (here : ofText text = .ok m) (there : ofText text' = .ok m') : m.Relaid m' :=
  Reader.respects_model relaid (Decoder.document_eq_ok_iff.mp here).1
    (Decoder.document_eq_ok_iff.mp there).1

end Marksmith

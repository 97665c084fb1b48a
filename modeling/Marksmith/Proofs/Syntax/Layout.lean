import Marksmith.Cache.Closure
import Marksmith.Proofs.Syntax.RoundTrip

/-!
Layout: texts that lex as the same lexemes, whatever blanks and comments stand between them.

* `names_erase`, `types_erase`: the names and types in an expression do not depend on its spans;
* `Relaid.parseType_eq`: texts that differ in layout stand for the same type;
* `Relaid.mentions_eq`: statements that differ in layout mention the same types.
-/

namespace Marksmith.Syntax

/-- The texts consist of the same lexemes. -/
def SameLexemes (s t : String) : Prop :=
  ∃ ts us, lex s = .ok ts ∧ lex t = .ok us ∧ lexemes ts = lexemes us

theorem sameLexemes_iff {s t : String} :
    SameLexemes s t ↔ ((lex s).toOption.map lexemes).isSome ∧
      (lex s).toOption.map lexemes = (lex t).toOption.map lexemes := by
  rw [SameLexemes]
  cases lex s with
  | error e => simp [Except.toOption]
  | ok ts => cases lex t <;> simp [Except.toOption]

instance (s t : String) : Decidable (SameLexemes s t) := decidable_of_iff' _ sameLexemes_iff

/-- The texts differ in layout at most: they are equal or consist of the same lexemes. -/
def Relaid (s t : String) : Prop := s = t ∨ SameLexemes s t

theorem SameLexemes.symm {s t : String} (same : SameLexemes s t) : SameLexemes t s := by
  obtain ⟨ts, us, left, right, lexemes⟩ := same
  exact ⟨us, ts, right, left, lexemes.symm⟩

/-! ### Trees up to spans -/

namespace Expr

mutual

theorem names_erase : (e : Expr) → e.erase.names.map NameUse.ident = e.names.map NameUse.ident
  | name .. => rfl
  | literal .. => rfl
  | this .. => rfl
  | member _ target n => by
    rw [erase, names, names, List.map_append, List.map_append, names_erase target]
    rfl
  | invoke _ callee args => by
    rw [erase, names, names, List.map_append, List.map_append, names_erase callee,
      namesList_eraseAll args]
  | index _ target args => by
    rw [erase, names, names, List.map_append, List.map_append, names_erase target,
      namesList_eraseAll args]
  | cast _ _ operand => by rw [erase, names, names, names_erase operand]
  | new _ _ args => by rw [erase, names, names, namesList_eraseAll args]
  | lambda _ _ body => by rw [erase, names, names, names_erase body]
  | unary _ _ operand => by rw [erase, names, names, names_erase operand]
  | binary _ left _ right => by
    rw [erase, names, names, List.map_append, List.map_append, names_erase left,
      names_erase right]
  | paren _ inner => by rw [erase, names, names, names_erase inner]

theorem namesList_eraseAll : (es : List Expr) →
    (namesList (eraseAll es)).map NameUse.ident = (namesList es).map NameUse.ident
  | [] => rfl
  | e :: es => by
    rw [eraseAll, namesList, namesList, List.map_append, List.map_append, names_erase e,
      namesList_eraseAll es]

end

theorem ownTypes_erase (e : Expr) : e.erase.ownTypes = e.ownTypes := by
  cases e <;> rfl

mutual

theorem nodes_erase : (e : Expr) → e.erase.nodes = e.nodes.map erase
  | name .. => rfl
  | literal .. => rfl
  | this .. => rfl
  | member _ target _ => by
    rw [erase, nodes, nodes, List.map_cons, nodes_erase target, erase]
  | invoke _ callee args => by
    rw [erase, nodes, nodes, List.map_cons, List.map_append, nodes_erase callee,
      nodesList_eraseAll args, erase]
  | index _ target args => by
    rw [erase, nodes, nodes, List.map_cons, List.map_append, nodes_erase target,
      nodesList_eraseAll args, erase]
  | cast _ _ operand => by
    rw [erase, nodes, nodes, List.map_cons, nodes_erase operand, erase]
  | new _ _ args => by
    rw [erase, nodes, nodes, List.map_cons, nodesList_eraseAll args, erase]
  | lambda _ _ body => by
    rw [erase, nodes, nodes, List.map_cons, nodes_erase body, erase]
  | unary _ _ operand => by
    rw [erase, nodes, nodes, List.map_cons, nodes_erase operand, erase]
  | binary _ left _ right => by
    rw [erase, nodes, nodes, List.map_cons, List.map_append, nodes_erase left,
      nodes_erase right, erase]
  | paren _ inner => by
    rw [erase, nodes, nodes, List.map_cons, nodes_erase inner, erase]

theorem nodesList_eraseAll : (es : List Expr) →
    nodesList (eraseAll es) = (nodesList es).map erase
  | [] => rfl
  | e :: es => by
    rw [eraseAll, nodesList, nodesList, List.map_append, nodes_erase e, nodesList_eraseAll es]

end

theorem types_erase (e : Expr) : e.erase.types = e.types := by
  rw [types, types, nodes_erase, List.flatMap_map]
  simp only [ownTypes_erase]

end Expr

theorem Statement.value_erase (u : Statement) : u.erase.value = u.value.erase := by
  cases u <;> rfl

/-! ### Texts of the same lexemes -/

variable {s t : String}

/-- A text that consists of the lexemes of a type reads as that type. -/
theorem parseType_of_sameLexemes (same : SameLexemes s t) {type : TypeRef}
    (read : parseType s = .ok type) : parseType t = .ok type := by
  obtain ⟨ts, us, lexed, lexed', lexemes⟩ := same
  obtain ⟨located, whole, read⟩ := bind_eq_ok_iff.mp read
  obtain ⟨ts', step, lexed'', parsed, rfl, ended⟩ := parseAll_eq_ok_iff.mp whole
  rw [lexed] at lexed''
  cases lexed''
  have shape := typeRef_sound ts step parsed
  rw [lexemes] at shape
  obtain ⟨step', parsed', node, rest⟩ := typeRef_complete shape
  have whole' := parseAll_eq_ok_iff.mpr
    ⟨us, step', lexed', parsed', rfl, by rw [rest]; exact ended⟩
  refine bind_eq_ok_iff.mpr ⟨step'.value, whole', ?_⟩
  rw [node]
  exact read

/-- Texts that differ in layout stand for the same type, if they stand for types. -/
theorem Relaid.parseType_eq (relaid : Relaid s t) {type type' : TypeRef}
    (read : parseType s = .ok type) (read' : parseType t = .ok type') : type = type' := by
  rcases relaid with rfl | same
  · rw [read] at read'
    exact Except.ok.inj read'
  · rw [parseType_of_sameLexemes same read] at read'
    exact Except.ok.inj read'

/-- A text that consists of the lexemes of a statement reads as that statement, up to spans. -/
theorem parseStatement_of_sameLexemes (same : SameLexemes s t) {u : Statement}
    (read : parseStatement s = .ok u) : ∃ u', parseStatement t = .ok u' ∧ u'.erase = u.erase := by
  obtain ⟨ts, us, lexed, lexed', lexemes⟩ := same
  obtain ⟨ts', step, lexed'', parsed, rfl, ended⟩ := parseAll_eq_ok_iff.mp read
  rw [lexed] at lexed''
  cases lexed''
  have shape := statement_sound parsed
  rw [lexemes] at shape
  obtain ⟨step', parsed', erased, rest⟩ := statement_complete shape
  exact ⟨step'.value, parseAll_eq_ok_iff.mpr
    ⟨us, step', lexed', parsed', rfl, by rw [rest]; exact ended⟩, erased⟩

/-- Statements that differ in layout mention the same types. -/
theorem Relaid.mentions_eq (relaid : Relaid s t) ( annotation annotation' : Option TypeRef) :
    BodyStatement.mentions ⟨t, annotation'⟩ = BodyStatement.mentions ⟨s, annotation⟩ := by
  rw [BodyStatement.mentions, BodyStatement.mentions]
  rcases relaid with rfl | same
  · rfl
  cases read : parseStatement s with
  | ok u =>
    obtain ⟨u', read', erased⟩ := parseStatement_of_sameLexemes same read
    have value : u'.value.erase = u.value.erase := by
      rw [← Statement.value_erase, ← Statement.value_erase, erased]
    have types : u'.value.types = u.value.types := by
      rw [← Expr.types_erase, value, Expr.types_erase]
    have names : u'.value.names.map NameUse.ident = u.value.names.map NameUse.ident := by
      rw [← Expr.names_erase, value, Expr.names_erase]
    have named := congrArg (List.map TypeRef.named) names
    rw [List.map_map, List.map_map] at named
    simp only [read', types]
    exact congrArg (u.value.types ++ ·) named
  | error e =>
    cases read' : parseStatement t with
    | ok u' =>
      obtain ⟨u, read'', _⟩ := parseStatement_of_sameLexemes same.symm read'
      rw [read] at read''
      cases read''
    | error e' => rfl

end Marksmith.Syntax

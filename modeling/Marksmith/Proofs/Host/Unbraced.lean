import Marksmith.Proofs.Analysis.Unambiguous
import Marksmith.Proofs.Host.Makeup
import Marksmith.Proofs.Model.Restoring
import Marksmith.Proofs.Text.Braces
import Marksmith.Proofs.Text.Bytes
import Marksmith.Source.File

/-!
Projects whose names have no braces. Then there are none in what generated text says about types: a
type that a host gives is made of declared definitions, type parameters and predefined types.

* `Model.Unbraced`, `Host.Unbraced`: no name of a declaration has braces, in the prelude neither
  (`unbraced_of_ofModel`);
* `Unbraced.covers`: so the types that the host gives are made of names without braces;
* `unbraced_typeText`, `Unbraced.scopeOf`: and so is what generated text makes of them.
-/

namespace Marksmith

open Text
open Syntax (TypeRef)

/-- The names that a declaration is written with: its own, those of type parameters, members and
parameters, and those in the types of members and supertypes. -/
def TypeDecl.writtenNames (d : TypeDecl) : List String :=
  d.name :: d.typeParams ++ d.memberNames ++
    d.methods.flatMap (fun m => m.typeParams ++ m.params.map (·.name)) ++
    (d.writtenTypes.flatMap TypeRef.parts).map (·.name)

/-- The namespaces that the attributes of a model's assembly ask for. -/
def Model.constantsNamespaces (m : Model) : List String :=
  m.assemblyAttributes.filterMap fun a => (ConstantsOptions.read a).toOption.bind (·.nameSpace)

/-- Whether no name of a model has braces. -/
structure Model.Unbraced (m : Model) : Prop where
  written : ∀ d ∈ m.types, ∀ name ∈ d.writtenNames, Text.Unbraced name
  nameSpaces : ∀ n ∈ m.constantsNamespaces, Text.Unbraced n

instance (m : Model) : Decidable m.Unbraced :=
  decidable_of_iff ((∀ d ∈ m.types, ∀ name ∈ d.writtenNames, Text.Unbraced name) ∧
      ∀ n ∈ m.constantsNamespaces, Text.Unbraced n)
    ⟨fun both => ⟨both.1, both.2⟩, fun names => ⟨names.written, names.nameSpaces⟩⟩

/-- Whether the name of a definition has no braces. -/
def Symbol.Unbraced (s : Symbol) : Prop := Text.Unbraced s.name

theorem Symbol.Unbraced.simpleName {s : Symbol} (less : s.Unbraced) :
    Text.Unbraced s.simpleName :=
  unbraced_lastSegment less

theorem Syntax.TypeRef.MadeOf.simpleName {t : TypeRef} (made : t.MadeOf Symbol.Unbraced) :
    Text.Unbraced t.simpleName :=
  unbraced_lastSegment (TypeRef.madeOf_iff.mp made).1

theorem unbraced_of_isPredefinedType {name : String}
    (known : Engine.isPredefinedType name = true) : Text.Unbraced name := by
  rw [Engine.isPredefinedType, Bool.or_eq_true, Bool.or_eq_true, beq_iff_eq,
    List.contains_iff_mem] at known
  rcases known with (rfl | primitive) | managed
  · exact .ofList (by decide)
  · obtain ⟨size, found⟩ := Option.isSome_iff_exists.mp primitive
    obtain ⟨front, back, sizes, -⟩ := List.lookup_eq_some_iff.mp found
    have all : ∀ p ∈ Engine.primitiveSizes, Text.Unbraced p.1 := by decide +kernel
    exact all (name, size) (sizes ▸ List.mem_append_right _ List.mem_cons_self)
  · have all : ∀ n ∈ Engine.managedPrimitives, Text.Unbraced n := by decide +kernel
    exact all name managed

namespace Host

variable {host : Host} {t : TypeRef}

/-! ### Types in generated text -/

theorem braceless_qualifiedName {name : String} (less : Text.Unbraced name) (arity : Nat) :
    Braceless (host.qualifiedName name arity) := by
  rw [qualifiedName]
  split
  · exact less
  · split
    · exact braceless_append.mpr ⟨by decide, less⟩
    · exact less

theorem braceless_brackets (rank : UInt8) : Braceless (TypeRef.brackets rank) := by
  intro c mem
  obtain ⟨pair, copied, inside⟩ := List.mem_flatten.mp mem
  rw [List.eq_of_mem_replicate copied] at inside
  exact (show Braceless ['[', ']'] by decide) c inside

mutual

theorem braceless_qualifiedType :
    ∀ {t : TypeRef}, t.MadeOf Symbol.Unbraced → Braceless (host.qualifiedType t)
  | ⟨name, args, nullable, rank⟩, made => by
    obtain ⟨own, inner⟩ := TypeRef.madeOf_iff.mp made
    rw [qualifiedType, braceless_append, braceless_append, braceless_append]
    refine ⟨⟨⟨braceless_qualifiedName own _, braceless_qualifiedArgs inner⟩, ?_⟩,
      braceless_brackets rank⟩
    split <;> decide

theorem braceless_qualifiedArgs : ∀ {ts : List TypeRef}, (∀ t ∈ ts, t.MadeOf Symbol.Unbraced) →
    Braceless (host.qualifiedArgs ts)
  | [], _ => List.forall_mem_nil _
  | t :: ts, made => by
    obtain ⟨first, rest⟩ := List.forall_mem_cons.mp made
    rw [qualifiedArgs, braceless_append]
    refine ⟨List.forall_mem_cons.mpr ⟨rfl, ?_⟩, by decide⟩
    exact braceless_append.mpr ⟨braceless_qualifiedType first, braceless_qualifiedMore rest⟩

theorem braceless_qualifiedMore : ∀ {ts : List TypeRef}, (∀ t ∈ ts, t.MadeOf Symbol.Unbraced) →
    Braceless (host.qualifiedMore ts)
  | [], _ => List.forall_mem_nil _
  | t :: ts, made => by
    obtain ⟨first, rest⟩ := List.forall_mem_cons.mp made
    rw [qualifiedMore]
    refine List.forall_mem_cons.mpr ⟨rfl, List.forall_mem_cons.mpr ⟨rfl, ?_⟩⟩
    exact braceless_append.mpr ⟨braceless_qualifiedType first, braceless_qualifiedMore rest⟩

end

/-- A type that is made of names without braces is written without braces. -/
theorem unbraced_typeText (made : t.MadeOf Symbol.Unbraced) : Text.Unbraced (host.typeText t) :=
  .ofList (braceless_qualifiedType made)

theorem unbraced_nameText {s : Symbol} (less : s.Unbraced) : Text.Unbraced (host.nameText s) :=
  unbraced_typeText (TypeRef.madeOf_named less)

/-! ### Projects -/

/-- Whether no name of a project has braces. -/
def Unbraced (host : Host) : Prop := host.model.Unbraced

theorem unbraced_prelude : ∀ d ∈ Prelude.types, ∀ name ∈ d.writtenNames, Text.Unbraced name := by
  have each : ∀ d ∈ Prelude.types, ∀ name ∈ d.writtenNames, (Text.bytes name).all fun b =>
      b < 128 ∧ Text.isBrace (Char.ofUInt8 b) = false := by
    decide +kernel
  exact fun d mem name written => Text.forall_mem_toList_of_bytes (each d mem name written)

/-- No name of an accepted project has braces if none of the model has. -/
theorem unbraced_of_ofModel {limit : Nat} {model : Model}
    (accepted : ofModel limit model = .ok host) (names : model.Unbraced) : host.Unbraced := by
  obtain ⟨-, -, rfl⟩ := ofModel_eq_ok_iff.mp accepted
  refine ⟨fun d mem => ?_, names.nameSpaces⟩
  rcases List.mem_append.mp mem with own | visible
  · exact names.written d own
  · exact unbraced_prelude d (List.mem_filter.mp visible).1

namespace Unbraced

variable (names : host.Unbraced)

include names

section

variable {d : TypeDecl} (there : d ∈ host.declarations)

include there

theorem symbol : d.symbol.Unbraced :=
  names.written d there d.name (by simp [TypeDecl.writtenNames])

theorem simpleName : Text.Unbraced d.simpleName := (names.symbol there).simpleName

theorem typeParams : ∀ p ∈ d.typeParams, Text.Unbraced p :=
  fun p own => names.written d there p (by simp [TypeDecl.writtenNames, own])

theorem memberNames : ∀ n ∈ d.memberNames, Text.Unbraced n :=
  fun n own => names.written d there n (by simp [TypeDecl.writtenNames, own])

theorem methodTypeParams {m : MethodDecl} (method : m ∈ d.methods) :
    ∀ p ∈ m.typeParams, Text.Unbraced p := by
  intro p own
  refine names.written d there p ?_
  simp only [TypeDecl.writtenNames, List.mem_append, List.mem_flatMap]
  exact .inl (.inr ⟨m, method, .inl own⟩)

theorem paramNames {m : MethodDecl} (method : m ∈ d.methods) :
    ∀ p ∈ m.params, Text.Unbraced p.name := by
  intro p own
  refine names.written d there p.name ?_
  simp only [TypeDecl.writtenNames, List.mem_append, List.mem_flatMap]
  exact .inl (.inr ⟨m, method, .inr (List.mem_map_of_mem own)⟩)

/-- A type that a declaration is written with. -/
theorem madeOf_written (written : t ∈ d.writtenTypes) : t.MadeOf Symbol.Unbraced := by
  intro s part
  refine names.written d there s.name ?_
  simp only [TypeDecl.writtenNames, List.mem_append]
  exact .inr (List.mem_map_of_mem (List.mem_flatMap.mpr ⟨t, written, part⟩))

/-- A declared type over its own type parameters. -/
theorem madeOf_selfType : d.selfType.MadeOf Symbol.Unbraced := by
  refine TypeRef.madeOf_iff.mpr ⟨?_, ?_⟩
  · rw [TypeDecl.ofType_selfType]
    exact names.symbol there
  · exact List.forall_mem_map.mpr fun p own => TypeRef.madeOf_named (names.typeParams there p own)

end

theorem visibleTypeParams {context : Symbol} {p : String}
    (mem : p ∈ host.visibleTypeParams context) : Text.Unbraced p := by
  obtain ⟨d, there, own⟩ := exists_of_mem_visibleTypeParams mem
  exact names.typeParams there p own

/-- The types that the host gives are made of names without braces. -/
theorem covers : host.Covers Symbol.Unbraced where
  declared d there := names.symbol there
  predefined name known := unbraced_of_isPredefinedType known
  around d there p mem _ := names.visibleTypeParams mem
  extending c mem p own := by
    obtain ⟨d, there, listed⟩ := List.mem_flatMap.mp mem
    obtain ⟨m, -, rfl⟩ := List.mem_map.mp listed
    exact names.typeParams there p own

theorem madeOf_resolve? {context : Symbol} {u : TypeRef}
    (found : host.resolve? context t = some u) :
    u.MadeOf Symbol.Unbraced := by
  refine madeOf_resolveWith? names.covers.declared names.covers.predefined ?_ found
  rintro p (further | visible)
  · cases further
  · exact names.visibleTypeParams visible

/-! ### Scopes -/

theorem namespace? {s : Symbol} : ∀ n ∈ host.namespace? s, Text.Unbraced n := by
  intro n found
  obtain ⟨d, denotes, rest⟩ := Option.bind_eq_some_iff.mp found
  obtain ⟨outermost, last, qualifier⟩ := Option.bind_eq_some_iff.mp rest
  have there := mem_of_mem_enclosing (symbol_of_declaration? denotes).1
    (List.mem_of_getLast? last)
  exact unbraced_of_qualifier? (names.symbol there) qualifier

end Unbraced

end Host

/-- The head of a partial declaration has no braces if its names have none. -/
theorem SourceFile.unbraced_partialHeader (kind : TypeKind) {name : String} {params : List String}
    (own : Text.Unbraced name) (each : ∀ p ∈ params, Text.Unbraced p) :
    Text.Unbraced (partialHeader kind name params) := by
  have keyword : Text.Unbraced kind.keyword := by
    cases kind <;> exact .ofList (by decide)
  have list := unbraced_commas each
  simp (disch := (refine .ofList ?_; decide)) only [partialHeader, unbraced_append, unbraced_ite,
    Unbraced.part, own, keyword, list, implies_true, and_true]

namespace Host.Unbraced

variable {host : Host} (names : host.Unbraced) {d : TypeDecl} (there : d ∈ host.declarations)

include names there

theorem nesting : ∀ outer ∈ host.nesting d,
    Text.Unbraced outer.name ∧ ∀ p ∈ outer.typeParams, Text.Unbraced p := by
  intro outer mem
  rw [Host.nesting, List.mem_reverse] at mem
  obtain ⟨o, around, rfl⟩ := List.mem_map.mp mem
  have declared := mem_of_mem_enclosing there (List.mem_of_mem_drop around)
  exact ⟨names.simpleName declared, names.typeParams declared⟩

/-- The heads of the blocks in which a declaration is reopened. -/
theorem scopeOf : ∀ header ∈ SourceFile.scopeOf host d, Text.Unbraced header := by
  rw [SourceFile.scopeOf, SourceFile.scope, List.forall_mem_append, List.forall_mem_append,
    List.forall_mem_map, List.forall_mem_singleton]
  refine ⟨⟨?_, fun outer mem => ?_⟩, ?_⟩
  · intro header mem
    obtain ⟨n, found, rfl⟩ := Option.map_eq_some_iff.mp (Option.mem_toList.mp mem)
    exact unbraced_append.mpr ⟨.ofList (by decide), names.namespace? n found⟩
  · obtain ⟨own, params⟩ := names.nesting there outer mem
    exact SourceFile.unbraced_partialHeader outer.kind own params
  · exact SourceFile.unbraced_partialHeader d.kind (names.simpleName there) (names.typeParams there)

end Host.Unbraced

end Marksmith

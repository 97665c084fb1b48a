import Marksmith.Proofs.Union.Families
import Marksmith.Union.VariantSource
import Mathlib.Logic.Relation

/-!
What union families promise about storage. Generated code views a variant as any header of its
chain, which is right only if a value of each header lies at the very beginning of the value before
it.

* `EmbedsFirst`: the first instance field of a definition holds a value of a given struct;
* `MentionsFirst`: what the index asks for, which is that the type of the first instance field has
  the name and the arity of a header. `chain_mentionsFirst` shows it of every step of every family;
* `embedsFirst_iff`: the two differ in `StoresBare`, which excludes arrays, nullable types and type
  parameters that are spelled like a header;
* `EmbedsFirst.field`, `LayoutSound.begins`: embedding holds of every instantiation of a generic
  definition, so values of a variant begin with values of all headers of its chain;
* `layoutSound_iff`: families are sound exactly if every definition that is followed on the way to
  a root stores a bare type first.

`not_layoutSound_shapeArrays` is a project with an unsound family: `Circle` begins with an array of
`Shape`.
-/

namespace Marksmith

open Syntax (TypeRef)

namespace Union

variable {host : Host} {limit : Nat} {model : Model}

/-! ### What is stored first -/

/-- The type of the first instance field of a definition, as far as it resolves. -/
def firstStored? (host : Host) (s : Symbol) : Option TypeRef := do
  let d ← host.declaration? s
  let (_, type?) ← (host.instanceFields d.selfType).head?
  type?

/-- Whether a symbol denotes a struct. -/
def IsStruct (host : Host) (s : Symbol) : Prop :=
  ∃ d, host.declaration? s = some d ∧ d.kind = .struct

/-- A resolved type that means values of a definition themselves, neither an array of them nor a
nullable one, and neither a type parameter nor a predefined type. -/
structure IsBare (host : Host) (context : Symbol) (t : TypeRef) : Prop where
  single : t.rank = 0
  present : t.nullable = false
  defined : ¬(t.args = [] ∧
    (Engine.isPredefinedType t.name ∨ t.name ∈ host.visibleTypeParams context))

/-- A definition whose first instance field holds a value of the struct `h`. -/
def EmbedsFirst (host : Host) (s h : Symbol) : Prop :=
  ∃ t, firstStored? host s = some t ∧ Symbol.ofType t = h ∧ IsBare host s t ∧ IsStruct host h

/-- A definition whose first instance field has a type with the name and the arity of the struct
`h`. -/
def MentionsFirst (host : Host) (s h : Symbol) : Prop :=
  ∃ t, firstStored? host s = some t ∧ Symbol.ofType t = h ∧ IsStruct host h

/-- A definition whose first instance field does not hide its definition behind a suffix or a type
parameter. -/
def StoresBare (host : Host) (s : Symbol) : Prop :=
  ∀ t, firstStored? host s = some t → IsBare host s t

theorem embedsFirst_iff {s h : Symbol} :
    EmbedsFirst host s h ↔ MentionsFirst host s h ∧ StoresBare host s := by
  constructor
  · rintro ⟨t, first, same, bare, struct⟩
    refine ⟨⟨t, first, same, struct⟩, ?_⟩
    intro u other
    rw [first] at other
    exact Option.some.inj other ▸ bare
  · rintro ⟨⟨t, first, same, struct⟩, bare⟩
    exact ⟨t, first, same, bare t first, struct⟩

theorem isChain_and_iff {α : Type} {R : α → α → Prop} {P : α → Prop} {as : List α} :
    as.IsChain (fun a b => R a b ∧ P a) ↔ as.IsChain R ∧ ∀ a ∈ as.dropLast, P a := by
  induction as with
  | nil => simp
  | cons a as ih =>
    cases as with
    | nil => simp
    | cons b as =>
      rw [List.isChain_cons_cons, List.isChain_cons_cons, ih, List.dropLast_cons_cons,
        List.forall_mem_cons]
      tauto

/-- Embedding all the way along a list leaves only bare types on it. -/
theorem storesBare_of_isChain {path : List Symbol} (chain : path.IsChain (EmbedsFirst host)) :
    ∀ s ∈ path.dropLast, StoresBare host s := by
  have both : path.IsChain fun s h => MentionsFirst host s h ∧ StoresBare host s :=
    chain.imp fun _ _ => embedsFirst_iff.mp
  exact (isChain_and_iff.mp both).2

instance (context : Symbol) (t : TypeRef) : Decidable (IsBare host context t) :=
  decidable_of_iff (t.rank = 0 ∧ t.nullable = false ∧ ¬(t.args = [] ∧
      (Engine.isPredefinedType t.name ∨ t.name ∈ host.visibleTypeParams context)))
    ⟨fun ⟨single, present, defined⟩ => ⟨single, present, defined⟩,
      fun ⟨single, present, defined⟩ => ⟨single, present, defined⟩⟩

instance (s : Symbol) : Decidable (StoresBare host s) :=
  decidable_of_iff (∀ t ∈ (firstStored? host s).toList, IsBare host s t)
    ⟨fun all t first => all t (Option.mem_toList.mpr first),
      fun all t mem => all t (Option.mem_toList.mp mem)⟩

/-! ### Instantiations -/

theorem typeParams_subset {d : TypeDecl} {s : Symbol} (denotes : host.declaration? s = some d) :
    d.typeParams ⊆ host.visibleTypeParams s := by
  intro name parameter
  rw [Host.visibleTypeParams, denotes]
  exact List.mem_append_left _ parameter

/-- A bare type keeps its definition, and stays bare, under substitution. -/
theorem IsBare.substitute {d : TypeDecl} {t : TypeRef} (bare : IsBare host d.symbol t)
    (denotes : host.declaration? d.symbol = some d) (args : List TypeRef) :
    ∃ inner, t.substitute d.typeParams args = ⟨t.name, inner, false, 0⟩ ∧
      inner.length = t.args.length := by
  obtain ⟨name, targs, nullable, rank⟩ := t
  obtain ⟨rfl, rfl, free⟩ := bare
  rw [TypeRef.substitute]
  split
  · exact ⟨targs, rfl, rfl⟩
  · have kept : (if targs.isEmpty then TypeRef.argumentFor? d.typeParams args name else none)
        = none := by
      split
      · next alone =>
        have absent : name ∉ d.typeParams := fun parameter =>
          free ⟨List.isEmpty_iff.mp alone, .inr (typeParams_subset denotes parameter)⟩
        have unplaced : d.typeParams.findIdx? (· == name) = none := by
          rw [List.findIdx?_eq_none_iff]
          intro p mem
          exact beq_eq_false_iff_ne.mpr fun same => absent (same ▸ mem)
        simp only [TypeRef.argumentFor?, unplaced]
        rfl
      · rfl
    rw [kept]
    exact ⟨_, rfl, by rw [TypeRef.substituteAll_eq, List.length_map]⟩

/-- Whatever the type arguments are, a definition that embeds a struct has a first instance field
whose type is that struct with some arguments. -/
theorem EmbedsFirst.field {s h : Symbol} (embeds : EmbedsFirst host s h) {t : TypeRef}
    (instanceOf : Symbol.ofType t = s) :
    ∃ name args, (host.instanceFields t).head? = some (name, some ⟨h.name, args, false, 0⟩) ∧
      args.length = h.arity := by
  obtain ⟨u, first, rfl, bare, -⟩ := embeds
  rw [firstStored?] at first
  obtain ⟨d, denotes, stored⟩ := Option.bind_eq_some_iff.mp first
  obtain ⟨⟨name, type?⟩, front, here⟩ := Option.bind_eq_some_iff.mp stored
  obtain ⟨-, own⟩ := Host.symbol_of_declaration? denotes
  subst own
  replace here : type? = some u := here
  rw [here, Host.instanceFields, TypeDecl.ofType_selfType, denotes] at front
  rw [Host.instanceFields, instanceOf, denotes]
  dsimp only at front ⊢
  rw [List.head?_map] at front ⊢
  obtain ⟨f, leading, pair⟩ := Option.map_eq_some_iff.mp front
  obtain ⟨rfl, resolved⟩ := Prod.mk.inj pair
  obtain ⟨v, meaning, same⟩ := Option.map_eq_some_iff.mp resolved
  rw [TypeDecl.substitute_selfType] at same
  subst same
  obtain ⟨inner, substituted, length⟩ := bare.substitute denotes t.args
  refine ⟨f.name, inner, ?_, length⟩
  rw [leading, Option.map_some, meaning, Option.map_some, substituted]
  rfl

/-- A value of the first type begins with a value of the second one, its first instance field. -/
def BeginsWith (host : Host) (t u : TypeRef) : Prop :=
  (∃ name, (host.instanceFields t).head? = some (name, some u)) ∧ u.rank = 0 ∧ u.nullable = false

/-- Along embedding definitions, every instantiation of the first one begins with values of all the
others. -/
theorem transGen_beginsWith {s : Symbol} {inner : List Symbol}
    (chain : (s :: inner).IsChain (EmbedsFirst host)) {t : TypeRef}
    (instanceOf : Symbol.ofType t = s) :
    ∀ h ∈ inner, ∃ u, Symbol.ofType u = h ∧ Relation.TransGen (BeginsWith host) t u := by
  induction inner generalizing s t with
  | nil => exact fun h none => absurd none List.not_mem_nil
  | cons first inner ih =>
    obtain ⟨embeds, rest⟩ := List.isChain_cons_cons.mp chain
    obtain ⟨name, args, field, length⟩ := embeds.field instanceOf
    have step : BeginsWith host t ⟨first.name, args, false, 0⟩ := ⟨⟨name, field⟩, rfl, rfl⟩
    have same : Symbol.ofType ⟨first.name, args, false, 0⟩ = first := by
      rw [Symbol.ofType, length]
    intro h mem
    rcases List.mem_cons.mp mem with rfl | later
    · exact ⟨_, same, .single step⟩
    · obtain ⟨u, known, path⟩ := ih rest same h later
      exact ⟨u, known, .head step path⟩

/-! ### What the index finds -/

open MarkerIndex

theorem isStruct_of_headerDecls (accepted : Host.ofModel limit model = .ok host) {d : TypeDecl}
    {options : UnionHeaderOptions} (mem : (d, options) ∈ headerDecls host) :
    IsStruct host d.symbol := by
  obtain ⟨e, declared, read⟩ := List.mem_filterMap.mp mem
  obtain ⟨o, found, same⟩ := Option.map_eq_some_iff.mp read
  obtain ⟨rfl, rfl⟩ := Prod.mk.inj same
  refine ⟨e, Host.declaration?_symbol accepted declared, ?_⟩
  rw [optionsOf?] at found
  split at found
  · next accepts => exact eq_of_beq accepts
  · cases found

theorem mem_declarations_of_variantDecls {d : TypeDecl} {options : UnionOptions}
    (mem : (d, options) ∈ variantDecls host) : d ∈ host.declarations := by
  obtain ⟨e, declared, read⟩ := List.mem_filterMap.mp mem
  obtain ⟨o, -, same⟩ := Option.map_eq_some_iff.mp read
  obtain ⟨rfl, rfl⟩ := Prod.mk.inj same
  exact declared

theorem mentionsFirst_of_headerField? (accepted : Host.ofModel limit model = .ok host)
    {d : TypeDecl} (declared : d ∈ host.declarations) {name : String} {h : Symbol}
    (found : headerField? host d = some (name, h)) : MentionsFirst host d.symbol h := by
  rw [headerField?] at found
  obtain ⟨⟨field, type?⟩, front, checked⟩ := Option.bind_eq_some_iff.mp found
  obtain ⟨t, here, known⟩ := Option.bind_eq_some_iff.mp checked
  dsimp only at here known
  subst here
  split at known
  · next isHeader =>
    obtain ⟨-, rfl⟩ := Prod.mk.inj (Option.some.inj known)
    obtain ⟨⟨e, options⟩, listed, same⟩ := List.any_eq_true.mp isHeader
    refine ⟨t, ?_, rfl, of_decide_eq_true same ▸ isStruct_of_headerDecls accepted listed⟩
    simp only [firstStored?, Host.declaration?_symbol accepted declared, bind, Option.bind_some,
      front]
  · cases known

theorem headerField?_of_parentOf? {d : TypeDecl} {options : UnionHeaderOptions} {parent : Symbol}
    (h : parentOf? host d options = some parent) :
    ∃ name, headerField? host d = some (name, parent) := by
  rw [parentOf?] at h
  obtain ⟨⟨name, inner⟩, field, extended⟩ := Option.bind_eq_some_iff.mp h
  dsimp only at extended
  have same : inner = parent := by
    split at extended
    · split at extended
      · exact Option.some.inj extended
      · cases extended
    · exact Option.some.inj extended
  exact ⟨name, same ▸ field⟩

/-- A header mentions the one it extends first. -/
theorem mentionsFirst_of_extends (accepted : Host.ofModel limit model = .ok host)
    {s parent : Symbol} (link : Extends (unionHeaderTable host) s parent) :
    MentionsFirst host s parent := by
  obtain ⟨header, entry, up⟩ := Option.bind_eq_some_iff.mp link
  rcases SymbolTable.mem_of_get?_foldl_insert _ _ entry with ⟨⟨d, options⟩, mem, rfl, rfl⟩ | none
  · obtain ⟨name, field⟩ := headerField?_of_parentOf? up
    obtain ⟨e, declared, read⟩ := List.mem_filterMap.mp mem
    obtain ⟨o, -, same⟩ := Option.map_eq_some_iff.mp read
    obtain ⟨rfl, rfl⟩ := Prod.mk.inj same
    exact mentionsFirst_of_headerField? accepted declared field
  · cases none

/-- A variant mentions its header first. -/
theorem mentionsFirst_of_variantOf? (accepted : Host.ofModel limit model = .ok host)
    {d : TypeDecl} (declared : d ∈ host.declarations) {options : UnionOptions} {v : UnionVariant}
    (h : variantOf? host d options = some v) :
    v.symbol = d.symbol ∧ MentionsFirst host v.symbol v.header := by
  rw [variantOf?] at h
  obtain ⟨⟨field, header⟩, found, same⟩ := Option.bind_eq_some_iff.mp h
  cases same
  exact ⟨rfl, mentionsFirst_of_headerField? accepted declared found⟩

/-- The definitions from a variant outwards to the root of its family. -/
def path (host : Host) (v : UnionVariant) : List Symbol :=
  v.symbol :: (ofHost host).headerChain v.header

/-- Every step from a variant to its root is a mention. -/
theorem chain_mentionsFirst (accepted : Host.ofModel limit model = .ok host)
    {v : UnionVariant} (mem : v ∈ variants host) :
    (path host v).IsChain (MentionsFirst host) := by
  obtain ⟨d, options, decl, found⟩ := mem_variants.mp mem
  obtain ⟨-, first⟩ := mentionsFirst_of_variantOf? accepted
    (mem_declarations_of_variantDecls decl) found
  obtain ⟨rest, split, chain⟩ := headerChainIn_split (unionHeaderTable host) v.header
  show (v.symbol :: headerChainIn (unionHeaderTable host) v.header).IsChain _
  rw [split]
  exact .cons_cons first (chain.imp fun s parent link => mentionsFirst_of_extends accepted link)

/-! ### Soundness -/

/-- The struct is reported when its source is asked for. -/
def Reported (host : Host) (d : TypeDecl) : Prop :=
  ∀ project : Project, project.host = host → project.index = ofHost host →
    project.unionVariantOutput .live d.symbol
      = .ok { diagnostics := [orphanReport d d.symbol] }

/-- Families are sound: from every variant, first fields lead through values of the headers of its
chain to the root of the family, and a struct that asks to be a variant but is in no family is
reported. -/
structure LayoutSound (host : Host) : Prop where
  stored : ∀ family ∈ (ofHost host).families.values, ∀ v ∈ family.variants,
    (path host v).IsChain (EmbedsFirst host) ∧ (path host v).getLast? = some family.root
  reported : ∀ d options, (d, options) ∈ variantDecls host →
    (∃ family ∈ (ofHost host).families.values, ∃ v ∈ family.variants, v.symbol = d.symbol) ∨
      d.symbol ∈ (ofHost host).orphanVariants ∧ Reported host d

/-- In a sound project, a value of a variant begins with a value of every header of its chain,
whatever the type arguments are. -/
theorem LayoutSound.begins (sound : LayoutSound host) {family : UnionFamily}
    (listed : family ∈ (ofHost host).families.values) {v : UnionVariant} (mem : v ∈ family.variants)
    {t : TypeRef} (instanceOf : Symbol.ofType t = v.symbol) :
    ∀ h ∈ (ofHost host).headerChain v.header,
      ∃ u, Symbol.ofType u = h ∧ Relation.TransGen (BeginsWith host) t u :=
  transGen_beginsWith (sound.stored family listed v mem).1 instanceOf

theorem getLast?_path {family : UnionFamily} (listed : family ∈ (ofHost host).families.values)
    {v : UnionVariant} (mem : v ∈ family.variants) :
    (path host v).getLast? = some family.root := by
  have root := (mem_families listed mem).2
  show (v.symbol :: headerChainIn (unionHeaderTable host) v.header).getLast? = _
  rw [List.getLast?_cons, getLast?_headerChainIn, root, Option.getD_some]

theorem reported_of_orphan (accepted : Host.ofModel limit model = .ok host) {d : TypeDecl}
    (declared : d ∈ host.declarations) (orphan : d.symbol ∈ (ofHost host).orphanVariants) :
    Reported host d := by
  rintro project rfl index
  have listed : project.index.orphanVariants.contains d.symbol = true := by
    rw [index]
    exact List.contains_iff_mem.mpr orphan
  rw [Project.unionVariantOutput, Host.declaration?_symbol accepted declared]
  simp only [listed, if_true]
  rfl

theorem family_or_orphan (accepted : Host.ofModel limit model = .ok host) {d : TypeDecl}
    {options : UnionOptions} (decl : (d, options) ∈ variantDecls host) :
    (∃ family ∈ (ofHost host).families.values, ∃ v ∈ family.variants, v.symbol = d.symbol) ∨
      d.symbol ∈ (ofHost host).orphanVariants ∧ Reported host d := by
  have declared := mem_declarations_of_variantDecls decl
  cases found : variantOf? host d options with
  | none =>
    have orphan : d.symbol ∈ (ofHost host).orphanVariants :=
      mem_orphans.mpr ⟨d, options, decl, rfl, found⟩
    exact .inr ⟨orphan, reported_of_orphan accepted declared orphan⟩
  | some v =>
    obtain ⟨same, -⟩ := mentionsFirst_of_variantOf? accepted declared found
    obtain ⟨family, listed, mem⟩ := exists_family (unionHeaderTable host)
      (mem_variants.mpr ⟨d, options, decl, found⟩)
    exact .inl ⟨family, listed, v, mem, same⟩

/-- Families of an accepted project are sound exactly if no definition on the way from a variant to
the root hides the next one behind an array suffix, a nullable mark or a type parameter. -/
theorem layoutSound_iff (accepted : Host.ofModel limit model = .ok host) :
    LayoutSound host ↔ ∀ family ∈ (ofHost host).families.values, ∀ v ∈ family.variants,
      ∀ s ∈ (path host v).dropLast, StoresBare host s := by
  constructor
  · intro sound family listed v mem
    exact storesBare_of_isChain (sound.stored family listed v mem).1
  · intro bare
    refine ⟨?_, fun d options decl => family_or_orphan accepted decl⟩
    intro family listed v mem
    have mentions := chain_mentionsFirst accepted (mem_families listed mem).1
    have both := isChain_and_iff.mpr ⟨mentions, bare family listed v mem⟩
    exact ⟨both.imp fun _ _ => embedsFirst_iff.mpr, getLast?_path listed mem⟩

/-- A header `Shape`, and a variant `Circle` whose only field has a given type. -/
def shapes (stored : TypeRef) : Model where
  types :=
    [ { name := "Game.Shape", kind := .struct, attributes := [⟨"UnionHeader", []⟩] },
      { name := "Game.Circle", kind := .struct, attributes := [⟨"Union", []⟩],
        fields := [{ name := "Header", type := stored }] } ]

/-- The project of these declarations. -/
def shapesHost (stored : TypeRef) : Host :=
  let model := shapes stored
  ⟨{ model with types := model.types ++ Host.visiblePrelude model.types }, Host.usualStepLimit⟩

theorem shapes_accepted (stored : TypeRef) :
    Host.ofModel Host.usualStepLimit (shapes stored) = .ok (shapesHost stored) := by
  have distinct : Host.firstDuplicate? [] (shapes stored).types = none := rfl
  have contained : Host.firstUnknownContaining?
      ((shapes stored).types ++ Host.visiblePrelude (shapes stored).types) = none := rfl
  simp only [Host.ofModel, distinct, contained]
  rfl

/-- A circle that begins with a shape is stored soundly. -/
theorem layoutSound_shapes : LayoutSound (shapesHost (.named "Shape")) :=
  (layoutSound_iff (shapes_accepted (.named "Shape"))).mpr (by decide +kernel)

/-- A circle that begins with an array of shapes is taken for a variant all the same. -/
theorem not_layoutSound_shapeArrays :
    ¬∀ limit model host, Host.ofModel limit model = .ok host → LayoutSound host := by
  intro always
  have sound := always _ _ _ (shapes_accepted ⟨"Shape", [], false, 1⟩)
  have hidden : ∃ family ∈ (ofHost (shapesHost ⟨"Shape", [], false, 1⟩)).families.values,
      ∃ v ∈ family.variants, ¬∀ s ∈ (path (shapesHost ⟨"Shape", [], false, 1⟩) v).dropLast,
        StoresBare (shapesHost ⟨"Shape", [], false, 1⟩) s := by
    decide +kernel
  obtain ⟨family, listed, v, mem, bare⟩ := hidden
  exact bare (storesBare_of_isChain (sound.stored family listed v mem).1)

end Union

end Marksmith

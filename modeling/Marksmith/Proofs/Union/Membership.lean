import Marksmith.Proofs.Analysis.Reordering
import Marksmith.Proofs.Lists
import Marksmith.Proofs.Union.Agreement

/-!
Membership in unions. Variants are collected in one sweep over the declarations and sorted into
families afterwards, through chains of headers that may be cyclic, so nothing may get lost or be
taken twice on the way.

* `perm_variants_families`: the families together hold the variants that begin with a header, each
  of them once;
* `mem_recorded`, `nodup_recorded`: what an index records is each marked struct, exactly once;
* `variant?_eq_some_iff`: a variant is found in the one family that holds it;
* `partitioned_build`: all of this for the index of an accepted project, with the roots and the ids
  of its families.
-/

namespace Marksmith

namespace MarkerIndex

/-- A declaration asks to be a variant: it is a struct, and the first union marker on it can be
read. -/
def AsksFor (d : TypeDecl) (options : UnionOptions) : Prop :=
  d.kind = .struct ∧
    ∃ a, Attribute.find? .union d.attributes = some a ∧ UnionOptions.read a = .ok options

/-- The symbols that an index records as variants: those in its families, and the orphans. -/
def recorded (index : MarkerIndex) : List Symbol :=
  (index.families.values.flatMap fun family => family.variants.map (·.symbol))
    ++ index.orphanVariants

/-- A family is what its root and its variants make it, with the variants in the order of their
declarations. -/
structure WellFormed (host : Host) (index : MarkerIndex) (family : UnionFamily) : Prop where
  rooted : ∀ v ∈ family.variants, index.rootHeader v.header = family.root
  ids : family.ids
    = Union.assignIds (family.variants.map fun v => ⟨v.symbol.simpleName, v.forcedId⟩)
  discovered : (family.variants.map (·.symbol)).Sublist (host.declarations.map TypeDecl.symbol)
  forced : ∀ v ∈ family.variants, ∃ d ∈ host.declarations, ∃ options,
    AsksFor d options ∧ d.symbol = v.symbol ∧ options.id = v.forcedId

/-- The structs that ask to be variants are partitioned into families and orphans. -/
structure Partitioned (host : Host) (index : MarkerIndex) : Prop where
  once : index.recorded.Nodup
  complete : ∀ s, s ∈ index.recorded ↔
    ∃ d ∈ host.declarations, ∃ options, AsksFor d options ∧ d.symbol = s
  keyed : ∀ root family, (root, family) ∈ index.families.entries → family.root = root
  wellFormed : ∀ family ∈ index.families.values, WellFormed host index family
  found : ∀ s family v, index.variant? s = some (family, v) ↔
    (family.root, family) ∈ index.families.entries ∧ v ∈ family.variants ∧ v.symbol = s

variable {host : Host} {limit : Nat} {model : Model}

/-! ### Marked structs -/

theorem optionsOf?_union_eq_some_iff {d : TypeDecl} {options : UnionOptions} :
    optionsOf? .union UnionOptions.read d = some options ↔ AsksFor d options := by
  have accepts : Marker.union.accepts d.kind = true ↔ d.kind = .struct := beq_iff_eq
  rw [optionsOf?, AsksFor]
  by_cases struct : d.kind = .struct
  · rw [if_pos (accepts.mpr struct), Option.bind_eq_some_iff, and_iff_right struct]
    exact exists_congr fun a => and_congr_right fun _ => toOption_eq_some_iff
  · rw [if_neg fun h => struct (accepts.mp h)]
    exact iff_of_false (Option.some_ne_none _).symm fun asks => struct asks.1

theorem mem_variantDecls {d : TypeDecl} {options : UnionOptions} :
    (d, options) ∈ variantDecls host ↔ d ∈ host.declarations ∧ AsksFor d options := by
  rw [variantDecls, List.mem_filterMap]
  constructor
  · rintro ⟨e, mem, read⟩
    obtain ⟨o, here, same⟩ := Option.map_eq_some_iff.mp read
    obtain ⟨rfl, rfl⟩ := Prod.mk.inj same
    exact ⟨mem, optionsOf?_union_eq_some_iff.mp here⟩
  · rintro ⟨mem, asks⟩
    refine ⟨d, mem, ?_⟩
    rw [optionsOf?_union_eq_some_iff.mpr asks, Option.map_some]

/-- What a variant is made from. -/
theorem exists_variantDecl {v : UnionVariant} (mem : v ∈ variants host) :
    ∃ d ∈ host.declarations, ∃ options, AsksFor d options ∧ variantOf? host d options = some v ∧
      d.symbol = v.symbol ∧ options.id = v.forcedId := by
  obtain ⟨d, options, listed, made⟩ := mem_variants.mp mem
  obtain ⟨there, asks⟩ := mem_variantDecls.mp listed
  obtain ⟨_, -, same⟩ := Option.bind_eq_some_iff.mp made
  cases same
  exact ⟨d, there, options, asks, made, rfl, rfl⟩

/-! ### Families -/

section

variable {headers : SymbolTable UnionHeader}

/-- A variant is in the family of its root and in no other one. -/
theorem mem_family_iff {family : UnionFamily}
    (listed : family ∈ (familyTable host headers).values) {v : UnionVariant} :
    v ∈ family.variants ↔ v ∈ variants host ∧ rootHeaderIn headers v.header = family.root := by
  rw [variants_of_familyTable listed, List.mem_filter, decide_eq_true_iff]

theorem family_eq_of_root {family other : UnionFamily}
    (listed : family ∈ (familyTable host headers).values)
    (listed' : other ∈ (familyTable host headers).values) (same : family.root = other.root) :
    family = other := by
  have here := get?_familyTable listed
  rw [same, get?_familyTable listed'] at here
  exact (Option.some.inj here).symm

/-- Different families of a table have different roots. -/
theorem pairwise_roots :
    (familyTable host headers).values.Pairwise fun a b => a.root ≠ b.root := by
  have sorted : (variantsByRoot host headers).Sorted := sorted_variantsByRoot headers
  rw [SymbolTable.values, familyTable, List.map_map, List.pairwise_map]
  refine sorted.imp ?_
  intro a b before same
  have roots : a.1 = b.1 := same
  rw [roots] at before
  exact Symbol.not_before_self _ before

/-- The families together hold the variants that begin with a header, each of them once. -/
theorem perm_variants_families (accepted : Host.ofModel limit model = .ok host)
    (headers : SymbolTable UnionHeader) :
    ((familyTable host headers).values.flatMap (·.variants)).Perm (variants host) := by
  have unique : (variants host).Nodup := .of_map _ (nodup_variants accepted)
  have apart : ((familyTable host headers).values.flatMap (·.variants)).Nodup := by
    refine List.nodup_flatMap.mpr ⟨?_, ?_⟩
    · intro family listed
      rw [variants_of_familyTable listed]
      exact unique.filter _
    · -- A variant in two families would have two roots.
      refine pairwise_roots.imp_of_mem ?_
      intro family other listed listed' roots v here there
      rw [mem_family_iff listed] at here
      rw [mem_family_iff listed'] at there
      exact roots (here.2.symm.trans there.2)
  refine (List.perm_ext_iff_of_nodup apart unique).mpr ?_
  intro v
  rw [List.mem_flatMap]
  constructor
  · rintro ⟨family, listed, held⟩
    exact ((mem_family_iff listed).mp held).1
  · exact exists_family headers

end

/-! ### What is recorded -/

theorem perm_recorded (accepted : Host.ofModel limit model = .ok host) :
    (ofHost host).recorded.Perm ((variants host).map (·.symbol) ++ orphans host) := by
  have families := (perm_variants_families accepted (unionHeaderTable host)).map (·.symbol)
  rw [List.map_flatMap] at families
  exact families.append_right (orphans host)

/-- A marked struct begins with a header or is an orphan, not both. -/
theorem not_mem_orphans (accepted : Host.ofModel limit model = .ok host) {v : UnionVariant}
    (mem : v ∈ variants host) : v.symbol ∉ orphans host := by
  intro orphan
  obtain ⟨d, there, options, asks, made, symbol, -⟩ := exists_variantDecl mem
  obtain ⟨e, options', listed, symbol', alone⟩ := mem_orphans.mp orphan
  obtain ⟨there', asks'⟩ := mem_variantDecls.mp listed
  have same : d = e := List.inj_on_of_nodup_map (Host.nodup_symbols accepted) there there'
    (symbol.trans symbol'.symm)
  subst same
  have read := optionsOf?_union_eq_some_iff.mpr asks
  rw [optionsOf?_union_eq_some_iff.mpr asks'] at read
  rw [Option.some.inj read, made] at alone
  cases alone

/-- Nothing is recorded twice. -/
theorem nodup_recorded (accepted : Host.ofModel limit model = .ok host) :
    (ofHost host).recorded.Nodup := by
  rw [(perm_recorded accepted).nodup_iff]
  refine (nodup_variants accepted).append ?_ ?_
  · refine sorted_orphans.imp ?_
    rintro s _ before rfl
    exact Symbol.not_before_self s before
  · intro s variant orphan
    obtain ⟨v, mem, rfl⟩ := List.mem_map.mp variant
    exact not_mem_orphans accepted mem orphan

/-- The structs that ask to be variants are recorded, and nothing else is. -/
theorem mem_recorded (accepted : Host.ofModel limit model = .ok host) {s : Symbol} :
    s ∈ (ofHost host).recorded ↔
      ∃ d ∈ host.declarations, ∃ options, AsksFor d options ∧ d.symbol = s := by
  rw [(perm_recorded accepted).mem_iff, List.mem_append]
  constructor
  · rintro (variant | orphan)
    · obtain ⟨v, mem, rfl⟩ := List.mem_map.mp variant
      obtain ⟨d, there, options, asks, -, symbol, -⟩ := exists_variantDecl mem
      exact ⟨d, there, options, asks, symbol⟩
    · obtain ⟨d, options, listed, symbol, -⟩ := mem_orphans.mp orphan
      obtain ⟨there, asks⟩ := mem_variantDecls.mp listed
      exact ⟨d, there, options, asks, symbol⟩
  · rintro ⟨d, there, options, asks, rfl⟩
    have listed := mem_variantDecls.mpr ⟨there, asks⟩
    cases made : variantOf? host d options with
    | none => exact .inr (mem_orphans.mpr ⟨d, options, listed, rfl, made⟩)
    | some v =>
      have mem : v ∈ variants host := mem_variants.mpr ⟨d, options, listed, made⟩
      obtain ⟨_, -, same⟩ := Option.bind_eq_some_iff.mp made
      cases same
      exact .inl (List.mem_map_of_mem mem)

/-! ### Finding a variant -/

/-- A variant is found, with the family that holds it. -/
theorem variant?_eq_some_iff (accepted : Host.ofModel limit model = .ok host) {s : Symbol}
    {family : UnionFamily} {v : UnionVariant} :
    (ofHost host).variant? s = some (family, v) ↔
      family ∈ (ofHost host).families.values ∧ v ∈ family.variants ∧ v.symbol = s := by
  refine ⟨Union.variant?_spec, ?_⟩
  rintro ⟨listed, held, rfl⟩
  have known : ((ofHost host).variant? v.symbol).isSome := by
    refine List.findSome?_isSome_iff.mpr ⟨family, listed, ?_⟩
    rw [Option.isSome_map, List.find?_isSome]
    exact ⟨v, held, beq_self_eq_true _⟩
  obtain ⟨⟨other, w⟩, found⟩ := Option.isSome_iff_exists.mp known
  obtain ⟨listed', held', symbol⟩ := Union.variant?_spec found
  have here := (mem_family_iff listed).mp held
  have there := (mem_family_iff listed').mp held'
  have same : w = v := List.inj_on_of_nodup_map (nodup_variants accepted) there.1 here.1 symbol
  subst same
  rw [found, family_eq_of_root listed' listed (there.2.symm.trans here.2)]

theorem root_of_mem_entries {root : Symbol} {family : UnionFamily}
    (entry : (root, family) ∈ (ofHost host).families.entries) : family.root = root := by
  obtain ⟨⟨_, given⟩, -, same⟩ := List.mem_map.mp entry
  obtain ⟨rfl, rfl⟩ := Prod.mk.inj same
  rfl

theorem mem_entries_iff {family : UnionFamily} :
    (family.root, family) ∈ (ofHost host).families.entries ↔
      family ∈ (ofHost host).families.values :=
  ⟨List.mem_map_of_mem, fun listed => SymbolTable.mem_of_get? (get?_familyTable listed)⟩

/-! ### The index of a project -/

theorem wellFormed_of_mem (family : UnionFamily)
    (listed : family ∈ (ofHost host).families.values) : WellFormed host (ofHost host) family where
  rooted _ held := ((mem_family_iff listed).mp held).2
  ids := by
    obtain ⟨⟨root, _⟩, mem, rfl⟩ := List.mem_map.mp listed
    obtain ⟨⟨_, given⟩, -, same⟩ := List.mem_map.mp mem
    cases same
    rfl
  discovered := by
    rw [variants_of_familyTable listed]
    exact (List.filter_sublist.map _).trans sublist_variants
  forced v held := by
    obtain ⟨d, there, options, asks, -, symbol, id⟩ :=
      exists_variantDecl ((mem_family_iff listed).mp held).1
    exact ⟨d, there, options, asks, symbol, id⟩

/-- The index of an accepted project partitions the structs that ask to be variants into families
and orphans. -/
theorem partitioned_build (accepted : Host.ofModel limit model = .ok host) {token : Token}
    {index : MarkerIndex} (built : MarkerIndex.build host token = .ok index) :
    Partitioned host index := by
  obtain ⟨-, -, rest⟩ := bind_eq_ok_iff.mp built
  cases rest
  exact
    { once := nodup_recorded accepted
      complete := fun _ => mem_recorded accepted
      keyed := fun root family entry => root_of_mem_entries entry
      wellFormed := wellFormed_of_mem
      found := fun s family v => by rw [variant?_eq_some_iff accepted, mem_entries_iff] }

/-- A shape with two variants, in two headers one of which embeds the other, and a struct that asks
to be a variant and begins with no header. -/
def scattered : Model where
  types :=
    [ { name := "Game.Shape", kind := .struct, attributes := [⟨"UnionHeader", []⟩] },
      { name := "Game.Square", kind := .struct, attributes := [⟨"Union", []⟩],
        fields := [{ name := "Header", type := .named "Round" }] },
      { name := "Game.Round", kind := .struct, attributes := [⟨"UnionHeader", []⟩],
        fields := [{ name := "Header", type := .named "Shape" }] },
      { name := "Game.Stray", kind := .struct, attributes := [⟨"Union", []⟩],
        fields := [{ name := "Size", type := .named "int" }] },
      { name := "Game.Circle", kind := .struct, attributes := [⟨"Union", []⟩],
        fields := [{ name := "Header", type := .named "Shape" }] } ]

/-- The squares and circles are a family, in the order of their declarations, and the stray struct
is an orphan. -/
theorem partitioned_scattered :
    ∃ index, MarkerIndex.build (.withPrelude scattered) .live = .ok index ∧
      Partitioned (.withPrelude scattered) index ∧
      index.families.values.map (fun family => (family.root, family.variants.map (·.symbol)))
        = [(⟨"Game.Shape", 0⟩, [⟨"Game.Square", 0⟩, ⟨"Game.Circle", 0⟩])] ∧
      index.orphanVariants = [⟨"Game.Stray", 0⟩] := by
  have built : MarkerIndex.build (.withPrelude scattered) .live = .ok (ofHost _) := rfl
  refine ⟨_, built, ?_, by decide +kernel, by decide +kernel⟩
  exact partitioned_build (Host.ofModel_withPrelude rfl rfl) built

end MarkerIndex

end Marksmith

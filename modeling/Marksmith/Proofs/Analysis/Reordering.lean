import Marksmith.Proofs.Analysis.Tables
import Marksmith.Proofs.Host.Reordering
import Marksmith.Proofs.Union.Reordering
import Marksmith.Proofs.Union.Roots

/-!
The marker index of a reordered project. Tables are sorted by symbol, and what they give for a
symbol is read off its own declaration; so the order of declarations shows in two places only, the
order of the variants within a family and the order of what is reported.

* `SameDispatch`: headers find the same nested interface first;
* `unionHeaderTable_eq`: then the tables of headers are the same;
* `familyTable_rel`: families have the same variants, perhaps in another order, root by root;
* `Reorders`, `reorders_ofHost`: how the index of a reordered project relates to that of the
  project.
-/

namespace Marksmith.MarkerIndex

/-- The first interface nested in a type of a name. -/
def nestedInterface? (host : Host) (outer : String) : Option TypeDecl :=
  host.declarations.find? fun i => i.kind == .interface && i.containing == some outer

/-- The headers of a project find the same nested interface first in both hosts. -/
def SameDispatch (other host : Host) : Prop :=
  ∀ d options, (d, options) ∈ headerDecls host →
    nestedInterface? other d.name = nestedInterface? host d.name

variable {other host : Host} {limit limit' : Nat} {model model' : Model}

/-! ### Headers -/

theorem sorted_tableOf {α : Type} (read : TypeDecl → Option α) (ds : List TypeDecl) :
    (tableOf read ds).Sorted := by
  refine SymbolTable.Sorted.foldl ?_ ds SymbolTable.sorted_empty
  intro table d sorted
  cases read d with
  | none => exact sorted
  | some value => exact sorted.insert _ _

/-- What the table of headers holds for a declaration. -/
def headerOf? (host : Host) (d : TypeDecl) : Option UnionHeader :=
  (optionsOf? .unionHeader UnionHeaderOptions.read d).map fun options =>
    { options
      dispatch := dispatchOf? host d options
      parent := parentOf? host d options
      declaresTypeId := d.declaresMember "TypeID" }

theorem unionHeaderTable_eq_tableOf :
    unionHeaderTable host = tableOf (headerOf? host) host.declarations := by
  rw [unionHeaderTable, headerDecls, List.foldl_filterMap, tableOf]
  congr 1
  funext table d
  rw [headerOf?]
  cases optionsOf? .unionHeader UnionHeaderOptions.read d <;> rfl

theorem mem_headerDecls {d : TypeDecl} {options : UnionHeaderOptions} :
    (d, options) ∈ headerDecls host ↔
      d ∈ host.declarations ∧ optionsOf? .unionHeader UnionHeaderOptions.read d = some options := by
  rw [headerDecls, List.mem_filterMap]
  constructor
  · rintro ⟨e, mem, read⟩
    obtain ⟨given, read, pair⟩ := Option.map_eq_some_iff.mp read
    cases pair
    exact ⟨mem, read⟩
  · rintro ⟨mem, read⟩
    exact ⟨d, mem, by rw [read]; rfl⟩

theorem nodup_headerDecls (accepted : Host.ofModel limit model = .ok host) :
    ((headerDecls host).map (·.1.symbol)).Nodup := by
  refine (Host.nodup_symbols accepted).sublist (map_filterMap_sublist (fun d pair read => ?_) _)
  obtain ⟨options, -, rfl⟩ := Option.map_eq_some_iff.mp read
  rfl

section

variable (same : other.Reorders host)

include same

theorem headerDecls_perm : (headerDecls other).Perm (headerDecls host) := same.perm.filterMap _

theorem variantDecls_perm : (variantDecls other).Perm (variantDecls host) := same.perm.filterMap _

theorem headerField?_eq : headerField? other = headerField? host := by
  funext d
  simp only [headerField?, same.instanceFields, (headerDecls_perm same).any_eq]

theorem variantOf?_eq : variantOf? other = variantOf? host := by
  funext d options
  simp only [variantOf?, headerField?_eq same, same.estimateSize]

theorem variants_perm : (variants other).Perm (variants host) := by
  rw [variants, variants, variantOf?_eq same]
  exact (variantDecls_perm same).filterMap _

variable (dispatch : SameDispatch other host)

include dispatch

theorem dispatchOf?_eq {d : TypeDecl} {options : UnionHeaderOptions}
    (mem : (d, options) ∈ headerDecls host) :
    dispatchOf? other d options = dispatchOf? host d options := by
  have nested := dispatch d options mem
  rw [nestedInterface?, nestedInterface?] at nested
  rw [dispatchOf?, dispatchOf?, nested, same.resolve?]

theorem dispatchOfSymbol?_eq (accepted : Host.ofModel limit model = .ok host) (s : Symbol) :
    dispatchOfSymbol? other s = dispatchOfSymbol? host s := by
  rw [dispatchOfSymbol?, dispatchOfSymbol?, find?_perm ?unique (headerDecls_perm same)]
  case unique =>
    intro a aMem b bMem here there
    exact List.inj_on_of_nodup_map (nodup_headerDecls accepted) aMem bMem
      ((of_decide_eq_true here).trans (of_decide_eq_true there).symm)
  refine Option.bind_congr fun pair first => ?_
  exact dispatchOf?_eq same dispatch (List.mem_of_find?_eq_some first)

theorem parentOf?_eq (accepted : Host.ofModel limit model = .ok host) {d : TypeDecl}
    {options : UnionHeaderOptions} (mem : (d, options) ∈ headerDecls host) :
    parentOf? other d options = parentOf? host d options := by
  simp only [parentOf?, headerField?_eq same, dispatchOf?_eq same dispatch mem,
    dispatchOfSymbol?_eq same dispatch accepted, same.implements]

/-- The tables of headers are the same. -/
theorem unionHeaderTable_eq (accepted : Host.ofModel limit model = .ok host)
    (accepted' : Host.ofModel limit' model' = .ok other) :
    unionHeaderTable other = unionHeaderTable host := by
  rw [unionHeaderTable_eq_tableOf, unionHeaderTable_eq_tableOf]
  refine (sorted_tableOf _ _).ext (sorted_tableOf _ _) ?_
  intro s
  rw [get?_tableOf accepted, get?_tableOf accepted', same.declaration?]
  cases declared : host.declaration? s with
  | none => rfl
  | some d =>
    rw [Option.bind_some, Option.bind_some, headerOf?, headerOf?]
    cases read : optionsOf? .unionHeader UnionHeaderOptions.read d with
    | none => rfl
    | some options =>
      have mem : (d, options) ∈ headerDecls host :=
        mem_headerDecls.mpr ⟨(Host.symbol_of_declaration? declared).1, read⟩
      rw [Option.map_some, Option.map_some, dispatchOf?_eq same dispatch mem,
        parentOf?_eq same dispatch accepted mem]

end

/-! ### Families -/

theorem get?_foldl_addVariant (headers : SymbolTable UnionHeader) (variants : List UnionVariant)
    (families : SymbolTable (List UnionVariant)) (root : Symbol) :
    (variants.foldl (addVariant headers) families).get? root
      = if variants.any fun v => rootHeaderIn headers v.header = root then
          some ((families.get? root).getD []
            ++ variants.filter fun v => rootHeaderIn headers v.header = root)
        else families.get? root := by
  induction variants generalizing families with
  | nil => rfl
  | cons v variants ih =>
    rw [List.foldl_cons, ih, addVariant, SymbolTable.get?_insert]
    by_cases own : rootHeaderIn headers v.header = root
    · by_cases more : variants.any fun v => rootHeaderIn headers v.header = root
      · simp [own, more]
      · have none : variants.filter (fun v => rootHeaderIn headers v.header = root) = [] := by
          simpa using more
        simp [own, more, none]
    · have apart : ¬root = rootHeaderIn headers v.header := fun h => own h.symm
      simp [own, apart]

theorem lookup_families (root : Symbol) (entries : List (Symbol × List UnionVariant)) :
    (entries.map fun entry => (entry.1, familyOf entry.1 entry.2)).lookup root
      = (entries.lookup root).map (familyOf root) := by
  induction entries with
  | nil => rfl
  | cons entry entries ih =>
    obtain ⟨s, given⟩ := entry
    rw [List.map_cons, SymbolTable.lookup_cons, SymbolTable.lookup_cons, ih]
    by_cases here : root = s
    · rw [if_pos here, if_pos here, here, Option.map_some]
    · rw [if_neg here, if_neg here]

/-- The family of a root: the variants whose chain ends there, if there are any. -/
theorem get?_familyTable_eq (headers : SymbolTable UnionHeader) (root : Symbol) :
    (familyTable host headers).get? root
      = if (variants host).any fun v => rootHeaderIn headers v.header = root then
          some (familyOf root
            ((variants host).filter fun v => rootHeaderIn headers v.header = root))
        else none := by
  have held := get?_foldl_addVariant headers (variants host) {} root
  rw [SymbolTable.get?_empty, Option.getD_none, List.nil_append] at held
  refine (lookup_families root (variantsByRoot host headers).entries).trans ?_
  refine (congrArg (Option.map (familyOf root)) held).trans ?_
  split <;> rfl

/-- Whether no two variants of a project have the same simple name. -/
def DistinctVariants (host : Host) : Prop :=
  ((variants host).map (·.symbol.simpleName)).Nodup

theorem DistinctVariants.names (distinct : DistinctVariants host) (p : UnionVariant → Bool) :
    Union.DistinctNames (((variants host).filter p).map UnionFamily.candidateOf) := by
  have names : (((variants host).filter p).map (·.symbol.simpleName)).Nodup :=
    distinct.sublist (List.filter_sublist.map _)
  rw [Union.DistinctNames, List.pairwise_map]
  exact (List.pairwise_map.mp names).imp fun apart _ _ => apart

/-- The families of a reordered project, root by root. -/
theorem familyTable_rel (same : other.Reorders host) (distinct : DistinctVariants host)
    (accepted : Host.ofModel limit model = .ok host) (headers : SymbolTable UnionHeader)
    (root : Symbol) :
    Option.Rel UnionFamily.Rearranges ((familyTable other headers).get? root)
      ((familyTable host headers).get? root) := by
  rw [get?_familyTable_eq, get?_familyTable_eq, (variants_perm same).any_eq]
  split
  · have symbols := (nodup_variants accepted).sublist
      ((List.filter_sublist (p := fun v => rootHeaderIn headers v.header = root)).map _)
    exact .some (UnionFamily.rearranges_of_perm root ((variants_perm same).filter _) symbols
      (distinct.names _))
  · exact .none

/-! ### Orphans -/

theorem sorted_orphans : (orphans host).Pairwise fun a b => a.before b := by
  rw [orphans]
  generalize (variantDecls host).filter _ = pairs
  induction pairs with
  | nil => exact .nil
  | cons pair pairs ih => exact Symbol.pairwise_insertSorted ih

theorem orphans_eq (same : other.Reorders host) : orphans other = orphans host := by
  refine Symbol.eq_of_sorted sorted_orphans sorted_orphans ?_
  intro s
  simp only [mem_orphans, (variantDecls_perm same).mem_iff, variantOf?_eq same]

/-! ### The index -/

/-- All families have ids. -/
def Settled (index : MarkerIndex) : Prop := ∀ family ∈ index.families.values, family.ids.isOk

theorem Settled.family {index : MarkerIndex} (settled : index.Settled) (s : Symbol) :
    ((index.families.get? s).getD (.empty s)).ids.isOk := by
  cases found : index.families.get? s with
  | none => rfl
  | some family => exact settled family (List.mem_map_of_mem (SymbolTable.mem_of_get? found))

/-- The index of a project whose declarations stand in another order: families may list their
variants in another order, and the reports may come in another order. -/
structure Reorders (other index : MarkerIndex) : Prop where
  tracked : other.tracked = index.tracked
  singletons : other.singletons = index.singletons
  unionHeaders : other.unionHeaders = index.unionHeaders
  families : List.Forall₂ (fun a b => a.1 = b.1 ∧ a.2.Rearranges b.2)
    other.families.entries index.families.entries
  orphanVariants : other.orphanVariants = index.orphanVariants
  unmanagedAccess : other.unmanagedAccess = index.unmanagedAccess
  injectors : other.injectors = index.injectors
  constants : other.constants = index.constants
  diagnostics : other.diagnostics.Perm index.diagnostics

namespace Reorders

variable {index' index : MarkerIndex} (same : index'.Reorders index)

include same

theorem headerChain : index'.headerChain = index.headerChain := by
  funext s
  rw [MarkerIndex.headerChain, MarkerIndex.headerChain, same.unionHeaders]

/-- The families of a root. -/
theorem family (s : Symbol) :
    Option.Rel UnionFamily.Rearranges (index'.families.get? s) (index.families.get? s) := by
  rw [SymbolTable.get?, SymbolTable.get?]
  have families := same.families
  generalize index'.families.entries = as, index.families.entries = bs at families ⊢
  induction families with
  | nil => exact .none
  | @cons a b as bs first rest ih =>
    obtain ⟨t, f⟩ := a
    obtain ⟨u, g⟩ := b
    obtain ⟨key, related⟩ := first
    dsimp only at key related
    subst key
    rw [SymbolTable.lookup_cons, SymbolTable.lookup_cons]
    by_cases here : s = t
    · rw [if_pos here, if_pos here]
      exact .some related
    · rw [if_neg here, if_neg here]
      exact ih

/-- A variant with its family. -/
theorem variant? (s : Symbol) :
    Option.Rel (fun a b => a.1.Rearranges b.1 ∧ a.2 = b.2) (index'.variant? s)
      (index.variant? s) := by
  rw [MarkerIndex.variant?, MarkerIndex.variant?, SymbolTable.values, SymbolTable.values]
  have families := same.families
  generalize index'.families.entries = as, index.families.entries = bs at families ⊢
  induction families with
  | nil => exact .none
  | @cons a b as bs first rest ih =>
    rw [List.map_cons, List.map_cons, List.findSome?_cons, List.findSome?_cons,
      first.2.variant? s]
    cases b.2.variants.find? (·.symbol == s) with
    | none => exact ih
    | some v => exact .some ⟨first.2, rfl⟩

end Reorders

theorem sorted_familyTable (headers : SymbolTable UnionHeader) :
    (familyTable host headers).Sorted :=
  List.pairwise_map.mpr (sorted_variantsByRoot headers)

theorem tableOf_eq {α : Type} (read : TypeDecl → Option α) (same : other.Reorders host)
    (accepted : Host.ofModel limit model = .ok host)
    (accepted' : Host.ofModel limit' model' = .ok other) :
    tableOf read other.declarations = tableOf read host.declarations := by
  refine (sorted_tableOf _ _).ext (sorted_tableOf _ _) ?_
  intro s
  rw [get?_tableOf accepted, get?_tableOf accepted', same.declaration?]

/-- How the index of a reordered project relates to that of the project. -/
theorem reorders_ofHost (same : other.Reorders host) (dispatch : SameDispatch other host)
    (distinct : DistinctVariants host)
    (assembly : other.model.assemblyAttributes = host.model.assemblyAttributes)
    (accepted : Host.ofModel limit model = .ok host)
    (accepted' : Host.ofModel limit' model' = .ok other) :
    (ofHost other).Reorders (ofHost host) where
  tracked := tableOf_eq _ same accepted accepted'
  singletons := tableOf_eq _ same accepted accepted'
  unionHeaders := unionHeaderTable_eq same dispatch accepted accepted'
  families := by
    have headers := unionHeaderTable_eq same dispatch accepted accepted'
    refine (sorted_familyTable _).forall₂ (sorted_familyTable _) ?_
    rw [headers]
    exact familyTable_rel same distinct accepted (unionHeaderTable host)
  orphanVariants := orphans_eq same
  unmanagedAccess := tableOf_eq _ same accepted accepted'
  injectors := tableOf_eq _ same accepted accepted'
  constants := by
    simp only [ofHost, assembly]
  diagnostics := by
    simp only [ofHost, assembly]
    exact (same.perm.flatMap_right problems).append_right _

end Marksmith.MarkerIndex

import Marksmith.Analysis.Index
import Marksmith.Proofs.Host.Declarations
import Marksmith.Proofs.Host.SymbolSets
import Mathlib.Data.List.Chain

/-!
How union families are put together.

* `headerChainIn_split`: the chain of a header begins with the header, and every member is followed
  by the parent that the table gives for it;
* `getD_foldl_addVariant`: the variants of a root are those whose chain ends there, in order;
* `mem_families`, `exists_family`: a family holds variants of its own root only, and every variant
  is in a family;
* `mem_orphans`: the orphans are the variants that do not begin with a header.
-/

namespace Marksmith

open Syntax (TypeRef)

namespace MarkerIndex

/-! ### Chains of headers -/

/-- The link from a header to the one that it extends. -/
def Extends (headers : SymbolTable UnionHeader) (s parent : Symbol) : Prop :=
  (headers.get? s).bind (·.parent) = some parent

theorem chainFrom_split (headers : SymbolTable UnionHeader) (steps : Nat) (before : List Symbol)
    (s : Symbol) :
    ∃ rest, chainFrom headers steps before s = before.reverse ++ s :: rest ∧
      List.IsChain (Extends headers) (s :: rest) := by
  induction steps generalizing before s with
  | zero => exact ⟨[], List.reverse_cons, .singleton s⟩
  | succ steps ih =>
    rw [chainFrom]
    split
    · next parent link =>
      split
      · exact ⟨[], List.reverse_cons, .singleton s⟩
      · obtain ⟨rest, split, chain⟩ := ih (s :: before) parent
        refine ⟨parent :: rest, ?_, .cons_cons link chain⟩
        rw [split, List.reverse_cons, List.append_assoc, List.singleton_append]
    · exact ⟨[], List.reverse_cons, .singleton s⟩

/-- The chain of a header begins with it, and goes on from each header to the one it extends. -/
theorem headerChainIn_split (headers : SymbolTable UnionHeader) (s : Symbol) :
    ∃ rest, headerChainIn headers s = s :: rest ∧ List.IsChain (Extends headers) (s :: rest) :=
  chainFrom_split headers headers.size [] s

theorem getLast?_headerChainIn (headers : SymbolTable UnionHeader) (s : Symbol) :
    (headerChainIn headers s).getLast? = some (rootHeaderIn headers s) := by
  obtain ⟨rest, split, -⟩ := headerChainIn_split headers s
  rw [rootHeaderIn, split, List.getLast?_cons, Option.getD_some]

/-! ### Variants by root -/

theorem getD_foldl_addVariant (headers : SymbolTable UnionHeader) (variants : List UnionVariant)
    (families : SymbolTable (List UnionVariant)) (root : Symbol) :
    ((variants.foldl (addVariant headers) families).get? root).getD []
      = (families.get? root).getD []
        ++ variants.filter fun v => rootHeaderIn headers v.header = root := by
  induction variants generalizing families with
  | nil => simp
  | cons v variants ih =>
    rw [List.foldl_cons, ih, addVariant, SymbolTable.get?_insert]
    by_cases own : rootHeaderIn headers v.header = root
    · simp [own]
    · have other : ¬root = rootHeaderIn headers v.header := fun h => own h.symm
      simp [own, other]

/-- Whether the entries of a table of variants hold variants of their own roots, taken from a list. -/
def Grouped (headers : SymbolTable UnionHeader) (given : List UnionVariant)
    (families : SymbolTable (List UnionVariant)) : Prop :=
  ∀ root variants, (root, variants) ∈ families.entries →
    ∀ v ∈ variants, v ∈ given ∧ rootHeaderIn headers v.header = root

theorem Grouped.addVariant {headers : SymbolTable UnionHeader} {given : List UnionVariant}
    {families : SymbolTable (List UnionVariant)} (grouped : Grouped headers given families)
    {v : UnionVariant} (mem : v ∈ given) :
    Grouped headers given (addVariant headers families v) := by
  intro root variants entry u there
  rcases SymbolTable.mem_insertEntry entry with new | old
  · obtain ⟨rfl, rfl⟩ := Prod.mk.inj new
    rcases List.mem_append.mp there with before | last
    · cases known : families.get? (rootHeaderIn headers v.header) with
      | none => simp [known] at before
      | some older =>
        rw [known, Option.getD_some] at before
        exact grouped _ _ (SymbolTable.mem_of_get? known) u before
    · rw [List.mem_singleton.mp last]
      exact ⟨mem, rfl⟩
  · exact grouped root variants old u there

theorem Grouped.foldl {headers : SymbolTable UnionHeader} {given variants : List UnionVariant}
    {families : SymbolTable (List UnionVariant)} (grouped : Grouped headers given families)
    (within : variants ⊆ given) :
    Grouped headers given (variants.foldl (MarkerIndex.addVariant headers) families) := by
  induction variants generalizing families with
  | nil => exact grouped
  | cons v variants ih =>
    exact ih (grouped.addVariant (within List.mem_cons_self))
      (List.subset_of_cons_subset within)

section

variable (host : Host)

/-- The variants that begin with a header, in the order of their declarations. -/
def variants : List UnionVariant :=
  (variantDecls host).filterMap fun (d, options) => variantOf? host d options

variable {host}

theorem mem_variants {v : UnionVariant} :
    v ∈ variants host ↔ ∃ d options, (d, options) ∈ variantDecls host ∧
      variantOf? host d options = some v := by
  simp only [variants, List.mem_filterMap, Prod.exists]

/-- The families of a project hold variants of their own roots. -/
theorem mem_families {headers : SymbolTable UnionHeader} {family : UnionFamily}
    (h : family ∈ (familyTable host headers).values) {v : UnionVariant} (mem : v ∈ family.variants) :
    v ∈ variants host ∧ rootHeaderIn headers v.header = family.root := by
  have grouped : Grouped headers (variants host) (variantsByRoot host headers) := by
    refine Grouped.foldl ?_ (List.Subset.refl _)
    intro root given entry
    cases entry
  obtain ⟨⟨root, given⟩, entry, rfl⟩ := List.mem_map.mp h
  obtain ⟨⟨_, held⟩, listed, same⟩ := List.mem_map.mp entry
  obtain ⟨rfl, rfl⟩ := Prod.mk.inj same
  exact grouped _ _ listed v mem

/-- Every variant that begins with a header is in the family of its root. -/
theorem exists_family (headers : SymbolTable UnionHeader) {v : UnionVariant}
    (h : v ∈ variants host) :
    ∃ family ∈ (familyTable host headers).values, v ∈ family.variants := by
  have held := getD_foldl_addVariant headers (variants host) {} (rootHeaderIn headers v.header)
  rw [SymbolTable.get?_empty, Option.getD_none, List.nil_append] at held
  have mem : v ∈ (variants host).filter
      fun u => rootHeaderIn headers u.header = rootHeaderIn headers v.header :=
    List.mem_filter.mpr ⟨h, decide_eq_true rfl⟩
  rw [← held] at mem
  cases known : (variantsByRoot host headers).get? (rootHeaderIn headers v.header) with
  | none =>
    have absent : (((variants host).foldl (addVariant headers) {}).get?
      (rootHeaderIn headers v.header)).getD [] = [] := congrArg (·.getD []) known
    rw [absent] at mem
    cases mem
  | some given =>
    have present : (((variants host).foldl (addVariant headers) {}).get?
      (rootHeaderIn headers v.header)).getD [] = given := congrArg (·.getD []) known
    rw [present] at mem
    refine ⟨familyOf (rootHeaderIn headers v.header) given, ?_, mem⟩
    exact List.mem_map.mpr ⟨_, List.mem_map.mpr ⟨_, SymbolTable.mem_of_get? known, rfl⟩, rfl⟩

/-! ### Orphans -/

/-- The orphans are the variants that do not begin with a header. -/
theorem mem_orphans {s : Symbol} :
    s ∈ orphans host ↔ ∃ d options, (d, options) ∈ variantDecls host ∧ d.symbol = s ∧
      variantOf? host d options = none := by
  have collect : ∀ ds : List (TypeDecl × UnionOptions),
      s ∈ ds.foldr (fun (d, _) found => d.symbol.insertSorted found) [] ↔
        ∃ d options, (d, options) ∈ ds ∧ d.symbol = s := by
    intro ds
    induction ds with
    | nil => simp
    | cons first ds ih =>
      obtain ⟨d, options⟩ := first
      rw [List.foldr_cons, Symbol.mem_insertSorted, ih]
      constructor
      · rintro (rfl | ⟨e, o, mem, same⟩)
        · exact ⟨d, options, List.mem_cons_self, rfl⟩
        · exact ⟨e, o, List.mem_cons_of_mem _ mem, same⟩
      · rintro ⟨e, o, mem, same⟩
        rcases List.mem_cons.mp mem with here | later
        · obtain ⟨rfl, rfl⟩ := Prod.mk.inj here
          exact .inl same.symm
        · exact .inr ⟨e, o, later, same⟩
  rw [orphans, collect]
  constructor
  · rintro ⟨d, options, mem, same⟩
    obtain ⟨decl, alone⟩ := List.mem_filter.mp mem
    exact ⟨d, options, decl, same, Option.isNone_iff_eq_none.mp alone⟩
  · rintro ⟨d, options, decl, same, alone⟩
    exact ⟨d, options, List.mem_filter.mpr ⟨decl, Option.isNone_iff_eq_none.mpr alone⟩, same⟩

end

end MarkerIndex

end Marksmith

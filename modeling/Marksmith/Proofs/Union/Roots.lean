import Marksmith.Proofs.Union.Layout

/-!
Families of unions as entries of their table, and the roots of families.

* `nodup_family`: the variants of a family have different symbols;
* `get?_familyTable`: the table gives each of its families for the root of the family;
* `isHeader_root`, `IsHeader.listed`: the root of a family is a union header, which is declared and
  has an entry in the table of headers.
-/

namespace Marksmith

open Marksmith.Union (headerField?_of_parentOf?)

namespace MarkerIndex

variable {host : Host} {limit : Nat} {model : Model}

/-! ### Variants of a family -/

theorem map_filterMap_sublist {α β γ : Type} {f : α → Option β} {key : α → γ} {key' : β → γ}
    (same : ∀ a b, f a = some b → key' b = key a) (as : List α) :
    ((as.filterMap f).map key').Sublist (as.map key) := by
  induction as with
  | nil => exact .slnil
  | cons a as ih =>
    cases found : f a with
    | none =>
      rw [List.filterMap_cons_none found]
      exact ih.cons _
    | some b =>
      rw [List.filterMap_cons_some found, List.map_cons, List.map_cons, same a b found]
      exact ih.cons_cons _

/-- Variants come in the order of their declarations. -/
theorem sublist_variants :
    ((variants host).map (·.symbol)).Sublist (host.declarations.map TypeDecl.symbol) := by
  have decls : ((variantDecls host).map (·.1.symbol)).Sublist
      (host.declarations.map TypeDecl.symbol) := by
    refine map_filterMap_sublist (fun d pair read => ?_) _
    obtain ⟨options, -, rfl⟩ := Option.map_eq_some_iff.mp read
    rfl
  have symbols : ((variants host).map (·.symbol)).Sublist
      ((variantDecls host).map (·.1.symbol)) := by
    refine map_filterMap_sublist (fun pair v made => ?_) _
    obtain ⟨_, -, same⟩ := Option.bind_eq_some_iff.mp made
    cases same
    rfl
  exact symbols.trans decls

/-- No two variants of a project have the same symbol. -/
theorem nodup_variants (accepted : Host.ofModel limit model = .ok host) :
    ((variants host).map (·.symbol)).Nodup :=
  (Host.nodup_symbols accepted).sublist sublist_variants

theorem sorted_variantsByRoot (headers : SymbolTable UnionHeader) :
    (variantsByRoot host headers).Sorted :=
  SymbolTable.Sorted.foldl (fun _ _ sorted => sorted.insert _ _) _ SymbolTable.sorted_empty

/-- A family of the table is what the table gives for its root. -/
theorem get?_familyTable {headers : SymbolTable UnionHeader} {family : UnionFamily}
    (listed : family ∈ (familyTable host headers).values) :
    (familyTable host headers).get? family.root = some family := by
  obtain ⟨⟨root, _⟩, mem, rfl⟩ := List.mem_map.mp listed
  obtain ⟨⟨_, given⟩, entry, same⟩ := List.mem_map.mp mem
  cases same
  refine SymbolTable.Sorted.get?_of_mem ?_ mem
  exact List.pairwise_map.mpr (sorted_variantsByRoot headers)

/-- The variants of a family are those whose chain ends in its root, in order. -/
theorem variants_of_familyTable {headers : SymbolTable UnionHeader} {family : UnionFamily}
    (listed : family ∈ (familyTable host headers).values) :
    family.variants
      = (variants host).filter fun v => rootHeaderIn headers v.header = family.root := by
  obtain ⟨⟨root, _⟩, mem, rfl⟩ := List.mem_map.mp listed
  obtain ⟨⟨_, given⟩, entry, same⟩ := List.mem_map.mp mem
  cases same
  have found := (sorted_variantsByRoot headers).get?_of_mem entry
  have held := getD_foldl_addVariant headers (variants host) {} root
  rw [SymbolTable.get?_empty, Option.getD_none, List.nil_append] at held
  exact (congrArg (·.getD []) found).symm.trans held

/-- No two variants of a family have the same symbol. -/
theorem nodup_family (accepted : Host.ofModel limit model = .ok host) {family : UnionFamily}
    (listed : family ∈ (ofHost host).families.values) : (family.variants.map (·.symbol)).Nodup := by
  rw [variants_of_familyTable listed]
  exact (nodup_variants accepted).sublist (List.filter_sublist.map _)

/-! ### Roots -/

/-- A symbol of a union header. -/
def IsHeader (host : Host) (s : Symbol) : Prop :=
  ∃ d options, (d, options) ∈ headerDecls host ∧ d.symbol = s

/-- The header that a struct begins with is a union header. -/
theorem isHeader_of_headerField? {d : TypeDecl} {name : String} {h : Symbol}
    (found : headerField? host d = some (name, h)) : IsHeader host h := by
  rw [headerField?] at found
  obtain ⟨⟨field, type?⟩, front, checked⟩ := Option.bind_eq_some_iff.mp found
  obtain ⟨t, here, known⟩ := Option.bind_eq_some_iff.mp checked
  dsimp only at here known
  split at known
  · next isHeader =>
    obtain ⟨-, rfl⟩ := Prod.mk.inj (Option.some.inj known)
    obtain ⟨⟨e, options⟩, mem, same⟩ := List.any_eq_true.mp isHeader
    exact ⟨e, options, mem, of_decide_eq_true same⟩
  · cases known

theorem isHeader_of_extends {s parent : Symbol} (link : Extends (unionHeaderTable host) s parent) :
    IsHeader host parent := by
  obtain ⟨header, entry, up⟩ := Option.bind_eq_some_iff.mp link
  rcases SymbolTable.mem_of_get?_foldl_insert _ _ entry with ⟨⟨d, options⟩, -, -, rfl⟩ | none
  · obtain ⟨name, field⟩ := headerField?_of_parentOf? up
    exact isHeader_of_headerField? field
  · cases none

theorem isHeader_of_isChain {s : Symbol} {rest : List Symbol} (first : IsHeader host s)
    (chain : List.IsChain (Extends (unionHeaderTable host)) (s :: rest)) :
    ∀ h ∈ s :: rest, IsHeader host h := by
  induction rest generalizing s with
  | nil =>
    intro h mem
    rwa [List.mem_singleton.mp mem]
  | cons parent rest ih =>
    obtain ⟨link, further⟩ := List.isChain_cons_cons.mp chain
    intro h mem
    rcases List.mem_cons.mp mem with rfl | later
    · exact first
    · exact ih (isHeader_of_extends link) further h later

/-- The root of a family with a variant is a union header. -/
theorem isHeader_root {family : UnionFamily} (listed : family ∈ (ofHost host).families.values)
    {v : UnionVariant} (mem : v ∈ family.variants) : IsHeader host family.root := by
  obtain ⟨known, root⟩ := mem_families listed mem
  obtain ⟨d, options, decl, found⟩ := mem_variants.mp known
  obtain ⟨⟨field, header⟩, begins, same⟩ := Option.bind_eq_some_iff.mp found
  cases same
  obtain ⟨rest, split, chain⟩ := headerChainIn_split (unionHeaderTable host) header
  have last := getLast?_headerChainIn (unionHeaderTable host) header
  rw [split] at last
  rw [← root]
  exact isHeader_of_isChain (isHeader_of_headerField? begins) chain _
    (List.mem_of_getLast? last)

/-- A union header is declared, and has an entry in the table of headers. -/
theorem IsHeader.listed (accepted : Host.ofModel limit model = .ok host) {s : Symbol}
    (isHeader : IsHeader host s) :
    (host.declaration? s).isSome ∧ ((ofHost host).unionHeaders.get? s).isSome := by
  obtain ⟨d, options, mem, rfl⟩ := isHeader
  obtain ⟨e, declared, read⟩ := List.mem_filterMap.mp mem
  obtain ⟨o, -, same⟩ := Option.map_eq_some_iff.mp read
  obtain ⟨rfl, rfl⟩ := Prod.mk.inj same
  rw [Host.declaration?_symbol accepted declared]
  exact ⟨rfl, SymbolTable.contains_foldl_insert _ _ (.inl ⟨_, mem, rfl⟩)⟩

end MarkerIndex

end Marksmith

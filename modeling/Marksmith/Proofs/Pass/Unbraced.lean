import Marksmith.Proofs.Analysis.Reordering
import Marksmith.Proofs.Host.Walks
import Marksmith.Proofs.Inference.Makeup
import Marksmith.Proofs.Injection.Collected
import Marksmith.Proofs.Source.Bracing
import Marksmith.Proofs.Syntax.Reparsing
import Marksmith.Proofs.Tracking.Introduced
import Marksmith.Proofs.Union.Agreement
import Marksmith.Proofs.Union.Layout
import Marksmith.Proofs.Union.Signatures

/-!
What a pass writes for a project whose names have no braces: plans, properties, fields and unions
are made of names without braces then.
-/

namespace Marksmith

open Text
open Syntax (TypeRef)

variable {host : Host}

/-! ### Tracked types -/

theorem Host.Covers.madeOf_allInterfaces {Q : Symbol → Prop} (covers : host.Covers Q)
    {t i : TypeRef} (made : t.MadeOf Q) (mem : i ∈ host.allInterfaces t) : i.MadeOf Q := by
  obtain ⟨u, up, declared⟩ := Host.inherits_of_mem_allInterfaces mem
  exact covers.madeOf_above (covers.madeOf_reaches made up) (.inr declared)

theorem unbraced_of_mem_standsFor {index : MarkerIndex} {i : TypeRef} {r : Registration}
    (made : i.MadeOf Symbol.Unbraced) (stands : r ∈ standsFor index i) : r.Unbraced := by
  rcases mem_standsFor.mp stands with ⟨-, rfl⟩ | payload
  · exact made
  · obtain ⟨c, t, -, args, given⟩ := shape_of_mem_payloadsOf payload
    have inner : t.MadeOf Symbol.Unbraced := made.arg (args ▸ List.mem_cons_self)
    cases c with
    | instanceIndex => cases given
    | unmanagedData | customStorage | findById =>
      rw [List.mem_singleton.mp given]
      exact inner

theorem Registration.unbraced_of_not_isOwed {r : Registration} (bare : ¬r.isOwed) :
    r.Unbraced := by
  cases r with
  | base | singleton | instances | transformAccess | instanceIds => trivial
  | interface | unmanagedData | customStorage | lookupById => exact absurd rfl bare

namespace Facts

variable {f : Facts}

theorem mem_of_mem_claimNames {a : Accessor} {named : List (String × TypeRef × Accessor)}
    {taken : List (String × TypeRef)} (mem : a ∈ (f.claimNames taken named).1) :
    ∃ name t, (name, t, a) ∈ named := by
  induction named generalizing taken with
  | nil => cases mem
  | cons entry rest ih =>
    obtain ⟨name, t, accessor⟩ := entry
    have later {taken : List (String × TypeRef)} (mem : a ∈ (f.claimNames taken rest).1) :
        ∃ n u, (n, u, a) ∈ (name, t, accessor) :: rest := by
      obtain ⟨n, u, there⟩ := ih mem
      exact ⟨n, u, List.mem_cons_of_mem _ there⟩
    rw [claimNames] at mem
    split at mem
    · exact later mem
    · split at mem
      · exact later mem
      · rcases List.mem_cons.mp mem with rfl | mem
        · exact ⟨name, t, List.mem_cons_self⟩
        · exact later mem

section

variable (less : ∀ r ∈ f.introduced, r.Unbraced)

include less

theorem unbraced_enable : ∀ r ∈ f.enable, r.Unbraced := by
  intro r mem
  by_cases owed : r.isOwed
  · exact less r ((mem_enable_iff f owed).mp mem).1
  · exact Registration.unbraced_of_not_isOwed owed

theorem unbraced_disable : ∀ r ∈ f.disable, r.Unbraced := by
  rw [disable, List.forall_mem_cons]
  refine ⟨?_, fun r mem => ?_⟩
  · rw [owner]
    split <;> trivial
  · exact unbraced_enable less r (List.mem_reverse.mp (List.mem_filter.mp mem).1)

theorem unbraced_payloads : ∀ r ∈ f.capabilities.payloads, r.Unbraced :=
  fun r mem => less r (List.mem_append_right _ mem)

theorem unbraced_accessors (alwaysIndex : Bool) : ∀ a ∈ f.accessors alwaysIndex, a.Unbraced := by
  have payloads := unbraced_payloads less
  rw [Capabilities.payloads, List.forall_mem_append, List.forall_mem_append, List.forall_mem_map,
    List.forall_mem_map, List.forall_mem_map] at payloads
  obtain ⟨⟨data, storage⟩, ids⟩ := payloads
  have named : ∀ entry ∈ f.namedAccessors, entry.2.2.Unbraced := by
    rw [namedAccessors, List.forall_mem_append, List.forall_mem_map, List.forall_mem_map]
    refine ⟨fun t mem => ⟨?_, data t mem⟩, fun t mem => ⟨?_, storage t mem⟩⟩
    · exact unbraced_append.mpr ⟨.ofList (by decide), (data t mem).simpleName⟩
    · exact unbraced_append.mpr ⟨(storage t mem).simpleName, .ofList (by decide)⟩
  have only (a : Accessor) (bare : a.Unbraced) (on : Bool) :
      ∀ b ∈ if on then [a] else [], b.Unbraced := by
    split
    · exact List.forall_mem_singleton.mpr bare
    · exact List.forall_mem_nil _
  rw [accessors]
  simp only [List.forall_mem_append]
  refine ⟨⟨⟨⟨?_, only .active trivial _⟩, only .instanceIndex trivial _⟩,
    only .enabledCache trivial _⟩, ?_⟩
  · split
    · exact List.forall_mem_cons.mpr ⟨trivial, List.forall_mem_singleton.mpr trivial⟩
    · exact List.forall_mem_nil _
  · split
    · simp only [List.forall_mem_append]
      refine ⟨⟨⟨fun a mem => ?_, List.forall_mem_map.mpr ids⟩,
        only .transformAccessArray trivial _⟩, only .instanceIds trivial _⟩
      obtain ⟨name, t, there⟩ := mem_of_mem_claimNames mem
      exact named _ there
    · exact List.forall_mem_nil _

end

/-- The plan for a declaration has no braces in its names. -/
theorem unbraced_plan (names : host.Unbraced) (index : MarkerIndex) (marker : Marker) {d : TypeDecl}
    (there : d ∈ host.declarations) (track : Option TrackOptions)
    (singleton : Option SingletonOptions) (settings : Settings) :
    ((ofDecl host index marker d track singleton).plan settings).Unbraced := by
  set f := ofDecl host index marker d track singleton with facts
  have self : f.type.MadeOf Symbol.Unbraced := names.madeOf_selfType there
  have less : ∀ r ∈ f.introduced, r.Unbraced := by
    intro r mem
    obtain ⟨i, own, stands⟩ := (mem_introduced_ofDecl ..).mp mem
    refine unbraced_of_mem_standsFor ?_ stands
    exact names.covers.madeOf_allInterfaces self (List.mem_filter.mp own).1
  have symbol : f.symbol.Unbraced := names.symbol there
  have typeParams : ∀ p ∈ f.typeParams, Text.Unbraced p := names.typeParams there
  clear_value f
  rw [plan]
  split
  · exact ⟨symbol, self, typeParams, List.forall_mem_nil _, List.forall_mem_nil _,
      List.forall_mem_singleton.mpr trivial⟩
  · exact ⟨symbol, self, typeParams, unbraced_enable less, unbraced_disable less,
      unbraced_accessors less _⟩

end Facts

/-! ### Injected properties -/

namespace Injection

variable {project : Project} (names : project.host.Unbraced) {d : TypeDecl}

include names

theorem madeOf_resolved {a : Assignment} {t : TypeRef} (found : a.resolved project d = .ok t) :
    t.MadeOf Symbol.Unbraced := by
  unfold Assignment.resolved at found
  split at found
  · next u recorded =>
    cases found
    obtain ⟨written, -, resolves⟩ := Option.bind_eq_some_iff.mp recorded
    exact names.madeOf_resolve? resolves
  · have here : project.host.CoversAt Symbol.Unbraced { owner := d.symbol } :=
      ⟨names.covers, fun p mem => names.visibleTypeParams mem, .ofList (by decide)⟩
    cases outcome : Resolver.resolveAssignment project.host project.index .live
        { owner := d.symbol } a.target a.value with
    | error e =>
      rw [outcome] at found
      cases found
    | ok r =>
      rw [outcome] at found
      cases found
      exact Resolver.madeOf_resolveAssignment here outcome

/-- The property that an assignment gives. -/
theorem unbraced_of_property? (there : d ∈ project.host.declarations) {s : Source}
    (stands : Stands d s) {a : Assignment} (assigns : s.assignment? = some a) {p : InjectedProperty}
    (given : a.property? project d = some p) : p.Unbraced := by
  obtain ⟨rfl, span, target, same, parsed⟩ := source_of_assignment? assigns
  have name : Text.Unbraced a.target := by
    rw [same]
    exact fun c mem => not_isBrace_of_isIdentPart (Syntax.isIdentPart_of_assign parsed c mem)
  have method : Text.Unbraced a.source.method.name := by
    refine names.memberNames there _ (List.mem_append_right _ ?_)
    exact List.mem_map_of_mem (List.mem_of_find?_eq_some stands.method)
  unfold Assignment.property? at given
  split at given
  · next t found =>
    split at given
    · cases given
    · cases given
      exact ⟨name, fun u own => Option.some.inj own ▸ madeOf_resolved names found, method⟩
  · cases given
    exact ⟨name, nofun, method⟩

/-- The properties of a class. -/
theorem unbraced_properties (declared : project.host.declaration? d.symbol = some d)
    {methods : List InjectMethod} {found : List InjectedProperty × List Diagnostic}
    (collected : properties project .live d methods = .ok found) : ∀ p ∈ found.1, p.Unbraced := by
  intro p mem
  have stand : ∀ s ∈ sources d methods, Stands d s := fun s => stands_of_mem_sources
  obtain ⟨listed, reports, made, collects⟩ := exists_collected declared stand []
  rw [properties, made] at collected
  cases collected
  have here : p ∈ listed.filter (·.name == p.name) :=
    List.mem_filter.mpr ⟨mem, beq_self_eq_true p.name⟩
  rw [collects.named] at here
  split at here
  · cases here
  · obtain ⟨a, first, given⟩ := Option.bind_eq_some_iff.mp (Option.mem_toList.mp here)
    obtain ⟨s, source, assigns⟩ := mem_of_first? first
    have there := (Host.symbol_of_declaration? declared).1
    exact unbraced_of_property? names there (stand s source) assigns given

end Injection

/-! ### Unmanaged fields -/

/-- The fields that are exposed of a declaration. -/
theorem UnmanagedField.unbraced_ofDecl (names : host.Unbraced) {d : TypeDecl}
    (there : d ∈ host.declarations) {options : UnmanagedAccessOptions}
    {fields : List UnmanagedField} (given : ofDecl host .live d options = .ok fields) :
    ∀ f ∈ fields, f.Unbraced := by
  have listed : fields = d.fields.filterMap (ofField? host d options) := by
    rw [ofDecl] at given
    split at given <;> exact (Except.ok.inj given).symm
  intro f mem
  obtain ⟨field, own, exposed⟩ := List.mem_filterMap.mp (listed ▸ mem)
  rw [ofField?] at exposed
  split at exposed
  · split at exposed
    · next t resolves =>
      split at exposed
      · cases exposed
        refine ⟨names.memberNames there _ ?_, names.madeOf_resolve? resolves⟩
        exact List.mem_append_left _ (List.mem_append_left _ (List.mem_map_of_mem own))
      · cases exposed
    · cases exposed
  · cases exposed

/-! ### Members of dispatch interfaces -/

namespace Union

variable (names : host.Unbraced)

section

variable {d : TypeDecl} {i : TypeRef} (made : i.MadeOf Symbol.Unbraced)

include names made

theorem madeOf_memberType (denotes : host.declaration? (.ofType i) = some d)
    (methodParams : List String) {t : TypeRef} (written : t ∈ d.writtenTypes) :
    (memberType host d i methodParams t).MadeOf Symbol.Unbraced := by
  have there := (Host.symbol_of_declaration? denotes).1
  rw [memberType]
  split
  · exact names.madeOf_written there written
  · split
    · next found => exact names.covers.madeOf_member made denotes found
    · exact names.madeOf_written there written

theorem unbraced_membersOf (depth : Nat) : ∀ m ∈ membersOf host depth i, m.Unbraced := by
  rw [membersOf]
  split
  · next d denotes =>
    have there := (Host.symbol_of_declaration? denotes).1
    obtain ⟨-, -, -, properties, methods⟩ :=
      TypeDecl.forall_mem_writtenTypes.mp fun t (written : t ∈ d.writtenTypes) => written
    rw [declaredMembers, List.forall_mem_append, List.forall_mem_map, List.forall_mem_map]
    refine ⟨fun p mem => ?_, fun m mem => ?_⟩
    · have own := (List.mem_filter.mp mem).1
      refine ⟨names.memberNames there _ ?_, List.forall_mem_nil _, List.forall_mem_nil _,
        madeOf_memberType names made denotes [] (properties p own)⟩
      exact List.mem_append_left _ (List.mem_append_right _ (List.mem_map_of_mem own))
    · have own := (List.mem_filter.mp mem).1
      have written := methods m own
      refine ⟨names.memberNames there _ (List.mem_append_right _ (List.mem_map_of_mem own)),
        names.methodTypeParams there own, List.forall_mem_map.mpr fun p param => ?_,
        madeOf_memberType names made denotes _ (written _ List.mem_cons_self)⟩
      refine ⟨names.paramNames there own p param, madeOf_memberType names made denotes _ ?_⟩
      exact written _ (List.mem_cons_of_mem _ (List.mem_append_left _ (List.mem_map_of_mem param)))
  · exact List.forall_mem_nil _

end

include names

/-- The members that a dispatch interface asks for. -/
theorem unbraced_signatures {dispatch : TypeRef} (made : dispatch.MadeOf Symbol.Unbraced) :
    ∀ m ∈ signatures host dispatch, m.Unbraced := by
  intro m mem
  obtain ⟨i, way, declares⟩ := declared_of_mem_signatures mem
  have met := way.madeOf names.covers made
  exact unbraced_membersOf names met m.depth m (mem_membersOf.mpr declares)

end Union

/-! ### What markers say -/

namespace MarkerIndex

theorem read_of_assemblyMarkers {constants : Option ConstantsOptions} {as : List Attribute}
    {options : ConstantsOptions} (found : (assemblyMarkers constants as).1 = some options) :
    constants = some options ∨ ∃ a ∈ as, ConstantsOptions.read a = .ok options := by
  have further {a : Attribute} {as : List Attribute} :
      (∃ b ∈ as, ConstantsOptions.read b = .ok options) →
        ∃ b ∈ a :: as, ConstantsOptions.read b = .ok options :=
    fun ⟨b, mem, read⟩ => ⟨b, List.mem_cons_of_mem a mem, read⟩
  fun_induction assemblyMarkers constants as with
  | case1 => exact .inl found
  | case2 a as _ _ given ih =>
    rcases ih found with same | later
    · cases same
      exact .inr ⟨a, List.mem_cons_self, given⟩
    · exact .inr (further later)
  | case3 a as _ _ _ _ _ rest ih =>
    rw [rest] at ih
    exact (ih found).imp_right further
  | case4 _ _ _ _ ih => exact (ih found).imp_right further
  | case5 _ _ _ _ ih => exact (ih found).imp_right further
  | case6 _ _ _ _ _ _ _ _ _ _ ih => exact (ih found).imp_right further

theorem unbraced_of_read {a : Attribute} {options : ConstantsOptions}
    (read : ConstantsOptions.read a = .ok options) : Text.Unbraced options.className := by
  obtain ⟨args, -, read⟩ := bind_eq_ok_iff.mp read
  obtain ⟨className, asked, read⟩ := bind_eq_ok_iff.mp read
  have made (name : String) (less : Text.Unbraced name)
      (read : (do
        let qualifier ← args.text? "namespace"
        pure { nameSpace := qualifier.filter (· ≠ ""), className := name }) = Except.ok options) :
      Text.Unbraced options.className := by
    obtain ⟨qualifier, -, same⟩ := bind_eq_ok_iff.mp read
    cases same
    exact less
  split at read
  · exact made _ (.ofList (by decide)) read
  · split at read
    · next sanitized => exact made _ (unbraced_of_sanitize sanitized) read
    · cases read

variable (names : host.Unbraced)

include names

/-- The options for constants. -/
theorem unbraced_constants {options : ConstantsOptions}
    (asked : (ofHost host).constants = some options) :
    Text.Unbraced options.className ∧ ∀ n ∈ options.nameSpace, Text.Unbraced n := by
  rcases read_of_assemblyMarkers asked with none | ⟨a, mem, read⟩
  · cases none
  · refine ⟨unbraced_of_read read, fun n given => names.nameSpaces n ?_⟩
    refine List.mem_filterMap.mpr ⟨a, mem, ?_⟩
    rw [read]
    exact given

theorem unbraced_of_isHeader {s : Symbol} (isHeader : IsHeader host s) : s.Unbraced := by
  obtain ⟨d, options, mem, rfl⟩ := isHeader
  exact names.symbol (mem_headerDecls.mp mem).1

/-- The dispatch interface of a header. -/
theorem madeOf_dispatch {s : Symbol} {header : UnionHeader}
    (listed : (ofHost host).unionHeaders.get? s = some header) :
    ∀ t ∈ header.dispatch, t.MadeOf Symbol.Unbraced := by
  intro t given
  rcases SymbolTable.mem_of_get?_foldl_insert _ _ listed with ⟨⟨d, options⟩, mem, -, rfl⟩ | none
  · replace given : dispatchOf? host d options = some t := given
    rw [dispatchOf?] at given
    split at given
    · exact names.madeOf_resolve? given
    · obtain ⟨i, found, rfl⟩ := Option.map_eq_some_iff.mp given
      exact names.madeOf_selfType (List.mem_of_find?_eq_some found)
  · cases none

theorem unbraced_variants : ∀ v ∈ variants host, v.symbol.Unbraced := by
  intro v known
  obtain ⟨d, options, decl, found⟩ := mem_variants.mp known
  obtain ⟨⟨field, header⟩, -, same⟩ := Option.bind_eq_some_iff.mp found
  cases same
  exact names.symbol (Union.mem_declarations_of_variantDecls decl)

/-- The headers that a variant begins with. -/
theorem unbraced_headerChain {v : UnionVariant} (known : v ∈ variants host) :
    ∀ h ∈ (ofHost host).headerChain v.header, h.Unbraced := by
  obtain ⟨d, options, -, found⟩ := mem_variants.mp known
  obtain ⟨⟨field, header⟩, begins, same⟩ := Option.bind_eq_some_iff.mp found
  cases same
  obtain ⟨rest, split, chain⟩ := headerChainIn_split (unionHeaderTable host) header
  intro h mem
  replace mem : h ∈ headerChainIn (unionHeaderTable host) header := mem
  rw [split] at mem
  exact unbraced_of_isHeader names
    (isHeader_of_isChain (isHeader_of_headerField? begins) chain h mem)

omit names in
/-- The cases of a family whose variants have no braces in their names. -/
theorem unbraced_cases {family : UnionFamily} (each : ∀ v ∈ family.variants, v.symbol.Unbraced)
    (ids : List Nat) : ∀ c ∈ family.cases ids, c.Unbraced := by
  have base (v : UnionVariant) : Text.Unbraced (UnionFamily.baseName v) := by
    rw [UnionFamily.baseName]
    cases made : Identifier.sanitize v.symbol.simpleName with
    | none => exact .ofList (by decide)
    | some name => exact unbraced_of_sanitize made
  intro c mem
  have listed := List.mem_map_of_mem (f := UnionCase.name) mem
  rw [UnionFamily.map_names_cases] at listed
  refine ⟨unbraced_of_allocateAll (fun name made => ?_) c.name listed,
    each c.variant (List.of_mem_zip (UnionFamily.mem_cases mem)).2⟩
  obtain ⟨pair, -, rfl⟩ := List.mem_map.mp made
  exact base pair.2

/-- The variants of the family of a header. -/
theorem unbraced_family (s : Symbol) :
    ∀ v ∈ (((ofHost host).families.get? s).getD (.empty s)).variants, v.symbol.Unbraced := by
  cases found : (ofHost host).families.get? s with
  | none => exact List.forall_mem_nil _
  | some family =>
    intro v mem
    have listed := List.mem_map_of_mem (f := Prod.snd) (SymbolTable.mem_of_get? found)
    exact unbraced_variants names v (mem_families listed mem).1

end MarkerIndex

/-- The type of the tag field that a header declares itself. -/
theorem Union.unbraced_tagFieldType? (names : host.Unbraced) (root : Symbol) :
    ∀ t ∈ tagFieldType? host root, Text.Unbraced t := by
  intro text found
  obtain ⟨d, -, rest⟩ := Option.bind_eq_some_iff.mp found
  obtain ⟨f, -, rest⟩ := Option.bind_eq_some_iff.mp rest
  obtain ⟨t, resolves, same⟩ := Option.bind_eq_some_iff.mp rest
  cases same
  exact Host.unbraced_typeText (names.madeOf_resolve? resolves)

end Marksmith

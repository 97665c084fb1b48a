import Marksmith.Proofs.Analysis.Reordering

/-!
Models in which the order of declarations decides nothing by itself.

* `Unambiguous`: neither the ids of variants of one name depend on it, nor which nested interface is
  that of a header, nor which extension method is tried first;
* `exists_reordered`: such a model is accepted in any order of its types, and gives a reordered
  host;
* `distinctVariants`: its variants have different simple names.
-/

namespace Marksmith

open MarkerIndex

/-! ### Lists in another order -/

/-- A list function that gives something for one element at most gives the same in any order. -/
theorem flatMap_perm {α β : Type} {as bs : List α} {f : α → List β}
    (single : ∀ a ∈ bs, ∀ b ∈ bs, f a ≠ [] → f b ≠ [] → a = b) (perm : as.Perm bs) :
    as.flatMap f = bs.flatMap f := by
  have narrowed : ∀ cs : List α, cs.flatMap f = (cs.filter fun a => !(f a).isEmpty).flatMap f := by
    intro cs
    induction cs with
    | nil => rfl
    | cons a cs ih =>
      rw [List.flatMap_cons, ih, List.filter_cons]
      cases here : f a with
      | nil => simp
      | cons b rest => simp [here]
  have kept : (as.filter fun a => !(f a).isEmpty) = bs.filter fun a => !(f a).isEmpty := by
    have unordered : ∀ cs : List α, cs.Pairwise fun _ _ => True :=
      fun cs => List.pairwise_of_forall fun _ _ => trivial
    refine (perm.filter _).eq_of_pairwise ?_ (unordered _) (unordered _)
    intro a b aMem bMem _ _
    obtain ⟨aMem, aSome⟩ := List.mem_filter.mp aMem
    obtain ⟨bMem, bSome⟩ := List.mem_filter.mp bMem
    exact single a (perm.mem_iff.mp aMem) b bMem (by simpa using aSome) (by simpa using bSome)
  rw [narrowed as, narrowed bs, kept]

/-! ### Models -/

/-- A marker stands on a declaration that it may stand on. -/
def TypeDecl.carries (d : TypeDecl) (marker : Marker) : Bool :=
  marker.accepts d.kind && (Attribute.find? marker d.attributes).isSome

/-- The order of declarations decides nothing by itself. -/
structure Model.Unambiguous (m : Model) : Prop where
  /-- No two variants have the same simple name. -/
  variants : ∀ d ∈ m.types, ∀ e ∈ m.types, d.carries .union → e.carries .union →
    d.simpleName = e.simpleName → d.symbol = e.symbol
  /-- No two interfaces are nested in the same header. -/
  nested : ∀ h ∈ m.types, h.carries .unionHeader → ∀ i ∈ m.types, ∀ j ∈ m.types,
    i.kind = .interface → j.kind = .interface → i.containing = some h.name →
      j.containing = some h.name → i.symbol = j.symbol
  /-- One declaration at most has extension methods. -/
  extensions : ∀ d ∈ m.types, ∀ e ∈ m.types, d.methods.any (·.isExtension) →
    e.methods.any (·.isExtension) → d.symbol = e.symbol

namespace Host

variable {limit : Nat} {model : Model} {host : Host} {types : List TypeDecl}

theorem visiblePrelude_perm {types types' : List TypeDecl} (perm : types.Perm types') :
    visiblePrelude types = visiblePrelude types' := by
  simp only [visiblePrelude, perm.any_eq]

/-- A model is accepted in any order of its types. -/
theorem ofModel_perm (accepted : ofModel limit model = .ok host)
    (perm : types.Perm model.types) :
    ofModel limit { model with types }
      = .ok ⟨{ model with types := types ++ visiblePrelude model.types }, limit⟩ := by
  obtain ⟨unique, contained, -⟩ := ofModel_eq_ok_iff.mp accepted
  obtain ⟨distinct, -⟩ := nodup_of_firstDuplicate? unique
  refine ofModel_eq_ok_iff.mpr ⟨?_, ?_, ?_⟩
  · exact firstDuplicate?_eq_none ((perm.map _).nodup_iff.mpr distinct) fun _ known => nomatch known
  · have whole := perm.append_right (visiblePrelude model.types)
    rw [firstUnknownContaining?_eq_none_iff] at contained ⊢
    show ∀ d ∈ types ++ visiblePrelude types, _
    rw [visiblePrelude_perm perm]
    intro d mem outer inside
    rw [whole.any_eq]
    exact contained d (whole.mem_iff.mp mem) outer inside
  · rw [visiblePrelude_perm perm]

/-- A declaration of the prelude has no markers, and is nested in nothing. -/
theorem prelude_plain : ∀ d ∈ Prelude.types, d.attributes.isEmpty ∧ d.containing = none := by
  decide +kernel

theorem mem_types_or_prelude (accepted : ofModel limit model = .ok host) {d : TypeDecl}
    (mem : d ∈ host.declarations) : d ∈ model.types ∨ d ∈ Prelude.types := by
  obtain ⟨-, -, rfl⟩ := ofModel_eq_ok_iff.mp accepted
  rcases List.mem_append.mp mem with own | visible
  · exact .inl own
  · exact .inr (List.mem_filter.mp visible).1

theorem mem_types_of_carries (accepted : ofModel limit model = .ok host) {d : TypeDecl}
    (mem : d ∈ host.declarations) {marker : Marker} (carries : d.carries marker) :
    d ∈ model.types := by
  rcases mem_types_or_prelude accepted mem with own | visible
  · exact own
  · have none := List.isEmpty_iff.mp (prelude_plain d visible).1
    rw [TypeDecl.carries, none, Bool.and_eq_true] at carries
    cases carries.2

theorem carries_of_optionsOf? {α : Type} {marker : Marker} {read : Attribute → Except OptionError α}
    {d : TypeDecl} {options : α} (found : optionsOf? marker read d = some options) :
    d.carries marker := by
  rw [optionsOf?] at found
  split at found
  · next accepts =>
    obtain ⟨a, here, -⟩ := Option.bind_eq_some_iff.mp found
    rw [TypeDecl.carries, accepts, here]
    rfl
  · cases found

/-- Declarations of an accepted model that define the same symbol are the same. -/
theorem eq_of_symbol_eq (accepted : ofModel limit model = .ok host) {d e : TypeDecl}
    (dMem : d ∈ host.declarations) (eMem : e ∈ host.declarations) (same : d.symbol = e.symbol) :
    d = e :=
  List.inj_on_of_nodup_map (nodup_symbols accepted) dMem eMem same

theorem any_isExtension {d : TypeDecl}
    (some : ((d.methods.filter fun m => m.isExtension && !m.params.isEmpty).map fun m => (d, m))
      ≠ []) : d.methods.any (·.isExtension) := by
  rw [Ne, List.map_eq_nil_iff] at some
  obtain ⟨m, mem⟩ := List.exists_mem_of_ne_nil _ some
  obtain ⟨declared, suits⟩ := List.mem_filter.mp mem
  rw [Bool.and_eq_true] at suits
  exact List.any_eq_true.mpr ⟨m, declared, suits.1⟩

/-- The types of an unambiguous model in another order give a reordered host. -/
theorem reorders_of_perm (accepted : ofModel limit model = .ok host)
    (unambiguous : model.Unambiguous) (perm : types.Perm model.types) :
    Host.Reorders
      ⟨{ model with types := types ++ visiblePrelude model.types }, limit⟩ host := by
  obtain ⟨-, -, isHost⟩ := ofModel_eq_ok_iff.mp accepted
  have whole : (types ++ visiblePrelude model.types).Perm host.declarations := by
    rw [isHost]
    exact perm.append_right _
  refine ⟨by rw [isHost], whole, ?_, ?_⟩
  · funext name arity
    refine find?_perm ?_ whole
    intro d dMem e eMem here there
    refine eq_of_symbol_eq accepted dMem eMem ?_
    exact (symbol_eq_iff (s := ⟨name, arity⟩)).mp here ▸
      ((symbol_eq_iff (s := ⟨name, arity⟩)).mp there).symm
  · rw [isHost]
    show (types ++ visiblePrelude model.types).flatMap _ =
      (model.types ++ visiblePrelude model.types).flatMap _
    rw [List.flatMap_append, List.flatMap_append]
    congr 1
    refine flatMap_perm ?_ perm
    have declared : ∀ d ∈ model.types, d ∈ host.declarations := by
      intro d mem
      rw [isHost]
      exact List.mem_append_left _ mem
    intro d dMem e eMem dSome eSome
    exact eq_of_symbol_eq accepted (declared d dMem) (declared e eMem)
      (unambiguous.extensions d dMem e eMem (any_isExtension dSome) (any_isExtension eSome))

theorem sameDispatch_of_perm (accepted : ofModel limit model = .ok host)
    (unambiguous : model.Unambiguous) (perm : types.Perm model.types) :
    SameDispatch ⟨{ model with types := types ++ visiblePrelude model.types }, limit⟩ host := by
  have whole : (types ++ visiblePrelude model.types).Perm host.declarations := by
    obtain ⟨-, -, rfl⟩ := ofModel_eq_ok_iff.mp accepted
    exact perm.append_right _
  intro h options header
  obtain ⟨hMem, read⟩ := mem_headerDecls.mp header
  have marked := carries_of_optionsOf? read
  refine find?_perm ?_ whole
  intro i iMem j jMem here there
  rw [Bool.and_eq_true, beq_iff_eq, beq_iff_eq] at here there
  have own : ∀ d ∈ host.declarations, d.containing = some h.name → d ∈ model.types := by
    intro d mem inside
    rcases mem_types_or_prelude accepted mem with own | visible
    · exact own
    · cases (prelude_plain d visible).2.symm.trans inside
  refine eq_of_symbol_eq accepted iMem jMem ?_
  exact unambiguous.nested h (mem_types_of_carries accepted hMem marked) marked i
    (own i iMem here.2) j (own j jMem there.2) here.1 there.1 here.2 there.2

/-- An unambiguous model is accepted in any order of its types, and gives a reordered host. -/
theorem exists_reordered (accepted : ofModel limit model = .ok host)
    (unambiguous : model.Unambiguous) (perm : types.Perm model.types) :
    ∃ other, ofModel limit { model with types } = .ok other ∧ other.Reorders host ∧
      SameDispatch other host ∧ other.model.assemblyAttributes = host.model.assemblyAttributes := by
  refine ⟨_, ofModel_perm accepted perm, reorders_of_perm accepted unambiguous perm,
    sameDispatch_of_perm accepted unambiguous perm, ?_⟩
  obtain ⟨-, -, rfl⟩ := ofModel_eq_ok_iff.mp accepted
  rfl

/-- The variants of an unambiguous model have different simple names. -/
theorem distinctVariants (accepted : ofModel limit model = .ok host)
    (unambiguous : model.Unambiguous) : DistinctVariants host := by
  rw [DistinctVariants, List.nodup_iff_pairwise_ne, List.pairwise_map]
  have symbols := List.pairwise_map.mp (nodup_variants accepted)
  refine symbols.imp_of_mem ?_
  intro v w vMem wMem apart sameName
  have declared : ∀ u ∈ variants host,
      ∃ d ∈ model.types, d.carries .union ∧ d.symbol = u.symbol := by
    intro u mem
    obtain ⟨d, options, decl, found⟩ := mem_variants.mp mem
    obtain ⟨e, there, read⟩ := List.mem_filterMap.mp decl
    obtain ⟨given, read, pair⟩ := Option.map_eq_some_iff.mp read
    cases pair
    have marked := carries_of_optionsOf? read
    refine ⟨d, mem_types_of_carries accepted there marked, marked, ?_⟩
    obtain ⟨_, -, made⟩ := Option.bind_eq_some_iff.mp found
    cases made
    rfl
  obtain ⟨d, dMem, dMarked, dSymbol⟩ := declared v vMem
  obtain ⟨e, eMem, eMarked, eSymbol⟩ := declared w wMem
  refine apart ?_
  rw [← dSymbol, ← eSymbol] at sameName ⊢
  exact unambiguous.variants d dMem e eMem dMarked eMarked sameName

end Host

end Marksmith

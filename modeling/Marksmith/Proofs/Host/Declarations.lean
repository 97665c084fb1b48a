import Marksmith.Host.Resolve
import Mathlib.Data.List.Nodup

/-!
Declarations of accepted projects. No two of them define the same symbol, so a declaration is what
its own symbol denotes (`declaration?_symbol`), and a type over its own parameters is left alone by
substitution (`substitute_selfType`). `ofModel_eq_ok_iff` says which models are accepted.
-/

namespace Marksmith

open Syntax (TypeRef)

namespace Host

/-! ### Symbols are declared once -/

theorem nodup_of_firstDuplicate? {seen : List Symbol} {ds : List TypeDecl}
    (h : firstDuplicate? seen ds = none) :
    (ds.map TypeDecl.symbol).Nodup ∧ ∀ s ∈ seen, s ∉ ds.map TypeDecl.symbol := by
  induction ds generalizing seen with
  | nil => simp
  | cons d ds ih =>
    rw [firstDuplicate?] at h
    split at h
    · cases h
    · next fresh =>
      obtain ⟨distinct, apart⟩ := ih h
      refine ⟨List.nodup_cons.mpr ⟨apart d.symbol List.mem_cons_self, distinct⟩, ?_⟩
      intro s known
      rw [List.map_cons, List.mem_cons]
      rintro (same | later)
      · exact fresh (same ▸ known)
      · exact apart s (List.mem_cons_of_mem _ known) later

theorem nodup_prelude : (Prelude.types.map TypeDecl.symbol).Nodup := by decide +kernel

/-- The declarations of an accepted project define different symbols. -/
theorem nodup_symbols {limit : Nat} {model : Model} {host : Host}
    (accepted : ofModel limit model = .ok host) :
    (host.declarations.map TypeDecl.symbol).Nodup := by
  unfold ofModel at accepted
  split at accepted
  · cases accepted
  · next unique =>
    dsimp only at accepted
    split at accepted
    · cases accepted
    · cases accepted
      show ((model.types ++ visiblePrelude model.types).map TypeDecl.symbol).Nodup
      rw [List.map_append, List.nodup_append']
      refine ⟨(nodup_of_firstDuplicate? unique).1, ?_, ?_⟩
      · exact nodup_prelude.sublist (List.filter_sublist.map _)
      · intro s own hidden
        obtain ⟨d, mem, rfl⟩ := List.mem_map.mp hidden
        obtain ⟨t, there, same⟩ := List.mem_map.mp own
        have visible := (List.mem_filter.mp mem).2
        rw [Bool.not_eq_true', List.any_eq_false] at visible
        exact visible t there (decide_eq_true same)

theorem symbol_eq_iff {d : TypeDecl} {s : Symbol} :
    (d.name == s.name && d.typeParams.length == s.arity) = true ↔ d.symbol = s := by
  obtain ⟨name, arity⟩ := s
  simp [TypeDecl.symbol]

variable {host : Host}

/-- What a symbol denotes is a declaration of that symbol. -/
theorem symbol_of_declaration? {s : Symbol} {d : TypeDecl} (h : host.declaration? s = some d) :
    d ∈ host.declarations ∧ d.symbol = s := by
  rw [declaration?, lookup?] at h
  have suits := List.find?_some h
  exact ⟨List.mem_of_find?_eq_some h, symbol_eq_iff.mp suits⟩

/-- A declaration of an accepted project is what its symbol denotes. -/
theorem declaration?_symbol {limit : Nat} {model : Model}
    (accepted : ofModel limit model = .ok host) {d : TypeDecl} (mem : d ∈ host.declarations) :
    host.declaration? d.symbol = some d := by
  have found : (host.declaration? d.symbol).isSome := by
    rw [declaration?, lookup?, List.find?_isSome]
    exact ⟨d, mem, symbol_eq_iff.mpr rfl⟩
  obtain ⟨e, denotes⟩ := Option.isSome_iff_exists.mp found
  obtain ⟨other, same⟩ := symbol_of_declaration? denotes
  rw [denotes, List.inj_on_of_nodup_map (nodup_symbols accepted) other mem same]

/-- The types around a declaration are declared. -/
theorem mem_of_mem_enclosing {limit : Nat} {d e : TypeDecl} (there : d ∈ host.declarations)
    (mem : e ∈ host.enclosing limit d) : e ∈ host.declarations := by
  induction limit generalizing d with
  | zero => cases mem
  | succ limit ih =>
    rcases List.mem_cons.mp mem with rfl | further
    · exact there
    · cases found : host.containing? d with
      | none =>
        rw [found] at further
        cases further
      | some outer =>
        rw [found] at further
        obtain ⟨name, -, rest⟩ := Option.bind_eq_some_iff.mp found
        obtain ⟨arity, -, lookup⟩ := List.exists_of_findSome?_eq_some rest
        exact ih (List.mem_of_find?_eq_some lookup) further

/-- Visible type parameters are declared somewhere. -/
theorem exists_of_mem_visibleTypeParams {context : Symbol} {p : String}
    (mem : p ∈ host.visibleTypeParams context) : ∃ d ∈ host.declarations, p ∈ d.typeParams := by
  rw [visibleTypeParams] at mem
  split at mem
  · cases mem
  · next d denotes =>
    obtain ⟨e, inside, own⟩ := List.mem_flatMap.mp mem
    exact ⟨e, mem_of_mem_enclosing (symbol_of_declaration? denotes).1 inside, own⟩

/-! ### Accepted models -/

theorem firstDuplicate?_eq_none {seen : List Symbol} {ds : List TypeDecl}
    (distinct : (ds.map TypeDecl.symbol).Nodup) (apart : ∀ s ∈ seen, s ∉ ds.map TypeDecl.symbol) :
    firstDuplicate? seen ds = none := by
  induction ds generalizing seen with
  | nil => rfl
  | cons d ds ih =>
    obtain ⟨fresh, rest⟩ := List.nodup_cons.mp distinct
    rw [firstDuplicate?, if_neg fun known => apart _ known List.mem_cons_self]
    refine ih rest ?_
    intro s known later
    rcases List.mem_cons.mp known with rfl | earlier
    · exact fresh later
    · exact apart s earlier (List.mem_cons_of_mem _ later)

theorem firstUnknownContaining?_eq_none_iff {types : List TypeDecl} :
    firstUnknownContaining? types = none ↔
      ∀ d ∈ types, ∀ outer, d.containing = some outer → types.any (·.name == outer) := by
  rw [firstUnknownContaining?, List.findSome?_eq_none_iff]
  refine forall_congr' fun d => imp_congr_right fun _ => ?_
  cases d.containing with
  | none => simp
  | some outer => simp

/-- When a model is accepted, and the host that it gives. -/
theorem ofModel_eq_ok_iff {limit : Nat} {model : Model} {host : Host} :
    ofModel limit model = .ok host ↔ firstDuplicate? [] model.types = none ∧
      firstUnknownContaining? (model.types ++ visiblePrelude model.types) = none ∧
      host = ⟨{ model with types := model.types ++ visiblePrelude model.types }, limit⟩ := by
  rw [ofModel]
  cases firstDuplicate? [] model.types with
  | some s => simp
  | none =>
    cases contained : firstUnknownContaining? (model.types ++ visiblePrelude model.types) with
    | some names => simp [contained]
    | none => simp [contained, eq_comm]

/-- A model together with the declarations of the prelude that it does not hide. -/
def withPrelude (model : Model) : Host :=
  ⟨{ model with types := model.types ++ visiblePrelude model.types }, usualStepLimit⟩

theorem ofModel_withPrelude {model : Model} (distinct : firstDuplicate? [] model.types = none)
    (contained : firstUnknownContaining? (model.types ++ visiblePrelude model.types) = none) :
    ofModel usualStepLimit model = .ok (withPrelude model) := by
  simp only [ofModel, distinct, contained]
  rfl

end Host

/-! ### Types over their own parameters -/

namespace Syntax.TypeRef

theorem argumentFor?_named (params : List String) (name : String) :
    argumentFor? params (params.map named) name
      = if name ∈ params then some (named name) else none := by
  unfold argumentFor?
  induction params with
  | nil => rfl
  | cons p params ih =>
    by_cases here : p = name
    · simp [List.findIdx?_cons, here]
    · have apart : ¬name = p := fun h => here h.symm
      cases place : params.findIdx? (· == name) with
      | none =>
        simp only [place, List.findIdx?_cons] at ih ⊢
        simp_all
      | some i =>
        simp only [place, List.findIdx?_cons] at ih ⊢
        simp_all

theorem applied_named (name : String) (nullable : Bool) (rank : UInt8) :
    (named name).applied nullable rank = ⟨name, [], nullable, rank⟩ := by
  simp [applied, named]

mutual

/-- Type parameters stand for themselves. -/
theorem substitute_named (params : List String) (t : TypeRef) :
    t.substitute params (params.map named) = t := by
  obtain ⟨name, args, nullable, rank⟩ := t
  rw [substitute]
  split
  · rfl
  · rw [argumentFor?_named, substituteAll_named params args]
    cases args with
    | nil =>
      by_cases parameter : name ∈ params
      · simp [parameter, applied_named]
      · simp [parameter]
    | cons t args => simp

theorem substituteAll_named (params : List String) (ts : List TypeRef) :
    substituteAll params (params.map named) ts = ts := by
  cases ts with
  | nil => rfl
  | cons t ts => rw [substituteAll, substitute_named params t, substituteAll_named params ts]

end

end Syntax.TypeRef

namespace TypeDecl

@[simp] theorem ofType_selfType (d : TypeDecl) : Symbol.ofType d.selfType = d.symbol := by
  simp [Symbol.ofType, selfType, TypeRef.generic, symbol]

@[simp] theorem substitute_selfType (d : TypeDecl) (t : TypeRef) :
    t.substitute d.typeParams d.selfType.args = t :=
  TypeRef.substitute_named d.typeParams t

end TypeDecl

end Marksmith

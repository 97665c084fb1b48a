import Marksmith.Proofs.Binding.Respelling
import Marksmith.Proofs.Binding.Values

/-!
Signatures of methods whose type parameters have other names.

* `MethodDecl.renamed`, `MethodDecl.Respells`: a method with other names for its type parameters, and
  when this is one and the same method: values are made of neither name, the declaration around the
  method has neither, and no new name stands in the signature already;
* `resolveWith?_renamed`: the types of the signature resolve alike;
* `signature?_rel`: at a call, the method has the same signature under the new names.
-/

namespace Marksmith

open Syntax (TypeRef)

/-- The types of a method's signature. -/
def MethodDecl.signatureTypes (m : MethodDecl) : List TypeRef := m.returns :: m.params.map (·.type)

/-- A method with other names for its type parameters. -/
def MethodDecl.renamed (m : MethodDecl) (ρ : String → String) : MethodDecl :=
  { m with
    typeParams := m.typeParams.map ρ
    params := m.params.map fun p => { p with type := p.type.renamed m.typeParams ρ }
    returns := m.returns.renamed m.typeParams ρ }

namespace Binding

open Syntax.TypeRef

/-- New names for the type parameters of a declaration's method that leave it the same method. -/
structure Respells (Q : Symbol → Prop) (d : TypeDecl) (m : MethodDecl) (ρ : String → String) :
    Prop where
  names : Renames Q m.typeParams ρ
  unshadowed : ∀ p ∈ m.typeParams, ρ p ≠ p → p ∉ d.typeParams ∧ ρ p ∉ d.typeParams
  unwritten : ∀ t ∈ m.signatureTypes, ∀ s ∈ t.parts, s.args = [] → s.name ∈ m.typeParams.map ρ →
    s.name ∈ m.typeParams

variable {Q : Symbol → Prop} {params : List String} {ρ : String → String} {host : Host}

/-- All names may stay as they are. -/
theorem Respells.keep (Q : Symbol → Prop) (d : TypeDecl) (m : MethodDecl) : Respells Q d m id where
  names := .keep Q m.typeParams
  unshadowed _ _ moved := absurd rfl moved
  unwritten _ _ _ _ _ mem := by rwa [List.map_id] at mem

theorem renamed_id (m : MethodDecl) : m.renamed id = m := by
  have types : TypeRef.renamed m.typeParams id = id := by
    funext t
    exact (Renames.keep (fun _ => True) m.typeParams).renamed_eq_self fun _ _ => trivial
  rw [MethodDecl.renamed, types, List.map_id]
  exact congrArg (fun params => { m with params }) (List.map_id m.params)

/-! ### Resolution -/

/-- A definition keeps its name. -/
theorem renamed_definition (names : Renames Q params ρ) {name : String} {args : List TypeRef}
    (definition : Q ⟨name, args.length⟩) (nullable : Bool) (rank : UInt8) :
    (⟨name, args, nullable, rank⟩ : TypeRef).renamed params ρ
      = ⟨name, args.map (renamed params ρ), nullable, rank⟩ := by
  by_cases own : args = [] ∧ name ∈ params
  · obtain ⟨rfl, mem⟩ := own
    rw [renamed_parameter rfl mem, names.fixed mem (.inl definition), List.map_nil]
  · rw [renamed_other own]

mutual

/-- The types of a signature resolve alike under the new names. -/
theorem resolveWith?_renamed (names : Renames Q params ρ)
    (declared : ∀ d ∈ host.declarations, Q d.symbol) (context : Symbol) :
    ∀ t : TypeRef, (∀ s ∈ t.parts, s.args = [] → s.name ∈ params.map ρ → s.name ∈ params) →
      host.resolveWith? context (params.map ρ) (t.renamed params ρ)
        = (host.resolveWith? context params t).map (renamed params ρ)
  | ⟨name, args, nullable, rank⟩, unwritten => by
    by_cases own : args = [] ∧ name ∈ params
    · obtain ⟨rfl, mem⟩ := own
      have old : params.contains name = true := List.contains_iff_mem.mpr mem
      have new : (params.map ρ).contains (ρ name) = true :=
        List.contains_iff_mem.mpr (List.mem_map_of_mem mem)
      rw [renamed_parameter rfl mem, Host.resolveWith?, Host.resolveWith?, Host.resolveAll?, old,
        new]
      simp only [List.isEmpty_nil, Bool.or_true, Bool.true_or, Bool.and_self, if_true]
      exact congrArg some (renamed_parameter (t := ⟨name, [], nullable, rank⟩) rfl mem).symm
    · have inner := resolveAll?_renamed names declared context args fun a arg s part =>
        unwritten s (mem_parts.mpr (.inr ⟨a, arg, part⟩))
      have visible : (args.isEmpty && (params.map ρ).contains name)
          = (args.isEmpty && params.contains name) := by
        rw [Bool.eq_iff_iff, Bool.and_eq_true, Bool.and_eq_true, List.isEmpty_iff,
          List.contains_iff_mem, List.contains_iff_mem]
        refine iff_of_false (fun new => own ⟨new.1, ?_⟩) own
        exact unwritten _ (self_mem_parts _) new.1 new.2
      have lengths : ∀ resolved, host.resolveAll? context params args = some resolved →
          resolved.length = args.length := fun resolved found =>
        (Host.madeOf_resolveAll? (Q := fun _ => True) (fun _ _ => trivial) (fun _ _ => trivial)
          (fun _ _ => trivial) found).2
      rw [renamed_other own, Host.resolveWith?, Host.resolveWith?, inner, List.isEmpty_map,
        List.length_map]
      have stays : (args.isEmpty && (Engine.isPredefinedType name || (params.map ρ).contains name ||
            (host.visibleTypeParams context).contains name))
          = (args.isEmpty && (Engine.isPredefinedType name || params.contains name ||
            (host.visibleTypeParams context).contains name)) := by
        simp only [Bool.and_or_distrib_left, visible]
      rw [stays]
      cases found : host.resolveAll? context params args with
      | none => rfl
      | some resolved =>
        have length := lengths resolved found
        rw [Option.map_some]
        dsimp only [Option.bind_eq_bind, Option.bind_some, Option.pure_def]
        split
        · next bare =>
          have plain : args = [] := List.isEmpty_iff.mp (Bool.and_eq_true_iff.mp bare).1
          have other : ¬(resolved = [] ∧ name ∈ params) := fun both => own ⟨plain, both.2⟩
          exact congrArg some (renamed_other (t := ⟨name, resolved, nullable, rank⟩) other).symm
        · cases denoted : host.resolveDefinition? context name args.length with
          | none => rfl
          | some definition =>
            obtain ⟨d, mem, symbol⟩ := Host.declared_of_resolveDefinition? denoted
            have known : Q ⟨definition, resolved.length⟩ := by
              rw [length, ← symbol]
              exact declared d mem
            exact congrArg some (renamed_definition names known nullable rank).symm

theorem resolveAll?_renamed (names : Renames Q params ρ)
    (declared : ∀ d ∈ host.declarations, Q d.symbol) (context : Symbol) :
    ∀ ts : List TypeRef,
      (∀ t ∈ ts, ∀ s ∈ t.parts, s.args = [] → s.name ∈ params.map ρ → s.name ∈ params) →
      host.resolveAll? context (params.map ρ) (ts.map (renamed params ρ))
        = (host.resolveAll? context params ts).map (List.map (renamed params ρ))
  | [], _ => rfl
  | t :: ts, unwritten => by
    obtain ⟨first, rest⟩ := List.forall_mem_cons.mp unwritten
    rw [List.map_cons, Host.resolveAll?, Host.resolveAll?,
      resolveWith?_renamed names declared context t first,
      resolveAll?_renamed names declared context ts rest]
    cases host.resolveWith? context params t with
    | none => rfl
    | some one => cases host.resolveAll? context params ts <;> rfl

end

/-! ### Signatures -/

/-- A candidate of a call, and the same method under the new names. -/
structure Recast (host : Host) (Q : Symbol → Prop) (ρ : String → String) (c c' : Candidate) :
    Prop where
  outline : c.decl.SameOutline c'.decl
  declared : c.decl ∈ host.declarations
  declaring : c'.declaring = c.declaring
  lengths : c.declaring.args.length = c.decl.typeParams.length
  made : ∀ a ∈ c.declaring.args, a.MadeOf Q
  respells : Respells Q c.decl c.method ρ
  method : c'.method = c.method.renamed ρ

/-- A type of a candidate's signature, with the type arguments of the type that declares it. -/
def Candidate.typeOf? (host : Host) (c : Candidate) (t : TypeRef) : Option TypeRef :=
  (host.resolveWith? c.decl.symbol c.method.typeParams t).map
    (·.substitute c.decl.typeParams c.declaring.args)

/-- The signature of a candidate at a call, under the new names. -/
structure SameSignature (Q : Symbol → Prop) (params : List String) (ρ : String → String)
    (σ σ' : Signature) : Prop where
  returns : Respelled Q params ρ σ.returns σ'.returns
  inferred : Retabled Q params ρ σ.inferred σ'.inferred
  params : List.Forall₂ (Respelled Q params ρ) σ.params σ'.params

namespace Recast

variable {c c' : Candidate} (recast : Recast host Q ρ c c')

include recast

theorem typeOf?_rel (covers : host.Covers Q) {t : TypeRef} (mem : t ∈ c.method.signatureTypes) :
    Option.Rel (Respelled Q c.method.typeParams ρ) (c.typeOf? host t)
      (c'.typeOf? host (t.renamed c.method.typeParams ρ)) := by
  have respells := recast.respells
  have typeParams : c'.method.typeParams = c.method.typeParams.map ρ := by
    rw [recast.method, MethodDecl.renamed]
  rw [Candidate.typeOf?, Candidate.typeOf?, recast.outline.symbol_eq, recast.outline.typeParams_eq,
    recast.declaring, typeParams,
    resolveWith?_renamed respells.names covers.declared _ t (respells.unwritten t mem)]
  cases found : host.resolveWith? c.decl.symbol c.method.typeParams t with
  | none => exact .none
  | some resolved =>
    refine .some ⟨covers.madeOf_placed recast.declared found recast.lengths recast.made, ?_⟩
    refine renamed_substitute (fun a arg => respells.names.renamed_eq_self (recast.made a arg)) ?_
    intro s _ plain
    by_cases own : s.name ∈ c.method.typeParams
    · rw [renamed_parameter plain own]
      by_cases kept : ρ s.name = s.name
      · rw [kept]
      · obtain ⟨old, new⟩ := respells.unshadowed s.name own kept
        rw [argumentFor?_of_not_mem old, argumentFor?_of_not_mem new]
    · rw [renamed_other fun both => own both.2]

variable {site : Site}

/-- Type arguments that are written at a call, for the type parameters under their new names. -/
theorem writtenTypeArgs?_rel (covers : host.Covers Q)
    (visible : ∀ p ∈ host.visibleTypeParams site.owner, Q ⟨p, 0⟩) (written : List TypeRef) :
    Option.Rel (Retabled Q c.method.typeParams ρ)
      (writtenTypeArgs? host site c.method.typeParams written)
      (writtenTypeArgs? host site c'.method.typeParams written) := by
  have typeParams : c'.method.typeParams = c.method.typeParams.map ρ := by
    rw [recast.method, MethodDecl.renamed]
  rw [typeParams, writtenTypeArgs?, writtenTypeArgs?, List.length_map]
  split
  · exact .some .nil
  · split
    · exact .none
    · cases found : written.mapM (host.resolve? site.owner) with
      | none => exact .none
      | some args =>
        have made : ∀ a ∈ args, a.MadeOf Q := forall_mem_of_mapM
          (fun t _ a resolves => Host.madeOf_resolveWith? covers.declared covers.predefined
            (fun p either => visible p (either.resolve_left List.not_mem_nil)) resolves) found
        refine .some ⟨fun b mem => ?_, ?_⟩
        · obtain ⟨own, arg⟩ := List.of_mem_zip (List.mem_reverse.mp mem)
          exact ⟨own, made b.2 arg⟩
        · rw [List.map_reverse, List.zip_map_left]
          rfl

/-- At a call, the method has the same signature under its new names. -/
theorem signature?_rel (covers : host.Covers Q)
    (visible : ∀ p ∈ host.visibleTypeParams site.owner, Q ⟨p, 0⟩) (written : List TypeRef)
    {receiver : Option TypeRef} (made : ∀ t ∈ receiver, t.MadeOf Q) (count : Nat) :
    Option.Rel (SameSignature Q c.method.typeParams ρ)
      (signature? host site c written receiver count)
      (signature? host site c' written receiver count) := by
  have typeParams : c'.method.typeParams = c.method.typeParams.map ρ := by
    rw [recast.method, MethodDecl.renamed]
  have params : Option.Rel (List.Forall₂ (Respelled Q c.method.typeParams ρ))
      (c.method.params.mapM fun p => c.typeOf? host p.type)
      (c'.method.params.mapM fun p => c'.typeOf? host p.type) := by
    refine mapM_of_forall₂ ?_
    rw [recast.method, MethodDecl.renamed, List.forall₂_map_right_iff]
    refine List.forall₂_same.mpr fun p mem => recast.typeOf?_rel covers ?_
    exact List.mem_cons_of_mem _ (List.mem_map_of_mem mem)
  have returns : Option.Rel (Respelled Q c.method.typeParams ρ) (c.typeOf? host c.method.returns)
      (c'.typeOf? host c'.method.returns) := by
    rw [recast.method]
    exact recast.typeOf?_rel covers List.mem_cons_self
  have inferred := recast.writtenTypeArgs?_rel covers visible written
  rw [signature?, signature?]
  refine rel_bind params fun ps ps' params => rel_bind returns fun r r' returns =>
    rel_bind inferred fun i i' inferred => ?_
  cases receiver with
  | none =>
    dsimp only
    rw [params.length_eq]
    split
    · exact .some ⟨returns, inferred, params⟩
    · exact .none
  | some t =>
    cases params with
    | nil => exact .none
    | cons spelled others =>
      have unified := unify?_rel recast.respells.names covers spelled (made t rfl) inferred
      rw [← typeParams] at unified
      refine rel_bind unified fun j j' inferred => ?_
      rw [others.length_eq]
      split
      · exact .some ⟨returns, inferred, others⟩
      · exact .none

end Recast

end Binding

end Marksmith

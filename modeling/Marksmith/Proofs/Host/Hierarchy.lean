import Marksmith.Analysis.Facts
import Marksmith.Proofs.Host.Declarations
import Mathlib.Data.Set.Finite.List
import Mathlib.Logic.Relation
import Mathlib.Order.WellFounded

/-!
Class hierarchies as the compiler of a project accepts them.

* `Hierarchy`: classes derive from classes that are not sealed, and from none of their own
  descendants;
* `mem_baseChain`: the base types of a class are classes above it that are not sealed;
* `Hierarchy.wellFounded`, `Hierarchy.exists_top`: going up from class to class comes to an end;
* `hierarchy_of_rank`: a rank that base types lower shows that classes form a hierarchy.
-/

namespace Marksmith.Host

open Syntax (TypeRef)
open Relation (TransGen ReflTransGen)

variable {host : Host}

/-- The base type of a declaration over its own type parameters. -/
def baseOf? (host : Host) (d : TypeDecl) : Option TypeRef := d.base.bind (host.resolve? d.symbol)

/-- A definition whose base type is an instance of another definition. -/
def Derives (host : Host) (s u : Symbol) : Prop :=
  ∃ d base, host.declaration? s = some d ∧ host.baseOf? d = some base ∧ .ofType base = u

/-- What the compiler of a project guarantees about classes. -/
structure Hierarchy (host : Host) : Prop where
  /-- The base of a class is no type parameter. -/
  defined : ∀ d ∈ host.declarations, d.kind = .class → ∀ base, host.baseOf? d = some base →
    ¬(base.args = [] ∧ base.name ∈ d.typeParams)
  isClass : ∀ d ∈ host.declarations, d.kind = .class → ∀ base, host.baseOf? d = some base →
    ∀ b, host.declaration? (.ofType base) = some b → b.kind = .class
  notSealed : ∀ d ∈ host.declarations, d.kind = .class → ∀ base, host.baseOf? d = some base →
    ∀ b, host.declaration? (.ofType base) = some b → b.isSealed = false
  acyclic : ∀ s, ¬TransGen (Derives host) s s

/-- A symbol that denotes a class, if anything. -/
def IsClass (host : Host) (s : Symbol) : Prop :=
  ∀ d, host.declaration? s = some d → d.kind = .class

theorem isClass_of_kind {s : Symbol} {d : TypeDecl} (declared : host.declaration? s = some d)
    (kind : d.kind = .class) : host.IsClass s := by
  intro e same
  cases declared.symm.trans same
  exact kind

/-! ### Base types -/

/-- A type that is no type parameter keeps its definition under substitution. -/
theorem ofType_substitute {params : List String} {t : TypeRef}
    (free : ¬(t.args = [] ∧ t.name ∈ params)) (args : List TypeRef) :
    Symbol.ofType (t.substitute params args) = .ofType t := by
  obtain ⟨name, targs, nullable, rank⟩ := t
  rw [TypeRef.substitute]
  split
  · rfl
  · have kept : (if targs.isEmpty then TypeRef.argumentFor? params args name else none) = none := by
      split
      · next alone =>
        have absent : name ∉ params := fun parameter => free ⟨List.isEmpty_iff.mp alone, parameter⟩
        have unplaced : params.findIdx? (· == name) = none := by
          rw [List.findIdx?_eq_none_iff]
          intro p mem
          exact beq_eq_false_iff_ne.mpr fun same => absent (same ▸ mem)
        simp only [TypeRef.argumentFor?, unplaced]
        rfl
      · rfl
    rw [kept, TypeRef.substituteAll_eq]
    simp [Symbol.ofType]

/-- The base type of a class is an instance of the definition that the class derives from. -/
theorem derives_of_baseType? (hierarchy : Hierarchy host) {t base : TypeRef}
    (isClass : host.IsClass (.ofType t)) (link : host.baseType? t = some base) :
    Derives host (.ofType t) (.ofType base) ∧
      ∀ b, host.declaration? (.ofType base) = some b → b.kind = .class ∧ b.isSealed = false := by
  obtain ⟨d, declared, rest⟩ := Option.bind_eq_some_iff.mp link
  obtain ⟨written, listed, rest⟩ := Option.bind_eq_some_iff.mp rest
  obtain ⟨resolved, meaning, same⟩ := Option.bind_eq_some_iff.mp rest
  cases same
  have mem := (symbol_of_declaration? declared).1
  have kind := isClass d declared
  have found : host.baseOf? d = some resolved := by rw [baseOf?, listed]; exact meaning
  rw [ofType_substitute (hierarchy.defined d mem kind resolved found)]
  refine ⟨⟨d, resolved, declared, found, rfl⟩, fun b above => ?_⟩
  exact ⟨hierarchy.isClass d mem kind resolved found b above,
    hierarchy.notSealed d mem kind resolved found b above⟩

theorem mem_baseChainFrom (hierarchy : Hierarchy host) {steps : Nat} {before : List Symbol}
    {t b : TypeRef} (isClass : host.IsClass (.ofType t))
    (mem : b ∈ host.baseChainFrom steps before t) :
    TransGen (Derives host) (.ofType t) (.ofType b) ∧
      ∀ d, host.declaration? (.ofType b) = some d → d.kind = .class ∧ d.isSealed = false := by
  induction steps generalizing before t with
  | zero => cases mem
  | succ steps ih =>
    rw [baseChainFrom] at mem
    split at mem
    · next base link =>
      obtain ⟨derives, above⟩ := derives_of_baseType? hierarchy isClass link
      split at mem
      · cases mem
      · rcases List.mem_cons.mp mem with rfl | later
        · exact ⟨.single derives, above⟩
        · obtain ⟨further, kind⟩ := ih (fun d declared => (above d declared).1) later
          exact ⟨.head derives further, kind⟩
    · cases mem

/-- The base types of a class are above it, and they are classes that are not sealed. -/
theorem mem_baseChain (hierarchy : Hierarchy host) {t b : TypeRef}
    (isClass : host.IsClass (.ofType t)) (mem : b ∈ host.baseChain t) :
    TransGen (Derives host) (.ofType t) (.ofType b) ∧
      ∀ d, host.declaration? (.ofType b) = some d → d.kind = .class ∧ d.isSealed = false :=
  mem_baseChainFrom hierarchy isClass mem

/-! ### Going up comes to an end -/

/-- There is no endless way up, as there are finitely many declarations and none is above itself. -/
theorem Hierarchy.wellFounded (hierarchy : Hierarchy host) :
    WellFounded fun u s => Derives host s u := by
  let Declared := { s : Symbol // s ∈ host.declarations.map TypeDecl.symbol }
  have finite : Finite Declared := (List.finite_toSet _).to_subtype
  let above (u s : Declared) : Prop := TransGen (Derives host) s.1 u.1
  have trans : IsTrans Declared above := ⟨fun u s t first second => second.trans first⟩
  have irrefl : Std.Irrefl above := ⟨fun s => hierarchy.acyclic s.1⟩
  have declared : ∀ {s u}, Derives host s u → s ∈ host.declarations.map TypeDecl.symbol := by
    rintro s u ⟨d, base, found, -, -⟩
    obtain ⟨mem, rfl⟩ := symbol_of_declaration? found
    exact List.mem_map_of_mem mem
  have undeclared : ∀ s, s ∉ host.declarations.map TypeDecl.symbol →
      Acc (fun u s => Derives host s u) s :=
    fun s absent => .intro s fun u derives => absurd (declared derives) absent
  have reach : ∀ s : Declared, Acc (fun u s => Derives host s u) s.1 := by
    intro s
    induction s using (Finite.wellFounded_of_trans_of_irrefl above).induction with
    | _ s ih =>
      refine .intro s.1 fun u derives => ?_
      by_cases mem : u ∈ host.declarations.map TypeDecl.symbol
      · exact ih ⟨u, mem⟩ (.single derives)
      · exact undeclared u mem
  refine ⟨fun s => ?_⟩
  by_cases mem : s ∈ host.declarations.map TypeDecl.symbol
  · exact reach ⟨s, mem⟩
  · exact undeclared s mem

/-- Steps that lead upwards lead to a definition from which there is no such step. -/
theorem Hierarchy.exists_top (hierarchy : Hierarchy host) {up : Symbol → Option Symbol}
    {Inside : Symbol → Prop}
    (step : ∀ s u, Inside s → up s = some u → TransGen (Derives host) s u ∧ Inside u) {s : Symbol}
    (start : Inside s) :
    ∃ top, ReflTransGen (fun s u => up s = some u) s top ∧ up top = none := by
  induction s using hierarchy.wellFounded.transGen.induction with
  | _ s ih =>
    cases next : up s with
    | none => exact ⟨s, .refl, next⟩
    | some u =>
      obtain ⟨above, inside⟩ := step s u start next
      obtain ⟨top, way, last⟩ := ih u (Relation.transGen_swap.mpr above) inside
      exact ⟨top, .head next way, last⟩

/-! ### Ranks -/

/-- Whether classes form a hierarchy can be read off a rank that base types lower. -/
theorem hierarchy_of_rank (rank : Symbol → Nat)
    (lower : ∀ d ∈ host.declarations, ∀ base ∈ (host.baseOf? d).toList,
      rank (.ofType base) < rank d.symbol ∧ ¬(base.args = [] ∧ base.name ∈ d.typeParams) ∧
        ∀ b ∈ (host.declaration? (.ofType base)).toList, b.kind = .class ∧ b.isSealed = false) :
    Hierarchy host where
  defined d mem _ base found := (lower d mem base (Option.mem_toList.mpr found)).2.1
  isClass d mem _ base found b above :=
    ((lower d mem base (Option.mem_toList.mpr found)).2.2 b (Option.mem_toList.mpr above)).1
  notSealed d mem _ base found b above :=
    ((lower d mem base (Option.mem_toList.mpr found)).2.2 b (Option.mem_toList.mpr above)).2
  acyclic s cycle := by
    have step : ∀ {s u}, Derives host s u → rank u < rank s := by
      rintro s u ⟨d, base, declared, found, rfl⟩
      obtain ⟨mem, rfl⟩ := symbol_of_declaration? declared
      exact (lower d mem base (Option.mem_toList.mpr found)).1
    have descends : ∀ {u}, TransGen (Derives host) s u → rank u < rank s := by
      intro u way
      induction way with
      | single derives => exact step derives
      | tail _ derives ih => exact (step derives).trans ih
    exact Nat.lt_irrefl _ (descends cycle)

end Marksmith.Host

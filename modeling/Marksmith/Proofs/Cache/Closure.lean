import Marksmith.Cache.Closure
import Marksmith.Proofs.Host.SymbolSets
import Mathlib.Logic.Relation

/-!
What the search for dependencies finds.

* `mem_dependencyClosure_iff`: exactly what mentions lead to from where the search begins, however
  the declarations mention each other, cycles included;
* `mem_dependencyClosure_iff_exists`: so the search for some roots finds what the searches for each
  of them find;
* `dependencyClosure_distributes`: the dependencies of two lists of roots are the sorted union of
  those of each, and they are closed under what declarations mention.

A round follows what the last one has found for the first time. Every round but the first finds
declarations only, and one that was not known, as long as there is any left (`undiscovered`).
-/

namespace Marksmith

open Syntax (TypeRef)
open Relation (ReflTransGen)

/-! ### Mentions -/

/-- A type is another one or occurs among its type arguments, at any depth. -/
inductive Syntax.TypeRef.Occurs (t : TypeRef) : TypeRef → Prop where
  | here : Occurs t t
  | within {u v : TypeRef} (mem : u ∈ v.args) (deeper : Occurs t u) : Occurs t v

/-- A declaration has a type in its signature. -/
inductive TypeDecl.Mentions (d : TypeDecl) : TypeRef → Prop where
  | base {t : TypeRef} (here : d.base = some t) : Mentions d t
  | interface {t : TypeRef} (mem : t ∈ d.interfaces) : Mentions d t
  | field {f : FieldDecl} (mem : f ∈ d.fields) : Mentions d f.type
  | property {p : PropertyDecl} (mem : p ∈ d.properties) : Mentions d p.type
  | returns {m : MethodDecl} (mem : m ∈ d.methods) : Mentions d m.returns
  | param {m : MethodDecl} {p : ParamDecl} (mem : m ∈ d.methods) (mem' : p ∈ m.params) :
      Mentions d p.type

theorem TypeDecl.Mentions.mem_referencedTypes {d : TypeDecl} {t : TypeRef} (h : d.Mentions t) :
    t ∈ d.referencedTypes := by
  simp only [referencedTypes, List.mem_append, Option.mem_toList]
  cases h with
  | base here => exact .inl (.inl (.inl (.inl here)))
  | interface mem => exact .inl (.inl (.inl (.inr mem)))
  | field mem => exact .inl (.inl (.inr (List.mem_map_of_mem mem)))
  | property mem => exact .inl (.inr (List.mem_map_of_mem mem))
  | returns mem => exact .inr (List.mem_flatMap.mpr ⟨_, mem, List.mem_cons_self⟩)
  | param mem mem' =>
    exact .inr (List.mem_flatMap.mpr ⟨_, mem, List.mem_cons_of_mem _ (List.mem_map_of_mem mem')⟩)

namespace Host

variable {host : Host}

theorem mem_declaredInAll {s : Symbol} {ts : List TypeRef} :
    s ∈ host.declaredInAll ts ↔ ∃ t ∈ ts, s ∈ host.declaredIn t := by
  induction ts with
  | nil => simp [declaredInAll]
  | cons t ts ih => simp [declaredInAll, ih]

theorem declared_of_mem_declaredIn {s : Symbol} : ∀ {t : TypeRef}, s ∈ host.declaredIn t →
    (host.declaration? s).isSome
  | ⟨name, args, nullable, rank⟩, mem => by
    rw [declaredIn, List.mem_append] at mem
    rcases mem with here | deeper
    · split at here
      · next declared =>
        cases List.mem_singleton.mp here
        exact declared
      · cases here
    · obtain ⟨u, place, mem⟩ := mem_declaredInAll.mp deeper
      exact declared_of_mem_declaredIn mem

/-- The declared types that occur in a type are found in it. -/
theorem mem_declaredIn_of_occurs {t u : TypeRef} (occurs : t.Occurs u)
    (declared : (host.declaration? (.ofType t)).isSome) : Symbol.ofType t ∈ host.declaredIn u := by
  induction occurs with
  | here =>
    obtain ⟨name, args, nullable, rank⟩ := t
    rw [declaredIn, List.mem_append]
    left
    rw [if_pos (show (host.lookup? name args.length).isSome from declared)]
    exact List.mem_singleton_self _
  | @within u v mem _ ih =>
    obtain ⟨name, args, nullable, rank⟩ := v
    rw [declaredIn, List.mem_append]
    right
    exact mem_declaredInAll.mpr ⟨u, mem, ih⟩

theorem declared_of_mem_reachedBy {context s : Symbol} {t : TypeRef}
    (mem : s ∈ host.reachedBy context t) : (host.declaration? s).isSome := by
  rw [reachedBy] at mem
  split at mem
  · exact declared_of_mem_declaredIn mem
  · cases mem

/-- One gets to declarations only. -/
theorem declared_of_mem_successors {s t : Symbol} (mem : t ∈ host.successors s) :
    (host.declaration? t).isSome := by
  rw [successors] at mem
  split at mem
  · cases mem
  · obtain ⟨_, _, reached⟩ := List.mem_flatMap.mp mem
    exact declared_of_mem_reachedBy reached

/-- What a declaration mentions is followed as it is meant in the declaration. -/
theorem mem_successors {s : Symbol} {d : TypeDecl} {t u v : TypeRef}
    (declared : host.declaration? s = some d) (mentions : d.Mentions t)
    (meant : host.resolve? s t = some u) (occurs : v.Occurs u)
    (known : (host.declaration? (.ofType v)).isSome) : Symbol.ofType v ∈ host.successors s := by
  have reached : Symbol.ofType v ∈ host.reachedBy s t := by
    rw [reachedBy, meant]
    exact mem_declaredIn_of_occurs occurs known
  rw [successors, declared]
  exact List.mem_flatMap.mpr ⟨t, List.mem_append_right _ mentions.mem_referencedTypes, reached⟩

/-! ### Rounds -/

theorem mem_addSymbols {found ss : List Symbol} {s : Symbol} :
    s ∈ (addSymbols found ss).1 ↔ s ∈ found ∨ s ∈ ss := by
  induction ss generalizing found with
  | nil => simp [addSymbols]
  | cons t ss ih =>
    rw [addSymbols, List.mem_cons]
    split
    · next known =>
      rw [ih]
      constructor
      · exact Or.imp_right .inr
      · rintro (old | rfl | later)
        · exact .inl old
        · exact .inl known
        · exact .inr later
    · rw [ih, Symbol.mem_insertSorted, or_assoc, or_left_comm]

theorem mem_addSymbols_new {found ss : List Symbol} {s : Symbol} :
    s ∈ (addSymbols found ss).2 ↔ s ∈ ss ∧ s ∉ found := by
  induction ss generalizing found with
  | nil => simp [addSymbols]
  | cons t ss ih =>
    rw [addSymbols, List.mem_cons]
    by_cases known : t ∈ found
    · rw [if_pos known, ih]
      constructor
      · exact And.imp_left .inr
      · rintro ⟨rfl | later, fresh⟩
        · exact absurd known fresh
        · exact ⟨later, fresh⟩
    · rw [if_neg known, List.mem_cons, ih, Symbol.mem_insertSorted]
      by_cases same : s = t
      · subst same
        simp [known]
      · simp [same]

theorem pairwise_addSymbols {found ss : List Symbol}
    (sorted : found.Pairwise fun a b => a.before b) :
    (addSymbols found ss).1.Pairwise fun a b => a.before b := by
  induction ss generalizing found with
  | nil => exact sorted
  | cons t ss ih =>
    rw [addSymbols]
    split
    · exact ih sorted
    · exact ih (Symbol.pairwise_insertSorted sorted)

theorem closureWithin_nil (rounds : Nat) (found : List Symbol) :
    host.closureWithin rounds found [] = found := by
  cases rounds <;> rfl

/-- One round: what is new is added, then followed. -/
theorem closureWithin_succ (rounds : Nat) (found frontier : List Symbol) :
    host.closureWithin (rounds + 1) found frontier
      = host.closureWithin rounds (addSymbols found frontier).1
          ((addSymbols found frontier).2.flatMap host.successors) := by
  rw [closureWithin]
  split
  · next all none =>
    rw [none]
    exact (closureWithin_nil rounds all).symm
  · next all new some => rw [some]

theorem pairwise_closureWithin {rounds : Nat} {found frontier : List Symbol}
    (sorted : found.Pairwise fun a b => a.before b) :
    (host.closureWithin rounds found frontier).Pairwise fun a b => a.before b := by
  induction rounds generalizing found frontier with
  | zero => exact sorted
  | succ rounds ih =>
    rw [closureWithin_succ]
    exact ih (pairwise_addSymbols sorted)

theorem mem_closureWithin_of_mem {rounds : Nat} {found frontier : List Symbol} {s : Symbol}
    (mem : s ∈ found) : s ∈ host.closureWithin rounds found frontier := by
  induction rounds generalizing found frontier with
  | zero => exact mem
  | succ rounds ih =>
    rw [closureWithin_succ]
    exact ih (mem_addSymbols.mpr (.inl mem))

/-- A declaration mentions another symbol, or is nested in it. -/
def Leads (host : Host) (s t : Symbol) : Prop := t ∈ host.successors s

/-- What the search finds was known, or mentions lead there from its frontier. -/
theorem exists_leads_of_mem_closureWithin {rounds : Nat} {found frontier : List Symbol}
    {s : Symbol} (mem : s ∈ host.closureWithin rounds found frontier) :
    s ∈ found ∨ ∃ r ∈ frontier, ReflTransGen host.Leads r s := by
  induction rounds generalizing found frontier with
  | zero => exact .inl mem
  | succ rounds ih =>
    rw [closureWithin_succ] at mem
    rcases ih mem with known | ⟨t, next, leads⟩
    · exact (mem_addSymbols.mp known).imp_right fun start => ⟨s, start, .refl⟩
    · obtain ⟨r, new, step⟩ := List.mem_flatMap.mp next
      exact .inr ⟨r, (mem_addSymbols_new.mp new).1, .head step leads⟩

/-! ### Enough rounds -/

/-- The declared symbols that have not been found. -/
def undiscovered (host : Host) (found : List Symbol) : List Symbol :=
  (host.declarations.map (·.symbol)).filter (· ∉ found)

theorem mem_map_symbol {s : Symbol} (declared : (host.declaration? s).isSome) :
    s ∈ host.declarations.map (·.symbol) := by
  obtain ⟨d, here⟩ := Option.isSome_iff_exists.mp declared
  have matching := List.find?_some here
  simp only [Bool.and_eq_true, beq_iff_eq] at matching
  refine List.mem_map.mpr ⟨d, List.mem_of_find?_eq_some here, ?_⟩
  rw [TypeDecl.symbol, matching.1, matching.2]

/-- A round that finds a declaration leaves fewer to find. -/
theorem length_undiscovered_lt {found frontier : List Symbol} {s : Symbol}
    (declared : (host.declaration? s).isSome) (new : s ∈ (addSymbols found frontier).2) :
    (host.undiscovered (addSymbols found frontier).1).length <
      (host.undiscovered found).length := by
  obtain ⟨mem, fresh⟩ := mem_addSymbols_new.mp new
  have known : s ∈ (addSymbols found frontier).1 := mem_addSymbols.mpr (.inr mem)
  have fewer : host.undiscovered (addSymbols found frontier).1
      = (host.undiscovered found).filter (· ∉ (addSymbols found frontier).1) := by
    rw [undiscovered, undiscovered, List.filter_filter]
    refine List.filter_congr ?_
    intro t _
    by_cases old : t ∈ found
    · simp [mem_addSymbols, old]
    · simp [old]
  rw [fewer]
  refine List.length_filter_lt_length_iff_exists.mpr ⟨s, ?_, by simpa using known⟩
  exact List.mem_filter.mpr ⟨mem_map_symbol declared, decide_eq_true fresh⟩

/-- With a round for every declaration that is left, the search follows all that it finds. -/
theorem closureWithin_closed {rounds : Nat} {found frontier : List Symbol} {s t : Symbol}
    (enough : (host.undiscovered found).length < rounds)
    (declared : ∀ u ∈ frontier, (host.declaration? u).isSome)
    (followed : ∀ u ∈ found, ∀ v ∈ host.successors u, v ∈ found ∨ v ∈ frontier)
    (mem : s ∈ host.closureWithin rounds found frontier) (leads : host.Leads s t) :
    t ∈ host.closureWithin rounds found frontier := by
  induction rounds generalizing found frontier with
  | zero => exact absurd enough (Nat.not_lt_zero _)
  | succ rounds ih =>
    rw [closureWithin_succ] at mem ⊢
    cases new : (addSymbols found frontier).2 with
    | nil =>
      -- nothing is new, so the frontier has been followed already
      have same : ∀ u, u ∈ (addSymbols found frontier).1 ↔ u ∈ found := by
        intro u
        rw [mem_addSymbols, or_iff_left_iff_imp]
        intro next
        by_contra fresh
        have new' := mem_addSymbols_new.mpr ⟨next, fresh⟩
        rw [new] at new'
        cases new'
      rw [new, List.flatMap_nil, closureWithin_nil] at mem
      rw [List.flatMap_nil, closureWithin_nil]
      exact mem_addSymbols.mpr (followed s ((same s).mp mem) t leads)
    | cons u us =>
      rw [new] at mem
      have here : u ∈ (addSymbols found frontier).2 := new ▸ List.mem_cons_self
      have fewer := length_undiscovered_lt
        (declared u (mem_addSymbols_new.mp here).1) here
      refine ih (by omega) ?_ ?_ mem
      · intro v next
        obtain ⟨w, _, step⟩ := List.mem_flatMap.mp next
        exact declared_of_mem_successors step
      · intro v known w step
        by_cases old : v ∈ found
        · exact .inl (mem_addSymbols.mpr (followed v old w step))
        · right
          have next := (mem_addSymbols.mp known).resolve_left old
          rw [← new]
          exact List.mem_flatMap.mpr ⟨v, mem_addSymbols_new.mpr ⟨next, old⟩, step⟩

/-! ### Dependencies -/

theorem dependencyClosure_eq (roots : List Symbol) :
    host.dependencyClosure roots = host.closureWithin (host.declarations.length + 1)
      (addSymbols [] (host.closureStart roots)).1
      ((addSymbols [] (host.closureStart roots)).2.flatMap host.successors) :=
  closureWithin_succ _ _ _

theorem mem_dependencyClosure_of_mem_start {roots : List Symbol} {s : Symbol}
    (mem : s ∈ host.closureStart roots) : s ∈ host.dependencyClosure roots := by
  rw [dependencyClosure_eq]
  exact mem_closureWithin_of_mem (mem_addSymbols.mpr (.inr mem))

/-- Dependencies are closed under what declarations mention. -/
theorem dependencyClosure_closed {roots : List Symbol} {s t : Symbol}
    (mem : s ∈ host.dependencyClosure roots) (leads : host.Leads s t) :
    t ∈ host.dependencyClosure roots := by
  rw [dependencyClosure_eq] at mem ⊢
  have bound : (host.undiscovered (addSymbols [] (host.closureStart roots)).1).length
      ≤ host.declarations.length :=
    calc _ ≤ (host.declarations.map (·.symbol)).length := List.length_filter_le _ _
      _ = host.declarations.length := List.length_map _
  refine closureWithin_closed (Nat.lt_succ_of_le bound) ?_ ?_ mem leads
  · intro u next
    obtain ⟨v, _, step⟩ := List.mem_flatMap.mp next
    exact declared_of_mem_successors step
  · intro u known v step
    right
    have start := (mem_addSymbols.mp known).resolve_left List.not_mem_nil
    exact List.mem_flatMap.mpr ⟨u, mem_addSymbols_new.mpr ⟨start, List.not_mem_nil⟩, step⟩

/-- The dependencies are what mentions lead to from where the search begins. -/
theorem mem_dependencyClosure_iff {roots : List Symbol} {s : Symbol} :
    s ∈ host.dependencyClosure roots
      ↔ ∃ r ∈ host.closureStart roots, ReflTransGen host.Leads r s := by
  constructor
  · intro mem
    exact (exists_leads_of_mem_closureWithin mem).resolve_left List.not_mem_nil
  · rintro ⟨r, start, leads⟩
    induction leads with
    | refl => exact mem_dependencyClosure_of_mem_start start
    | tail _ step ih => exact dependencyClosure_closed ih step

theorem pairwise_dependencyClosure (roots : List Symbol) :
    (host.dependencyClosure roots).Pairwise fun a b => a.before b :=
  pairwise_closureWithin .nil

/-- What a search starts from is among what it finds. -/
theorem mem_dependencyClosure {roots : List Symbol} {s : Symbol} (mem : s ∈ roots) :
    s ∈ host.dependencyClosure roots :=
  mem_dependencyClosure_of_mem_start (List.mem_append_left _ (List.mem_append_left _ mem))

/-! ### Several roots -/

/-- Whether the declarations of extension methods count is decided by all roots together, and so by
any one of them. -/
theorem mem_closureStart_iff {roots : List Symbol} {s : Symbol} :
    s ∈ host.closureStart roots ↔ ∃ r ∈ roots, s ∈ host.closureStart [r] := by
  have extensions : ∀ roots : List Symbol,
      s ∈ (if roots.all fun r => (host.bodiesOf r).isEmpty then [] else host.extensionOwners)
        ↔ ∃ r ∈ roots, ¬(host.bodiesOf r).isEmpty ∧ s ∈ host.extensionOwners := by
    intro roots
    split
    · next none =>
      constructor
      · rintro ⟨⟩
      · rintro ⟨r, mem, filled, _⟩
        exact absurd (List.all_eq_true.mp none r mem) filled
    · next some =>
      rw [List.all_eq_true] at some
      push Not at some
      obtain ⟨r, mem, filled⟩ := some
      constructor
      · intro owner
        exact ⟨r, mem, filled, owner⟩
      · rintro ⟨_, _, _, owner⟩
        exact owner
  simp only [closureStart, List.mem_append, List.mem_flatMap, extensions, List.mem_singleton,
    exists_eq_left]
  constructor
  · rintro ((root | ⟨r, root, body⟩) | ⟨r, root, owner⟩)
    · exact ⟨s, root, .inl (.inl rfl)⟩
    · exact ⟨r, root, .inl (.inr body)⟩
    · exact ⟨r, root, .inr owner⟩
  · rintro ⟨r, root, (rfl | body) | owner⟩
    · exact .inl (.inl root)
    · exact .inl (.inr ⟨r, root, body⟩)
    · exact .inr ⟨r, root, owner⟩

/-- The dependencies of some roots are those of each of them. -/
theorem mem_dependencyClosure_iff_exists (roots : List Symbol) {s : Symbol} :
    s ∈ host.dependencyClosure roots ↔ ∃ r ∈ roots, s ∈ host.dependencyClosure [r] := by
  simp only [mem_dependencyClosure_iff]
  constructor
  · rintro ⟨t, start, leads⟩
    obtain ⟨r, root, start⟩ := mem_closureStart_iff.mp start
    exact ⟨r, root, t, start, leads⟩
  · rintro ⟨r, root, t, start, leads⟩
    exact ⟨t, mem_closureStart_iff.mpr ⟨r, root, start⟩, leads⟩

/-- The same roots in another order, some of them repeated, have the same dependencies. -/
theorem dependencyClosure_congr {roots roots' : List Symbol}
    (same : ∀ s, s ∈ roots ↔ s ∈ roots') :
    host.dependencyClosure roots = host.dependencyClosure roots' := by
  refine Symbol.eq_of_sorted (pairwise_dependencyClosure _) (pairwise_dependencyClosure _) ?_
  intro s
  rw [mem_dependencyClosure_iff_exists roots, mem_dependencyClosure_iff_exists roots']
  simp only [same]

theorem dependencyClosure_append (roots roots' : List Symbol) :
    host.dependencyClosure (roots ++ roots')
      = Symbol.union (host.dependencyClosure roots) (host.dependencyClosure roots') := by
  refine Symbol.eq_of_sorted (pairwise_dependencyClosure _)
    (Symbol.pairwise_union (pairwise_dependencyClosure _)) ?_
  intro s
  rw [Symbol.mem_union, mem_dependencyClosure_iff_exists (roots ++ roots'),
    mem_dependencyClosure_iff_exists roots, mem_dependencyClosure_iff_exists roots']
  simp only [List.mem_append, or_and_right, exists_or]

theorem dependencyClosureUnless_live (roots : List Symbol) :
    host.dependencyClosureUnless .live roots = .ok (host.dependencyClosure roots) := by
  rw [dependencyClosureUnless]
  split
  · next nothing =>
    rw [dependencyClosure, List.isEmpty_iff.mp nothing, closureWithin_nil]
  · rfl

/-- The dependencies of two lists of roots are the sorted union of those of each, so neither the
order nor the repetition of roots matters. They are sorted without repetitions, and the roots are
among them. So is every declared type that occurs in a type that a declaration among them has in its
signature, as it is meant there. A search that is not cancelled ends with them. -/
theorem dependencyClosure_distributes (host : Host) :
    (∀ roots roots', host.dependencyClosure (roots ++ roots')
      = Symbol.union (host.dependencyClosure roots) (host.dependencyClosure roots')) ∧
    (∀ roots roots', (∀ s, s ∈ roots ↔ s ∈ roots') →
      host.dependencyClosure roots = host.dependencyClosure roots') ∧
    ∀ roots,
      host.dependencyClosureUnless .live roots = .ok (host.dependencyClosure roots) ∧
      (host.dependencyClosure roots).Pairwise (fun a b => a.before b) ∧
      (∀ s ∈ roots, s ∈ host.dependencyClosure roots) ∧
      ∀ s ∈ host.dependencyClosure roots, ∀ d, host.declaration? s = some d →
        ∀ t, d.Mentions t → ∀ u, host.resolve? s t = some u →
          ∀ v, v.Occurs u → (host.declaration? (.ofType v)).isSome →
            .ofType v ∈ host.dependencyClosure roots := by
  refine ⟨dependencyClosure_append, fun _ _ => dependencyClosure_congr, ?_⟩
  intro roots
  refine ⟨dependencyClosureUnless_live roots, pairwise_dependencyClosure roots,
    fun _ => mem_dependencyClosure, ?_⟩
  intro s mem d declared t mentions u meant v occurs known
  exact dependencyClosure_closed mem (mem_successors declared mentions meant occurs known)

end Host

end Marksmith

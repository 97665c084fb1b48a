import Marksmith.Analysis.Layout
import Marksmith.Proofs.Host.Supertypes
import Marksmith.Union.Signature
import Mathlib.Data.Set.Finite.Lattice

/-!
When walks over types end. A walk remembers the types that it has met, so it ends if there are only
finitely many to meet; and a walk that ends has met them all.

* `Stores`: a type is met inside of the values of another one;
* `walk_induction`: a walk goes on with fewer types that have not been met, or with a shorter queue;
* `interfaces_end_iff`, `sizes_end_iff`: a walk along the way up and one into the values of a type;
* `walksEnd_iff`: all walks from a type end exactly if finitely many types are above it and finitely
  many are stored in it.
-/

namespace Marksmith.Host

open Syntax (TypeRef)

variable {host : Host}

/-! ### Progress of a walk -/

/-- The number of types that a walk has not met. -/
def unmet (all : Finset TypeRef) (seen : List TypeRef) : Nat := (all.filter (· ∉ seen)).card

theorem unmet_lt {all : Finset TypeRef} {seen more : List TypeRef} {t : TypeRef} (inside : t ∈ all)
    (fresh : t ∉ seen) (met : t ∈ more) (kept : seen ⊆ more) : unmet all more < unmet all seen := by
  apply Finset.card_lt_card
  constructor
  · intro s mem
    obtain ⟨here, new⟩ := Finset.mem_filter.mp mem
    exact Finset.mem_filter.mpr ⟨here, fun old => new (kept old)⟩
  · intro same
    have mem := same (Finset.mem_filter.mpr ⟨inside, fresh⟩)
    exact (Finset.mem_filter.mp mem).2 met

/-- What holds of every walk with nothing in its queue, and of a walk whenever it holds of those
that have met more or wait for less, holds of every walk inside of finitely many types. -/
theorem walk_induction {all : Finset TypeRef} {motive : (seen queue : List TypeRef) → Prop}
    (done : ∀ seen, motive seen [])
    (step : ∀ seen t queue, t ∈ all → (∀ u ∈ queue, u ∈ all) →
      (∀ more next, (∀ u ∈ next, u ∈ all) →
        (unmet all more < unmet all seen ∨ more = seen ∧ next.length ≤ queue.length) →
        motive more next) →
      motive seen (t :: queue)) :
    ∀ seen queue, (∀ u ∈ queue, u ∈ all) → motive seen queue := by
  intro seen
  induction left : unmet all seen using Nat.strong_induction_on generalizing seen with
  | h n fewer =>
    intro queue
    induction size : queue.length using Nat.strong_induction_on generalizing queue with
    | h k shorter =>
      intro inside
      cases queue with
      | nil => exact done seen
      | cons t queue =>
        rw [List.forall_mem_cons] at inside
        refine step seen t queue inside.1 inside.2 ?_
        rintro more next within (progress | ⟨rfl, short⟩)
        · exact fewer _ (left ▸ progress) more rfl next within
        · rw [List.length_cons] at size
          exact shorter next.length (by omega) next rfl within

/-! ### The way up -/

/-- A finite set of types that the way up does not leave. -/
def ClosedUp (host : Host) (all : Finset TypeRef) : Prop :=
  ∀ s ∈ all, ∀ u, Above host s u → u ∈ all

theorem exists_closedUp {t : TypeRef} (finite : {u | Reaches host t u}.Finite) :
    ∃ all, t ∈ all ∧ ClosedUp host all := by
  refine ⟨finite.toFinset, finite.mem_toFinset.mpr .refl, ?_⟩
  intro s mem u above
  exact finite.mem_toFinset.mpr ((finite.mem_toFinset.mp mem).tail above)

theorem ClosedUp.next {all : Finset TypeRef} (closed : ClosedUp host all) {t : TypeRef}
    (inside : t ∈ all) : ∀ u ∈ (host.baseType? t).toList ++ host.declaredInterfaces t, u ∈ all := by
  intro u mem
  rcases List.mem_append.mp mem with base | interface
  · exact closed t inside u (.inl (Option.mem_toList.mp base))
  · exact closed t inside u (.inr interface)

theorem implements_ends {all : Finset TypeRef} (closed : ClosedUp host all) (target : Symbol)
    (seen stack : List TypeRef) (inside : ∀ u ∈ stack, u ∈ all) :
    ∃ steps, (host.implementsWithin? target steps seen stack).isSome := by
  refine walk_induction (motive := fun seen stack =>
    ∃ steps, (host.implementsWithin? target steps seen stack).isSome) (fun seen => ⟨0, rfl⟩) ?_
      seen stack inside
  intro seen t stack here waiting go
  by_cases found : Symbol.ofType t = target
  · refine ⟨1, ?_⟩
    rw [implementsWithin?, if_pos found]
    rfl
  · by_cases met : t ∈ seen
    · obtain ⟨steps, ends⟩ := go seen stack waiting (.inr ⟨rfl, Nat.le_refl _⟩)
      refine ⟨steps + 1, ?_⟩
      rwa [implementsWithin?, if_neg found, if_pos met]
    · have fresh : unmet all (t :: seen) < unmet all seen :=
        unmet_lt here met List.mem_cons_self (List.subset_cons_self t seen)
      obtain ⟨steps, ends⟩ := go (t :: seen)
        ((host.baseType? t).toList ++ ((host.declaredInterfaces t).reverse ++ stack)) (by
          intro u mem
          rcases List.mem_append.mp mem with base | behind
          · exact closed.next here u (List.mem_append_left _ base)
          · rcases List.mem_append.mp behind with interface | later
            · exact closed.next here u (List.mem_append_right _ (List.mem_reverse.mp interface))
            · exact waiting u later) (.inl fresh)
      refine ⟨steps + 1, ?_⟩
      rwa [implementsWithin?, if_neg found, if_neg met]

theorem supertypes_end {all : Finset TypeRef} (closed : ClosedUp host all)
    (seen queue : List TypeRef) (inside : ∀ u ∈ queue, u ∈ all) :
    ∃ steps, (host.supertypesWithin? steps seen queue).isSome := by
  refine walk_induction (motive := fun seen queue =>
    ∃ steps, (host.supertypesWithin? steps seen queue).isSome) (fun seen => ⟨0, rfl⟩) ?_
      seen queue inside
  intro seen t queue here waiting go
  by_cases met : t ∈ seen
  · obtain ⟨steps, ends⟩ := go seen queue waiting (.inr ⟨rfl, Nat.le_refl _⟩)
    refine ⟨steps + 1, ?_⟩
    rwa [supertypesWithin?, if_pos met]
  · have fresh : unmet all (t :: seen) < unmet all seen :=
      unmet_lt here met List.mem_cons_self (List.subset_cons_self t seen)
    obtain ⟨steps, ends⟩ := go (t :: seen)
      (queue ++ (host.baseType? t).toList ++ host.declaredInterfaces t) (by
        intro u mem
        rw [List.append_assoc] at mem
        rcases List.mem_append.mp mem with earlier | new
        · exact waiting u earlier
        · exact closed.next here u new) (.inl fresh)
    refine ⟨steps + 1, ?_⟩
    rwa [supertypesWithin?, if_neg met, Option.isSome_map]

theorem interfaces_end {all : Finset TypeRef} (closed : ClosedUp host all)
    (seen queue : List TypeRef) (inside : ∀ u ∈ queue, u ∈ all) :
    ∃ steps, (host.allInterfacesWithin? steps seen queue).isSome := by
  refine walk_induction (motive := fun seen queue =>
    ∃ steps, (host.allInterfacesWithin? steps seen queue).isSome) (fun seen => ⟨0, rfl⟩) ?_
      seen queue inside
  intro seen t queue here waiting go
  let interfaces := unseen seen (host.declaredInterfaces t)
  let base := unseen (interfaces ++ seen) (host.baseType? t).toList
  have new : ∀ u ∈ base ++ interfaces, u ∈ all ∧ u ∉ seen := by
    intro u mem
    rcases List.mem_append.mp mem with isBase | isInterface
    · obtain ⟨above, fresh⟩ := mem_unseen.mp isBase
      exact ⟨closed.next here u (List.mem_append_left _ above),
        fun old => fresh (List.mem_append_right _ old)⟩
    · obtain ⟨above, fresh⟩ := mem_unseen.mp isInterface
      exact ⟨closed.next here u (List.mem_append_right _ above), fresh⟩
  have progress : unmet all (base ++ interfaces ++ seen) < unmet all seen ∨
      base ++ interfaces ++ seen = seen ∧
        (queue ++ interfaces ++ base).length ≤ queue.length := by
    cases found : base ++ interfaces with
    | nil =>
      obtain ⟨noBase, noInterface⟩ := List.append_eq_nil_iff.mp found
      rw [noBase, noInterface, List.append_nil, List.append_nil]
      exact .inr ⟨rfl, Nat.le_refl _⟩
    | cons u rest =>
      have mem : u ∈ base ++ interfaces := found ▸ List.mem_cons_self
      rw [← found]
      exact .inl (unmet_lt (new u mem).1 (new u mem).2 (List.mem_append_left _ mem)
        (List.subset_append_right _ _))
  obtain ⟨steps, ends⟩ := go (base ++ interfaces ++ seen) (queue ++ interfaces ++ base) (by
    intro u mem
    rcases List.mem_append.mp mem with front | isBase
    · rcases List.mem_append.mp front with earlier | isInterface
      · exact waiting u earlier
      · exact (new u (List.mem_append_right _ isInterface)).1
    · exact (new u (List.mem_append_left _ isBase)).1) progress
  refine ⟨steps + 1, ?_⟩
  rwa [allInterfacesWithin?, Option.isSome_map]

theorem newTypes_eq_unseen (seen ts : List TypeRef) : Union.newTypes seen ts = unseen seen ts := by
  induction ts generalizing seen with
  | nil => rfl
  | cons t ts ih => rw [Union.newTypes, unseen, ih, ih]

theorem signatures_end {all : Finset TypeRef} (closed : ClosedUp host all)
    (seen level : List TypeRef) (inside : ∀ u ∈ level, u ∈ all) :
    ∀ depth found, ∃ levels,
      (Union.signaturesWithin? host levels depth seen found level).isSome := by
  refine walk_induction (motive := fun seen level => ∀ depth found, ∃ levels,
      (Union.signaturesWithin? host levels depth seen found level).isSome)
    (fun seen depth found => ⟨0, rfl⟩) ?_ seen level inside
  intro seen t level here waiting go depth found
  let sorted := (t :: level).mergeSort Union.textNotAfter
  let next := Union.newTypes seen (sorted.flatMap host.declaredInterfaces)
  have new : ∀ u ∈ next, u ∈ all ∧ u ∉ seen := by
    intro u mem
    have isNew : u ∈ unseen seen (sorted.flatMap host.declaredInterfaces) := by
      rwa [← newTypes_eq_unseen]
    obtain ⟨declared, fresh⟩ := mem_unseen.mp isNew
    obtain ⟨s, place, interface⟩ := List.mem_flatMap.mp declared
    have within : s ∈ all := by
      rcases List.mem_cons.mp (List.mem_mergeSort.mp place) with rfl | later
      · exact here
      · exact waiting s later
    exact ⟨closed s within u (.inr interface), fresh⟩
  have progress : unmet all (next ++ seen) < unmet all seen ∨
      next ++ seen = seen ∧ next.length ≤ level.length := by
    cases found : next with
    | nil => exact .inr ⟨rfl, Nat.zero_le _⟩
    | cons u rest =>
      have mem : u ∈ next := found ▸ List.mem_cons_self
      exact .inl (unmet_lt (new u mem).1 (new u mem).2 (List.mem_append_left _ List.mem_cons_self)
        (List.subset_append_right _ _))
  let members := Union.newShapes found (sorted.flatMap (Union.membersOf host depth))
  obtain ⟨levels, ends⟩ := go (next ++ seen) next (fun u mem => (new u mem).1) progress (depth + 1)
    (members.map (·.shape) ++ found)
  refine ⟨levels + 1, ?_⟩
  rwa [Union.signaturesWithin?, Option.isSome_map]

/-- A walk along the way up ends exactly if finitely many types are met on it. -/
theorem interfaces_end_iff {t : TypeRef} :
    (∃ steps, (host.allInterfacesWithin? steps [t] [t]).isSome) ↔
      {u | Reaches host t u}.Finite := by
  constructor
  · rintro ⟨steps, ends⟩
    obtain ⟨found, walk⟩ := Option.isSome_iff_exists.mp ends
    obtain ⟨all, explored⟩ := exists_explored walk (List.Subset.refl _)
      fun s met idle => absurd met idle
    refine all.finite_toSet.subset ?_
    intro u up
    induction up with
    | refl => exact explored.seen_subset List.mem_cons_self
    | tail _ above ih => exact explored.closed _ ih _ above
  · intro finite
    obtain ⟨all, inside, closed⟩ := exists_closedUp finite
    exact interfaces_end closed [t] [t] (List.forall_mem_singleton.mpr inside)

/-- A nullable mark makes no difference to what is above a type. -/
theorem finite_reaches_stripNullable {t : TypeRef} (finite : {u | Reaches host t u}.Finite) :
    {u | Reaches host (stripNullable t) u}.Finite := by
  refine (finite.insert (stripNullable t)).subset ?_
  intro u up
  rcases up.cases_head with rfl | ⟨v, above, further⟩
  · exact .inl rfl
  · have above : Above host t v := above
    exact .inr (.head above further)

/-! ### The values of a type -/

/-- A type whose values are looked into: a struct that is neither in an array nor predefined. -/
def LooksInto (host : Host) (t : TypeRef) : Prop :=
  t.rank = 0 ∧ Engine.primitiveSize? t.name = none ∧ host.kindOf? t = some .struct

/-- A type that is stored in an instance field of another one. -/
def Holds (host : Host) (t u : TypeRef) : Prop :=
  LooksInto host t ∧ ∃ field ∈ host.instanceFields t, field.2 = some u

/-- A type that is met inside of the values of another one, or that type itself. -/
def Stores (host : Host) : TypeRef → TypeRef → Prop := Relation.ReflTransGen (Holds host)

/-- A finite set of types that looking into values does not leave. -/
def ClosedDown (host : Host) (all : Finset TypeRef) : Prop :=
  ∀ s ∈ all, ∀ u, Holds host s u → u ∈ all

theorem exists_closedDown {t : TypeRef} (finite : {u | Stores host t u}.Finite) :
    ∃ all, t ∈ all ∧ ClosedDown host all := by
  refine ⟨finite.toFinset, finite.mem_toFinset.mpr .refl, ?_⟩
  intro s mem u holds
  exact finite.mem_toFinset.mpr ((finite.mem_toFinset.mp mem).tail holds)

theorem isSome_allWithin? {α : Type} {p : α → Option Bool} {as : List α}
    (each : ∀ a ∈ as, (p a).isSome) : (allWithin? p as).isSome := by
  induction as with
  | nil => rfl
  | cons a as ih =>
    rw [List.forall_mem_cons] at each
    obtain ⟨answer, here⟩ := Option.isSome_iff_exists.mp each.1
    rw [allWithin?, here]
    cases answer with
    | true => exact ih each.2
    | false => rfl

theorem isSome_sumWithin? {α : Type} {size : α → Option Nat} {as : List α} :
    (sumWithin? size as).isSome ↔ ∀ a ∈ as, (size a).isSome := by
  induction as with
  | nil => simp [sumWithin?]
  | cons a as ih =>
    rw [List.forall_mem_cons, ← ih, sumWithin?]
    cases size a with
    | none => simp
    | some n => cases sumWithin? size as <;> simp

theorem looksInto_of_struct {t : TypeRef} (single : ¬t.rank > 0)
    (other : Engine.primitiveSize? t.name = none) (isStruct : host.kindOf? t = some .struct) :
    LooksInto host t :=
  ⟨UInt8.le_zero_iff.mp (UInt8.not_lt.mp single), other, isStruct⟩

/-- Whether a type is unmanaged is decided if it is decided of the types that it holds. -/
theorem isSome_isUnmanagedWithin? {depth : Nat} {around : List TypeRef} {t : TypeRef}
    (next : t ∉ around → ∀ u, Holds host t u →
      (host.isUnmanagedWithin? depth (t :: around) u).isSome) :
    (host.isUnmanagedWithin? (depth + 1) around t).isSome := by
  rw [isUnmanagedWithin?]
  split
  · rfl
  · next bare =>
    split
    · rfl
    · next other =>
      split
      · rfl
      · next isStruct =>
        split
        · rfl
        · next fresh =>
          simp only [Bool.or_eq_true, decide_eq_true_eq, not_or] at bare
          have looks : LooksInto host t :=
            looksInto_of_struct bare.2 (Option.not_isSome_iff_eq_none.mp other) isStruct
          apply isSome_allWithin?
          intro field mem
          split
          · next u stored => exact next fresh u ⟨looks, field, mem, stored⟩
          · rfl
      · rfl

/-- The size of a type is found exactly if the sizes of the types that it holds are found. -/
theorem isSome_sizeWithin?_iff {depth : Nat} {around : List TypeRef} {t : TypeRef} :
    (host.sizeWithin? (depth + 1) around t).isSome ↔
      (t ∉ around → ∀ u, Holds host t u → (host.sizeWithin? depth (t :: around) u).isSome) := by
  by_cases looks : LooksInto host t
  · obtain ⟨single, other, isStruct⟩ := looks
    have flat : ¬t.rank > 0 := by
      rw [single]
      decide
    by_cases met : t ∈ around
    · simp only [sizeWithin?, if_neg flat, other, isStruct, if_pos met]
      simp [met]
    · simp only [sizeWithin?, if_neg flat, other, isStruct, if_neg met, Option.pure_def,
        Option.bind_eq_bind, Option.isSome_bind, Option.isSome_some, Option.any_true]
      rw [isSome_sumWithin?]
      constructor
      · rintro each - u ⟨_, field, mem, stored⟩
        have here := each field mem
        rwa [stored] at here
      · intro next field mem
        split
        · next u stored => exact next met u ⟨⟨single, other, isStruct⟩, field, mem, stored⟩
        · rfl
  · constructor
    · rintro - - u ⟨into, _⟩
      exact absurd into looks
    · intro _
      rw [sizeWithin?]
      split
      · rfl
      · next flat =>
        split
        · rfl
        · next other =>
          split
          · rfl
          · next isStruct => exact absurd (looksInto_of_struct flat other isStruct) looks
          · rfl

theorem isUnmanaged_ends {all : Finset TypeRef} (closed : ClosedDown host all) {depth : Nat}
    {around : List TypeRef} {t : TypeRef} (inside : t ∈ all) (deep : unmet all around < depth) :
    (host.isUnmanagedWithin? depth around t).isSome := by
  induction depth generalizing around t with
  | zero => exact absurd deep (Nat.not_lt_zero _)
  | succ depth ih =>
    apply isSome_isUnmanagedWithin?
    intro fresh u holds
    have fewer : unmet all (t :: around) < unmet all around :=
      unmet_lt inside fresh List.mem_cons_self (List.subset_cons_self t around)
    exact ih (closed t inside u holds) (by omega)

theorem size_ends {all : Finset TypeRef} (closed : ClosedDown host all) {depth : Nat}
    {around : List TypeRef} {t : TypeRef} (inside : t ∈ all) (deep : unmet all around < depth) :
    (host.sizeWithin? depth around t).isSome := by
  induction depth generalizing around t with
  | zero => exact absurd deep (Nat.not_lt_zero _)
  | succ depth ih =>
    rw [isSome_sizeWithin?_iff]
    intro fresh u holds
    have fewer : unmet all (t :: around) < unmet all around :=
      unmet_lt inside fresh List.mem_cons_self (List.subset_cons_self t around)
    exact ih (closed t inside u holds) (by omega)

/-- A step into the values of a type that is not among some others. -/
def HoldsBeyond (host : Host) (around : List TypeRef) (t u : TypeRef) : Prop :=
  t ∉ around ∧ Holds host t u

/-- A way into the values of a type need not come back to it. -/
theorem beyond_cases {around : List TypeRef} {t u : TypeRef}
    (way : Relation.ReflTransGen (HoldsBeyond host around) t u) :
    u = t ∨ t ∉ around ∧ ∃ v, Holds host t v ∧
      Relation.ReflTransGen (HoldsBeyond host (t :: around)) v u := by
  induction way with
  | refl => exact .inl rfl
  | @tail w u _ step ih =>
    right
    rcases ih with rfl | ⟨fresh, v, first, rest⟩
    · exact ⟨step.1, u, step.2, .refl⟩
    · by_cases back : w = t
      · subst back
        exact ⟨step.1, u, step.2, .refl⟩
      · have apart : w ∉ t :: around := by
          rw [List.mem_cons, not_or]
          exact ⟨back, step.1⟩
        exact ⟨fresh, v, first, rest.tail ⟨apart, step.2⟩⟩

/-- If the search for a size ends, only finitely many types are met without coming back. -/
theorem finite_beyond_of_size {depth : Nat} {around : List TypeRef} {t : TypeRef}
    (ends : (host.sizeWithin? depth around t).isSome) :
    {u | Relation.ReflTransGen (HoldsBeyond host around) t u}.Finite := by
  induction depth generalizing around t with
  | zero => cases ends
  | succ depth ih =>
    by_cases met : t ∈ around
    · refine (Set.finite_singleton t).subset ?_
      intro u way
      rcases beyond_cases way with rfl | ⟨fresh, _⟩
      · rfl
      · exact absurd met fresh
    · have next := isSome_sizeWithin?_iff.mp ends met
      let held := {v | Holds host t v}
      have few : held.Finite := by
        refine (List.finite_toSet ((host.instanceFields t).filterMap (·.2))).subset ?_
        rintro v ⟨_, field, mem, stored⟩
        exact List.mem_filterMap.mpr ⟨field, mem, stored⟩
      refine ((Set.finite_singleton t).union (few.biUnion fun v holds => ih (next v holds))).subset ?_
      intro u way
      rcases beyond_cases way with rfl | ⟨_, v, first, rest⟩
      · exact .inl rfl
      · exact .inr (Set.mem_biUnion first rest)

/-- The search for a size ends exactly if finitely many types are met inside of the values. -/
theorem sizes_end_iff {t : TypeRef} :
    (∃ depth, (host.sizeWithin? depth [] t).isSome) ↔ {u | Stores host t u}.Finite := by
  constructor
  · rintro ⟨depth, ends⟩
    refine (finite_beyond_of_size ends).subset ?_
    have step : ∀ v w, Holds host v w → HoldsBeyond host [] v w :=
      fun v w holds => ⟨List.not_mem_nil, holds⟩
    exact fun u stores => Relation.ReflTransGen.mono step t u stores
  · intro finite
    obtain ⟨all, inside, closed⟩ := exists_closedDown finite
    exact ⟨_, size_ends closed inside (Nat.lt_succ_self _)⟩

/-! ### All walks -/

/-- The walks over types from a type end: those to all its interfaces and supertypes, to any
definition that it may implement, to the members that it asks for as a dispatch interface, and those
into its values. -/
structure WalksEnd (host : Host) (t : TypeRef) : Prop where
  interfaces : ∃ steps, (host.allInterfacesWithin? steps [t] [t]).isSome
  supertypes : ∃ steps, (host.supertypesWithin? steps [] [stripNullable t]).isSome
  implements : ∀ target, ∃ steps, (host.implementsWithin? target steps [] [t]).isSome
  signatures : ∃ levels, (Union.signaturesWithin? host levels 0 [t] [] [t]).isSome
  unmanaged : ∃ depth, (host.isUnmanagedWithin? depth [] t).isSome
  size : ∃ depth, (host.sizeWithin? depth [] t).isSome

/-- All walks from a type end exactly if finitely many types are above it and finitely many are
stored in it. -/
theorem walksEnd_iff {t : TypeRef} :
    WalksEnd host t ↔ {u | Reaches host t u}.Finite ∧ {u | Stores host t u}.Finite := by
  constructor
  · intro ends
    exact ⟨interfaces_end_iff.mp ends.interfaces, sizes_end_iff.mp ends.size⟩
  · rintro ⟨above, stored⟩
    obtain ⟨all, inside, closed⟩ := exists_closedUp above
    obtain ⟨others, inside', closed'⟩ := exists_closedUp (finite_reaches_stripNullable above)
    obtain ⟨held, inside'', closed''⟩ := exists_closedDown stored
    exact {
      interfaces := interfaces_end_iff.mpr above
      supertypes := supertypes_end closed' [] _ (List.forall_mem_singleton.mpr inside')
      implements := fun target =>
        implements_ends closed target [] _ (List.forall_mem_singleton.mpr inside)
      signatures := signatures_end closed [t] _ (List.forall_mem_singleton.mpr inside) 0 []
      unmanaged := ⟨_, isUnmanaged_ends closed'' inside'' (Nat.lt_succ_self _)⟩
      size := sizes_end_iff.mpr stored }

end Marksmith.Host

import Marksmith.Proofs.Host.Declarations
import Marksmith.Proofs.Host.Supertypes

/-!
The walks along the way up from a type agree. `Host.supertypes` lists what is on the way up, breadth
first; `Host.implements` looks for a definition there, depth first; `Host.allInterfaces` lists the
interfaces that it meets, and passes over base types.

* `MetAbove`: a type that bases and interfaces lead to from another one;
* `Visits`: what a walk visits, in whatever order it takes up the types that wait for it; it is all
  there is on the way up (`Visits.mem_iff`);
* `visits_of_supertypes`, `visits_of_implements`: both of the first walks visit in this sense;
* `walks_agree`: what the three walks find, told by what is met above the type.
-/

namespace Marksmith.Host

open Syntax (TypeRef)

variable {host : Host}

/-! ### Types above a type -/

/-- A type that bases and interfaces lead to from another one, in at least one step. -/
def MetAbove (host : Host) : TypeRef → TypeRef → Prop := Relation.TransGen (Above host)

theorem reaches_iff {t u : TypeRef} : Reaches host t u ↔ u = t ∨ MetAbove host t u :=
  Relation.reflTransGen_iff_eq_or_transGen

/-- A nullable mark makes no difference to what is met above a type. -/
theorem metAbove_stripNullable {t u : TypeRef} :
    MetAbove host (stripNullable t) u ↔ MetAbove host t u := by
  rw [MetAbove, Relation.TransGen.head'_iff, Relation.TransGen.head'_iff]
  rfl

/-! ### What a walk visits -/

/-- What a walk visits until nothing waits for it any more: `seen` has been visited before, and
`waiting` is still to be taken up. -/
structure Visits (host : Host) (seen waiting found : List TypeRef) : Prop where
  fresh : ∀ x ∈ found, x ∉ seen
  nodup : found.Nodup
  taken : ∀ s ∈ waiting, s ∈ seen ∨ s ∈ found
  closed : ∀ x ∈ found, ∀ u, Above host x u → u ∈ seen ∨ u ∈ found
  reached : ∀ x ∈ found, ∃ s ∈ waiting, Reaches host s x

namespace Visits

variable {seen waiting next found : List TypeRef} {t : TypeRef}

theorem nil (seen : List TypeRef) : Visits host seen [] [] where
  fresh _ none := absurd none List.not_mem_nil
  nodup := List.nodup_nil
  taken _ none := absurd none List.not_mem_nil
  closed _ none := absurd none List.not_mem_nil
  reached _ none := absurd none List.not_mem_nil

/-- A type that has been visited already is passed over. -/
theorem skip (met : t ∈ seen) (later : Visits host seen waiting found) :
    Visits host seen (t :: waiting) found where
  fresh := later.fresh
  nodup := later.nodup
  taken := List.forall_mem_cons.mpr ⟨.inl met, later.taken⟩
  closed := later.closed
  reached x mem := by
    obtain ⟨s, waits, up⟩ := later.reached x mem
    exact ⟨s, List.mem_cons_of_mem _ waits, up⟩

/-- After a visit, the types next to it wait along with the others. -/
theorem visit (unmet : t ∉ seen) (waits : ∀ u, u ∈ next ↔ u ∈ waiting ∨ Above host t u)
    (later : Visits host (t :: seen) next found) : Visits host seen (t :: waiting) (t :: found) where
  fresh := List.forall_mem_cons.mpr
    ⟨unmet, fun x mem old => later.fresh x mem (List.mem_cons_of_mem _ old)⟩
  nodup := List.nodup_cons.mpr
    ⟨fun again => later.fresh t again List.mem_cons_self, later.nodup⟩
  taken := by
    refine List.forall_mem_cons.mpr ⟨.inr List.mem_cons_self, fun s mem => ?_⟩
    rw [List.mem_cons, or_left_comm, ← or_assoc, ← List.mem_cons]
    exact later.taken s ((waits s).mpr (.inl mem))
  closed := by
    have moved : ∀ u, u ∈ t :: seen ∨ u ∈ found → u ∈ seen ∨ u ∈ t :: found := by
      intro u known
      rwa [List.mem_cons, or_left_comm, ← or_assoc, ← List.mem_cons]
    refine List.forall_mem_cons.mpr ⟨fun u above => ?_, fun x mem u above => ?_⟩
    · exact moved u (later.taken u ((waits u).mpr (.inr above)))
    · exact moved u (later.closed x mem u above)
  reached := by
    refine List.forall_mem_cons.mpr ⟨⟨t, List.mem_cons_self, .refl⟩, fun x mem => ?_⟩
    obtain ⟨s, mem, up⟩ := later.reached x mem
    rcases (waits s).mp mem with old | above
    · exact ⟨s, List.mem_cons_of_mem _ old, up⟩
    · exact ⟨t, List.mem_cons_self, .head above up⟩

/-- A walk from one type visits what is on the way up from it, and nothing else. -/
theorem mem_iff (visits : Visits host [] [t] found) {u : TypeRef} :
    u ∈ found ↔ Reaches host t u := by
  have known : ∀ {v}, v ∈ ([] : List TypeRef) ∨ v ∈ found → v ∈ found :=
    fun either => either.resolve_left List.not_mem_nil
  constructor
  · intro mem
    obtain ⟨s, start, up⟩ := visits.reached u mem
    rwa [List.mem_singleton.mp start] at up
  · intro up
    induction up with
    | refl => exact known (visits.taken t List.mem_cons_self)
    | tail _ above ih => exact known (visits.closed _ ih _ above)

end Visits

/-! ### Breadth first -/

theorem visits_of_supertypes {steps : Nat} {seen queue found : List TypeRef}
    (ends : host.supertypesWithin? steps seen queue = some found) :
    Visits host seen queue found := by
  induction steps generalizing seen queue found with
  | zero =>
    cases queue with
    | nil =>
      cases ends
      exact .nil seen
    | cons t queue => cases ends
  | succ steps ih =>
    cases queue with
    | nil =>
      cases ends
      exact .nil seen
    | cons t queue =>
      rw [supertypesWithin?] at ends
      split at ends
      · next met => exact (ih ends).skip met
      · next unmet =>
        obtain ⟨later, rest, rfl⟩ := Option.map_eq_some_iff.mp ends
        refine (ih rest).visit unmet fun u => ?_
        rw [List.mem_append, List.mem_append, Option.mem_toList, or_assoc]
        rfl

/-- A walk that ends lists a type, without its nullable mark, and what is met above it. -/
theorem visits_supertypes {t : TypeRef}
    (ends : (host.supertypesWithin? host.stepLimit [] [stripNullable t]).isSome) :
    Visits host [] [stripNullable t] (host.supertypes t) := by
  obtain ⟨found, walk⟩ := Option.isSome_iff_exists.mp ends
  rw [supertypes, walk]
  exact visits_of_supertypes walk

/-- What is listed is on the way up, whether or not the walk ends. -/
theorem reaches_of_mem_supertypes {t u : TypeRef} (mem : u ∈ host.supertypes t) :
    Reaches host (stripNullable t) u := by
  cases walk : host.supertypesWithin? host.stepLimit [] [stripNullable t] with
  | none =>
    rw [supertypes, walk] at mem
    cases mem
  | some found => exact (visits_supertypes (Option.isSome_of_eq_some walk)).mem_iff.mp mem

/-! ### Depth first -/

/-- A search that succeeds has met the definition on the way up. -/
theorem reaches_of_implements {target : Symbol} {steps : Nat} {visited stack : List TypeRef}
    (found : host.implementsWithin? target steps visited stack = some true) :
    ∃ s ∈ stack, ∃ u, Reaches host s u ∧ Symbol.ofType u = target := by
  induction steps generalizing visited stack with
  | zero => cases stack <;> cases found
  | succ steps ih =>
    cases stack with
    | nil => cases found
    | cons t stack =>
      rw [implementsWithin?] at found
      split at found
      · next here => exact ⟨t, List.mem_cons_self, t, .refl, here⟩
      · split at found
        · obtain ⟨s, mem, there⟩ := ih found
          exact ⟨s, List.mem_cons_of_mem _ mem, there⟩
        · obtain ⟨s, mem, u, up, same⟩ := ih found
          rw [List.mem_append, List.mem_append, List.mem_reverse, Option.mem_toList] at mem
          rcases mem with base | interface | waits
          · exact ⟨t, List.mem_cons_self, u, .head (.inl base) up, same⟩
          · exact ⟨t, List.mem_cons_self, u, .head (.inr interface) up, same⟩
          · exact ⟨s, List.mem_cons_of_mem _ waits, u, up, same⟩

/-- A search that fails has visited everything, and met the definition nowhere. -/
theorem visits_of_implements {target : Symbol} {steps : Nat} {visited stack : List TypeRef}
    (missed : host.implementsWithin? target steps visited stack = some false) :
    ∃ found, Visits host visited stack found ∧ ∀ u ∈ found, Symbol.ofType u ≠ target := by
  induction steps generalizing visited stack with
  | zero =>
    cases stack with
    | nil => exact ⟨[], .nil visited, List.forall_mem_nil _⟩
    | cons t stack => cases missed
  | succ steps ih =>
    cases stack with
    | nil => exact ⟨[], .nil visited, List.forall_mem_nil _⟩
    | cons t stack =>
      rw [implementsWithin?] at missed
      split at missed
      · cases missed
      · next other =>
        split at missed
        · next met =>
          obtain ⟨found, visits, others⟩ := ih missed
          exact ⟨found, visits.skip met, others⟩
        · next unmet =>
          obtain ⟨found, visits, others⟩ := ih missed
          refine ⟨t :: found, visits.visit unmet fun u => ?_,
            List.forall_mem_cons.mpr ⟨other, others⟩⟩
          rw [List.mem_append, List.mem_append, List.mem_reverse, Option.mem_toList, ← or_assoc,
            or_comm]
          rfl

/-- A search that ends succeeds exactly if the definition is met on the way up. -/
theorem implements_iff {t : TypeRef} {target : Symbol}
    (ends : (host.implementsWithin? target host.stepLimit [] [t]).isSome) :
    host.implements t target = true ↔ ∃ u, Reaches host t u ∧ Symbol.ofType u = target := by
  obtain ⟨answer, walk⟩ := Option.isSome_iff_exists.mp ends
  rw [implements, walk, Option.getD_some]
  cases answer with
  | true =>
    obtain ⟨s, start, there⟩ := reaches_of_implements walk
    rw [List.mem_singleton.mp start] at there
    exact iff_of_true rfl there
  | false =>
    obtain ⟨found, visits, others⟩ := visits_of_implements walk
    refine iff_of_false Bool.false_ne_true ?_
    rintro ⟨u, up, same⟩
    exact others u (visits.mem_iff.mpr up) same

/-! ### Agreement -/

/-- The walks from a type end: the one to its supertypes, the one to its interfaces, and the search
for a definition. -/
structure AscentsEnd (host : Host) (t : TypeRef) (target : Symbol) : Prop where
  supertypes : (host.supertypesWithin? host.stepLimit [] [stripNullable t]).isSome
  interfaces : (host.allInterfacesWithin? host.stepLimit [t] [t]).isSome
  implements : (host.implementsWithin? target host.stepLimit [] [t]).isSome

/-- What the walks from a type find. -/
structure AscentsAgree (host : Host) (t : TypeRef) (target : Symbol) : Prop where
  /-- A definition is implemented exactly if it is the one behind some supertype. -/
  implements : host.implements t target = true ↔
    ∃ u ∈ host.supertypes t, Symbol.ofType u = target
  /-- The supertypes are the type without its nullable mark and what is met above it. -/
  supertypes : ∀ u, u ∈ host.supertypes t ↔ u = stripNullable t ∨ MetAbove host t u
  supertypes_nodup : (host.supertypes t).Nodup
  interfaces_nodup : (host.allInterfaces t).Nodup
  interfaces_other : t ∉ host.allInterfaces t
  interfaces_above : ∀ i ∈ host.allInterfaces t, MetAbove host t i
  /-- What is met above a type is one of its interfaces, or the base of some other type. -/
  interface_or_base : ∀ u, MetAbove host t u → u ≠ t →
    u ∈ host.allInterfaces t ∨ host.baseType? t = some u ∨
      ∃ v, MetAbove host t v ∧ v ≠ t ∧ v ≠ u ∧ host.baseType? v = some u

theorem walks_agree {t : TypeRef} {target : Symbol} (ends : AscentsEnd host t target) :
    AscentsAgree host t target := by
  have visits := visits_supertypes ends.supertypes
  obtain ⟨found, walk⟩ := Option.isSome_iff_exists.mp ends.interfaces
  have interfaces : host.allInterfaces t = found := by rw [allInterfaces, walk, Option.getD_some]
  obtain ⟨all, explored⟩ := exists_explored walk (List.Subset.refl _)
    fun s met idle => absurd met idle
  have supertypes : ∀ u, u ∈ host.supertypes t ↔ u = stripNullable t ∨ MetAbove host t u := by
    intro u
    rw [visits.mem_iff, reaches_iff, metAbove_stripNullable]
  have reached : ∀ x ∈ all, Reaches host t x := by
    intro x mem
    obtain ⟨s, start, up⟩ := explored.reached x mem
    rwa [List.mem_singleton.mp start] at up
  have met : ∀ u, MetAbove host t u → u ∈ all := by
    intro u above
    induction above with
    | single above => exact explored.closed t (explored.seen_subset List.mem_cons_self) _ above
    | tail _ above ih => exact explored.closed _ ih _ above
  constructor
  · rw [implements_iff ends.implements]
    simp only [supertypes, reaches_iff, or_and_right, exists_or, exists_eq_left]
    rfl
  · exact supertypes
  · exact visits.nodup
  · exact interfaces ▸ explored.nodup
  · rw [interfaces]
    exact fun mem => explored.fresh t mem List.mem_cons_self
  · intro i mem
    rw [interfaces] at mem
    obtain ⟨u, there, declared⟩ := explored.declared i mem
    exact .tail' (reached u there) (.inr declared)
  · intro u above other
    rcases explored.origin u (met u above) with root | interface | ⟨v, mem, apart, base⟩
    · exact absurd (List.mem_singleton.mp root) other
    · exact .inl (interfaces ▸ interface)
    · right
      rcases reaches_iff.mp (reached v mem) with rfl | between
      · exact .inl base
      · by_cases same : v = t
        · exact .inl (same ▸ base)
        · exact .inr ⟨v, between, same, apart, base⟩

/-- A class below two interfaces that extend a third one; the third one leads back to the first. -/
def riders : Model where
  types :=
    [ { name := "Game.IUnit", kind := .interface, interfaces := [.named "IArmed"] },
      { name := "Game.IArmed", kind := .interface, interfaces := [.named "IUnit"] },
      { name := "Game.IMounted", kind := .interface, interfaces := [.named "IUnit"] },
      { name := "Game.Rider", kind := .class, base := some (.named "Unit"),
        interfaces := [.named "IMounted", .named "IArmed"] },
      { name := "Game.Unit", kind := .class, interfaces := [.named "IUnit"] } ]

theorem walks_agree_riders :
    ofModel usualStepLimit riders = .ok (.withPrelude riders) ∧
      AscentsEnd (.withPrelude riders) ⟨"Game.Rider", [], true, 0⟩ ⟨"Game.IUnit", 0⟩ ∧
      AscentsAgree (.withPrelude riders) ⟨"Game.Rider", [], true, 0⟩ ⟨"Game.IUnit", 0⟩ := by
  have ends : AscentsEnd (.withPrelude riders) ⟨"Game.Rider", [], true, 0⟩ ⟨"Game.IUnit", 0⟩ :=
    ⟨by decide +kernel, by decide +kernel, by decide +kernel⟩
  exact ⟨ofModel_withPrelude rfl rfl, ends, walks_agree ends⟩

end Marksmith.Host

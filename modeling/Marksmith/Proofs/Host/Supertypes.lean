import Marksmith.Analysis.Facts
import Mathlib.Data.List.Nodup
import Mathlib.Logic.Relation

/-!
The interfaces of a type. `Host.allInterfaces` is a walk with a list of types that have been met;
what it should find is said without a walk:

* `Reaches`: a type is met on the way up from another one, through bases and interfaces;
* `Inherits`: an interface that some type on the way up declares;
* `Ordinary`: bases are classes and interfaces are interfaces, as the compiler of the project demands;
* `mem_allInterfaces`: on ordinary types, a walk that ends finds exactly the inherited interfaces.

Without `Ordinary` only one direction holds: an interface that is first met as a base type is not
found (`inherits_of_mem_allInterfaces` is the other one).
-/

namespace Marksmith.Host

open Syntax (TypeRef)

variable {host : Host}

/-! ### The way up -/

/-- A type next to another one on the way up. -/
def Above (host : Host) (t u : TypeRef) : Prop :=
  host.baseType? t = some u ∨ u ∈ host.declaredInterfaces t

/-- A type on the way up from another one, or that type itself. -/
def Reaches (host : Host) : TypeRef → TypeRef → Prop := Relation.ReflTransGen (Above host)

/-- An interface of a type, declared by itself or on the way up. -/
def Inherits (host : Host) (t i : TypeRef) : Prop :=
  ∃ u, Reaches host t u ∧ i ∈ host.declaredInterfaces u

theorem Inherits.of_reaches {t u i : TypeRef} (up : Reaches host t u) (inherits : Inherits host u i) :
    Inherits host t i := by
  obtain ⟨v, further, declared⟩ := inherits
  exact ⟨v, up.trans further, declared⟩

theorem base_of_mem_baseChainFrom {steps : Nat} {before : List Symbol} {t b : TypeRef}
    (mem : b ∈ host.baseChainFrom steps before t) :
    ∃ u, Reaches host t u ∧ host.baseType? u = some b := by
  induction steps generalizing before t with
  | zero => cases mem
  | succ steps ih =>
    rw [baseChainFrom] at mem
    split at mem
    · next base link =>
      split at mem
      · cases mem
      · rcases List.mem_cons.mp mem with rfl | later
        · exact ⟨t, .refl, link⟩
        · obtain ⟨u, up, last⟩ := ih later
          exact ⟨u, .head (.inl link) up, last⟩
    · cases mem

/-- The base types of a type are bases of types on the way up. -/
theorem base_of_mem_baseChain {t b : TypeRef} (mem : b ∈ host.baseChain t) :
    ∃ u, Reaches host t u ∧ host.baseType? u = some b :=
  base_of_mem_baseChainFrom mem

/-! ### The walk -/

theorem mem_unseen {seen ts : List TypeRef} {t : TypeRef} :
    t ∈ unseen seen ts ↔ t ∈ ts ∧ t ∉ seen := by
  induction ts generalizing seen with
  | nil => simp [unseen]
  | cons u ts ih =>
    rw [unseen]
    split
    · next met =>
      rw [ih, List.mem_cons]
      constructor
      · rintro ⟨mem, fresh⟩
        exact ⟨.inr mem, fresh⟩
      · rintro ⟨rfl | mem, fresh⟩
        · exact absurd met fresh
        · exact ⟨mem, fresh⟩
    · next unmet =>
      rw [List.mem_cons, List.mem_cons, ih, List.mem_cons]
      by_cases same : t = u
      · simp [same, unmet]
      · simp [same]

theorem nodup_unseen (seen ts : List TypeRef) : (unseen seen ts).Nodup := by
  induction ts generalizing seen with
  | nil => exact List.nodup_nil
  | cons t ts ih =>
    rw [unseen]
    split
    · exact ih seen
    · exact List.nodup_cons.mpr
        ⟨fun again => (mem_unseen.mp again).2 List.mem_cons_self, ih (t :: seen)⟩

/-- Everything that a walk has met when it ends: what it had met before it, what it has found, and
base types of other types. -/
structure Explored (host : Host) (seen found all : List TypeRef) : Prop where
  seen_subset : seen ⊆ all
  closed : ∀ s ∈ all, ∀ u, Above host s u → u ∈ all
  origin : ∀ x ∈ all, x ∈ seen ∨ x ∈ found ∨ ∃ s ∈ all, s ≠ x ∧ host.baseType? s = some x
  reached : ∀ x ∈ all, ∃ s ∈ seen, Reaches host s x
  declared : ∀ x ∈ found, ∃ s ∈ all, x ∈ host.declaredInterfaces s
  fresh : ∀ x ∈ found, x ∉ seen
  nodup : found.Nodup

theorem explored_of_expanded {seen : List TypeRef}
    (expanded : ∀ s ∈ seen, ∀ u, Above host s u → u ∈ seen) : Explored host seen [] seen where
  seen_subset := List.Subset.refl _
  closed := expanded
  origin _ mem := .inl mem
  reached x mem := ⟨x, mem, .refl⟩
  declared _ none := absurd none List.not_mem_nil
  fresh _ none := absurd none List.not_mem_nil
  nodup := List.nodup_nil

/-- What a walk explores after taking up one type, it explores from there on. -/
theorem Explored.step {seen found all : List TypeRef} {t : TypeRef} (met : t ∈ seen)
    {interfaces base : List TypeRef} (distinct : interfaces.Nodup)
    (declares : ∀ x ∈ interfaces, x ∈ host.declaredInterfaces t ∧ x ∉ seen)
    (derives : ∀ x ∈ base, host.baseType? t = some x ∧ x ∉ seen)
    (explored : Explored host (base ++ interfaces ++ seen) found all) :
    Explored host seen (interfaces ++ found) all := by
  have within : seen ⊆ all := fun x mem =>
    explored.seen_subset (List.mem_append_right _ mem)
  refine ⟨within, explored.closed, ?_, ?_, ?_, ?_, ?_⟩
  · intro x mem
    rcases explored.origin x mem with early | later | derived
    · rcases List.mem_append.mp early with new | old
      · rcases List.mem_append.mp new with isBase | isInterface
        · obtain ⟨link, unmet⟩ := derives x isBase
          exact .inr (.inr ⟨t, within met, fun same => unmet (same ▸ met), link⟩)
        · exact .inr (.inl (List.mem_append_left _ isInterface))
      · exact .inl old
    · exact .inr (.inl (List.mem_append_right _ later))
    · exact .inr (.inr derived)
  · intro x mem
    obtain ⟨s, start, up⟩ := explored.reached x mem
    rcases List.mem_append.mp start with new | old
    · rcases List.mem_append.mp new with isBase | isInterface
      · exact ⟨t, met, .head (.inl (derives s isBase).1) up⟩
      · exact ⟨t, met, .head (.inr (declares s isInterface).1) up⟩
    · exact ⟨s, old, up⟩
  · intro x mem
    rcases List.mem_append.mp mem with here | later
    · exact ⟨t, within met, (declares x here).1⟩
    · exact explored.declared x later
  · intro x mem
    rcases List.mem_append.mp mem with here | later
    · exact (declares x here).2
    · exact fun old => explored.fresh x later (List.mem_append_right _ old)
  · refine List.nodup_append'.mpr ⟨distinct, explored.nodup, fun x here later => ?_⟩
    exact explored.fresh x later (List.mem_append_left _ (List.mem_append_right _ here))

/-- A walk that ends has explored everything above what it had met before, if it had expanded all of
that but its queue. -/
theorem exists_explored {steps : Nat} {seen queue found : List TypeRef}
    (ends : host.allInterfacesWithin? steps seen queue = some found) (queued : queue ⊆ seen)
    (expanded : ∀ s ∈ seen, s ∉ queue → ∀ u, Above host s u → u ∈ seen) :
    ∃ all, Explored host seen found all := by
  induction steps generalizing seen queue found with
  | zero =>
    cases queue with
    | nil =>
      cases ends
      exact ⟨seen, explored_of_expanded fun s mem => expanded s mem List.not_mem_nil⟩
    | cons t queue => cases ends
  | succ steps ih =>
    cases queue with
    | nil =>
      cases ends
      exact ⟨seen, explored_of_expanded fun s mem => expanded s mem List.not_mem_nil⟩
    | cons t queue =>
      obtain ⟨later, rest, rfl⟩ := Option.map_eq_some_iff.mp ends
      have met : t ∈ seen := queued List.mem_cons_self
      let interfaces := unseen seen (host.declaredInterfaces t)
      let base := unseen (interfaces ++ seen) (host.baseType? t).toList
      have stillQueued : queue ++ interfaces ++ base ⊆ base ++ interfaces ++ seen := by
        intro x mem
        rcases List.mem_append.mp mem with front | isBase
        · rcases List.mem_append.mp front with waiting | isInterface
          · exact List.mem_append_right _ (queued (List.mem_cons_of_mem _ waiting))
          · exact List.mem_append_left _ (List.mem_append_right _ isInterface)
        · exact List.mem_append_left _ (List.mem_append_left _ isBase)
      have stillExpanded : ∀ s ∈ base ++ interfaces ++ seen, s ∉ queue ++ interfaces ++ base →
          ∀ u, Above host s u → u ∈ base ++ interfaces ++ seen := by
        intro s mem idle u above
        have old : s ∈ seen := by
          rcases List.mem_append.mp mem with new | old
          · rcases List.mem_append.mp new with isBase | isInterface
            · exact absurd (List.mem_append_right _ isBase) idle
            · exact absurd (List.mem_append_left _ (List.mem_append_right _ isInterface)) idle
          · exact old
        by_cases same : s = t
        · subst same
          rcases above with derived | declared
          · by_cases known : u ∈ interfaces ++ seen
            · rw [List.append_assoc]
              exact List.mem_append_right _ known
            · refine List.mem_append_left _ (List.mem_append_left _ (mem_unseen.mpr ⟨?_, known⟩))
              exact Option.mem_toList.mpr derived
          · by_cases known : u ∈ seen
            · exact List.mem_append_right _ known
            · exact List.mem_append_left _ (List.mem_append_right _
                (mem_unseen.mpr ⟨declared, known⟩))
        · have unqueued : s ∉ t :: queue := by
            intro queuedStill
            rcases List.mem_cons.mp queuedStill with here | waiting
            · exact same here
            · exact idle (List.mem_append_left _ (List.mem_append_left _ waiting))
          exact List.mem_append_right _ (expanded s old unqueued u above)
      obtain ⟨all, explored⟩ := ih rest stillQueued stillExpanded
      refine ⟨all, explored.step met (nodup_unseen _ _) (fun x mem => mem_unseen.mp mem) ?_⟩
      intro x isBase
      obtain ⟨link, unmet⟩ := mem_unseen.mp isBase
      exact ⟨Option.mem_toList.mp link, fun old => unmet (List.mem_append_right _ old)⟩

/-! ### Ordinary types -/

/-- A type that stands for a declaration of a kind, without a nullable mark or a rank. -/
def IsKind (host : Host) (kind : TypeKind) (t : TypeRef) : Prop :=
  host.kindOf? t = some kind ∧ t.nullable = false ∧ t.rank = 0

instance (kind : TypeKind) (t : TypeRef) : Decidable (IsKind host kind t) :=
  inferInstanceAs (Decidable (_ ∧ _ ∧ _))

/-- A type above which bases are classes and interfaces are interfaces. -/
structure Ordinary (host : Host) (t : TypeRef) : Prop where
  kind : IsKind host .class t
  base : ∀ u, Reaches host t u → ∀ b, host.baseType? u = some b → IsKind host .class b
  interface : ∀ u, Reaches host t u → ∀ i ∈ host.declaredInterfaces u, IsKind host .interface i

/-- What a walk finds is inherited. -/
theorem inherits_of_mem_allInterfaces {t i : TypeRef} (mem : i ∈ host.allInterfaces t) :
    Inherits host t i := by
  rw [allInterfaces] at mem
  cases ends : host.allInterfacesWithin? host.stepLimit [t] [t] with
  | none =>
    rw [ends] at mem
    cases mem
  | some found =>
    rw [ends, Option.getD_some] at mem
    obtain ⟨all, explored⟩ := exists_explored ends (List.Subset.refl _)
      fun s met idle => absurd met idle
    obtain ⟨u, here, declared⟩ := explored.declared i mem
    obtain ⟨s, start, up⟩ := explored.reached u here
    rw [List.mem_singleton.mp start] at up
    exact ⟨u, up, declared⟩

/-- On an ordinary type, a walk that ends finds exactly what is inherited. -/
theorem mem_allInterfaces {t : TypeRef} (ordinary : Ordinary host t)
    (ends : (host.allInterfacesWithin? host.stepLimit [t] [t]).isSome) {i : TypeRef} :
    i ∈ host.allInterfaces t ↔ Inherits host t i := by
  refine ⟨inherits_of_mem_allInterfaces, ?_⟩
  rintro ⟨u, up, declared⟩
  obtain ⟨found, walk⟩ := Option.isSome_iff_exists.mp ends
  obtain ⟨all, explored⟩ := exists_explored walk (List.Subset.refl _)
    fun s met idle => absurd met idle
  have reached : ∀ s ∈ all, Reaches host t s := by
    intro s mem
    obtain ⟨start, same, up⟩ := explored.reached s mem
    rwa [List.mem_singleton.mp same] at up
  have there : ∀ s, Reaches host t s → s ∈ all := by
    intro s up
    induction up with
    | refl => exact explored.seen_subset List.mem_cons_self
    | tail _ above ih => exact explored.closed _ ih _ above
  have isInterface := (ordinary.interface u up i declared).1
  rw [allInterfaces, walk, Option.getD_some]
  rcases explored.origin i (explored.closed u (there u up) i (.inr declared)) with root | found | base
  · rw [List.mem_singleton.mp root, ordinary.kind.1] at isInterface
    cases isInterface
  · exact found
  · obtain ⟨s, mem, -, derived⟩ := base
    rw [(ordinary.base s (reached s mem) i derived).1] at isInterface
    cases isInterface

/-- Above an ordinary type, classes are ordinary. -/
theorem Ordinary.of_reaches {t u : TypeRef} (ordinary : Ordinary host t) (up : Reaches host t u)
    (isClass : IsKind host .class u) : Ordinary host u where
  kind := isClass
  base v further := ordinary.base v (up.trans further)
  interface v further := ordinary.interface v (up.trans further)

/-- The types on the way up are found among types that are closed under it. -/
theorem mem_of_reaches {all : List TypeRef} {t u : TypeRef} (start : t ∈ all)
    (closed : ∀ s ∈ all, ∀ v ∈ (host.baseType? s).toList ++ host.declaredInterfaces s, v ∈ all)
    (up : Reaches host t u) : u ∈ all := by
  induction up with
  | refl => exact start
  | @tail s v _ above ih =>
    refine closed s ih v (List.mem_append.mpr ?_)
    rcases above with base | interface
    · exact .inl (Option.mem_toList.mpr base)
    · exact .inr interface

/-- Whether a type is ordinary can be read off any list of types that is closed upwards. -/
theorem ordinary_of_closed {all : List TypeRef} {t : TypeRef} (start : t ∈ all)
    (closed : ∀ s ∈ all, ∀ v ∈ (host.baseType? s).toList ++ host.declaredInterfaces s, v ∈ all)
    (kind : IsKind host .class t)
    (base : ∀ s ∈ all, ∀ b ∈ (host.baseType? s).toList, IsKind host .class b)
    (interface : ∀ s ∈ all, ∀ i ∈ host.declaredInterfaces s, IsKind host .interface i) :
    Ordinary host t where
  kind := kind
  base u up b link := base u (mem_of_reaches start closed up) b (Option.mem_toList.mpr link)
  interface u up := interface u (mem_of_reaches start closed up)

end Marksmith.Host

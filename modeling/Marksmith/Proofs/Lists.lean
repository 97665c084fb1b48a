import Mathlib.Data.List.Forall2
import Mathlib.Data.List.TakeWhile

/-!
Lists that are related place by place, computations that are made one after the other, searches
that do not depend on the order of a list, and lists that are read from their front.
-/

namespace Marksmith

theorem exists_of_forall₂ {α β : Type} {r : α → β → Prop} {as : List α} {bs : List β}
    (each : List.Forall₂ r as bs) {b : β} (mem : b ∈ bs) : ∃ a ∈ as, r a b := by
  induction each with
  | nil => cases mem
  | cons first _ ih =>
    rcases List.mem_cons.mp mem with rfl | later
    · exact ⟨_, List.mem_cons_self, first⟩
    · obtain ⟨a, place, here⟩ := ih later
      exact ⟨a, List.mem_cons_of_mem _ place, here⟩

theorem forall₂_and_mem {α β : Type} {r : α → β → Prop} {as : List α} {bs : List β}
    (each : List.Forall₂ r as bs) : List.Forall₂ (fun a b => a ∈ as ∧ r a b) as bs := by
  induction each with
  | nil => exact .nil
  | cons first _ ih =>
    refine .cons ⟨List.mem_cons_self, first⟩ (ih.imp fun a b both => ?_)
    exact ⟨List.mem_cons_of_mem _ both.1, both.2⟩

theorem forall₂_and_mems {α β : Type} {r : α → β → Prop} {as : List α} {bs : List β}
    (each : List.Forall₂ r as bs) : List.Forall₂ (fun a b => a ∈ as ∧ b ∈ bs ∧ r a b) as bs :=
  forall₂_and_mem (forall₂_and_mem each.flip).flip

/-- If every entry is related to something, the list is related to some list. -/
theorem exists_forall₂ {α β : Type} {r : α → β → Prop} {as : List α}
    (each : ∀ a ∈ as, ∃ b, r a b) : ∃ bs, List.Forall₂ r as bs := by
  induction as with
  | nil => exact ⟨[], .nil⟩
  | cons a as ih =>
    rw [List.forall_mem_cons] at each
    obtain ⟨b, here⟩ := each.1
    obtain ⟨bs, rest⟩ := ih each.2
    exact ⟨b :: bs, .cons here rest⟩

/-- A list is related to itself with one entry changed if that entry is. -/
theorem forall₂_modify {α : Type} {r : α → α → Prop} {f : α → α} (same : ∀ a, r a a) :
    ∀ {as : List α} {i : Nat}, (∀ a, as[i]? = some a → r a (f a)) →
      List.Forall₂ r as (as.modify i f)
  | [], i, _ => by
    rw [List.modify_nil]
    exact .nil
  | a :: as, 0, changed => by
    rw [List.modify_zero_cons]
    exact .cons (changed a rfl) (List.forall₂_same.mpr fun b _ => same b)
  | a :: as, i + 1, changed => by
    rw [List.modify_succ_cons]
    exact .cons (same a) (forall₂_modify same changed)

theorem eq_of_forall₂ {α : Type} {as bs : List α} (each : List.Forall₂ Eq as bs) : as = bs :=
  List.forall₂_eq_eq_eq ▸ each

section Related

variable {α : Type} {r : α → α → Prop} {as bs : List α} (each : List.Forall₂ r as bs)

include each

theorem isEmpty_eq_of_forall₂ : bs.isEmpty = as.isEmpty := by
  cases each <;> rfl

theorem map_eq_of_forall₂ {β : Type} {f : α → β} (same : ∀ a b, r a b → f b = f a) : bs.map f = as.map f := by
  induction each with
  | nil => rfl
  | cons first _ ih => rw [List.map_cons, List.map_cons, same _ _ first, ih]

theorem any_eq_of_forall₂ {p : α → Bool} (same : ∀ a b, r a b → p b = p a) :
    bs.any p = as.any p := by
  induction each with
  | nil => rfl
  | cons first _ ih => rw [List.any_cons, List.any_cons, same _ _ first, ih]

theorem flatMap_eq_of_forall₂ {β : Type} {f : α → List β} (same : ∀ a b, r a b → f b = f a) :
    bs.flatMap f = as.flatMap f := by
  rw [List.flatMap_def, List.flatMap_def, map_eq_of_forall₂ each same]

/-- Related lists are equal if something of their items is that tells related items apart. -/
theorem eq_of_map_eq_of_forall₂ {β : Type} {f : α → β} (same : bs.map f = as.map f)
    (apart : ∀ a b, r a b → f b = f a → b = a) : bs = as := by
  induction each with
  | nil => rfl
  | cons first _ ih =>
    rw [List.map_cons, List.map_cons, List.cons.injEq] at same
    rw [apart _ _ first same.1, ih same.2]

theorem find?_of_forall₂ {p : α → Bool} (same : ∀ a b, r a b → p b = p a) :
    Option.Rel r (as.find? p) (bs.find? p) := by
  induction each with
  | nil => exact .none
  | @cons a b _ _ first _ ih =>
    rw [List.find?_cons, List.find?_cons, same a b first]
    cases p a with
    | true => exact .some first
    | false => exact ih

end Related

theorem rel_eq_iff {α : Type} {o o' : Option α} : Option.Rel Eq o o' ↔ o = o' := by
  constructor
  · rintro (⟨⟨⟩⟩ | _) <;> rfl
  · rintro rfl
    cases o with
    | none => exact .none
    | some a => exact .some rfl

theorem rel_bind {α β α' β' : Type} {r : α → α' → Prop} {q : β → β' → Prop} {o : Option α}
    {o' : Option α'} {f : α → Option β} {f' : α' → Option β'} (first : Option.Rel r o o')
    (next : ∀ a a', r a a' → Option.Rel q (f a) (f' a')) : Option.Rel q (o.bind f) (o'.bind f') := by
  cases first with
  | none => exact .none
  | some related => exact next _ _ related

theorem findSome?_rel {α β β' : Type} {r : β → β' → Prop} {f : α → Option β} {f' : α → Option β'}
    {as : List α} (each : ∀ a ∈ as, Option.Rel r (f a) (f' a)) :
    Option.Rel r (as.findSome? f) (as.findSome? f') := by
  induction as with
  | nil => exact .none
  | cons a as ih =>
    obtain ⟨first, rest⟩ := List.forall_mem_cons.mp each
    rw [List.findSome?_cons, List.findSome?_cons]
    generalize f a = b, f' a = b' at first
    cases first with
    | none => exact ih rest
    | some related => exact .some related

/-- Searches and computations that are related one by one have related outcomes as a whole. -/
theorem mapM_of_forall₂ {α β α' β' : Type} {f : α → Option β} {f' : α' → Option β'}
    {r : β → β' → Prop} {as : List α} {as' : List α'}
    (each : List.Forall₂ (fun a a' => Option.Rel r (f a) (f' a')) as as') :
    Option.Rel (List.Forall₂ r) (as.mapM f) (as'.mapM f') := by
  induction each with
  | nil => exact .some .nil
  | @cons a a' as as' first _ ih =>
    rw [List.mapM_cons, List.mapM_cons]
    refine rel_bind first fun b b' one => rel_bind ih fun bs bs' others => ?_
    exact .some (.cons one others)

/-- What holds of every single outcome holds of all outcomes together. -/
theorem forall_mem_of_mapM {α β : Type} {f : α → Option β} {p : β → Prop} {as : List α}
    {bs : List β} (each : ∀ a ∈ as, ∀ b, f a = some b → p b) (all : as.mapM f = some bs) :
    ∀ b ∈ bs, p b := by
  induction as generalizing bs with
  | nil =>
    cases all
    exact List.forall_mem_nil _
  | cons a as ih =>
    obtain ⟨first, rest⟩ := List.forall_mem_cons.mp each
    rw [List.mapM_cons] at all
    obtain ⟨b, one, all⟩ := Option.bind_eq_some_iff.mp all
    obtain ⟨others, further, same⟩ := Option.bind_eq_some_iff.mp all
    cases same
    exact List.forall_mem_cons.mpr ⟨first b one, ih rest further⟩

/-- A computation with another one behind it succeeds exactly if both do. -/
theorem bind_eq_ok_iff {ε α β : Type} {x : Except ε α} {next : α → Except ε β} {b : β} :
    (x >>= next) = .ok b ↔ ∃ a, x = .ok a ∧ next a = .ok b := by
  cases x with
  | error e => exact iff_of_false (fun h => nomatch h) (fun ⟨_, h, _⟩ => nomatch h)
  | ok a =>
    constructor
    · exact fun made => ⟨a, rfl, made⟩
    · rintro ⟨other, same, made⟩
      cases same
      exact made

/-- A computation with another one behind it fails exactly if one of them does. -/
theorem bind_eq_error_iff {ε α β : Type} {x : Except ε α} {next : α → Except ε β} {e : ε} :
    (x >>= next) = .error e ↔ x = .error e ∨ ∃ a, x = .ok a ∧ next a = .error e := by
  cases x with
  | error e' =>
    refine ⟨fun made => .inl (congrArg _ (Except.error.inj made)), ?_⟩
    rintro (same | ⟨_, other, _⟩)
    · exact congrArg _ (Except.error.inj same)
    · cases other
  | ok a =>
    refine ⟨fun made => .inr ⟨a, rfl, made⟩, ?_⟩
    rintro (other | ⟨_, same, made⟩)
    · cases other
    · cases same
      exact made

theorem map_eq_ok_iff {ε α β : Type} {x : Except ε α} {f : α → β} {b : β} :
    x.map f = .ok b ↔ ∃ a, x = .ok a ∧ f a = b := by
  cases x with
  | error e => exact iff_of_false (fun h => nomatch h) (fun ⟨_, h, _⟩ => nomatch h)
  | ok a =>
    constructor
    · exact fun made => ⟨a, rfl, Except.ok.inj made⟩
    · rintro ⟨other, same, made⟩
      cases same
      exact congrArg Except.ok made

theorem mapError_eq_ok_iff {ε ε' α : Type} {x : Except ε α} {f : ε → ε'} {a : α} :
    x.mapError f = .ok a ↔ x = .ok a := by
  cases x with
  | error e => exact iff_of_false (fun h => nomatch h) (fun h => nomatch h)
  | ok b => exact ⟨fun made => congrArg _ (Except.ok.inj made), congrArg _⟩

theorem toOption_eq_some_iff {ε α : Type} {x : Except ε α} {a : α} :
    x.toOption = some a ↔ x = .ok a := by
  cases x with
  | error e => exact iff_of_false (fun h => nomatch h) (fun h => nomatch h)
  | ok b => exact ⟨fun made => congrArg _ (Option.some.inj made), congrArg _⟩

/-- Computations succeed one after the other exactly if each of them does. -/
theorem mapM_eq_ok_iff {ε α β : Type} {f : α → Except ε β} {as : List α} {bs : List β} :
    as.mapM f = .ok bs ↔ List.Forall₂ (fun a b => f a = .ok b) as bs := by
  induction as generalizing bs with
  | nil =>
    rw [List.mapM_nil]
    constructor
    · intro none
      cases none
      exact .nil
    · intro each
      cases each
      rfl
  | cons a as ih =>
    rw [List.mapM_cons]
    constructor
    · intro all
      cases first : f a with
      | error e =>
        rw [first] at all
        cases all
      | ok b =>
        cases rest : as.mapM f with
        | error e =>
          rw [first, rest] at all
          cases all
        | ok others =>
          rw [first, rest] at all
          cases all
          exact .cons first (ih.mp rest)
    · intro each
      cases each with
      | cons first rest =>
        rw [first, ih.mpr rest]
        rfl

/-! ### Searches in another order -/

/-- If no two elements of a list pass a test, it is searched with the same outcome in any order. -/
theorem find?_perm {α : Type} {as bs : List α} {p : α → Bool}
    (unique : ∀ a ∈ bs, ∀ b ∈ bs, p a → p b → a = b) (perm : as.Perm bs) :
    as.find? p = bs.find? p := by
  cases found : bs.find? p with
  | none =>
    refine List.find?_eq_none.mpr ?_
    intro a mem
    exact List.find?_eq_none.mp found a (perm.mem_iff.mp mem)
  | some b =>
    have here := List.mem_of_find?_eq_some found
    have suits := List.find?_some found
    have present : (as.find? p).isSome :=
      List.find?_isSome.mpr ⟨b, perm.mem_iff.mpr here, suits⟩
    obtain ⟨a, first⟩ := Option.isSome_iff_exists.mp present
    have there := perm.mem_iff.mp (List.mem_of_find?_eq_some first)
    rw [first, unique a there b here (List.find?_some first) suits]

/-! ### Runs of elements -/

/-- A run of elements with a property, up to the first element without it, is read in one way
only. -/
theorem run_inj {α : Type} {p : α → Bool} {x y s t : List α} (inside : ∀ a ∈ x, p a)
    (inside' : ∀ a ∈ y, p a) (stop : ∀ a ∈ s.head?, ¬p a) (stop' : ∀ a ∈ t.head?, ¬p a)
    (same : x ++ s = y ++ t) : x = y ∧ s = t := by
  have ends : ∀ {s : List α}, (∀ a ∈ s.head?, ¬p a) → s.takeWhile p = [] := by
    intro s stop
    cases s with
    | nil => rfl
    | cons a s => exact List.takeWhile_cons_of_neg (stop a rfl)
  have front := congrArg (List.takeWhile p) same
  rw [List.takeWhile_append_of_pos inside, List.takeWhile_append_of_pos inside', ends stop,
    ends stop', List.append_nil, List.append_nil] at front
  subst front
  exact ⟨rfl, List.append_cancel_left same⟩

/-- What stands before the first occurrence of an element is read in one way only. -/
theorem before_inj {α : Type} [DecidableEq α] {a : α} {x y s t : List α} (first : a ∉ x)
    (first' : a ∉ y) (same : x ++ a :: s = y ++ a :: t) : x = y ∧ s = t := by
  have apart : ∀ {z : List α}, a ∉ z → ∀ b ∈ z, decide (b ≠ a) := by
    intro z fresh b mem
    exact decide_eq_true fun here => fresh (here ▸ mem)
  have stop : ∀ {z : List α}, ∀ b ∈ (a :: z).head?, ¬decide (b ≠ a) := by
    intro z b here
    cases here
    simp
  obtain ⟨fronts, rests⟩ := run_inj (apart first) (apart first') stop stop same
  exact ⟨fronts, (List.cons.inj rests).2⟩

end Marksmith

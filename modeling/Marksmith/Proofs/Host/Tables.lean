import Marksmith.Host.Symbol
import Mathlib.Data.List.Forall2
import Mathlib.Data.List.Lookmap

/-!
Reading symbol tables. What a table gives for a symbol is the last value that was put in for it:

* `get?_insert`: putting in a value changes what the table gives for its symbol and nothing else;
* `mem_insertEntry`: the entries afterwards are the new one and older ones;
* `mem_of_get?`: the entry behind a lookup.

None of these asks whether the entries are sorted. Insertion keeps them so (`Sorted.insert`), and in
a sorted table every entry is found (`Sorted.get?_of_mem`). So what two sorted tables give for every
symbol decides how they relate entry by entry (`Sorted.forall₂`, `Sorted.ext`).
-/

namespace Marksmith

namespace SymbolTable

variable {α β : Type}

/-! ### Insertion -/

theorem lookup_cons (s t : Symbol) (value : α) (entries : List (Symbol × α)) :
    ((s, value) :: entries).lookup t = if t = s then some value else entries.lookup t := by
  by_cases same : t = s
  · rw [same, List.lookup_cons_self, if_pos rfl]
  · rw [List.lookup_cons, beq_eq_false_iff_ne.mpr same, if_neg same]

theorem lookup_insertEntry (s t : Symbol) (value : α) (entries : List (Symbol × α)) :
    (insertEntry s value entries).lookup t = if t = s then some value else entries.lookup t := by
  induction entries with
  | nil => exact lookup_cons s t value []
  | cons entry entries ih =>
    obtain ⟨u, v⟩ := entry
    simp only [insertEntry]
    split
    · next here =>
      subst here
      rw [lookup_cons, lookup_cons]
      split <;> rfl
    · next apart =>
      split
      · exact lookup_cons s t value _
      · rw [lookup_cons, lookup_cons, ih]
        by_cases same : t = s
        · rw [if_neg (same ▸ apart), if_pos same, if_pos same]
        · rw [if_neg same, if_neg same]

/-- A table gives the value that was just put in, and what it gave before for every other symbol. -/
@[simp] theorem get?_insert (table : SymbolTable α) (s t : Symbol) (value : α) :
    (table.insert s value).get? t = if t = s then some value else table.get? t :=
  lookup_insertEntry s t value table.entries

theorem mem_insertEntry {s : Symbol} {value : α} {entries : List (Symbol × α)}
    {entry : Symbol × α} (h : entry ∈ insertEntry s value entries) :
    entry = (s, value) ∨ entry ∈ entries := by
  induction entries with
  | nil =>
    rw [insertEntry, List.mem_singleton] at h
    exact .inl h
  | cons first rest ih =>
    obtain ⟨t, v⟩ := first
    simp only [insertEntry] at h
    split at h
    · rcases List.mem_cons.mp h with same | later
      · exact .inl same
      · exact .inr (List.mem_cons_of_mem _ later)
    · split at h
      · rcases List.mem_cons.mp h with same | older
        · exact .inl same
        · exact .inr older
      · rcases List.mem_cons.mp h with same | later
        · exact .inr (same ▸ List.mem_cons_self)
        · rcases ih later with same | older
          · exact .inl same
          · exact .inr (List.mem_cons_of_mem _ older)

/-! ### Lookups and entries -/

@[simp] theorem get?_empty (s : Symbol) : ({} : SymbolTable α).get? s = none := rfl

theorem mem_of_get? {table : SymbolTable α} {s : Symbol} {value : α}
    (h : table.get? s = some value) : (s, value) ∈ table.entries := by
  obtain ⟨front, back, entries, -⟩ := List.lookup_eq_some_iff.mp h
  rw [entries]
  exact List.mem_append_right _ List.mem_cons_self

/-- A value of a table built by insertion was put in, or was there before. -/
theorem mem_of_get?_foldl_insert (key : β → Symbol) (value : β → α) {s : Symbol} {found : α}
    {items : List β} {table : SymbolTable α}
    (h : (items.foldl (fun table b => table.insert (key b) (value b)) table).get? s = some found) :
    (∃ b ∈ items, key b = s ∧ value b = found) ∨ table.get? s = some found := by
  induction items generalizing table with
  | nil => exact .inr h
  | cons b items ih =>
    rcases ih h with ⟨c, mem, here⟩ | before
    · exact .inl ⟨c, List.mem_cons_of_mem _ mem, here⟩
    · rw [get?_insert] at before
      split at before
      · next same => exact .inl ⟨b, List.mem_cons_self, same.symm, Option.some.inj before⟩
      · exact .inr before

theorem contains_foldl_insert (key : β → Symbol) (value : β → α) {s : Symbol} {items : List β}
    {table : SymbolTable α} (h : (∃ b ∈ items, key b = s) ∨ table.contains s) :
    (items.foldl (fun table b => table.insert (key b) (value b)) table).contains s := by
  induction items generalizing table with
  | nil =>
    rcases h with ⟨b, mem, -⟩ | before
    · cases mem
    · exact before
  | cons b items ih =>
    refine ih ?_
    rcases h with ⟨c, mem, here⟩ | before
    · rcases List.mem_cons.mp mem with rfl | later
      · right
        rw [contains, get?_insert, if_pos here.symm]
        rfl
      · exact .inl ⟨c, later, here⟩
    · right
      rw [contains, get?_insert]
      split
      · rfl
      · exact before

end SymbolTable

/-! ### The order of symbols -/

namespace Symbol

theorem compare_eq_lex (s t : Symbol) :
    s.compare t = compareLex (compareOn name) (compareOn arity) s t := rfl

theorem before_trans {s t u : Symbol} (first : s.before t) (second : t.before u) : s.before u := by
  simp only [before, beq_iff_eq, compare_eq_lex] at first second ⊢
  exact Std.TransCmp.lt_trans first second

theorem eq_or_before_of_not_before {s t : Symbol} (apart : s ≠ t) (h : ¬s.before t) :
    t.before s := by
  simp only [before, beq_iff_eq, compare] at h ⊢
  have swapName : Ord.compare t.name s.name = (Ord.compare s.name t.name).swap :=
    Std.OrientedCmp.eq_swap
  have swapArity : Ord.compare t.arity s.arity = (Ord.compare s.arity t.arity).swap :=
    Std.OrientedCmp.eq_swap
  rw [swapName, swapArity]
  cases name : Ord.compare s.name t.name with
  | lt =>
    rw [name] at h
    exact absurd rfl h
  | gt => rfl
  | eq =>
    cases arity : Ord.compare s.arity t.arity with
    | lt =>
      rw [name, arity] at h
      exact absurd rfl h
    | gt => rfl
    | eq =>
      obtain ⟨sName, sArity⟩ := s
      obtain ⟨tName, tArity⟩ := t
      cases Std.LawfulEqCmp.eq_of_compare name
      cases Std.LawfulEqCmp.eq_of_compare arity
      exact absurd rfl apart

theorem not_before_self (s : Symbol) : ¬s.before s := by
  simp [before, compare]

end Symbol

/-! ### Sorted tables -/

namespace SymbolTable

variable {α β : Type}

/-- The entries stand in the order of their symbols, each symbol once. -/
def Sorted (table : SymbolTable α) : Prop :=
  table.entries.Pairwise fun a b => a.1.before b.1

theorem sorted_empty : ({} : SymbolTable α).Sorted := .nil

theorem pairwise_insertEntry {s : Symbol} {value : α} {entries : List (Symbol × α)}
    (sorted : entries.Pairwise fun a b => a.1.before b.1) :
    (insertEntry s value entries).Pairwise fun a b => a.1.before b.1 := by
  induction entries with
  | nil => exact List.pairwise_singleton _ _
  | cons entry entries ih =>
    obtain ⟨t, v⟩ := entry
    obtain ⟨first, rest⟩ := List.pairwise_cons.mp sorted
    simp only [insertEntry]
    split
    · next same => exact .cons (fun b mem => same ▸ first b mem) rest
    · next apart =>
      split
      · next front =>
        refine .cons (fun b mem => ?_) sorted
        rcases List.mem_cons.mp mem with rfl | later
        · exact front
        · exact Symbol.before_trans front (first b later)
      · next behind =>
        refine .cons (fun b mem => ?_) (ih rest)
        rcases mem_insertEntry mem with rfl | older
        · exact Symbol.eq_or_before_of_not_before apart behind
        · exact first b older

theorem Sorted.insert {table : SymbolTable α} (sorted : table.Sorted) (s : Symbol) (value : α) :
    (table.insert s value).Sorted := pairwise_insertEntry sorted

/-- A table that is built by steps which keep it sorted is sorted. -/
theorem Sorted.foldl {step : SymbolTable α → β → SymbolTable α}
    (keeps : ∀ table b, table.Sorted → (step table b).Sorted) (items : List β)
    {table : SymbolTable α} (sorted : table.Sorted) : (items.foldl step table).Sorted := by
  induction items generalizing table with
  | nil => exact sorted
  | cons b items ih => exact ih (keeps table b sorted)

/-- In a sorted table, every entry is what the table gives for its symbol. -/
theorem Sorted.get?_of_mem {table : SymbolTable α} (sorted : table.Sorted) {s : Symbol} {value : α}
    (mem : (s, value) ∈ table.entries) : table.get? s = some value := by
  obtain ⟨front, back, split⟩ := List.append_of_mem mem
  refine List.lookup_eq_some_iff.mpr ⟨front, back, split, fun entry before => ?_⟩
  rw [Sorted, split, List.pairwise_append] at sorted
  have order := sorted.2.2 entry before (s, value) List.mem_cons_self
  rw [bne_iff_ne]
  rintro rfl
  exact Symbol.not_before_self _ order

/-! ### Sorted tables entry by entry -/

theorem lookup_eq_none_of_before {s : Symbol} {entries : List (Symbol × α)}
    (after : ∀ entry ∈ entries, s.before entry.1) : entries.lookup s = none := by
  refine List.lookup_eq_none_iff.mpr ?_
  intro entry mem
  rw [bne_iff_ne]
  rintro rfl
  exact Symbol.not_before_self _ (after entry mem)

/-- A symbol in front of a sorted list of entries is not among them. -/
theorem not_before_of_lookup {s t : Symbol} {value : α} {entries : List (Symbol × α)}
    (sorted : ((t, value) :: entries).Pairwise fun a b => a.1.before b.1)
    (known : (((t, value) :: entries).lookup s).isSome) : ¬s.before t := by
  intro front
  have absent : ((t, value) :: entries).lookup s = none := by
    refine lookup_eq_none_of_before ?_
    intro entry mem
    rcases List.mem_cons.mp mem with rfl | later
    · exact front
    · exact Symbol.before_trans front ((List.pairwise_cons.mp sorted).1 entry later)
  rw [absent] at known
  cases known

theorem isSome_eq_of_rel {R : α → β → Prop} {a : Option α} {b : Option β} (h : Option.Rel R a b) :
    a.isSome = b.isSome := by
  cases h <;> rfl

/-- Two sorted tables that relate for every symbol relate entry by entry. -/
theorem Sorted.forall₂ {R : α → β → Prop} {table : SymbolTable α} {other : SymbolTable β}
    (sorted : table.Sorted) (sorted' : other.Sorted)
    (related : ∀ s, Option.Rel R (table.get? s) (other.get? s)) :
    List.Forall₂ (fun a b => a.1 = b.1 ∧ R a.2 b.2) table.entries other.entries := by
  obtain ⟨as⟩ := table
  obtain ⟨bs⟩ := other
  simp only [Sorted, get?] at sorted sorted' related ⊢
  induction as generalizing bs with
  | nil =>
    rcases bs with _ | ⟨⟨s, b⟩, bs⟩
    · exact .nil
    · have here := related s
      rw [List.lookup_cons_self] at here
      cases here
  | cons first as ih =>
    obtain ⟨s, a⟩ := first
    rcases bs with _ | ⟨⟨t, b⟩, bs⟩
    · have here := related s
      rw [List.lookup_cons_self] at here
      cases here
    · have known : ∀ u, (((s, a) :: as).lookup u).isSome = (((t, b) :: bs).lookup u).isSome := by
        intro u
        exact isSome_eq_of_rel (related u)
      have same : s = t := by
        by_contra apart
        have behind := Symbol.eq_or_before_of_not_before apart
          (not_before_of_lookup sorted' (by rw [← known, List.lookup_cons_self]; rfl))
        exact not_before_of_lookup sorted (by rw [known, List.lookup_cons_self]; rfl) behind
      subst same
      obtain ⟨sFirst, asSorted⟩ := List.pairwise_cons.mp sorted
      obtain ⟨tFirst, bsSorted⟩ := List.pairwise_cons.mp sorted'
      have here := related s
      rw [List.lookup_cons_self, List.lookup_cons_self, Option.rel_some_some] at here
      refine .cons ⟨rfl, here⟩ (ih asSorted bs bsSorted ?_)
      intro t
      by_cases again : t = s
      · rw [again, lookup_eq_none_of_before sFirst, lookup_eq_none_of_before tFirst]
        exact .none
      · have later := related t
        rwa [lookup_cons, lookup_cons, if_neg again, if_neg again] at later

/-- Sorted tables that give the same for every symbol are the same. -/
theorem Sorted.ext {table other : SymbolTable α} (sorted : table.Sorted) (sorted' : other.Sorted)
    (same : ∀ s, table.get? s = other.get? s) : table = other := by
  have related : ∀ s, Option.Rel Eq (table.get? s) (other.get? s) := by
    intro s
    rw [same s]
    cases other.get? s with
    | none => exact .none
    | some value => exact .some rfl
  obtain ⟨as⟩ := table
  obtain ⟨bs⟩ := other
  have entries : List.Forall₂ Eq as bs :=
    (sorted.forall₂ sorted' related).imp fun _ _ parts => Prod.ext parts.1 parts.2
  rw [List.forall₂_eq_eq_eq] at entries
  rw [entries]

end SymbolTable

end Marksmith

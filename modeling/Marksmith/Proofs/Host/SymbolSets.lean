import Marksmith.Proofs.Host.Tables
import Mathlib.Data.List.Perm.Basic

/-!
Sorted lists of symbols as sets.

* `mem_insertSorted`, `pairwise_insertSorted`: insertion adds one member and keeps the list sorted;
* `mem_union`, `pairwise_union`: so the insertion of several symbols is the sorted union;
* `eq_of_sorted`: a sorted list is given by its members.
-/

namespace Marksmith.Symbol

variable {s t : Symbol} {ss ts : List Symbol}

theorem mem_insertSorted : t ∈ s.insertSorted ss ↔ t = s ∨ t ∈ ss := by
  induction ss with
  | nil => simp [insertSorted]
  | cons u ss ih =>
    rw [insertSorted]
    split
    · next same => simp [same]
    · split
      · exact List.mem_cons
      · rw [List.mem_cons, ih, List.mem_cons, or_left_comm]

theorem pairwise_insertSorted (sorted : ss.Pairwise fun a b => a.before b) :
    (s.insertSorted ss).Pairwise fun a b => a.before b := by
  induction ss with
  | nil => exact List.pairwise_singleton _ _
  | cons t ss ih =>
    obtain ⟨first, rest⟩ := List.pairwise_cons.mp sorted
    rw [insertSorted]
    by_cases same : s = t
    · rw [if_pos same]
      exact sorted
    · rw [if_neg same]
      by_cases front : s.before t
      · rw [if_pos front]
        refine .cons ?_ sorted
        intro u mem
        rcases List.mem_cons.mp mem with rfl | later
        · exact front
        · exact before_trans front (first u later)
      · rw [if_neg front]
        refine .cons ?_ (ih rest)
        intro u mem
        rcases mem_insertSorted.mp mem with rfl | later
        · exact eq_or_before_of_not_before same front
        · exact first u later

/-- A sorted list has no repetitions. -/
theorem nodup_of_sorted (sorted : ss.Pairwise fun a b => a.before b) : ss.Nodup := by
  refine sorted.imp ?_
  rintro a _ before rfl
  exact not_before_self a before

/-- Sorted lists of the same symbols are the same. -/
theorem eq_of_sorted (sorted : ss.Pairwise fun a b => a.before b)
    (sorted' : ts.Pairwise fun a b => a.before b) (same : ∀ s, s ∈ ss ↔ s ∈ ts) : ss = ts := by
  have perm := (List.perm_ext_iff_of_nodup (nodup_of_sorted sorted) (nodup_of_sorted sorted')).mpr
    same
  refine perm.eq_of_pairwise ?_ sorted sorted'
  intro a b _ _ first second
  exact absurd (before_trans first second) (not_before_self a)

/-- Symbols put into a sorted list one after another. -/
def union (ss ts : List Symbol) : List Symbol := ss.foldr insertSorted ts

theorem mem_union : s ∈ union ss ts ↔ s ∈ ss ∨ s ∈ ts := by
  induction ss with
  | nil => simp [union]
  | cons t ss ih =>
    calc s ∈ union (t :: ss) ts
        ↔ s = t ∨ s ∈ union ss ts := mem_insertSorted
      _ ↔ s ∈ t :: ss ∨ s ∈ ts := by rw [ih, List.mem_cons, or_assoc]

theorem pairwise_union (sorted : ts.Pairwise fun a b => a.before b) :
    (union ss ts).Pairwise fun a b => a.before b := by
  induction ss with
  | nil => exact sorted
  | cons t ss ih => exact pairwise_insertSorted ih

end Marksmith.Symbol

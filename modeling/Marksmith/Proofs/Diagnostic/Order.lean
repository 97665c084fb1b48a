import Marksmith.Diagnostic.Diagnostic
import Marksmith.Proofs.Host.Reordering

/-!
The reporting order. Locations and diagnostics are ordered part by part, so their orders are total,
and what stands on either side of each other is equal. So what is reported depends on which
diagnostics there are, not on the order in which they were found (`normalize_perm`).
-/

namespace Marksmith

open Syntax (Span)

theorem eq_of_compareOn {α β : Type} [Ord β] [Std.LawfulEqOrd β] {f : α → β} {a b : α}
    (same : compareOn f a b = .eq) : f a = f b := by
  have images : Ord.compare (f a) (f b) = .eq := same
  exact Std.LawfulEqCmp.eq_of_compare images

/-! ### Locations -/

instance : Ord Span where
  compare s t := (Ord.compare s.start t.start).then (Ord.compare s.stop t.stop)

instance : Std.TransOrd Span :=
  inferInstanceAs (Std.TransCmp (compareLex (compareOn Span.start) (compareOn Span.stop)))

instance : Std.LawfulEqOrd Span where
  eq_of_compare {s t} same := by
    obtain ⟨start, stop⟩ := Ordering.then_eq_eq.mp same
    obtain ⟨a, b⟩ := s
    cases Std.LawfulEqCmp.eq_of_compare start
    cases Std.LawfulEqCmp.eq_of_compare stop
    rfl

instance : Ord Location where
  compare := Location.compare

namespace Location

theorem compareOption_eq {α : Type} [Ord α] (a b : Option α) :
    compareOption Ord.compare a b = Ord.compare a b := by
  cases a <;> cases b <;> rfl

theorem compare_eq_lex :
    Location.compare = compareLex (compareOn symbol) (compareLex (compareOn member)
      (compareLex (compareOn file) (compareOn span))) := by
  funext a b
  have spans : compareOption
      (fun s t => (Ord.compare s.start t.start).then (Ord.compare s.stop t.stop)) a.span b.span
      = Ord.compare a.span b.span := compareOption_eq a.span b.span
  rw [Location.compare, compareOption_eq, compareOption_eq, spans]
  rfl

end Location

instance : Std.TransOrd Location := by
  show Std.TransCmp Location.compare
  rw [Location.compare_eq_lex]
  infer_instance

instance : Std.LawfulEqOrd Location where
  eq_of_compare {a b} same := by
    have parts : Location.compare a b = .eq := same
    rw [Location.compare_eq_lex] at parts
    obtain ⟨symbol, rest⟩ := Ordering.then_eq_eq.mp parts
    obtain ⟨member, rest⟩ := Ordering.then_eq_eq.mp rest
    obtain ⟨file, span⟩ := Ordering.then_eq_eq.mp rest
    obtain ⟨_, _, _, _⟩ := a
    obtain ⟨_, _, _, _⟩ := b
    rw [Location.mk.injEq]
    exact ⟨eq_of_compareOn symbol, eq_of_compareOn member, eq_of_compareOn file,
      eq_of_compareOn span⟩

/-! ### Diagnostics -/

theorem DiagnosticCode.index_inj {c d : DiagnosticCode} (same : c.index = d.index) : c = d := by
  cases c <;> cases d <;> first | rfl | cases same

namespace Diagnostic

theorem compare_eq_lex :
    Diagnostic.compare = compareLex (compareOn location)
      (compareLex (compareOn fun d => d.code.index) (compareOn message)) := rfl

theorem notAfter_trans (a b c : Diagnostic) (first : a.notAfter b) (second : b.notAfter c) :
    a.notAfter c := by
  rw [notAfter, compare_eq_lex] at first second ⊢
  exact Std.TransCmp.isLE_trans first second

theorem notAfter_total (a b : Diagnostic) : (a.notAfter b || b.notAfter a) = true := by
  have swap : b.compare a = (a.compare b).swap := by
    rw [compare_eq_lex]
    exact Std.OrientedCmp.eq_swap
  rw [notAfter, notAfter, swap]
  cases a.compare b <;> rfl

theorem notAfter_antisymm {a b : Diagnostic} (first : a.notAfter b) (second : b.notAfter a) :
    a = b := by
  rw [notAfter, compare_eq_lex] at first second
  have same := Std.OrientedCmp.isLE_antisymm first second
  obtain ⟨location, rest⟩ := Ordering.then_eq_eq.mp same
  obtain ⟨code, message⟩ := Ordering.then_eq_eq.mp rest
  obtain ⟨_, _, _⟩ := a
  obtain ⟨_, _, _⟩ := b
  rw [Diagnostic.mk.injEq]
  exact ⟨eq_of_compareOn location, DiagnosticCode.index_inj (eq_of_compareOn code),
    eq_of_compareOn message⟩

/-- The reporting order does not depend on the order in which diagnostics were found. -/
theorem normalize_perm {ds es : List Diagnostic} (perm : ds.Perm es) :
    normalize ds = normalize es := by
  have sorted : ds.mergeSort notAfter = es.mergeSort notAfter :=
    mergeSort_perm_eq notAfter_trans notAfter_total (fun _ _ _ _ => notAfter_antisymm) perm
  rw [normalize, normalize, sorted]

end Diagnostic

end Marksmith

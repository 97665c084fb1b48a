/-!
Sets of characters given as ascending lists of closed code point ranges.

`Ranges.contains` stops at the first range that starts beyond the code point, so ASCII look-ups in
long tables stay short. `Ranges.contains_iff` says what it decides on an ascending table. White
space, the 25 code points of the Unicode property White_Space, is such a set.
-/

namespace Marksmith.Text

/-- Closed ranges of code points, ascending and apart. -/
abbrev Ranges := List (Nat × Nat)

namespace Ranges

/-- Whether the code point lies in one of the ranges. -/
def contains : Ranges → Nat → Bool
  | [], _ => false
  | (lo, hi) :: rest, n => lo ≤ n && (n ≤ hi || contains rest n)

/-- Ascending and apart: each range ends before the next one starts. -/
def Ascending (rs : Ranges) : Prop :=
  rs.Pairwise fun r s => r.2 < s.1

theorem contains_iff {rs : Ranges} (asc : rs.Ascending) (ordered : ∀ r ∈ rs, r.1 ≤ r.2) {n : Nat} :
    rs.contains n = true ↔ ∃ r ∈ rs, r.1 ≤ n ∧ n ≤ r.2 := by
  induction rs with
  | nil => simp [contains]
  | cons r rest ih =>
    obtain ⟨lo, hi⟩ := r
    have tail := List.pairwise_cons.mp asc
    have ih := ih tail.2 fun r hr => ordered r (List.mem_cons_of_mem _ hr)
    simp only [contains, Bool.and_eq_true, Bool.or_eq_true, decide_eq_true_eq, ih, List.mem_cons]
    constructor
    · rintro ⟨hlo, hhi | ⟨s, hs, h⟩⟩
      · exact ⟨_, .inl rfl, hlo, hhi⟩
      · exact ⟨s, .inr hs, h⟩
    · rintro ⟨s, rfl | hs, h⟩
      · exact ⟨h.1, .inl h.2⟩
      · have := tail.1 s hs
        have := ordered (lo, hi) (by simp)
        exact ⟨by simp at *; omega, .inr ⟨s, hs, h⟩⟩

end Ranges

/-! ### White space -/

/-- The code points with the property White_Space. -/
def blankRanges : Ranges :=
   [(0x9, 0xD), (0x20, 0x20), (0x85, 0x85), (0xA0, 0xA0), (0x1680, 0x1680), (0x2000, 0x200A),
    (0x2028, 0x2029), (0x202F, 0x202F), (0x205F, 0x205F), (0x3000, 0x3000)]

/-- White space, beyond ASCII too. -/
def isBlank (c : Char) : Bool := blankRanges.contains c.toNat

theorem isBlank_iff {c : Char} :
    isBlank c = true ↔ ∃ r ∈ blankRanges, r.1 ≤ c.toNat ∧ c.toNat ≤ r.2 :=
  Ranges.contains_iff (by unfold Ranges.Ascending; decide) (by decide)

/-- Drops white space at both ends. -/
def trim (s : List Char) : List Char :=
  ((s.dropWhile isBlank).reverse.dropWhile isBlank).reverse

end Marksmith.Text

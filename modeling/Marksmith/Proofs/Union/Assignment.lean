import Marksmith.Union.Ids
import Mathlib.Data.List.Nodup
import Mathlib.Data.List.Pairwise
import Mathlib.Data.List.Perm.Subperm

/-!
The assignment of type ids.

* `IsAssignment`: what is asked of the ids of a list of candidates, without a word on how they are
  found; `IsAssignment.unique`: it leaves no choice;
* `FirstFault`: the error that the first faulty candidate stands for;
* `firstFault?_eq_some_iff`: the check of forced ids finds that fault and no other;
* `exists_idAt?`: the free ids do not run out, as there are at most as many candidates as ids;
* `assignIds_exact`: candidates get ids exactly if there are not too many of them and none is at
  fault, and then they get the assignment that is asked for.
-/

namespace Marksmith.Union

/-! ### What is asked of an assignment -/

/-- Forced ids that can all be honoured: none is the reserved one, and no two are equal. -/
structure Faultless (cs : List IdCandidate) : Prop where
  unreserved : ∀ c ∈ cs, c.forced ≠ some 0
  distinct : (forcedIds cs).Nodup

/-- An error is the fault of the first candidate that forces the reserved id, or an id that a
candidate before it forces. -/
inductive FirstFault (cs : List IdCandidate) : IdError → Prop where
  | reserved {before after : List IdCandidate} {c : IdCandidate} (split : cs = before ++ c :: after)
      (faultless : Faultless before) (here : c.forced = some 0) :
      FirstFault cs (.reservedId c.name)
  | repeated {before after : List IdCandidate} {first c : IdCandidate} {id : Nat}
      (split : cs = before ++ c :: after) (faultless : Faultless before) (mem : first ∈ before)
      (there : first.forced = some id) (here : c.forced = some id) :
      FirstFault cs (.duplicateForced id first.name c.name)

/-- Of two candidates without a forced id, the one that stands first in the list has the smaller id,
unless the other one has the smaller name. -/
def InTurn (a b : IdCandidate × Nat) : Prop :=
  a.1.forced = none → b.1.forced = none →
    if Ord.compare b.1.name a.1.name = .lt then b.2 < a.2 else a.2 < b.2

/-- An id for every candidate, in the order of the candidates. -/
structure IsAssignment (cs : List IdCandidate) (ids : List Nat) : Prop where
  aligned : ids.length = cs.length
  distinct : ids.Nodup
  unreserved : 0 ∉ ids
  honoured : ∀ given ∈ cs.zip ids, ∀ id, given.1.forced = some id → given.2 = id
  inTurn : (cs.zip ids).Pairwise InTurn
  /-- No candidate without a forced id is passed a free id by. -/
  lowest : ∀ given ∈ cs.zip ids, given.1.forced = none → ∀ id, 0 < id → id < given.2 → id ∈ ids

variable {cs : List IdCandidate} {ids : List Nat}

theorem mem_forcedIds {id : Nat} : id ∈ forcedIds cs ↔ ∃ c ∈ cs, c.forced = some id :=
  List.mem_filterMap

/-! ### Faults -/

theorem faultless_nil : Faultless [] := ⟨by simp, List.nodup_nil⟩

/-- A candidate behind faultless ones is faultless, forces the reserved id, or forces an id that one
of them forces. -/
theorem faultless_concat {before : List IdCandidate} {c : IdCandidate}
    (faultless : Faultless before) :
    Faultless (before ++ [c]) ↔
      c.forced ≠ some 0 ∧ ∀ first ∈ before, ∀ id, first.forced = some id → c.forced ≠ some id := by
  constructor
  · intro all
    refine ⟨all.unreserved c (by simp), fun first mem id there here => ?_⟩
    have apart := all.distinct
    rw [forcedIds, List.filterMap_append, List.nodup_append] at apart
    exact apart.2.2 id (List.mem_filterMap.mpr ⟨first, mem, there⟩) id (by simp [here]) rfl
  · rintro ⟨unreserved, new⟩
    refine ⟨?_, ?_⟩
    · intro d mem
      rcases List.mem_append.mp mem with earlier | last
      · exact faultless.unreserved d earlier
      · rwa [List.mem_singleton.mp last]
    · rw [forcedIds, List.filterMap_append, List.nodup_append]
      refine ⟨faultless.distinct, ?_, ?_⟩
      · cases forced : c.forced <;> simp [forced]
      · intro id earlier id' last same
        obtain ⟨first, mem, there⟩ := List.mem_filterMap.mp earlier
        obtain ⟨d, here, forced⟩ := List.mem_filterMap.mp last
        rw [List.mem_singleton.mp here] at forced
        exact new first mem id there (same ▸ forced)

/-- Faultless candidates with the same forced id are the same. -/
theorem Faultless.eq_of_forced (faultless : Faultless cs) {a b : IdCandidate} {id : Nat}
    (aMem : a ∈ cs) (bMem : b ∈ cs) (aForced : a.forced = some id) (bForced : b.forced = some id) :
    a = b := by
  have apart : cs.Pairwise fun a b => ∀ id, a.forced = some id → b.forced ≠ some id :=
    (List.pairwise_filterMap.mp faultless.distinct).imp
      fun apart id there here => apart id there id here rfl
  by_contra differ
  have : Std.Symm fun a b : IdCandidate => ∀ id, a.forced = some id → b.forced ≠ some id :=
    ⟨fun _ _ apart id there here => apart id here there⟩
  exact apart.forall aMem bMem differ id aForced bForced

/-- The check goes on behind a faultless candidate. -/
theorem firstFault?_cons {before : List IdCandidate} {c : IdCandidate} (rest : List IdCandidate)
    (faultless : Faultless (before ++ [c])) :
    firstFault? before (c :: rest) = firstFault? (before ++ [c]) rest := by
  rw [firstFault?]
  split
  · rfl
  · next reserved => exact absurd reserved (faultless.unreserved c (by simp))
  · next id _ forced =>
    split
    · next first found =>
      have there : first.forced = some id := by simpa using List.find?_some found
      have distinct := faultless.distinct
      rw [forcedIds, List.filterMap_append, List.nodup_append] at distinct
      exact absurd rfl (distinct.2.2 id
        (List.mem_filterMap.mpr ⟨first, List.mem_of_find?_eq_some found, there⟩) id
        (by simp [forced]))
    · rfl

theorem Faultless.of_append {before rest : List IdCandidate}
    (faultless : Faultless (before ++ rest)) :
    Faultless before := by
  refine ⟨fun c mem => faultless.unreserved c (List.mem_append_left _ mem), ?_⟩
  have distinct := faultless.distinct
  rw [forcedIds, List.filterMap_append] at distinct
  exact distinct.of_append_left

theorem firstFault?_append (earlier rest : List IdCandidate) {before : List IdCandidate}
    (faultless : Faultless (earlier ++ before)) :
    firstFault? earlier (before ++ rest) = firstFault? (earlier ++ before) rest := by
  induction before generalizing earlier with
  | nil => simp
  | cons c before ih =>
    rw [List.append_cons] at faultless ⊢
    rw [List.cons_append, firstFault?_cons _ faultless.of_append, ih _ faultless]

/-- Faultless candidates pass the check. -/
theorem firstFault?_of_faultless (faultless : Faultless cs) : firstFault? [] cs = none := by
  simpa [firstFault?] using firstFault?_append [] [] faultless

/-- The check finds the first fault. -/
theorem firstFault?_of_firstFault {e : IdError} (fault : FirstFault cs e) :
    firstFault? [] cs = some e := by
  cases fault with
  | reserved split faultless here =>
    rw [split, firstFault?_append [] _ faultless]
    simp [firstFault?, here]
  | @repeated before after first c id split faultless mem there here =>
    rw [split, firstFault?_append [] _ faultless, List.nil_append]
    have found : before.find? (·.forced == some id) = some first := by
      cases found : before.find? (·.forced == some id) with
      | none =>
        have absent := List.find?_eq_none.mp found first mem
        simp [there] at absent
      | some other =>
        rw [faultless.eq_of_forced (List.mem_of_find?_eq_some found) mem
          (by simpa using List.find?_some found) there]
    have nonzero : id ≠ 0 := fun zero => faultless.unreserved first mem (zero ▸ there)
    obtain ⟨id, rfl⟩ := Nat.exists_eq_succ_of_ne_zero nonzero
    simp [firstFault?, here, found]

/-- Candidates with a fault have a first one. -/
theorem exists_firstFault (rest : List IdCandidate) {before : List IdCandidate}
    (faultless : Faultless before) (faulty : ¬Faultless (before ++ rest)) :
    ∃ e, FirstFault (before ++ rest) e := by
  induction rest generalizing before with
  | nil => exact absurd (by simpa using faultless) faulty
  | cons c rest ih =>
    by_cases next : Faultless (before ++ [c])
    · rw [List.append_cons] at faulty ⊢
      exact ih next faulty
    · rw [faultless_concat faultless, not_and_or] at next
      rcases next with reserved | repeated
      · exact ⟨_, .reserved rfl faultless (not_not.mp reserved)⟩
      · push Not at repeated
        obtain ⟨first, mem, id, there, here⟩ := repeated
        exact ⟨_, .repeated rfl faultless mem there here⟩

theorem firstFault?_eq_some_iff {e : IdError} : firstFault? [] cs = some e ↔ FirstFault cs e := by
  refine ⟨fun found => ?_, firstFault?_of_firstFault⟩
  have faulty : ¬Faultless cs := by
    intro faultless
    rw [firstFault?_of_faultless faultless] at found
    cases found
  obtain ⟨other, fault⟩ := exists_firstFault _ faultless_nil faulty
  rw [List.nil_append] at fault
  rw [firstFault?_of_firstFault fault] at found
  exact Option.some.inj found ▸ fault

theorem firstFault?_eq_none_iff : firstFault? [] cs = none ↔ Faultless cs := by
  refine ⟨fun none => ?_, firstFault?_of_faultless⟩
  by_contra faulty
  obtain ⟨e, fault⟩ := exists_firstFault _ faultless_nil faulty
  rw [List.nil_append] at fault
  rw [firstFault?_of_firstFault fault] at none
  cases none

/-! ### Free ids -/

theorem mem_freeIds {id : Nat} : id ∈ freeIds cs ↔ 0 < id ∧ id ≤ maxId ∧ id ∉ forcedIds cs := by
  simp only [freeIds, List.mem_filter, List.mem_map, List.mem_range, Bool.not_eq_true',
    ← Bool.not_eq_true, List.contains_iff_mem]
  constructor
  · rintro ⟨⟨n, small, rfl⟩, free⟩
    exact ⟨by omega, by omega, free⟩
  · rintro ⟨positive, small, free⟩
    exact ⟨⟨id - 1, by omega, by omega⟩, free⟩

/-- The free ids stand in increasing order. -/
theorem pairwise_freeIds (cs : List IdCandidate) : (freeIds cs).Pairwise (· < ·) := by
  refine List.Pairwise.filter _ (List.pairwise_map.mpr ?_)
  exact List.pairwise_lt_range.imp fun less => by omega

/-- As many ids are free as are left when every forced id is taken. -/
theorem maxId_le_freeIds (cs : List IdCandidate) :
    maxId ≤ (freeIds cs).length + (forcedIds cs).length := by
  have all := List.length_eq_length_filter_add
    (l := (List.range maxId).map (· + 1)) fun id => (forcedIds cs).contains id
  have distinct : ((List.range maxId).map (· + 1)).Nodup :=
    List.Nodup.map (fun _ _ same => Nat.succ.inj same) List.nodup_range
  have within : (((List.range maxId).map (· + 1)).filter fun id => (forcedIds cs).contains id) ⊆
      forcedIds cs := fun id mem => List.contains_iff_mem.mp (List.mem_filter.mp mem).2
  have taken := (distinct.filter fun id => (forcedIds cs).contains id).length_le_of_subset within
  rw [List.length_map, List.length_range] at all
  rw [freeIds]
  omega

/-! ### Turns -/

theorem notAfter_eq (a b : String × Nat) :
    notAfter a b = (compareLex (compareOn Prod.fst) (compareOn Prod.snd) a b).isLE := rfl

theorem notAfter_trans (a b c : String × Nat) (first : notAfter a b) (second : notAfter b c) :
    notAfter a c := by
  rw [notAfter_eq] at first second ⊢
  exact Std.TransCmp.isLE_trans first second

theorem notAfter_total (a b : String × Nat) : (notAfter a b || notAfter b a) = true := by
  have swap : compareLex (compareOn Prod.fst) (compareOn Prod.snd) b a =
      (compareLex (compareOn Prod.fst) (compareOn Prod.snd) a b).swap := Std.OrientedCmp.eq_swap
  rw [notAfter_eq, notAfter_eq, swap]
  cases compareLex (compareOn Prod.fst) (compareOn Prod.snd) a b <;> rfl

/-- What stands at a later place comes first only if its name is smaller. -/
theorem notAfter_later {x y : String} {i j : Nat} (later : i < j) :
    notAfter (y, j) (x, i) = (Ord.compare y x == .lt) := by
  have places : Ord.compare j i = .gt := Nat.compare_eq_gt.mpr later
  simp only [notAfter, places]
  cases Ord.compare y x <;> rfl

theorem notAfter_earlier {x y : String} {i j : Nat} (later : i < j) :
    notAfter (x, i) (y, j) = (Ord.compare y x != .lt) := by
  have places : Ord.compare i j = .lt := Nat.compare_eq_lt.mpr later
  have swap : Ord.compare x y = (Ord.compare y x).swap := Std.OrientedCmp.eq_swap
  simp only [notAfter, places, swap]
  cases Ord.compare y x <;> rfl

theorem pairwise_unforced (cs : List IdCandidate) :
    (unforced cs).Pairwise fun a b => notAfter a b :=
  List.pairwise_mergeSort notAfter_trans notAfter_total _

theorem mem_unforced {x : String} {i : Nat} :
    (x, i) ∈ unforced cs ↔ ∃ c, cs[i]? = some c ∧ c.forced = none ∧ c.name = x := by
  rw [unforced, (List.mergeSort_perm _ _).mem_iff]
  simp only [List.mem_map, List.mem_filter, Prod.exists, List.mem_zipIdx_iff_getElem?,
    Option.isNone_iff_eq_none, Prod.mk.injEq]
  constructor
  · rintro ⟨c, j, ⟨here, none⟩, rfl, rfl⟩
    exact ⟨c, here, none, rfl⟩
  · rintro ⟨c, here, none, rfl⟩
    exact ⟨c, i, ⟨here, none⟩, rfl, rfl⟩

theorem nodup_places (cs : List IdCandidate) : ((unforced cs).map (·.2)).Nodup := by
  rw [unforced, ((List.mergeSort_perm _ _).map _).nodup_iff, List.map_map]
  have places : (cs.zipIdx.map Prod.snd).Nodup := by
    rw [List.zipIdx_map_snd]
    exact List.nodup_range'
  exact (List.Nodup.sublist (List.filter_sublist.map _) places)

theorem length_unforced (cs : List IdCandidate) :
    (unforced cs).length + (forcedIds cs).length = cs.length := by
  have places : (cs.zipIdx.filter (·.1.forced.isNone)).length = cs.countP (·.forced.isNone) := by
    rw [← List.countP_eq_length_filter, ← List.zipIdx_map_fst 0 cs, List.countP_map,
      List.zipIdx_map_fst]
    rfl
  have others : cs.countP (fun c => ¬c.forced.isSome) = cs.countP (·.forced.isNone) :=
    List.countP_congr fun c _ => by simp
  rw [unforced, List.length_mergeSort, List.length_map, places, forcedIds,
    List.length_filterMap_eq_countP, Nat.add_comm,
    List.length_eq_countP_add_countP (fun c : IdCandidate => c.forced.isSome), ← others]

/-- The turn of a candidate without a forced id. -/
theorem exists_turn {c : IdCandidate} {i : Nat} (here : cs[i]? = some c) (none : c.forced = none) :
    ∃ turn : Nat, (unforced cs)[turn]? = some (c.name, i) :=
  List.mem_iff_getElem?.mp (mem_unforced.mpr ⟨c, here, none, rfl⟩)

theorem findIdx?_place {turn i : Nat} {x : String} (h : (unforced cs)[turn]? = some (x, i)) :
    (unforced cs).findIdx? (·.2 == i) = some turn := by
  obtain ⟨small, at_turn⟩ := List.getElem?_eq_some_iff.mp h
  refine List.findIdx?_eq_some_iff_getElem.mpr ⟨small, by simp [at_turn], fun j before same => ?_⟩
  have distinct := List.pairwise_iff_getElem.mp (nodup_places cs) j turn
    (by rw [List.length_map]; omega) (by rwa [List.length_map]) before
  rw [List.getElem_map, List.getElem_map, at_turn] at distinct
  exact distinct (by simpa using same)

/-- Of two turns, the one of the later place comes first only if its name is smaller. -/
theorem turn_lt {x y : String} {i j s t : Nat} (later : i < j)
    (first : (unforced cs)[s]? = some (x, i)) (second : (unforced cs)[t]? = some (y, j)) :
    if Ord.compare y x = .lt then t < s else s < t := by
  obtain ⟨sSmall, sHere⟩ := List.getElem?_eq_some_iff.mp first
  obtain ⟨tSmall, tHere⟩ := List.getElem?_eq_some_iff.mp second
  have sorted := List.pairwise_iff_getElem.mp (pairwise_unforced cs)
  rcases Nat.lt_trichotomy s t with before | rfl | behind
  · have order := sorted s t sSmall tSmall before
    rw [sHere, tHere, notAfter_earlier later] at order
    rwa [if_neg (by simpa using order)]
  · rw [sHere] at tHere
    cases tHere
    exact absurd later (Nat.lt_irrefl _)
  · have order := sorted t s tSmall sSmall behind
    rw [sHere, tHere, notAfter_later later] at order
    rwa [if_pos (by simpa using order)]

/-! ### Ids in turn -/

theorem idAt?_of_forced {c : IdCandidate} {id : Nat} (forced : c.forced = some id) (i : Nat) :
    idAt? cs c i = some id := by
  rw [idAt?, forced]

theorem idAt?_of_turn {c : IdCandidate} {i turn : Nat} (none : c.forced = none)
    (h : (unforced cs)[turn]? = some (c.name, i)) : idAt? cs c i = (freeIds cs)[turn]? := by
  rw [idAt?, none]
  simp [findIdx?_place h]

/-- The free ids suffice. -/
theorem exists_idAt? (fits : cs.length ≤ maxId) {c : IdCandidate} {i : Nat}
    (here : cs[i]? = some c) : ∃ id, idAt? cs c i = some id := by
  cases forced : c.forced with
  | some id => exact ⟨id, idAt?_of_forced forced i⟩
  | none =>
    obtain ⟨turn, h⟩ := exists_turn here forced
    have small : turn < (unforced cs).length := (List.getElem?_eq_some_iff.mp h).1
    have enough : turn < (freeIds cs).length := by
      have := length_unforced cs
      have := maxId_le_freeIds cs
      omega
    exact ⟨_, (idAt?_of_turn forced h).trans (List.getElem?_eq_getElem enough)⟩

/-- The id in a turn is free. -/
theorem mem_freeIds_of_idAt? {c : IdCandidate} {i id : Nat} (here : cs[i]? = some c)
    (none : c.forced = none) (h : idAt? cs c i = some id) : id ∈ freeIds cs := by
  obtain ⟨turn, turns⟩ := exists_turn here none
  rw [idAt?_of_turn none turns] at h
  exact List.mem_of_getElem? h

/-- Earlier turns get smaller ids. -/
theorem idAt?_lt {c d : IdCandidate} {i j m n : Nat} (later : i < j) (cHere : cs[i]? = some c)
    (dHere : cs[j]? = some d) (cNone : c.forced = none) (dNone : d.forced = none)
    (cGets : idAt? cs c i = some m) (dGets : idAt? cs d j = some n) :
    if Ord.compare d.name c.name = .lt then n < m else m < n := by
  obtain ⟨s, sTurn⟩ := exists_turn cHere cNone
  obtain ⟨t, tTurn⟩ := exists_turn dHere dNone
  rw [idAt?_of_turn cNone sTurn] at cGets
  rw [idAt?_of_turn dNone tTurn] at dGets
  obtain ⟨sSmall, rfl⟩ := List.getElem?_eq_some_iff.mp cGets
  obtain ⟨tSmall, rfl⟩ := List.getElem?_eq_some_iff.mp dGets
  have increasing := List.pairwise_iff_getElem.mp (pairwise_freeIds cs)
  have turns := turn_lt later sTurn tTurn
  split at turns
  · next smaller => exact (if_pos smaller).mpr (increasing t s tSmall sSmall turns)
  · next notSmaller => exact (if_neg notSmaller).mpr (increasing s t sSmall tSmall turns)

theorem idAt?_ne_zero (faultless : Faultless cs) {c : IdCandidate} {i id : Nat}
    (here : cs[i]? = some c) (gets : idAt? cs c i = some id) : id ≠ 0 := by
  cases forced : c.forced with
  | none =>
    have positive := (mem_freeIds.mp (mem_freeIds_of_idAt? here forced gets)).1
    omega
  | some k =>
    rw [idAt?_of_forced forced, Option.some.injEq] at gets
    rintro rfl
    exact faultless.unreserved c (List.mem_of_getElem? here) (gets ▸ forced)

/-- No two faultless candidates get the same id. -/
theorem idAt?_ne (faultless : Faultless cs) {c d : IdCandidate} {i j m n : Nat} (later : i < j)
    (cHere : cs[i]? = some c) (dHere : cs[j]? = some d) (cGets : idAt? cs c i = some m)
    (dGets : idAt? cs d j = some n) : m ≠ n := by
  have taken {e : IdCandidate} {k l : Nat} (here : cs[l]? = some e) (forced : e.forced = some k) :
      k ∈ forcedIds cs := mem_forcedIds.mpr ⟨e, List.mem_of_getElem? here, forced⟩
  cases cForced : c.forced with
  | none =>
    have cFree := (mem_freeIds.mp (mem_freeIds_of_idAt? cHere cForced cGets)).2.2
    cases dForced : d.forced with
    | none =>
      have order := idAt?_lt later cHere dHere cForced dForced cGets dGets
      split at order <;> omega
    | some k =>
      rw [idAt?_of_forced dForced, Option.some.injEq] at dGets
      rintro rfl
      exact cFree (dGets ▸ taken dHere dForced)
  | some k =>
    rw [idAt?_of_forced cForced, Option.some.injEq] at cGets
    cases dForced : d.forced with
    | none =>
      have dFree := (mem_freeIds.mp (mem_freeIds_of_idAt? dHere dForced dGets)).2.2
      rintro rfl
      exact dFree (cGets ▸ taken cHere cForced)
    | some l =>
      rw [idAt?_of_forced dForced, Option.some.injEq] at dGets
      obtain ⟨iSmall, rfl⟩ := List.getElem?_eq_some_iff.mp cHere
      obtain ⟨jSmall, rfl⟩ := List.getElem?_eq_some_iff.mp dHere
      have apart := List.pairwise_iff_getElem.mp (List.pairwise_filterMap.mp faultless.distinct)
        i j iSmall jSmall later k cForced l dForced
      rwa [← cGets, ← dGets]

/-- A free id below the one in a turn is the id in an earlier turn. -/
theorem exists_turn_below {c : IdCandidate} {i id n : Nat} (here : cs[i]? = some c)
    (none : c.forced = none) (h : idAt? cs c i = some n) (free : id ∈ freeIds cs) (below : id < n) :
    ∃ j d, cs[j]? = some d ∧ idAt? cs d j = some id := by
  obtain ⟨s, turns⟩ := exists_turn here none
  rw [idAt?_of_turn none turns] at h
  obtain ⟨sFree, rfl⟩ := List.getElem?_eq_some_iff.mp h
  obtain ⟨t, tFree, rfl⟩ := List.mem_iff_getElem.mp free
  have increasing := List.pairwise_iff_getElem.mp (pairwise_freeIds cs)
  have earlier : t < s := by
    rcases Nat.lt_trichotomy t s with before | rfl | behind
    · exact before
    · exact absurd below (Nat.lt_irrefl _)
    · exact absurd (increasing s t sFree tFree behind) (by omega)
  have sSmall : s < (unforced cs).length := (List.getElem?_eq_some_iff.mp turns).1
  have tSmall : t < (unforced cs).length := Nat.lt_trans earlier sSmall
  obtain ⟨d, dHere, dNone, name⟩ := mem_unforced.mp
    (List.getElem_mem tSmall : ((unforced cs)[t].1, (unforced cs)[t].2) ∈ unforced cs)
  refine ⟨_, d, dHere, ?_⟩
  rw [idAt?_of_turn dNone (List.getElem?_eq_some_iff.mpr ⟨tSmall, by rw [name]; rfl⟩)]
  exact List.getElem?_eq_getElem tFree

/-! ### The assignment -/

theorem mapM_of_map {α β : Type} {f : α → Option β} {as : List α} {bs : List β}
    (each : as.map f = bs.map some) : as.mapM f = some bs := by
  induction as generalizing bs with
  | nil =>
    cases bs with
    | nil => rfl
    | cons b bs => cases each
  | cons a as ih =>
    cases bs with
    | nil => cases each
    | cons b bs =>
      obtain ⟨head, tail⟩ := List.cons.inj each
      simp [List.mapM_cons, head, ih tail]

theorem exists_of_map {α β : Type} {f : α → Option β} {as : List α}
    (each : ∀ a ∈ as, ∃ b, f a = some b) : ∃ bs : List β, as.map f = bs.map some := by
  induction as with
  | nil => exact ⟨[], rfl⟩
  | cons a as ih =>
    obtain ⟨b, here⟩ := each a List.mem_cons_self
    obtain ⟨bs, rest⟩ := ih fun a mem => each a (List.mem_cons_of_mem _ mem)
    exact ⟨b :: bs, by simp [here, rest]⟩

/-- The ids that every candidate gets at its place. -/
def Gives (cs : List IdCandidate) (ids : List Nat) : Prop :=
  (cs.zipIdx.map fun (c, i) => idAt? cs c i) = ids.map some

theorem Gives.length_eq (gives : Gives cs ids) : ids.length = cs.length := by
  simpa using (congrArg List.length gives).symm

theorem Gives.getElem? (gives : Gives cs ids) {c : IdCandidate} {i : Nat} (here : cs[i]? = some c) :
    ids[i]? = idAt? cs c i := by
  have entry := congrArg (·[i]?) gives
  simp only [List.getElem?_map, List.getElem?_zipIdx, here, Option.map_some, Nat.zero_add] at entry
  cases found : ids[i]? with
  | none =>
    rw [found] at entry
    cases entry
  | some id =>
    rw [found] at entry
    exact (Option.some.inj entry).symm

/-- The free ids do not run out. -/
theorem exists_gives (fits : cs.length ≤ maxId) : ∃ ids, Gives cs ids := by
  refine exists_of_map ?_
  rintro ⟨c, i⟩ mem
  exact exists_idAt? fits (List.mem_zipIdx_iff_getElem?.mp mem)

theorem assignIds_of_faultless (fits : cs.length ≤ maxId) (faultless : Faultless cs) :
    assignIds cs = .ok ids ↔ Gives cs ids := by
  obtain ⟨given, gives⟩ := exists_gives fits
  rw [assignIds, if_neg (by omega), firstFault?_of_faultless faultless]
  simp only [mapM_of_map gives, Except.ok.injEq]
  constructor
  · rintro rfl
    exact gives
  · intro gives'
    exact List.map_injective_iff.mpr (fun _ _ => Option.some.inj) (gives.symm.trans gives')

theorem assignIds_eq_error_iff {e : IdError} :
    assignIds cs = .error e ↔
      if maxId < cs.length then e = .capacity cs.length else FirstFault cs e := by
  by_cases fits : maxId < cs.length
  · rw [assignIds, if_pos fits, if_pos fits]
    simp [eq_comm]
  · rw [if_neg fits]
    by_cases faultless : Faultless cs
    · obtain ⟨ids, gives⟩ := exists_gives (Nat.not_lt.mp fits)
      rw [(assignIds_of_faultless (Nat.not_lt.mp fits) faultless).mpr gives,
        ← firstFault?_eq_some_iff, firstFault?_of_faultless faultless]
      simp
    · rw [← firstFault?_eq_some_iff, assignIds, if_neg fits]
      cases found : firstFault? [] cs with
      | none => exact absurd (firstFault?_eq_none_iff.mp found) faultless
      | some fault => simp

/-- What is given in turn is what is asked for. -/
theorem Gives.isAssignment (gives : Gives cs ids) (faultless : Faultless cs) :
    IsAssignment cs ids := by
  have entry {i : Nat} {c : IdCandidate} {id : Nat} (h : (cs.zip ids)[i]? = some (c, id)) :
      cs[i]? = some c ∧ idAt? cs c i = some id := by
    obtain ⟨here, given⟩ := List.getElem?_zip_eq_some.mp h
    exact ⟨here, (gives.getElem? here).symm.trans given⟩
  have free {i : Nat} {c : IdCandidate} {id : Nat} (h : (cs.zip ids)[i]? = some (c, id))
      (none : c.forced = none) : id ∈ freeIds cs := by
    obtain ⟨here, gets⟩ := entry h
    exact mem_freeIds_of_idAt? here none gets
  have forced {i : Nat} {c : IdCandidate} {id : Nat} (h : (cs.zip ids)[i]? = some (c, id)) {k : Nat}
      (some : c.forced = some k) : id = k := by
    obtain ⟨-, gets⟩ := entry h
    rw [idAt?_of_forced some] at gets
    exact (Option.some.inj gets).symm
  refine ⟨gives.length_eq, ?distinct, ?unreserved, ?honoured, ?inTurn, ?lowest⟩
  case distinct =>
    have column : ids = (cs.zip ids).map Prod.snd :=
      (List.map_snd_zip (Nat.le_of_eq gives.length_eq)).symm
    rw [column, List.Nodup, List.pairwise_map, List.pairwise_iff_getElem]
    intro i j iSmall jSmall later
    obtain ⟨cHere, cGets⟩ := entry (List.getElem?_eq_getElem iSmall)
    obtain ⟨dHere, dGets⟩ := entry (List.getElem?_eq_getElem jSmall)
    exact idAt?_ne faultless later cHere dHere cGets dGets
  case unreserved =>
    intro mem
    obtain ⟨i, given⟩ := List.mem_iff_getElem?.mp mem
    obtain ⟨small, -⟩ := List.getElem?_eq_some_iff.mp given
    have here : cs[i]? = some (cs.get ⟨i, gives.length_eq ▸ small⟩) := List.getElem?_eq_getElem _
    exact idAt?_ne_zero faultless here ((gives.getElem? here).symm.trans given) rfl
  case honoured =>
    rintro ⟨c, id⟩ mem k some
    obtain ⟨i, h⟩ := List.mem_iff_getElem?.mp mem
    exact forced h some
  case inTurn =>
    rw [List.pairwise_iff_getElem]
    intro i j iSmall jSmall later cNone dNone
    obtain ⟨cHere, cGets⟩ := entry (List.getElem?_eq_getElem iSmall)
    obtain ⟨dHere, dGets⟩ := entry (List.getElem?_eq_getElem jSmall)
    exact idAt?_lt later cHere dHere cNone dNone cGets dGets
  case lowest =>
    rintro ⟨c, n⟩ mem none id positive below
    obtain ⟨i, h⟩ := List.mem_iff_getElem?.mp mem
    obtain ⟨here, gets⟩ := entry h
    by_cases taken : id ∈ forcedIds cs
    · obtain ⟨d, dMem, some⟩ := mem_forcedIds.mp taken
      obtain ⟨j, dHere⟩ := List.mem_iff_getElem?.mp dMem
      exact List.mem_of_getElem? ((gives.getElem? dHere).trans (idAt?_of_forced some j))
    · have small : n ≤ maxId := (mem_freeIds.mp (free h none)).2.1
      have open_ : id ∈ freeIds cs := mem_freeIds.mpr ⟨positive, by omega, taken⟩
      obtain ⟨j, d, dHere, dGets⟩ := exists_turn_below here none gets open_ below
      exact List.mem_of_getElem? ((gives.getElem? dHere).trans dGets)

/-! ### What is asked for leaves no choice -/

namespace IsAssignment

variable {ids' : List Nat}

theorem exists_candidate (assigned : IsAssignment cs ids) {i n : Nat} (given : ids[i]? = some n) :
    ∃ c, cs[i]? = some c := by
  obtain ⟨small, -⟩ := List.getElem?_eq_some_iff.mp given
  exact ⟨_, List.getElem?_eq_getElem (assigned.aligned ▸ small)⟩

theorem exists_id (assigned : IsAssignment cs ids) {i : Nat} {c : IdCandidate}
    (here : cs[i]? = some c) : ∃ n, ids[i]? = some n := by
  obtain ⟨small, -⟩ := List.getElem?_eq_some_iff.mp here
  exact ⟨_, List.getElem?_eq_getElem (assigned.aligned.symm ▸ small)⟩

theorem mem_zip {i n : Nat} {c : IdCandidate} (here : cs[i]? = some c) (given : ids[i]? = some n) :
    (c, n) ∈ cs.zip ids :=
  List.mem_of_getElem? (List.getElem?_zip_eq_some.mpr ⟨here, given⟩)

theorem place_eq (assigned : IsAssignment cs ids) {i j n : Nat} (first : ids[i]? = some n)
    (second : ids[j]? = some n) : i = j := by
  obtain ⟨small, -⟩ := List.getElem?_eq_some_iff.mp first
  exact (List.getElem?_inj small assigned.distinct).mp (first.trans second.symm)

theorem getElem?_of_forced (assigned : IsAssignment cs ids) {i id : Nat} {c : IdCandidate}
    (here : cs[i]? = some c) (forced : c.forced = some id) : ids[i]? = some id := by
  obtain ⟨n, given⟩ := assigned.exists_id here
  have same : n = id := assigned.honoured _ (mem_zip here given) id forced
  rwa [same] at given

/-- The candidates alone decide which of two places has the smaller id. -/
theorem inTurn_of_lt (assigned : IsAssignment cs ids) {i j m n : Nat} {c d : IdCandidate}
    (later : i < j) (cHere : cs[i]? = some c) (dHere : cs[j]? = some d)
    (cGiven : ids[i]? = some m) (dGiven : ids[j]? = some n) : InTurn (c, m) (d, n) := by
  obtain ⟨iSmall, iHere⟩ :=
    List.getElem?_eq_some_iff.mp (List.getElem?_zip_eq_some (z := (c, m)).mpr ⟨cHere, cGiven⟩)
  obtain ⟨jSmall, jHere⟩ :=
    List.getElem?_eq_some_iff.mp (List.getElem?_zip_eq_some (z := (d, n)).mpr ⟨dHere, dGiven⟩)
  have order := List.pairwise_iff_getElem.mp assigned.inTurn i j iSmall jSmall later
  rwa [iHere, jHere] at order

theorem lt_of_lt (assigned : IsAssignment cs ids) (assigned' : IsAssignment cs ids')
    {i j m n m' n' : Nat} {c d : IdCandidate} (cHere : cs[i]? = some c) (dHere : cs[j]? = some d)
    (cNone : c.forced = none) (dNone : d.forced = none) (cGiven : ids[i]? = some m)
    (dGiven : ids[j]? = some n) (cGiven' : ids'[i]? = some m') (dGiven' : ids'[j]? = some n')
    (less : m < n) : m' < n' := by
  rcases Nat.lt_trichotomy i j with before | rfl | behind
  · have order := assigned.inTurn_of_lt before cHere dHere cGiven dGiven cNone dNone
    have order' := assigned'.inTurn_of_lt before cHere dHere cGiven' dGiven' cNone dNone
    split at order
    · omega
    · next notSmaller => rwa [if_neg notSmaller] at order'
  · rw [cGiven] at dGiven
    cases dGiven
    exact absurd less (Nat.lt_irrefl _)
  · have order := assigned.inTurn_of_lt behind dHere cHere dGiven cGiven dNone cNone
    have order' := assigned'.inTurn_of_lt behind dHere cHere dGiven' cGiven' dNone cNone
    split at order
    · next smaller => rwa [if_pos smaller] at order'
    · omega

/-- If two assignments agree on where the ids below `n` are, the second one has `n` where the first
one has it. -/
theorem agree (assigned : IsAssignment cs ids) (assigned' : IsAssignment cs ids') {n : Nat}
    (below : ∀ k < n, ∀ i : Nat, ids[i]? = some k ↔ ids'[i]? = some k) {i : Nat}
    (given : ids[i]? = some n) : ids'[i]? = some n := by
  obtain ⟨c, here⟩ := assigned.exists_candidate given
  obtain ⟨n', given'⟩ := assigned'.exists_id here
  cases forced : c.forced with
  | some id =>
    rw [assigned'.getElem?_of_forced here forced, ← assigned.getElem?_of_forced here forced, given]
  | none =>
    rcases Nat.lt_trichotomy n' n with smaller | rfl | greater
    · -- the id `n'` would be at this place in both assignments
      have same := (below n' smaller i).mpr given'
      rw [given] at same
      exact absurd (Option.some.inj same) (by omega)
    · exact given'
    · -- the id `n` is passed by here, so the second assignment has it at another place
      have positive : 0 < n := Nat.pos_of_ne_zero fun zero =>
        assigned.unreserved (zero ▸ List.mem_of_getElem? given)
      have used := assigned'.lowest _ (mem_zip here given') forced n positive greater
      obtain ⟨j, other'⟩ := List.mem_iff_getElem?.mp used
      obtain ⟨d, dHere⟩ := assigned'.exists_candidate other'
      obtain ⟨k, other⟩ := assigned.exists_id dHere
      cases dForced : d.forced with
      | some id =>
        have kept : ids[j]? = some n := by
          rw [assigned.getElem?_of_forced dHere dForced, ← other',
            assigned'.getElem?_of_forced dHere dForced]
        rwa [assigned.place_eq given kept]
      | none =>
        have less := assigned'.lt_of_lt assigned dHere here dForced forced other' given' other given
          greater
        rw [(below k less j).mp other] at other'
        exact absurd (Option.some.inj other') (by omega)

/-- There is at most one assignment. -/
theorem unique (assigned : IsAssignment cs ids) (assigned' : IsAssignment cs ids') :
    ids = ids' := by
  have same : ∀ n i : Nat, ids[i]? = some n ↔ ids'[i]? = some n := by
    intro n
    induction n using Nat.strongRecOn with
    | ind n below =>
      intro i
      exact ⟨assigned.agree assigned' below,
        assigned'.agree assigned fun k less i => (below k less i).symm⟩
  refine List.ext_getElem? fun i => Option.ext fun n => ?_
  exact same n i

theorem faultless (assigned : IsAssignment cs ids) : Faultless cs := by
  refine ⟨fun c mem forced => ?_, ?_⟩
  · obtain ⟨i, here⟩ := List.mem_iff_getElem?.mp mem
    exact assigned.unreserved (List.mem_of_getElem? (assigned.getElem?_of_forced here forced))
  · rw [forcedIds, List.Nodup, List.pairwise_filterMap, List.pairwise_iff_getElem]
    intro i j iSmall jSmall later id there id' here
    rintro rfl
    have same := assigned.place_eq
      (assigned.getElem?_of_forced (List.getElem?_eq_getElem iSmall) there)
      (assigned.getElem?_of_forced (List.getElem?_eq_getElem jSmall) here)
    omega

end IsAssignment

theorem assignIds_eq_ok_iff :
    assignIds cs = .ok ids ↔ cs.length ≤ maxId ∧ IsAssignment cs ids := by
  constructor
  · intro given
    by_cases fits : cs.length ≤ maxId
    · by_cases faultless : Faultless cs
      · exact ⟨fits, ((assignIds_of_faultless fits faultless).mp given).isAssignment faultless⟩
      · obtain ⟨e, fault⟩ := exists_firstFault cs faultless_nil faultless
        rw [assignIds_eq_error_iff.mpr (by rwa [if_neg (by omega)])] at given
        cases given
    · rw [assignIds_eq_error_iff.mpr (by rw [if_pos (by omega)])] at given
      cases given
  · rintro ⟨fits, assigned⟩
    obtain ⟨found, gives⟩ := exists_gives fits
    rw [assigned.unique (gives.isAssignment assigned.faultless)]
    exact (assignIds_of_faultless fits assigned.faultless).mpr gives

theorem exists_assignIds_iff :
    (∃ ids, assignIds cs = .ok ids) ↔ cs.length ≤ maxId ∧ Faultless cs := by
  constructor
  · rintro ⟨ids, given⟩
    obtain ⟨fits, assigned⟩ := assignIds_eq_ok_iff.mp given
    exact ⟨fits, assigned.faultless⟩
  · rintro ⟨fits, faultless⟩
    obtain ⟨ids, gives⟩ := exists_gives fits
    exact ⟨ids, (assignIds_of_faultless fits faultless).mpr gives⟩

/-- Candidates get ids exactly if there are not more of them than ids, none forces the reserved id,
and no two force the same id. What they get is the one assignment that is asked for. Otherwise there
are too many candidates, or else the error is the fault of the first faulty one; the free ids never
run out. -/
theorem assignIds_exact (cs : List IdCandidate) :
    ((∃ ids, assignIds cs = .ok ids) ↔ cs.length ≤ maxId ∧ Faultless cs) ∧
    (∀ ids, assignIds cs = .ok ids ↔ cs.length ≤ maxId ∧ IsAssignment cs ids) ∧
    (∀ e, assignIds cs = .error e ↔
      if maxId < cs.length then e = .capacity cs.length else FirstFault cs e) ∧
    (cs.length ≤ maxId → ∃ ids, (cs.zipIdx.mapM fun (c, i) => idAt? cs c i) = some ids) := by
  refine ⟨exists_assignIds_iff, fun ids => assignIds_eq_ok_iff, fun e => assignIds_eq_error_iff, ?_⟩
  intro fits
  obtain ⟨ids, gives⟩ := exists_gives fits
  exact ⟨ids, mapM_of_map gives⟩

end Marksmith.Union

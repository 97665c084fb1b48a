import Marksmith.Proofs.Union.Assignment

/-!
Type ids under changes of the list of candidates.

* `IsAssignment.perm`: the ids are a function of the candidates, whatever their order, if no two
  candidates without a forced id have the same name;
* `IsAssignment.insert_forced`: a candidate that forces an id which nobody has fits in anywhere;
* `IsAssignment.remove_last`: a candidate that takes the last turn can be left out;
* `assignIds_stable`: what this means for the ids that are assigned before and after such a change.
-/

namespace Marksmith.Union

variable {cs before after : List IdCandidate} {ids : List Nat} {c : IdCandidate}

/-- A candidate without a forced id takes its turn after those around it: none before it has a
greater name, and all behind it have smaller ones. -/
structure TakesLastTurn (before after : List IdCandidate) (c : IdCandidate) : Prop where
  unforced : c.forced = none
  ofBefore : ∀ d ∈ before, d.forced = none → Ord.compare c.name d.name ≠ .lt
  ofAfter : ∀ d ∈ after, d.forced = none → Ord.compare d.name c.name = .lt

/-- Candidates keep their ids when one more is put between them. -/
def KeepsIds (before after : List IdCandidate) (ids : List Nat) (c : IdCandidate) : Prop :=
  ∃ id, assignIds (before ++ c :: after) =
    .ok (ids.take before.length ++ id :: ids.drop before.length)

/-! ### Reordering -/

/-- The names of candidates without a forced id differ. -/
def DistinctNames (cs : List IdCandidate) : Prop :=
  cs.Pairwise fun a b => a.forced = none → b.forced = none → a.name ≠ b.name

theorem DistinctNames.nodup (names : DistinctNames cs) (faultless : Faultless cs) : cs.Nodup := by
  have forced := List.pairwise_filterMap.mp faultless.distinct
  refine (names.and forced).imp ?_
  rintro a b ⟨byName, byId⟩ rfl
  cases here : a.forced with
  | none => exact byName here here rfl
  | some id => exact byId id here id here rfl

theorem compare_lt_iff {x y : String} (differ : x ≠ y) :
    Ord.compare x y = .lt ↔ Ord.compare y x ≠ .lt := by
  have swap : Ord.compare y x = (Ord.compare x y).swap := Std.OrientedCmp.eq_swap
  rw [swap]
  cases order : Ord.compare x y with
  | lt => simp
  | gt => simp
  | eq => exact absurd (Std.LawfulEqCmp.eq_of_compare order) differ

/-- The smaller one of two different names has the smaller id. -/
def ByName (idOf : IdCandidate → Nat) (a b : IdCandidate) : Prop :=
  a.forced = none → b.forced = none → a.name ≠ b.name ∧
    (Ord.compare a.name b.name = .lt ↔ idOf a < idOf b) ∧
    (Ord.compare b.name a.name = .lt ↔ idOf b < idOf a)

theorem ByName.symm {idOf : IdCandidate → Nat} {a b : IdCandidate} (h : ByName idOf a b) :
    ByName idOf b a :=
  fun bNone aNone =>
    have ⟨differ, less, greater⟩ := h aNone bNone
    ⟨differ.symm, greater, less⟩

/-- Where names differ, the turns do not depend on places. -/
theorem inTurn_iff_byName {idOf : IdCandidate → Nat} {a b : IdCandidate}
    (differ : a.forced = none → b.forced = none → a.name ≠ b.name) :
    InTurn (a, idOf a) (b, idOf b) ↔ ByName idOf a b := by
  constructor
  · intro turn aNone bNone
    have order := turn aNone bNone
    have swap := compare_lt_iff (differ aNone bNone)
    dsimp only at order
    refine ⟨differ aNone bNone, ?_⟩
    split at order
    · next smaller => exact ⟨by rw [swap]; simp [smaller]; omega, by simp [smaller, order]⟩
    · next notSmaller => exact ⟨by rw [swap]; simp [notSmaller, order], by simp [notSmaller]; omega⟩
  · intro h aNone bNone
    obtain ⟨differ, less, greater⟩ := h aNone bNone
    split
    · next smaller => exact greater.mp smaller
    · next notSmaller => exact less.mp ((compare_lt_iff differ).mpr notSmaller)

/-- Assigned ids in another order of the candidates. -/
theorem IsAssignment.perm {idOf : IdCandidate → Nat} (names : DistinctNames cs)
    (assigned : IsAssignment cs (cs.map idOf)) {cs' : List IdCandidate} (perm : cs'.Perm cs) :
    IsAssignment cs' (cs'.map idOf) := by
  have column : (cs'.map idOf).Perm (cs.map idOf) := perm.map idOf
  have same {given : IdCandidate × Nat} (mem : given ∈ cs'.zip (cs'.map idOf)) :
      given ∈ cs.zip (cs.map idOf) := by
    rw [← List.map_prod_left_eq_zip] at mem ⊢
    exact (perm.map _).mem_iff.mp mem
  refine ⟨List.length_map _, column.nodup_iff.mpr assigned.distinct,
    fun mem => assigned.unreserved (column.mem_iff.mp mem),
    fun given mem => assigned.honoured given (same mem), ?inTurn, ?lowest⟩
  case inTurn =>
    have turns := assigned.inTurn
    rw [← List.map_prod_left_eq_zip, List.pairwise_map] at turns ⊢
    have names' : DistinctNames cs' :=
      (perm.pairwise_iff fun h bNone aNone => (h aNone bNone).symm).mpr names
    have byName : cs.Pairwise (ByName idOf) :=
      (names.and turns).imp fun h => (inTurn_iff_byName h.1).mp h.2
    have byName' : cs'.Pairwise (ByName idOf) := (perm.pairwise_iff ByName.symm).mpr byName
    exact (names'.and byName').imp fun h => (inTurn_iff_byName h.1).mpr h.2
  case lowest =>
    intro given mem none id positive below
    exact column.mem_iff.mpr (assigned.lowest given (same mem) none id positive below)

theorem exists_idOf (distinct : cs.Nodup) (aligned : ids.length = cs.length) :
    ∃ idOf : IdCandidate → Nat, ids = cs.map idOf := by
  refine ⟨fun c => (ids[cs.idxOf c]?).getD 0, List.ext_getElem (by simp [aligned]) ?_⟩
  intro i small small'
  have place : i < cs.length := aligned ▸ small
  simp [distinct.idxOf_getElem i place, small]

/-! ### Newcomers -/

/-- The list of candidates with their ids, with one more in it. -/
theorem zip_insert {ids' : List Nat} {id : Nat} (aligned : ids'.length = before.length)
    (rest : List Nat) :
    (before ++ c :: after).zip (ids' ++ id :: rest) =
      before.zip ids' ++ (c, id) :: after.zip rest := by
  rw [List.zip_append aligned.symm, List.zip_cons_cons]

theorem mem_insert {α : Type} {as bs : List α} {a x : α} :
    x ∈ as ++ a :: bs ↔ x = a ∨ x ∈ as ++ bs := by
  simp only [List.mem_append, List.mem_cons]
  tauto

/-- A candidate that forces an id which nobody has fits in anywhere. -/
theorem IsAssignment.insert_forced {earlier later : List Nat} {id : Nat}
    (aligned : earlier.length = before.length)
    (assigned : IsAssignment (before ++ after) (earlier ++ later)) (forced : c.forced = some id)
    (positive : 0 < id) (new : id ∉ earlier ++ later) :
    IsAssignment (before ++ c :: after) (earlier ++ id :: later) := by
  have zip : (before ++ after).zip (earlier ++ later) = before.zip earlier ++ after.zip later :=
    List.zip_append aligned.symm
  refine ⟨?aligned, ?distinct, ?unreserved, ?honoured, ?inTurn, ?lowest⟩
  case aligned =>
    have := assigned.aligned
    simp only [List.length_append, List.length_cons] at this ⊢
    omega
  case distinct => exact List.nodup_middle.mpr (List.nodup_cons.mpr ⟨new, assigned.distinct⟩)
  case unreserved =>
    intro mem
    rcases mem_insert.mp mem with zero | old
    · omega
    · exact assigned.unreserved old
  case honoured =>
    intro given mem k some
    rw [zip_insert aligned] at mem
    rcases mem_insert.mp mem with rfl | old
    · exact Option.some.inj (forced.symm.trans some)
    · exact assigned.honoured given (zip ▸ old) k some
  case inTurn =>
    have turns := assigned.inTurn
    rw [zip, List.pairwise_append] at turns
    obtain ⟨front, back, across⟩ := turns
    rw [zip_insert aligned, List.pairwise_append, List.pairwise_cons]
    refine ⟨front, ⟨fun _ _ none => ?_, back⟩, fun given mem other there => ?_⟩
    · exact absurd (forced.symm.trans none) (by simp)
    · rcases List.mem_cons.mp there with rfl | old
      · exact fun _ none => absurd (forced.symm.trans none) (by simp)
      · exact across given mem other old
  case lowest =>
    intro given mem none k kPositive below
    rw [zip_insert aligned] at mem
    rcases mem_insert.mp mem with rfl | old
    · exact absurd (forced.symm.trans none) (by simp)
    · exact mem_insert.mpr (.inr (assigned.lowest given (zip ▸ old) none k kPositive below))

/-- The candidate with the last turn can be left out. -/
theorem IsAssignment.remove_last {earlier later : List Nat} {id : Nat}
    (aligned : earlier.length = before.length)
    (assigned : IsAssignment (before ++ c :: after) (earlier ++ id :: later))
    (last : TakesLastTurn before after c) :
    IsAssignment (before ++ after) (earlier ++ later) := by
  have zip : (before ++ after).zip (earlier ++ later) = before.zip earlier ++ after.zip later :=
    List.zip_append aligned.symm
  have grown {given : IdCandidate × Nat} (mem : given ∈ (before ++ after).zip (earlier ++ later)) :
      given ∈ (before ++ c :: after).zip (earlier ++ id :: later) := by
    rw [zip_insert aligned]
    exact mem_insert.mpr (.inr (zip ▸ mem))
  have turns := assigned.inTurn
  rw [zip_insert aligned, List.pairwise_append, List.pairwise_cons] at turns
  obtain ⟨front, ⟨behind, back⟩, across⟩ := turns
  have distinct := List.nodup_cons.mp (List.nodup_middle.mp assigned.distinct)
  refine ⟨?aligned, distinct.2, ?unreserved, fun given mem => assigned.honoured given (grown mem),
    ?inTurn, ?lowest⟩
  case aligned =>
    have := assigned.aligned
    simp only [List.length_append, List.length_cons] at this ⊢
    omega
  case unreserved => exact fun mem => assigned.unreserved (mem_insert.mpr (.inr mem))
  case inTurn =>
    rw [zip, List.pairwise_append]
    exact ⟨front, back, fun given mem other there =>
      across given mem other (List.mem_cons_of_mem _ there)⟩
  case lowest =>
    intro given mem none k positive below
    -- the id of the last turn is greater than that of `given`, so it is not the one below
    have less : given.2 < id := by
      rcases List.mem_append.mp (zip ▸ mem) with front | back
      · have turn := across given front (c, id) List.mem_cons_self none last.unforced
        have first := last.ofBefore given.1 (List.of_mem_zip front).1 none
        rwa [if_neg first] at turn
      · have turn := behind given back last.unforced none
        have first := last.ofAfter given.1 (List.of_mem_zip back).1 none
        rwa [if_pos first] at turn
    rcases mem_insert.mp (assigned.lowest given (grown mem) none k positive below) with rfl | old
    · omega
    · exact old

/-! ### Stability -/

theorem keepsIds_of_forced {id : Nat} (assigned : IsAssignment (before ++ after) ids)
    (fits : (before ++ c :: after).length ≤ maxId) (forced : c.forced = some id)
    (positive : 0 < id) (new : id ∉ ids) : KeepsIds before after ids c := by
  have aligned : (ids.take before.length).length = before.length := by
    have := assigned.aligned
    simp only [List.length_take, List.length_append] at this ⊢
    omega
  rw [← List.take_append_drop before.length ids] at assigned new
  exact ⟨id, assignIds_eq_ok_iff.mpr ⟨fits, assigned.insert_forced aligned forced positive new⟩⟩

theorem keepsIds_of_lastTurn (assigned : IsAssignment (before ++ after) ids)
    (fits : (before ++ c :: after).length ≤ maxId) (last : TakesLastTurn before after c) :
    KeepsIds before after ids c := by
  have faultless : Faultless (before ++ c :: after) := by
    have old := assigned.faultless
    have same : forcedIds (before ++ c :: after) = forcedIds (before ++ after) := by
      simp [forcedIds, last.unforced]
    refine ⟨fun d mem => ?_, same ▸ old.distinct⟩
    rcases mem_insert.mp mem with rfl | earlier
    · simp [last.unforced]
    · exact old.unreserved d earlier
  obtain ⟨grown, given⟩ := exists_assignIds_iff.mpr ⟨fits, faultless⟩
  have assigned' := (assignIds_eq_ok_iff.mp given).2
  have aligned' := assigned'.aligned
  simp only [List.length_append, List.length_cons] at aligned'
  have place : before.length < grown.length := by omega
  have split : grown =
      grown.take before.length ++ grown[before.length] :: grown.drop (before.length + 1) := by
    rw [← List.drop_eq_getElem_cons place, List.take_append_drop]
  have aligned : (grown.take before.length).length = before.length := by
    rw [List.length_take]
    omega
  rw [split] at assigned'
  rw [assigned.unique (assigned'.remove_last aligned last)]
  refine ⟨grown[before.length], ?_⟩
  rw [List.take_left' aligned, List.drop_left' aligned, ← split]
  exact given

/-- The ids of candidates on which the assignment succeeds stay what they are: in any order of the
list, if the names without a forced id differ; and when a candidate is put between them that takes
its turn last, or that forces an id nobody has, if there is room for one more. -/
theorem assignIds_stable {cs : List IdCandidate} {ids : List Nat}
    (assigned : assignIds cs = .ok ids) :
    (DistinctNames cs → ∃ idOf : IdCandidate → Nat, ids = cs.map idOf ∧
      ∀ cs', cs'.Perm cs → assignIds cs' = .ok (cs'.map idOf)) ∧
    ∀ before after c, cs = before ++ after → (before ++ c :: after).length ≤ maxId →
      (TakesLastTurn before after c → KeepsIds before after ids c) ∧
      ∀ id, c.forced = some id → 0 < id → id ∉ ids → KeepsIds before after ids c := by
  obtain ⟨fits, assignment⟩ := assignIds_eq_ok_iff.mp assigned
  constructor
  · intro names
    obtain ⟨idOf, rfl⟩ := exists_idOf (names.nodup assignment.faultless) assignment.aligned
    refine ⟨idOf, rfl, fun cs' perm => assignIds_eq_ok_iff.mpr ⟨?_, assignment.perm names perm⟩⟩
    rwa [perm.length_eq]
  · rintro before after c rfl grown
    exact ⟨keepsIds_of_lastTurn assignment grown, fun id => keepsIds_of_forced assignment grown⟩

theorem assignIds_stable_shapes :
    assignIds [⟨"Square", none⟩, ⟨"Circle", none⟩, ⟨"Triangle", some 1⟩] = .ok [3, 2, 1] ∧
      assignIds [⟨"Triangle", some 1⟩, ⟨"Circle", none⟩, ⟨"Square", none⟩] = .ok [1, 2, 3] ∧
      KeepsIds [⟨"Square", none⟩] [⟨"Circle", none⟩, ⟨"Triangle", some 1⟩] [3, 2, 1]
        ⟨"Trapeze", none⟩ ∧
      KeepsIds [⟨"Square", none⟩] [⟨"Circle", none⟩, ⟨"Triangle", some 1⟩] [3, 2, 1]
        ⟨"Arc", some 7⟩ := by
  have assigned : assignIds [⟨"Square", none⟩, ⟨"Circle", none⟩, ⟨"Triangle", some 1⟩] =
      .ok [3, 2, 1] := by
    refine assignIds_eq_ok_iff.mpr ⟨by decide, rfl, by decide, by decide, ?_, ?_, ?_⟩
    · simp
    · simp +decide [InTurn]
    · simp
      grind
  obtain ⟨reordered, grown⟩ := assignIds_stable assigned
  obtain ⟨idOf, ids, perm⟩ := reordered (by simp [DistinctNames])
  obtain ⟨square, circle, triangle⟩ : 3 = idOf ⟨"Square", none⟩ ∧ 2 = idOf ⟨"Circle", none⟩ ∧
      1 = idOf ⟨"Triangle", some 1⟩ := by simpa using ids
  refine ⟨assigned, ?_, ?_, ?_⟩
  · have backwards := perm _ (List.reverse_perm _)
    simpa [← square, ← circle, ← triangle] using backwards
  · refine (grown [⟨"Square", none⟩] _ ⟨"Trapeze", none⟩ rfl (by decide)).1 ⟨rfl, ?_, ?_⟩
    · simp +decide
    · simp +decide
  · exact (grown [⟨"Square", none⟩] _ ⟨"Arc", some 7⟩ rfl (by decide)).2 7 rfl (by decide)
      (by decide)

/-- The reserved id is an id that nobody has, and cannot be forced. -/
theorem not_keepsIds_reserved :
    assignIds [⟨"Circle", none⟩] = .ok [1] ∧ 0 ∉ [1] ∧
      ¬KeepsIds [⟨"Circle", none⟩] [] [1] ⟨"Unset", some 0⟩ := by
  refine ⟨by decide +kernel, by decide, ?_⟩
  rintro ⟨id, given⟩
  have refused :
      assignIds [⟨"Circle", none⟩, ⟨"Unset", some 0⟩] = .error (.reservedId "Unset") := by
    decide +kernel
  cases given.symm.trans refused

end Marksmith.Union

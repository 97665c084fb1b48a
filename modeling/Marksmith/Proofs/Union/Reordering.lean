import Marksmith.Proofs.Host.Reordering
import Marksmith.Proofs.Union.Sources
import Marksmith.Proofs.Union.Stability

/-!
Families whose variants stand in another order.

* `assignIds_perm`: candidates with distinct names get the same ids in any order;
* `cases_perm`: the cases of a family are listed by id, so they are the same whatever the order of
  the variants is;
* `rearranges_of_perm`: what a family in another order has in common with the family.
-/

namespace Marksmith

namespace Union

/-- Candidates with distinct names get the same ids in any order, if there are ids for them. -/
theorem assignIds_perm {cs cs' : List IdCandidate} {ids : List Nat} (names : DistinctNames cs)
    (perm : cs'.Perm cs) (assigned : assignIds cs = .ok ids) :
    ∃ idOf : IdCandidate → Nat, ids = cs.map idOf ∧ assignIds cs' = .ok (cs'.map idOf) := by
  obtain ⟨fits, assignment⟩ := assignIds_eq_ok_iff.mp assigned
  obtain ⟨idOf, rfl⟩ := exists_idOf (names.nodup assignment.faultless) assignment.aligned
  refine ⟨idOf, rfl, assignIds_eq_ok_iff.mpr ⟨?_, assignment.perm names perm⟩⟩
  rwa [perm.length_eq]

theorem DistinctNames.perm {cs cs' : List IdCandidate} (names : DistinctNames cs)
    (perm : cs'.Perm cs) : DistinctNames cs' :=
  (perm.pairwise_iff fun apart bNone aNone => (apart aNone bNone).symm).mpr names

end Union

namespace UnionFamily

/-- What a variant asks for. -/
def candidateOf (v : UnionVariant) : Union.IdCandidate := ⟨v.symbol.simpleName, v.forcedId⟩

theorem byId_perm {idOf : UnionVariant → Nat} {vs ws : List UnionVariant} (perm : vs.Perm ws)
    (distinct : (ws.map idOf).Nodup) :
    byId (vs.map idOf) vs = byId (ws.map idOf) ws := by
  rw [byId, byId, ← List.map_prod_right_eq_zip, ← List.map_prod_right_eq_zip]
  refine mergeSort_perm_eq ?_ ?_ ?_ (perm.map _)
  · intro a b c first second
    exact decide_eq_true (Nat.le_trans (of_decide_eq_true first) (of_decide_eq_true second))
  · intro a b
    rw [Bool.or_eq_true, decide_eq_true_iff, decide_eq_true_iff]
    exact Nat.le_total _ _
  · intro a b aMem bMem first second
    obtain ⟨v, vMem, rfl⟩ := List.mem_map.mp aMem
    obtain ⟨w, wMem, rfl⟩ := List.mem_map.mp bMem
    have same := Nat.le_antisymm (of_decide_eq_true first) (of_decide_eq_true second)
    rw [List.inj_on_of_nodup_map distinct vMem wMem same]

/-- A family with the same root and the same variants in some order: it has ids if the other one
has, and then the cases are the same. -/
structure Rearranges (other family : UnionFamily) : Prop where
  root : other.root = family.root
  variants : other.variants.Perm family.variants
  variant? : ∀ s, other.variants.find? (·.symbol == s) = family.variants.find? (·.symbol == s)
  settled : other.ids.isOk = family.ids.isOk
  cases : other.assignedCases = family.assignedCases

theorem Rearranges.refl (family : UnionFamily) : family.Rearranges family :=
  ⟨rfl, .refl _, fun _ => rfl, rfl, rfl⟩

/-- Either both families have no ids, or both have some, and the same cases. -/
theorem Rearranges.ids_cases {other family : UnionFamily} (same : other.Rearranges family) :
    (∃ e e', other.ids = .error e ∧ family.ids = .error e') ∨
      ∃ ids ids', other.ids = .ok ids ∧ family.ids = .ok ids' ∧
        other.cases ids = family.cases ids' := by
  have settled := same.settled
  have cases := same.cases
  rw [assignedCases, assignedCases] at cases
  cases given : other.ids with
  | error e =>
    cases given' : family.ids with
    | error e' => exact .inl ⟨e, e', rfl, rfl⟩
    | ok ids' =>
      rw [given, given'] at settled
      cases settled
  | ok ids =>
    cases given' : family.ids with
    | error e' =>
      rw [given, given'] at settled
      cases settled
    | ok ids' =>
      rw [given, given'] at cases
      exact .inr ⟨ids, ids', rfl, rfl, cases⟩

theorem Rearranges.maxVariantSize {other family : UnionFamily} (same : other.Rearranges family) :
    other.maxVariantSize = family.maxVariantSize := by
  rw [UnionFamily.maxVariantSize, UnionFamily.maxVariantSize]
  refine (same.variants.map _).foldr_eq' ?_ 0
  intro a _ b _ c
  exact Nat.max_left_comm b a c

/-- The cases of variants in another order. -/
theorem cases_perm {vs ws : List UnionVariant} {root : Symbol} (perm : vs.Perm ws)
    (names : Union.DistinctNames (ws.map candidateOf)) {ids : List Nat}
    (assigned : (MarkerIndex.familyOf root ws).ids = .ok ids) :
    ∃ others, (MarkerIndex.familyOf root vs).ids = .ok others ∧
      (MarkerIndex.familyOf root vs).cases others = (MarkerIndex.familyOf root ws).cases ids := by
  have given : Union.assignIds (ws.map candidateOf) = .ok ids := assigned
  obtain ⟨idOf, rfl, again⟩ := Union.assignIds_perm names (perm.map candidateOf) given
  obtain ⟨-, assignment⟩ := Union.assignIds_eq_ok_iff.mp given
  have distinct := assignment.distinct
  rw [List.map_map] at distinct
  have sorted : byId (vs.map (idOf ∘ candidateOf)) vs = byId (ws.map (idOf ∘ candidateOf)) ws :=
    byId_perm perm distinct
  refine ⟨_, again, ?_⟩
  simp only [UnionFamily.cases, MarkerIndex.familyOf, List.map_map, sorted]

/-- The families of a root with the same variants in different orders, if variants without a forced
id have different simple names. -/
theorem rearranges_of_perm {vs ws : List UnionVariant} (root : Symbol) (perm : vs.Perm ws)
    (symbols : (ws.map (·.symbol)).Nodup) (names : Union.DistinctNames (ws.map candidateOf)) :
    (MarkerIndex.familyOf root vs).Rearranges (MarkerIndex.familyOf root ws) := by
  have found : ∀ s, vs.find? (·.symbol == s) = ws.find? (·.symbol == s) := by
    intro s
    refine find?_perm ?_ perm
    intro v vMem w wMem here there
    exact List.inj_on_of_nodup_map symbols vMem wMem ((eq_of_beq here).trans (eq_of_beq there).symm)
  cases given : (MarkerIndex.familyOf root ws).ids with
  | ok ids =>
    obtain ⟨others, again, same⟩ := cases_perm perm names given
    refine ⟨rfl, perm, found, ?_, ?_⟩
    · rw [given, again]
      rfl
    · rw [assignedCases, assignedCases, given, again]
      exact same
  | error e =>
    cases again : (MarkerIndex.familyOf root vs).ids with
    | ok others =>
      obtain ⟨ids, found, -⟩ := cases_perm perm.symm (names.perm (perm.map candidateOf)) again
      cases given.symm.trans found
    | error e' =>
      refine ⟨rfl, perm, found, ?_, ?_⟩
      · rw [given, again]
        rfl
      · rw [assignedCases, assignedCases, given, again]

end UnionFamily

end Marksmith

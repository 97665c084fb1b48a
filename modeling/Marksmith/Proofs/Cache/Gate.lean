import Marksmith.Cache.Gate

/-!
What a cache remembers. A committed cache holds the results of the pass and nothing else:
`held?_commit` reads it as a lookup among those results, `held?_commit_map` specializes it to
results made one per key, and `getOrMaterialize_ok` says what is served.
-/

namespace Marksmith.CacheGate

variable {κ φ α ε : Type} [DecidableEq κ]

theorem held?_store (entries : List (κ × φ × α)) (last : CacheStats) (c : Computed κ φ α)
    (key : κ) :
    (⟨store entries c, last⟩ : CacheGate κ φ α).held? key
      = if c.key = key then some (c.fingerprint, c.value)
        else (⟨entries, last⟩ : CacheGate κ φ α).held? key := by
  simp only [held?, store]
  rw [List.find?_append]
  by_cases same : c.key = key
  · have replaced : (entries.filter fun e => e.1 ≠ c.key).find? (fun e => e.1 = key) = none := by
      rw [List.find?_eq_none]
      intro e mem suits
      have kept := of_decide_eq_true (List.mem_filter.mp mem).2
      exact kept ((of_decide_eq_true suits).trans same.symm)
    rw [replaced, if_pos same]
    simp [same]
  · have others : (entries.filter fun e => e.1 ≠ c.key).find? (fun e => e.1 = key)
        = entries.find? fun e => e.1 = key := by
      rw [List.find?_filter]
      congr 1
      funext e
      by_cases suits : e.1 = key
      · have apart : ¬key = c.key := fun h => same h.symm
        simp [suits, apart]
      · simp [suits]
    rw [others, if_neg same]
    simp [same]

theorem held?_foldl_store (computed : List (Computed κ φ α)) (entries : List (κ × φ × α))
    (last : CacheStats) (key : κ) :
    (⟨computed.foldl store entries, last⟩ : CacheGate κ φ α).held? key
      = ((computed.reverse.find? fun c => c.key = key).map fun c => (c.fingerprint, c.value)).or
          ((⟨entries, last⟩ : CacheGate κ φ α).held? key) := by
  induction computed generalizing entries with
  | nil => rfl
  | cons c computed ih =>
    rw [List.foldl_cons, ih, held?_store, List.reverse_cons, List.find?_append]
    cases computed.reverse.find? (fun c => c.key = key) with
    | some later => rfl
    | none =>
      by_cases same : c.key = key
      · simp [same]
      · simp [same]

variable [DecidableEq φ]

/-- A committed cache holds for each key the last result of the pass under that key. -/
theorem held?_commit (gate : CacheGate κ φ α) (computed : List (Computed κ φ α)) (key : κ) :
    (gate.commit computed).held? key
      = (computed.reverse.find? fun c => c.key = key).map fun c => (c.fingerprint, c.value) := by
  have stored := held?_foldl_store computed [] (gate.commit computed).last key
  have empty : (⟨[], (gate.commit computed).last⟩ : CacheGate κ φ α).held? key = none := rfl
  rw [empty, Option.or_none] at stored
  exact stored

/-- A cache committed with one result for each of some keys holds exactly these. -/
theorem held?_commit_map (gate : CacheGate κ φ α) (keys : List κ) (result : κ → Computed κ φ α)
    (keyed : ∀ key, (result key).key = key) (key : κ) :
    (gate.commit (keys.map result)).held? key
      = if key ∈ keys then some ((result key).fingerprint, (result key).value) else none := by
  rw [held?_commit, ← List.map_reverse, List.find?_map]
  by_cases mem : key ∈ keys
  · have found : keys.reverse.find? ((fun c => decide (c.key = key)) ∘ result) = some key := by
      cases search : keys.reverse.find? ((fun c => decide (c.key = key)) ∘ result) with
      | none =>
        rw [List.find?_eq_none] at search
        exact absurd (decide_eq_true (keyed key)) (search key (List.mem_reverse.mpr mem))
      | some other =>
        have suits : (result other).key = key := by simpa using List.find?_some search
        rw [← suits, keyed]
    rw [found, if_pos mem]
    rfl
  · have missing : keys.reverse.find? ((fun c => decide (c.key = key)) ∘ result) = none := by
      rw [List.find?_eq_none]
      intro other there suits
      have same := (keyed other).symm.trans (of_decide_eq_true suits)
      exact mem (same ▸ List.mem_reverse.mp there)
    rw [missing, if_neg mem]
    rfl

/-- What is served if making the result anew succeeds. -/
theorem getOrMaterialize_ok (gate : CacheGate κ φ α) (key : κ) (fingerprint : φ) {fresh : α}
    (materialize : Unit → Except ε α) (made : materialize () = .ok fresh) :
    gate.getOrMaterialize key fingerprint materialize
      = .ok ⟨key, fingerprint, (gate.probe key fingerprint).getD fresh,
          (gate.probe key fingerprint).isSome⟩ := by
  rw [getOrMaterialize]
  cases gate.probe key fingerprint with
  | some value => rfl
  | none =>
    rw [made]
    rfl

end Marksmith.CacheGate

import Marksmith.Proofs.Cache.Gate
import Marksmith.Proofs.Lists
import Mathlib.Data.List.Nodup
import Mathlib.Data.List.Perm.Basic

/-!
What batches of requests do to a cache. A batch asks for results under distinct keys; unless it is
given up, its results replace what the cache holds.

* `entries_commit`: a committed cache holds the results of the batch, in their order;
* `hits_add_misses`, `hits_add_swept`: every result is a hit or a miss, and every older entry is
  either served again or swept;
* `after`, `lastResults`: the cache after a history of batches, and the results of the last one that
  was committed; `entries_after` is the invariant of histories;
* `balanced`, `repeats`: the balance of every batch of a history, and what comes of asking once more.
-/

namespace Marksmith

/-- The entry that a result becomes. -/
def Computed.entry {κ φ α : Type} (c : Computed κ φ α) : κ × φ × α :=
  (c.key, c.fingerprint, c.value)

/-- A result as it is served from the cache. -/
def Computed.cached {κ φ α : Type} (c : Computed κ φ α) : Computed κ φ α := { c with hit := true }

namespace CacheGate

/-- A result that a cache is asked for. -/
structure Request (κ φ ε α : Type) where
  key : κ
  fingerprint : φ
  /-- How the result is made if it is not in the cache. -/
  materialize : Unit → Except ε α

/-- Requests that are committed together. -/
structure Batch (κ φ ε α : Type) where
  requests : List (Request κ φ ε α)
  /-- Why the batch is given up before it is committed. -/
  abandoned : Option ε := none

/-- No two requests are made under the same key. -/
def Batch.Distinct {κ φ ε α : Type} (b : Batch κ φ ε α) : Prop := (b.requests.map (·.key)).Nodup

variable {κ φ ε α : Type}

/-- Two requests for one result: their keys and their fingerprints are the same. -/
def Alike (r s : Request κ φ ε α) : Prop := r.key = s.key ∧ r.fingerprint = s.fingerprint

theorem keys_eq_of_alike {rs again : List (Request κ φ ε α)}
    (alike : List.Forall₂ Alike rs again) : rs.map (·.key) = again.map (·.key) := by
  induction alike with
  | nil => rfl
  | cons same _ ih => rw [List.map_cons, List.map_cons, same.1, ih]

variable [DecidableEq κ]

/-! ### Entries -/

/-- A cache with at most one entry for each key. -/
def Keyed (gate : CacheGate κ φ α) : Prop := (gate.entries.map (·.1)).Nodup

theorem Keyed.held?_eq_some_iff {gate : CacheGate κ φ α} (keyed : gate.Keyed) {key : κ}
    {fingerprint : φ} {value : α} :
    gate.held? key = some (fingerprint, value) ↔ (key, fingerprint, value) ∈ gate.entries := by
  constructor
  · intro held
    obtain ⟨e, found, same⟩ := Option.map_eq_some_iff.mp held
    have suits : e.1 = key := by simpa using List.find?_some found
    have whole : e = (key, fingerprint, value) := Prod.ext suits same
    rw [← whole]
    exact List.mem_of_find?_eq_some found
  · intro mem
    rw [held?, Option.map_eq_some_iff]
    cases search : gate.entries.find? fun e => e.1 = key with
    | none =>
      rw [List.find?_eq_none] at search
      exact absurd (decide_eq_true rfl) (search _ mem)
    | some e =>
      have suits : e.1 = key := by simpa using List.find?_some search
      have same := List.inj_on_of_nodup_map keyed (List.mem_of_find?_eq_some search) mem suits
      exact ⟨e, rfl, congrArg Prod.snd same⟩

theorem foldl_store_eq (computed : List (Computed κ φ α)) (entries : List (κ × φ × α))
    (distinct : (entries.map (·.1) ++ computed.map (·.key)).Nodup) :
    computed.foldl store entries = entries ++ computed.map (·.entry) := by
  induction computed generalizing entries with
  | nil => rw [List.foldl_nil, List.map_nil, List.append_nil]
  | cons c computed ih =>
    have kept : (entries.filter fun e => e.1 ≠ c.key) = entries := by
      rw [List.filter_eq_self]
      intro e mem
      have apart := (List.nodup_append'.mp distinct).2.2
      refine decide_eq_true fun same => apart (List.mem_map_of_mem mem) ?_
      rw [same]
      exact List.mem_cons_self
    have stored : store entries c = entries ++ [c.entry] := by
      rw [store, kept]
      rfl
    rw [List.foldl_cons, stored, ih]
    · rw [List.append_assoc, List.map_cons, List.singleton_append]
    · rw [List.map_append, List.append_assoc]
      exact distinct

variable [DecidableEq φ]

/-- A committed cache holds the results of the batch, in their order. -/
theorem entries_commit (gate : CacheGate κ φ α) {computed : List (Computed κ φ α)}
    (distinct : (computed.map (·.key)).Nodup) :
    (gate.commit computed).entries = computed.map (·.entry) :=
  foldl_store_eq computed [] distinct

theorem keyed_commit (gate : CacheGate κ φ α) {computed : List (Computed κ φ α)}
    (distinct : (computed.map (·.key)).Nodup) : (gate.commit computed).Keyed := by
  rw [Keyed, entries_commit gate distinct, List.map_map]
  exact distinct

theorem Keyed.probe_eq_some_iff {gate : CacheGate κ φ α} (keyed : gate.Keyed) {key : κ}
    {fingerprint : φ} {value : α} :
    gate.probe key fingerprint = some value ↔ (key, fingerprint, value) ∈ gate.entries := by
  rw [← keyed.held?_eq_some_iff, probe]
  cases gate.held? key with
  | none => simp
  | some content =>
    obtain ⟨stored, other⟩ := content
    by_cases same : stored = fingerprint
    · simp [same]
    · simp [same]

/-! ### Results -/

/-- What a cache may answer to a request: the value that it holds for the key, if that was made from
the same fingerprint, or else one that is made anew. -/
inductive Answers (gate : CacheGate κ φ α) (r : Request κ φ ε α) : Computed κ φ α → Prop
  | hit {value : α} (stored : gate.probe r.key r.fingerprint = some value) :
    Answers gate r ⟨r.key, r.fingerprint, value, true⟩
  | miss {value : α} (missing : gate.probe r.key r.fingerprint = none)
    (made : r.materialize () = .ok value) : Answers gate r ⟨r.key, r.fingerprint, value, false⟩

theorem getOrMaterialize_eq_ok_iff {gate : CacheGate κ φ α} {r : Request κ φ ε α}
    {c : Computed κ φ α} :
    gate.getOrMaterialize r.key r.fingerprint r.materialize = .ok c ↔ Answers gate r c := by
  rw [getOrMaterialize]
  constructor
  · intro served
    split at served
    · next value stored =>
      cases served
      exact .hit stored
    · next missing =>
      cases made : r.materialize () with
      | error e =>
        rw [made] at served
        cases served
      | ok value =>
        rw [made] at served
        cases served
        exact .miss missing made
  · intro answer
    cases answer with
    | hit stored => rw [stored]
    | miss missing made =>
      rw [missing, made]
      rfl

/-- The results of a batch, unless it is given up or one of them cannot be made. -/
def serve (gate : CacheGate κ φ α) (b : Batch κ φ ε α) : Except ε (List (Computed κ φ α)) :=
  match b.abandoned with
  | some e => .error e
  | none => b.requests.mapM fun r => gate.getOrMaterialize r.key r.fingerprint r.materialize

theorem serve_eq_ok_iff {gate : CacheGate κ φ α} {b : Batch κ φ ε α}
    {computed : List (Computed κ φ α)} :
    gate.serve b = .ok computed ↔
      b.abandoned = none ∧ List.Forall₂ (Answers gate) b.requests computed := by
  rw [serve]
  constructor
  · intro served
    split at served
    · cases served
    · next going =>
      exact ⟨going, (mapM_eq_ok_iff.mp served).imp fun _ _ => getOrMaterialize_eq_ok_iff.mp⟩
  · rintro ⟨going, answers⟩
    rw [going]
    exact mapM_eq_ok_iff.mpr (answers.imp fun _ _ => getOrMaterialize_eq_ok_iff.mpr)

namespace Answers

variable {gate : CacheGate κ φ α} {r : Request κ φ ε α} {c : Computed κ φ α}

theorem key (answer : Answers gate r c) : c.key = r.key := by
  cases answer <;> rfl

theorem fingerprint (answer : Answers gate r c) : c.fingerprint = r.fingerprint := by
  cases answer <;> rfl

/-- A result is a hit exactly if the cache has an entry with its key and its fingerprint. -/
theorem hit_iff (keyed : gate.Keyed) (answer : Answers gate r c) :
    c.hit = true ↔ ∃ value, (c.key, c.fingerprint, value) ∈ gate.entries := by
  cases answer with
  | hit stored => exact iff_of_true rfl ⟨_, keyed.probe_eq_some_iff.mp stored⟩
  | miss missing made =>
    refine iff_of_false Bool.false_ne_true ?_
    rintro ⟨value, mem⟩
    rw [keyed.probe_eq_some_iff.mpr mem] at missing
    cases missing

/-- A hit is an entry of the cache. -/
theorem entry_mem (keyed : gate.Keyed) (answer : Answers gate r c) (hit : c.hit = true) :
    c.entry ∈ gate.entries := by
  cases answer with
  | hit stored => exact keyed.probe_eq_some_iff.mp stored
  | miss missing made => cases hit

theorem keys_eq {rs : List (Request κ φ ε α)} {computed : List (Computed κ φ α)}
    (answers : List.Forall₂ (Answers gate) rs computed) :
    computed.map (·.key) = rs.map (·.key) := by
  induction answers with
  | nil => rfl
  | cons answer _ ih => rw [List.map_cons, List.map_cons, answer.key, ih]

end Answers

/-! ### Statistics -/

theorem hits_add_misses (gate : CacheGate κ φ α) (computed : List (Computed κ φ α)) :
    (gate.commit computed).last.hits + (gate.commit computed).last.misses = computed.length :=
  (List.length_eq_length_filter_add fun c : Computed κ φ α => c.hit).symm

section

variable {gate : CacheGate κ φ α} {rs : List (Request κ φ ε α)} {computed : List (Computed κ φ α)}

/-- Whether the entry of a key is swept by a commit. -/
def isSwept (next : CacheGate κ φ α) (e : κ × φ × α) : Bool :=
  (next.held? e.1).all fun new => new.1 ≠ e.2.1

/-- The entries that a commit keeps are its hits. -/
theorem mem_kept_iff (keyed : gate.Keyed) (distinct : (computed.map (·.key)).Nodup)
    (answers : List.Forall₂ (Answers gate) rs computed) {e : κ × φ × α} :
    e ∈ (gate.entries.filter fun e => !isSwept (gate.commit computed) e) ↔
      e ∈ (computed.filter (·.hit)).map (·.entry) := by
  have nextKeyed := keyed_commit gate distinct
  have nextEntries := entries_commit gate distinct
  rw [List.mem_filter, List.mem_map, Bool.not_eq_true', isSwept]
  constructor
  · rintro ⟨mem, kept⟩
    cases held : (gate.commit computed).held? e.1 with
    | none =>
      rw [held] at kept
      cases kept
    | some new =>
      obtain ⟨fingerprint, value⟩ := new
      rw [held] at kept
      have same : fingerprint = e.2.1 := by simpa using kept
      have stored := nextKeyed.held?_eq_some_iff.mp held
      rw [nextEntries] at stored
      obtain ⟨c, there, becomes⟩ := List.mem_map.mp stored
      obtain ⟨r, -, answer⟩ := exists_of_forall₂ answers there
      have key : c.key = e.1 := congrArg Prod.fst becomes
      have print : c.fingerprint = e.2.1 := (congrArg (·.2.1) becomes).trans same
      have hit : c.hit = true := (answer.hit_iff keyed).mpr ⟨e.2.2, by rw [key, print]; exact mem⟩
      have older := answer.entry_mem keyed hit
      exact ⟨c, List.mem_filter.mpr ⟨there, hit⟩,
        List.inj_on_of_nodup_map keyed older mem key⟩
  · rintro ⟨c, there, rfl⟩
    obtain ⟨there, hit⟩ := List.mem_filter.mp there
    obtain ⟨r, -, answer⟩ := exists_of_forall₂ answers there
    have stored : c.entry ∈ (gate.commit computed).entries := by
      rw [nextEntries]
      exact List.mem_map_of_mem there
    have held : (gate.commit computed).held? c.entry.1 = some (c.fingerprint, c.value) :=
      nextKeyed.held?_eq_some_iff.mpr stored
    refine ⟨answer.entry_mem keyed hit, ?_⟩
    rw [held]
    simp [Computed.entry]

/-- Every entry of the cache is served again or swept. -/
theorem hits_add_swept (keyed : gate.Keyed) (distinct : (computed.map (·.key)).Nodup)
    (answers : List.Forall₂ (Answers gate) rs computed) :
    (gate.commit computed).last.hits + (gate.commit computed).last.swept = gate.size := by
  have entries : gate.entries.Nodup := List.Nodup.of_map _ keyed
  have hits : ((computed.filter (·.hit)).map (·.entry)).Nodup := by
    have apart : (computed.map (·.entry)).Nodup := by
      refine List.Nodup.of_map Prod.fst ?_
      rw [List.map_map]
      exact distinct
    exact apart.sublist (List.filter_sublist.map _)
  have kept := (List.perm_ext_iff_of_nodup (entries.filter _) hits).mpr
    fun e => mem_kept_iff keyed distinct answers (e := e)
  have split := List.length_eq_length_filter_add (l := gate.entries)
    (isSwept (gate.commit computed))
  rw [kept.length_eq, List.length_map] at split
  show (computed.filter (·.hit)).length
    + (gate.entries.filter (isSwept (gate.commit computed))).length = gate.entries.length
  rw [split, Nat.add_comm]

end

/-! ### Histories -/

/-- The cache after some batches, the last one first. A batch without results is not committed. -/
def after : List (Batch κ φ ε α) → CacheGate κ φ α
  | [] => {}
  | b :: earlier =>
    match (after earlier).serve b with
    | .ok computed => (after earlier).commit computed
    | .error _ => after earlier

/-- The results of the last batch that was committed. -/
def lastResults : List (Batch κ φ ε α) → List (Computed κ φ α)
  | [] => []
  | b :: earlier =>
    match (after earlier).serve b with
    | .ok computed => computed
    | .error _ => lastResults earlier

theorem after_committed {earlier : List (Batch κ φ ε α)} {b : Batch κ φ ε α}
    {computed : List (Computed κ φ α)} (served : (after earlier).serve b = .ok computed) :
    after (b :: earlier) = (after earlier).commit computed := by
  rw [after, served]

theorem after_abandoned {earlier : List (Batch κ φ ε α)} {b : Batch κ φ ε α} {e : ε}
    (failed : (after earlier).serve b = .error e) : after (b :: earlier) = after earlier := by
  rw [after, failed]

/-- The cache holds the results of the last batch that was committed, each under its own key. -/
theorem entries_after {history : List (Batch κ φ ε α)} (distinct : ∀ b ∈ history, b.Distinct) :
    (after history).Keyed ∧ (after history).entries = (lastResults history).map (·.entry) := by
  induction history with
  | nil => exact ⟨List.nodup_nil, rfl⟩
  | cons b earlier ih =>
    rw [after, lastResults]
    cases served : (after earlier).serve b with
    | error e => exact ih fun b mem => distinct b (List.mem_cons_of_mem _ mem)
    | ok computed =>
      have keys := Answers.keys_eq (serve_eq_ok_iff.mp served).2
      have apart : (computed.map (·.key)).Nodup := by
        rw [keys]
        exact distinct b List.mem_cons_self
      exact ⟨keyed_commit _ apart, entries_commit _ apart⟩

/-- The balance of a batch that is committed after earlier ones, the last one first. -/
structure Balanced (earlier : List (Batch κ φ ε α)) (b : Batch κ φ ε α)
    (computed : List (Computed κ φ α)) : Prop where
  /-- Each request has its result. -/
  answers : List.Forall₂ (Answers (after earlier)) b.requests computed
  /-- The cache holds the results and nothing else. -/
  entries : (after (b :: earlier)).entries = computed.map (·.entry)
  requests : (after (b :: earlier)).last.hits + (after (b :: earlier)).last.misses
    = b.requests.length
  size : (after (b :: earlier)).size = b.requests.length
  turnover : (after (b :: earlier)).last.hits + (after (b :: earlier)).last.swept
    = (after earlier).size
  /-- Hits are the results that the last committed batch gave under the same key and fingerprint. -/
  hit_iff : ∀ c ∈ computed, c.hit = true ↔
    ∃ d ∈ lastResults earlier, d.key = c.key ∧ d.fingerprint = c.fingerprint
  /-- What is served for a hit is what was stored. -/
  served : ∀ c ∈ computed, c.hit = true → ∃ d ∈ lastResults earlier, d.entry = c.entry

theorem balanced {earlier : List (Batch κ φ ε α)} {b : Batch κ φ ε α}
    (distinct : ∀ other ∈ b :: earlier, other.Distinct) {computed : List (Computed κ φ α)}
    (given : (after earlier).serve b = .ok computed) : Balanced earlier b computed := by
  obtain ⟨keyed, older⟩ := entries_after fun other mem =>
    distinct other (List.mem_cons_of_mem b mem)
  have answers := (serve_eq_ok_iff.mp given).2
  have apart : (computed.map (·.key)).Nodup := by
    rw [Answers.keys_eq answers]
    exact distinct b List.mem_cons_self
  have entries := entries_commit (after earlier) apart
  constructor
  case answers => exact answers
  case entries => rw [after_committed given, entries]
  case requests => rw [after_committed given, hits_add_misses, answers.length_eq]
  case size => rw [after_committed given, size, entries, List.length_map, answers.length_eq]
  case turnover =>
    rw [after_committed given]
    exact hits_add_swept keyed apart answers
  case hit_iff =>
    intro c mem
    obtain ⟨r, -, answer⟩ := exists_of_forall₂ answers mem
    rw [answer.hit_iff keyed, older]
    constructor
    · rintro ⟨value, stored⟩
      obtain ⟨d, there, becomes⟩ := List.mem_map.mp stored
      exact ⟨d, there, congrArg Prod.fst becomes, congrArg (·.2.1) becomes⟩
    · rintro ⟨d, there, key, print⟩
      refine ⟨d.value, ?_⟩
      rw [← key, ← print]
      exact List.mem_map_of_mem there
  case served =>
    intro c mem hit
    obtain ⟨r, -, answer⟩ := exists_of_forall₂ answers mem
    have stored := answer.entry_mem keyed hit
    rw [older] at stored
    exact List.mem_map.mp stored

/-! ### Asking once more -/

theorem answers_again {gate next : CacheGate κ φ α} {rs again : List (Request κ φ ε α)}
    {computed : List (Computed κ φ α)} (alike : List.Forall₂ Alike rs again)
    (answers : List.Forall₂ (Answers gate) rs computed)
    (stored : ∀ c ∈ computed, next.probe c.key c.fingerprint = some c.value) :
    List.Forall₂ (Answers next) again (computed.map (·.cached)) := by
  induction alike generalizing computed with
  | nil =>
    cases answers
    exact .nil
  | @cons r s rs again same _ ih =>
    cases answers with
    | @cons _ c _ later answer answers =>
      have here := stored c List.mem_cons_self
      have key : c.key = s.key := answer.key.trans same.1
      have print : c.fingerprint = s.fingerprint := answer.fingerprint.trans same.2
      have hit : Answers next s c.cached := by
        rw [Computed.cached, key, print]
        rw [key, print] at here
        exact .hit here
      exact .cons hit (ih answers fun c mem => stored c (List.mem_cons_of_mem _ mem))

/-- A batch that asks for what the last batch has given is served from the cache: all of its results
are hits, and nothing is swept. -/
theorem repeats {earlier : List (Batch κ φ ε α)} {b again : Batch κ φ ε α}
    (distinct : ∀ other ∈ b :: earlier, other.Distinct) {computed : List (Computed κ φ α)}
    (given : (after earlier).serve b = .ok computed) (going : again.abandoned = none)
    (alike : List.Forall₂ Alike b.requests again.requests) :
    (after (b :: earlier)).serve again = .ok (computed.map (·.cached)) ∧
      (after (again :: b :: earlier)).last = ⟨again.requests.length, 0, 0⟩ := by
  have first := balanced distinct given
  have answers : List.Forall₂ (Answers (after (b :: earlier))) again.requests
      (computed.map (·.cached)) := by
    refine answers_again alike first.answers fun c mem => ?_
    rw [(entries_after distinct).1.probe_eq_some_iff, first.entries]
    exact List.mem_map_of_mem mem
  have served : (after (b :: earlier)).serve again = .ok (computed.map (·.cached)) :=
    serve_eq_ok_iff.mpr ⟨going, answers⟩
  have still : ∀ other ∈ again :: b :: earlier, other.Distinct := by
    intro other mem
    rcases List.mem_cons.mp mem with rfl | older
    · rw [Batch.Distinct, ← keys_eq_of_alike alike]
      exact distinct b List.mem_cons_self
    · exact distinct other older
  have second := balanced still served
  have hits : (after (again :: b :: earlier)).last.hits = again.requests.length := by
    rw [after_committed served]
    show ((computed.map (·.cached)).filter (·.hit)).length = again.requests.length
    rw [List.filter_eq_self.mpr, answers.length_eq]
    intro c mem
    obtain ⟨d, -, rfl⟩ := List.mem_map.mp mem
    rfl
  have misses := second.requests
  have swept := second.turnover
  rw [first.size, alike.length_eq] at swept
  refine ⟨served, ?_⟩
  generalize (after (again :: b :: earlier)).last = stats at hits misses swept
  obtain ⟨h, m, s⟩ := stats
  simp only [CacheStats.mk.injEq]
  simp only at hits misses swept
  omega

/-- What is to be said of a batch after earlier ones. -/
structure Accounted (earlier : List (Batch κ φ ε α)) (b : Batch κ φ ε α) : Prop where
  /-- A batch with results is committed, and balanced. -/
  committed : ∀ computed, (after earlier).serve b = .ok computed → Balanced earlier b computed
  /-- A batch without results leaves the cache as it was, its statistics included. -/
  abandoned : ∀ e, (after earlier).serve b = .error e → after (b :: earlier) = after earlier
  /-- What has been committed is served from the cache when it is asked for again. -/
  again : ∀ computed, (after earlier).serve b = .ok computed →
    ∀ again : Batch κ φ ε α, again.abandoned = none →
      List.Forall₂ Alike b.requests again.requests →
      (after (b :: earlier)).serve again = .ok (computed.map (·.cached)) ∧
        (after (again :: b :: earlier)).last = ⟨again.requests.length, 0, 0⟩

theorem accounted {earlier : List (Batch κ φ ε α)} {b : Batch κ φ ε α}
    (distinct : ∀ other ∈ b :: earlier, other.Distinct) : Accounted earlier b where
  committed _ given := balanced distinct given
  abandoned _ failed := after_abandoned failed
  again _ given _ going alike := repeats distinct given going alike

end CacheGate

end Marksmith

import Marksmith.Proofs.Cache.Fingerprint
import Marksmith.Proofs.Cache.Turnover
import Marksmith.Proofs.Pass.Jobs

/-!
What passes do to the cache of a session. An `Attempt` is a pass whose token may be cancelled on the
way; it either gives a result and commits its outputs, or it leaves the session as it was.

* `outputs_eq_serve`: the outputs of an attempt are those of a batch with one request for each job;
* `cache_after`: so the cache of a session after a history is that of the batches;
* `balanced_attempt`, `repeats_attempt`: the balance of a pass, and of the same pass run once more;
* `history_accounted`: the balance of every batch of a history of a cache, and of every attempt of a
  history of a session.
-/

namespace Marksmith

open CacheGate (Batch Request Answers Alike serve_eq_ok_iff getOrMaterialize_eq_ok_iff)

/-- A pass with what its token says when the project is indexed, during each of its jobs, and before
the results are committed. -/
structure Attempt where
  pass : Pass
  indexing : Token := .live
  during : Job → Token := fun _ => .live
  finish : Token := .live

namespace Attempt

/-- A pass whose token stays as it is. -/
def steady (p : Pass) (token : Token) : Attempt := ⟨p, token, fun _ => token, token⟩

variable (a : Attempt)

/-- The results of the jobs, served from the cache of a session or made anew. -/
def outputs (session : Session) : Except Cancelled (List (Computed Job Fingerprint Output)) := do
  a.indexing.checkpoint
  let computed ← a.pass.jobs.mapM fun job => session.compute a.pass.project (a.during job) job
  a.finish.checkpoint
  return computed

/-- The request that a job makes. -/
def request (job : Job) : Request Job Fingerprint Cancelled Output :=
  ⟨job, a.pass.fingerprint job, fun _ => job.output a.pass.project (a.during job)⟩

/-- Whether a job gets a fingerprint. -/
def Begins (job : Job) : Prop := ∃ f, job.fingerprint a.pass.project (a.during job) = .ok f

/-- Whether the attempt is not given up on the way, the making of outputs apart. -/
def Proceeds : Prop :=
  a.indexing.cancelled = false ∧ (∀ job ∈ a.pass.jobs, a.Begins job) ∧ a.finish.cancelled = false

open Classical in
/-- The requests of all jobs. -/
noncomputable def batch : Batch Job Fingerprint Cancelled Output :=
  ⟨a.pass.jobs.map a.request, if a.Proceeds then none else some .cancelled⟩

end Attempt

/-! ### Attempts and batches -/

theorem checkpoint_eq_ok_iff {token : Token} {u : Unit} :
    token.checkpoint = .ok u ↔ token.cancelled = false := by
  rw [Token.checkpoint]
  cases token.cancelled with
  | true => exact iff_of_false (by rintro ⟨⟩) (by rintro ⟨⟩)
  | false => exact iff_of_true rfl rfl

/-- There is one way to be given up, so what is given decides. -/
theorem eq_of_ok_iff {α : Type} {x y : Except Cancelled α} (same : ∀ a, x = .ok a ↔ y = .ok a) :
    x = y := by
  cases x with
  | ok a => exact ((same a).mp rfl).symm
  | error e =>
    cases y with
    | ok a => exact (same a).mpr rfl
    | error e' =>
      cases e
      cases e'
      rfl

namespace Attempt

variable {a : Attempt} {session : Session}

theorem fingerprint_of_ok {p : Pass} {token : Token} {job : Job} {f : Fingerprint}
    (made : job.fingerprint p.project token = .ok f) : f = p.fingerprint job := by
  rw [Fingerprint.ofDeclarations_ok made]
  exact (Fingerprint.ofDeclarations_ok (p.fingerprint_ok job)).symm

theorem compute_eq_ok_iff {job : Job} {c : Computed Job Fingerprint Output} :
    session.compute a.pass.project (a.during job) job = .ok c ↔
      a.Begins job ∧ Answers session.cache (a.request job) c := by
  rw [Session.compute, bind_eq_ok_iff]
  constructor
  · rintro ⟨f, made, served⟩
    refine ⟨⟨f, made⟩, ?_⟩
    rw [fingerprint_of_ok made] at served
    exact getOrMaterialize_eq_ok_iff.mp served
  · rintro ⟨⟨f, made⟩, answer⟩
    refine ⟨f, made, ?_⟩
    rw [fingerprint_of_ok made]
    exact getOrMaterialize_eq_ok_iff.mpr answer

theorem outputs_eq_ok_iff {computed : List (Computed Job Fingerprint Output)} :
    a.outputs session = .ok computed ↔
      a.indexing.cancelled = false ∧
        (a.pass.jobs.mapM fun job => session.compute a.pass.project (a.during job) job)
          = .ok computed ∧ a.finish.cancelled = false := by
  rw [outputs, bind_eq_ok_iff]
  constructor
  · rintro ⟨_, start, made⟩
    obtain ⟨found, each, made⟩ := bind_eq_ok_iff.mp made
    obtain ⟨_, finish, given⟩ := bind_eq_ok_iff.mp made
    cases given
    exact ⟨checkpoint_eq_ok_iff.mp start, each, checkpoint_eq_ok_iff.mp finish⟩
  · rintro ⟨start, each, finish⟩
    refine ⟨(), checkpoint_eq_ok_iff.mpr start, ?_⟩
    refine bind_eq_ok_iff.mpr ⟨computed, each, ?_⟩
    exact bind_eq_ok_iff.mpr ⟨(), checkpoint_eq_ok_iff.mpr finish, rfl⟩

/-- The outputs of an attempt are those of the batch of its requests. -/
theorem outputs_eq_serve (a : Attempt) (session : Session) :
    a.outputs session = session.cache.serve a.batch := by
  refine eq_of_ok_iff fun computed => ?_
  have given : a.batch.abandoned = none ↔ a.Proceeds := by
    rw [batch]
    by_cases proceeds : a.Proceeds
    · simp [proceeds]
    · simp [proceeds]
  have each : (a.pass.jobs.mapM fun job => session.compute a.pass.project (a.during job) job)
        = .ok computed ↔
      (∀ job ∈ a.pass.jobs, a.Begins job) ∧
        List.Forall₂ (Answers session.cache) a.batch.requests computed := by
    rw [batch, mapM_eq_ok_iff, List.forall₂_map_left_iff, ← List.forall₂_and_left]
    simp only [compute_eq_ok_iff]
  rw [outputs_eq_ok_iff, each, serve_eq_ok_iff, given, Proceeds]
  constructor
  · rintro ⟨start, ⟨begin, answers⟩, finish⟩
    exact ⟨⟨start, begin, finish⟩, answers⟩
  · rintro ⟨⟨start, begin, finish⟩, answers⟩
    exact ⟨start, ⟨begin, answers⟩, finish⟩

end Attempt

namespace Session

/-- An attempt at a pass, and the session after it. -/
def attempt (session : Session) (a : Attempt) : Except Cancelled (PassResult × Session) := do
  let computed ← a.outputs session
  let cache := session.cache.commit computed
  return (gather a.pass.index (computed.map (·.value)) cache.last, ⟨cache⟩)

/-- A run of a session is an attempt whose token stays as it is. -/
theorem run_eq_attempt (session : Session) (p : Pass) (token : Token) :
    session.run p.host p.inputs token = session.attempt (.steady p token) := by
  obtain ⟨cancelled⟩ := token
  cases cancelled with
  | true => rfl
  | false =>
    show (p.jobs.mapM (session.compute p.project ⟨false⟩) >>= _)
      = (p.jobs.mapM (session.compute p.project ⟨false⟩) >>= _) >>= _
    cases p.jobs.mapM (session.compute p.project ⟨false⟩) with
    | error e => rfl
    | ok computed => rfl

/-- The session after some attempts, the last one first. -/
def after : List Attempt → Session
  | [] => {}
  | a :: earlier =>
    match (after earlier).attempt a with
    | .ok (_, next) => next
    | .error _ => after earlier

theorem attempt_eq_ok_iff {session next : Session} {a : Attempt} {result : PassResult} :
    session.attempt a = .ok (result, next) ↔
      ∃ computed, session.cache.serve a.batch = .ok computed ∧
        result = gather a.pass.index (computed.map (·.value)) (session.cache.commit computed).last ∧
        next = ⟨session.cache.commit computed⟩ := by
  rw [attempt, bind_eq_ok_iff, a.outputs_eq_serve]
  refine exists_congr fun computed => and_congr_right fun _ => ?_
  constructor
  · intro made
    cases made
    exact ⟨rfl, rfl⟩
  · rintro ⟨rfl, rfl⟩
    rfl

/-- The cache of a session after a history is that of a cache after the batches. -/
theorem cache_after (history : List Attempt) :
    (after history).cache = CacheGate.after (history.map (·.batch)) := by
  induction history with
  | nil => rfl
  | cons a earlier ih =>
    rw [after, attempt, a.outputs_eq_serve, ih, List.map_cons, CacheGate.after]
    cases (CacheGate.after (earlier.map (·.batch))).serve a.batch with
    | error e => exact ih
    | ok computed => rfl

/-! ### Balance -/

/-- The balance of a pass that a session commits after earlier attempts, the last one first. -/
structure Balanced (earlier : List Attempt) (a : Attempt) (result : PassResult) (next : Session)
    (computed : List (Computed Job Fingerprint Output)) : Prop where
  /-- Each job has its result, under its fingerprint. -/
  jobs : computed.map (fun c => (c.key, c.fingerprint))
    = a.pass.jobs.map fun job => (job, a.pass.fingerprint job)
  gives : result = gather a.pass.index (computed.map (·.value)) next.cache.last
  /-- The session remembers the results and nothing else. -/
  entries : next.cache.entries = computed.map (·.entry)
  units : result.stats.hits + result.stats.misses = a.pass.jobs.length
  size : next.size = a.pass.jobs.length
  turnover : result.stats.hits + result.stats.swept = (after earlier).size
  /-- Hits are the jobs that the last committed pass had with the same fingerprint. -/
  hit_iff : ∀ c ∈ computed, c.hit = true ↔
    ∃ value, (c.key, c.fingerprint, value) ∈ (after earlier).cache.entries
  /-- The output of a hit is the one that was stored. -/
  served : ∀ c ∈ computed, c.hit = true → c.entry ∈ (after earlier).cache.entries

/-- What is to be said of an attempt after earlier ones. -/
structure Accounted (earlier : List Attempt) (a : Attempt) : Prop where
  /-- An attempt that is not cancelled on the way gives a result. -/
  live : a = .steady a.pass .live → ∃ result next, (after earlier).attempt a = .ok (result, next)
  /-- An attempt that gives a result is committed, and the pass is balanced. -/
  committed : ∀ result next, (after earlier).attempt a = .ok (result, next) →
    after (a :: earlier) = next ∧ ∃ computed, Balanced earlier a result next computed
  /-- An attempt without a result leaves the session as it was, its statistics included. -/
  cancelled : ∀ e, (after earlier).attempt a = .error e → after (a :: earlier) = after earlier
  /-- Run once more, the pass is served from the cache and gives the same. -/
  again : ∀ result next, (after earlier).attempt a = .ok (result, next) →
    ∃ result' next', next.run a.pass.host a.pass.inputs .live = .ok (result', next') ∧
      result'.files = result.files ∧ result'.diagnostics = result.diagnostics ∧
      result'.stats = ⟨a.pass.jobs.length, 0, 0⟩

variable {earlier : List Attempt} {a : Attempt}

theorem distinct_batches {history : List Attempt}
    (accepted : ∀ a ∈ history, ∃ limit model, Host.ofModel limit model = .ok a.pass.host) :
    ∀ b ∈ history.map (·.batch), b.Distinct := by
  intro b mem
  obtain ⟨a, there, rfl⟩ := List.mem_map.mp mem
  obtain ⟨limit, model, loaded⟩ := accepted a there
  rw [Batch.Distinct, Attempt.batch, List.map_map]
  show (a.pass.jobs.map id).Nodup
  rw [List.map_id]
  exact Pass.nodup_jobs loaded

theorem keys_eq_jobs {gate : CacheGate Job Fingerprint Output}
    {computed : List (Computed Job Fingerprint Output)}
    (answers : List.Forall₂ (Answers gate) a.batch.requests computed) :
    computed.map (fun c => (c.key, c.fingerprint))
      = a.pass.jobs.map fun job => (job, a.pass.fingerprint job) := by
  rw [Attempt.batch, List.forall₂_map_left_iff] at answers
  generalize a.pass.jobs = jobs at answers
  induction answers with
  | nil => rfl
  | cons answer _ ih =>
    rw [List.map_cons, List.map_cons, ih, answer.key, answer.fingerprint]
    rfl

/-- An attempt that gives a result is balanced. -/
theorem balanced_attempt
    (accepted : ∀ other ∈ a :: earlier, ∃ limit model,
      Host.ofModel limit model = .ok other.pass.host)
    {computed : List (Computed Job Fingerprint Output)}
    (served : (after earlier).cache.serve a.batch = .ok computed) :
    Balanced earlier a
      (gather a.pass.index (computed.map (·.value)) ((after earlier).cache.commit computed).last)
      ⟨(after earlier).cache.commit computed⟩ computed := by
  have distinct := distinct_batches accepted
  have older : (CacheGate.after (earlier.map (·.batch))).entries
      = (CacheGate.lastResults (earlier.map (·.batch))).map (·.entry) :=
    (CacheGate.entries_after fun b mem => distinct b (List.mem_cons_of_mem _ mem)).2
  have jobs : a.batch.requests.length = a.pass.jobs.length := List.length_map _
  rw [cache_after] at served
  have committed := CacheGate.after_committed served
  have balance : CacheGate.Balanced (earlier.map (·.batch)) a.batch computed :=
    CacheGate.balanced distinct served
  rw [← cache_after] at committed
  constructor
  case jobs => exact keys_eq_jobs balance.answers
  case gives => rfl
  case entries => exact committed ▸ balance.entries
  case units => exact committed ▸ jobs ▸ balance.requests
  case size => exact committed ▸ jobs ▸ balance.size
  case turnover =>
    have turnover := balance.turnover
    rw [committed, ← cache_after] at turnover
    exact turnover
  case hit_iff =>
    intro c mem
    rw [balance.hit_iff c mem, cache_after, older]
    constructor
    · rintro ⟨d, there, key, print⟩
      refine ⟨d.value, ?_⟩
      rw [← key, ← print]
      exact List.mem_map_of_mem there
    · rintro ⟨value, stored⟩
      obtain ⟨d, there, becomes⟩ := List.mem_map.mp stored
      exact ⟨d, there, congrArg Prod.fst becomes, congrArg (·.2.1) becomes⟩
  case served =>
    intro c mem hit
    rw [cache_after, older, List.mem_map]
    exact balance.served c mem hit

/-- With a live token, every cache serves the batch of a pass. -/
theorem serve_live (gate : CacheGate Job Fingerprint Output) (p : Pass) :
    ∃ computed, gate.serve (Attempt.steady p .live).batch = .ok computed := by
  have proceeds : (Attempt.steady p .live).Proceeds := ⟨rfl, fun job _ => ⟨_, p.fingerprint_ok job⟩, rfl⟩
  have going : (Attempt.steady p .live).batch.abandoned = none := if_pos proceeds
  rw [CacheGate.serve, going, Attempt.batch]
  dsimp only
  rw [List.mapM_map]
  exact ⟨_, mapM_ok p.jobs fun job _ =>
    CacheGate.getOrMaterialize_ok gate job (p.fingerprint job) _ (p.output_ok job)⟩

/-- A pass that is run once more is served from the cache. -/
theorem repeats_attempt
    (accepted : ∀ other ∈ a :: earlier, ∃ limit model,
      Host.ofModel limit model = .ok other.pass.host)
    {computed : List (Computed Job Fingerprint Output)}
    (served : (after earlier).cache.serve a.batch = .ok computed) :
    ∃ next,
      (⟨(after earlier).cache.commit computed⟩ : Session).run a.pass.host a.pass.inputs .live
        = .ok (gather a.pass.index (computed.map (·.value)) ⟨a.pass.jobs.length, 0, 0⟩, next) := by
  let again := Attempt.steady a.pass .live
  have proceeds : again.Proceeds := ⟨rfl, fun job _ => ⟨_, a.pass.fingerprint_ok job⟩, rfl⟩
  have alike : List.Forall₂ Alike a.batch.requests again.batch.requests := by
    rw [Attempt.batch, Attempt.batch, List.forall₂_map_left_iff, List.forall₂_map_right_iff]
    exact List.forall₂_same.mpr fun job _ => ⟨rfl, rfl⟩
  have jobs : again.batch.requests.length = a.pass.jobs.length := List.length_map _
  rw [cache_after] at served ⊢
  obtain ⟨hits, stats⟩ := CacheGate.repeats (distinct_batches accepted) served (if_pos proceeds) alike
  have committed := CacheGate.after_committed served
  rw [CacheGate.after_committed hits, committed, jobs] at stats
  rw [committed] at hits
  generalize (CacheGate.after (earlier.map (·.batch))).commit computed = cache at hits stats ⊢
  have run := attempt_eq_ok_iff.mpr ⟨_, hits, rfl, rfl⟩
  rw [stats, List.map_map] at run
  exact ⟨_, (run_eq_attempt ⟨cache⟩ a.pass .live).trans run⟩

theorem accounted
    (accepted : ∀ other ∈ a :: earlier, ∃ limit model,
      Host.ofModel limit model = .ok other.pass.host) : Accounted earlier a := by
  constructor
  case live =>
    intro steady
    rw [steady]
    obtain ⟨computed, served⟩ := serve_live (after earlier).cache a.pass
    exact ⟨_, _, attempt_eq_ok_iff.mpr ⟨computed, served, rfl, rfl⟩⟩
  case committed =>
    intro result next given
    obtain ⟨computed, served, rfl, rfl⟩ := attempt_eq_ok_iff.mp given
    refine ⟨?_, computed, balanced_attempt accepted served⟩
    rw [after, given]
  case cancelled =>
    intro e failed
    rw [after, failed]
  case again =>
    intro result next given
    obtain ⟨computed, served, rfl, rfl⟩ := attempt_eq_ok_iff.mp given
    obtain ⟨last, run⟩ := repeats_attempt accepted served
    exact ⟨_, last, run, rfl, rfl, rfl⟩

/-- Every batch of a history of a cache is accounted for, and so is every attempt of a history of a
session. -/
theorem history_accounted :
    (∀ (κ φ ε α : Type) [DecidableEq κ] [DecidableEq φ] (earlier : List (Batch κ φ ε α))
      (b : Batch κ φ ε α), (∀ other ∈ b :: earlier, other.Distinct) →
        CacheGate.Accounted earlier b) ∧
    ∀ (earlier : List Attempt) (a : Attempt),
      (∀ other ∈ a :: earlier, ∃ limit model, Host.ofModel limit model = .ok other.pass.host) →
        Accounted earlier a := by
  constructor
  · intro κ φ ε α _ _ earlier b distinct
    exact CacheGate.accounted distinct
  · intro earlier a accepted
    exact accounted accepted

/-- Requests for the sizes of some texts, each under its text and with its size as the fingerprint. -/
def sizesOf (texts : List String) : Batch String Nat Unit Nat :=
  ⟨texts.map fun text => ⟨text, text.length, fun _ => .ok text.length⟩, none⟩

/-- One of two sizes is asked for again, and so are two passes over a class inside of a generic one,
whose type parameter is renamed in between. -/
theorem history_accounted_nested :
    ((∀ other ∈ [sizesOf ["hp", "speed"], sizesOf ["hp", "name"]], other.Distinct) ∧
      CacheGate.Accounted [sizesOf ["hp", "name"]] (sizesOf ["hp", "speed"]) ∧
      (CacheGate.after [sizesOf ["hp", "speed"], sizesOf ["hp", "name"]]).last = ⟨1, 1, 1⟩) ∧
    (∀ other ∈ [Attempt.steady (nestedPass "U") .live, .steady (nestedPass "T") .live],
        ∃ limit model, Host.ofModel limit model = .ok other.pass.host) ∧
      Accounted [.steady (nestedPass "T") .live] (.steady (nestedPass "U") .live) := by
  have distinct : ∀ other ∈ [sizesOf ["hp", "speed"], sizesOf ["hp", "name"]], other.Distinct := by
    intro other mem
    rcases List.mem_cons.mp mem with rfl | last
    · exact (by decide : ["hp", "speed"].Nodup)
    · rw [List.mem_singleton.mp last]
      exact (by decide : ["hp", "name"].Nodup)
  have accepted : ∀ other ∈ [Attempt.steady (nestedPass "U") .live, .steady (nestedPass "T") .live],
      ∃ limit model, Host.ofModel limit model = .ok other.pass.host := by
    intro other mem
    rcases List.mem_cons.mp mem with rfl | last
    · exact ⟨_, _, nested_accepted "U"⟩
    · rw [List.mem_singleton.mp last]
      exact ⟨_, _, nested_accepted "T"⟩
  exact ⟨⟨distinct, history_accounted.1 _ _ _ _ _ _ distinct, by decide +kernel⟩, accepted,
    history_accounted.2 _ _ accepted⟩

end Session

end Marksmith

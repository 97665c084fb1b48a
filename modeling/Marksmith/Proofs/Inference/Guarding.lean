import Marksmith.Inference.Resolver

/-!
Resolving without a limit. A sibling assignment is resolved in turn, and so on; what ends this is
the guard: the targets on the way are remembered, and none of them is resolved for its own sake.
`Resolves` says what resolving an expression gives, call by call and without a limit on the depth;
it also lists the calls. A check of the token may see what `sees` admits, so that an operation may
be cancelled before, between or after any two names.

* `Resolves.orderly`: every call leaves the guard as it received it, however it ends; calls nest at
  most as deep as there are targets left to guard; no call infers a type from the assignment to a
  target that it received;
* `Resolves.run`, `exists_resolves`: the resolver with a limit computes what `Resolves` says, if the
  limit is more than the number of targets that are not guarded, and `Resolves` is total;
* `resolving_finishes`: both ways to resolve give what resolving without a limit gives.
-/

namespace Marksmith

open Syntax

/-- What every check of a token sees. -/
def Token.Shows (token : Token) (cancelled : Bool) : Prop :=
  token.cancelled = cancelled

namespace Resolver

variable {host : Host} {index : MarkerIndex}

/-! ### Resolving, call by call -/

/-- A call of the resolver: how deep it stands, the guarded targets that it received and those that
it left, and the inferences that it made. -/
structure Call where
  depth : Nat
  received : List String
  left : List String
  made : List Inference

/-- The names of an expression that refer to nothing. -/
def unbound (host : Host) (site : Site) (e : Expr) : List NameUse :=
  e.names.filter fun use => !isBound (host.nameReferents site e) use

/-- The type and the strategy of a member that is only about to be generated. -/
def generated? (host : Host) (index : MarkerIndex) (site : Site)
    (referents : List (Span × Referent)) (use : NameUse) : Option (TypeRef × Strategy) :=
  (accessedType? host site referents use).bind (pattern? index use.ident)

/-- The type of a sibling's value. That it has none is no error, but a cancellation is. -/
def typeOf : Except ResolveError Resolution → Except ResolveError (Option TypeRef)
  | .ok resolution => .ok (some resolution.type)
  | .error (.undetermined _) => .ok none
  | .error .cancelled => .error .cancelled

/-- A use is the owner's own name that no member of its type is to be generated for. -/
structure IsOwnUse (host : Host) (index : MarkerIndex) (site : Site)
    (referents : List (Span × Referent)) (use : NameUse) (owner : TypeDecl) : Prop where
  missing : generated? host index site referents use = none
  declared : host.declaration? site.owner = some owner
  own : isOwnMember use = true

section

variable (host : Host) (index : MarkerIndex) (sees : Bool → Prop)

mutual

/-- What resolving an expression gives at a depth and under a guard, with the guard that is left and
the calls from this one on. -/
inductive Resolves : Nat → List String → Site → Expr → Except ResolveError Resolution →
    List String → List Call → Prop
  | cancelled {depth guarded site e} (seen : sees true) :
      Resolves depth guarded site e (.error .cancelled) guarded [⟨depth, guarded, guarded, []⟩]
  | direct {depth guarded site e resolution} (live : sees false)
      (answered : direct? host site e = some resolution) :
      Resolves depth guarded site e (.ok resolution) guarded [⟨depth, guarded, guarded, []⟩]
  | inferred {depth guarded site e outcome left made calls} (live : sees false)
      (unanswered : direct? host site e = none)
      (tries : Tries depth guarded site e [] (unbound host site e) outcome left made calls) :
      Resolves depth guarded site e outcome left (⟨depth, guarded, left, made⟩ :: calls)

/-- What trying names from the left gives, behind the inferences that have been collected: with the
guard that is left, the inferences made and the calls for them. -/
inductive Tries : Nat → List String → Site → Expr → List Inference → List NameUse →
    Except ResolveError Resolution → List String → List Inference → List Call → Prop
  | together {depth guarded site e first second others t}
      (fits : rebind? host site e (first :: second :: others) = some t) :
      Tries depth guarded site e (first :: second :: others) []
        (.ok ⟨t, first.strategy, first :: second :: others⟩) guarded [] []
  | exhausted {depth guarded site e collected}
      (unfit : 1 < collected.length → rebind? host site e collected = none) :
      Tries depth guarded site e collected [] (.error (.undetermined e.text)) guarded [] []
  | interrupted {depth guarded site e collected use uses} (seen : sees true) :
      Tries depth guarded site e collected (use :: uses) (.error .cancelled) guarded [] []
  | failed {depth guarded site e collected use uses error left calls} (live : sees false)
      (infers :
        Infers depth guarded site (host.nameReferents site e) use (.error error) left calls) :
      Tries depth guarded site e collected (use :: uses) (.error error) left [] calls
  | skipped {depth guarded site e collected use uses outcome between left made calls others}
      (live : sees false)
      (infers : Infers depth guarded site (host.nameReferents site e) use (.ok none) between calls)
      (tries : Tries depth between site e collected uses outcome left made others) :
      Tries depth guarded site e collected (use :: uses) outcome left made (calls ++ others)
  | decided {depth guarded site e collected use uses i t left calls} (live : sees false)
      (infers : Infers depth guarded site (host.nameReferents site e) use (.ok (some i)) left calls)
      (fits : rebind? host site e [i] = some t) :
      Tries depth guarded site e collected (use :: uses) (.ok ⟨t, i.strategy, [i]⟩) left [i] calls
  | collected {depth guarded site e collected use uses i outcome between left made calls others}
      (live : sees false)
      (infers :
        Infers depth guarded site (host.nameReferents site e) use (.ok (some i)) between calls)
      (unfit : rebind? host site e [i] = none)
      (tries : Tries depth between site e (collected ++ [i]) uses outcome left made others) :
      Tries depth guarded site e collected (use :: uses) outcome left (i :: made) (calls ++ others)

/-- What inferring a type for a name gives, with the guard that is left and the calls for it. -/
inductive Infers : Nat → List String → Site → List (Span × Referent) → NameUse →
    Except ResolveError (Option Inference) → List String → List Call → Prop
  | pattern {depth guarded site referents use t strategy}
      (found : generated? host index site referents use = some (t, strategy)) :
      Infers depth guarded site referents use
        (.ok (some ⟨use.ident, castSpan use, t, strategy⟩)) guarded []
  | foreign {depth guarded site referents use}
      (missing : generated? host index site referents use = none)
      (foreign : ∀ owner, ¬ IsOwnUse host index site referents use owner) :
      Infers depth guarded site referents use (.ok none) guarded []
  | guarded {depth guarded site referents use owner}
      (own : IsOwnUse host index site referents use owner) (mem : use.ident ∈ guarded) :
      Infers depth guarded site referents use (.ok none) guarded []
  | unassigned {depth guarded site referents use owner}
      (own : IsOwnUse host index site referents use owner) (free : use.ident ∉ guarded)
      (unassigned : sibling? site.owner owner use.ident = none) :
      Infers depth guarded site referents use (.ok none) guarded []
  | sibling {depth guarded site referents use owner next value outcome left calls}
      (own : IsOwnUse host index site referents use owner) (free : use.ident ∉ guarded)
      (assigned : sibling? site.owner owner use.ident = some (next, value))
      (resolves : Resolves (depth + 1) (use.ident :: guarded) next value outcome left calls) :
      Infers depth guarded site referents use
        ((typeOf outcome).map (·.map fun t => ⟨use.ident, castSpan use, t, .siblingAssignment⟩))
        (left.erase use.ident) calls

end

end

/-! ### Targets that are left to guard -/

/-- The number of targets that are not guarded. -/
def freeTargets (host : Host) (site : Site) (guarded : List String) : Nat :=
  (targets host site).countP fun target => target ∉ guarded

theorem freeTargets_le (host : Host) (site : Site) (guarded : List String) :
    freeTargets host site guarded ≤ (targets host site).length :=
  List.countP_le_length

/-- A sibling belongs to the owner, and the name is one of its targets. -/
theorem mem_targets_of_sibling? {site next : Site} {owner : TypeDecl} {ident : String}
    {value : Expr}
    (declared : host.declaration? site.owner = some owner)
    (assigned : sibling? site.owner owner ident = some (next, value)) :
    next.owner = site.owner ∧ ident ∈ targets host site := by
  obtain ⟨entry, found, pair⟩ := Option.map_eq_some_iff.mp assigned
  have same : entry.2.2.1.node = ident := by simpa using List.find?_some found
  refine ⟨(congrArg (fun p => p.1.owner) pair).symm, ?_⟩
  rw [targets, declared, List.mem_eraseDups, List.mem_map]
  exact ⟨entry, List.mem_of_find?_eq_some found, same⟩

theorem targets_congr {site next : Site} (same : next.owner = site.owner) :
    targets host next = targets host site := by
  rw [targets, targets, same]

/-- To guard one more target leaves fewer of them. -/
theorem freeTargets_guard {site next : Site} {guarded : List String} {ident : String}
    (same : next.owner = site.owner) (mem : ident ∈ targets host site) (free : ident ∉ guarded) :
    freeTargets host next (ident :: guarded) < freeTargets host site guarded := by
  rw [freeTargets, freeTargets, targets_congr same, List.countP_eq_length_filter,
    List.countP_eq_length_filter]
  have part : (targets host site).filter (fun target => target ∉ ident :: guarded)
      = ((targets host site).filter fun target => target ∉ guarded).filter (· ≠ ident) := by
    rw [List.filter_filter]
    exact List.filter_congr fun target _ => by simp
  rw [part]
  exact List.length_filter_lt_length_iff_exists.mpr ⟨ident, by simpa using ⟨mem, free⟩, by simp⟩

/-! ### Calls keep to the guard -/

/-- What is promised of a call below one that received `guarded`: it leaves what it received, it
stands at most so deep, it received no less, and it infers no type from the assignment to a target
that it received. -/
structure Call.Orderly (guarded : List String) (deepest : Nat) (c : Call) : Prop where
  restored : c.left = c.received
  depth_le : c.depth ≤ deepest
  kept : guarded ⊆ c.received
  unguarded : ∀ i ∈ c.made, i.strategy = .siblingAssignment → i.ident ∉ c.received

theorem Call.Orderly.mono {guarded more : List String} {deepest deeper : Nat} {c : Call}
    (orderly : c.Orderly more deepest) (sub : guarded ⊆ more) (le : deepest ≤ deeper) :
    c.Orderly guarded deeper :=
  { orderly with
    depth_le := Nat.le_trans orderly.depth_le le
    kept := List.Subset.trans sub orderly.kept }

theorem strategy_of_generated? {site : Site} {referents : List (Span × Referent)} {use : NameUse}
    {t : TypeRef} {strategy : Strategy}
    (found : generated? host index site referents use = some (t, strategy)) :
    strategy ≠ .siblingAssignment := by
  obtain ⟨accessed, -, found⟩ := Option.bind_eq_some_iff.mp found
  rw [pattern?] at found
  split at found
  · cases found
    nofun
  · split at found <;> cases found
    nofun

/-- An inference from a sibling is for the name that it was made for. -/
theorem ident_of_map_typeOf {outcome : Except ResolveError Resolution} {ident : String}
    {span : Span} {i : Inference}
    (made : (typeOf outcome).map (·.map fun t => ⟨ident, span, t, .siblingAssignment⟩)
      = .ok (some i)) :
    i.ident = ident := by
  cases typed : typeOf outcome with
  | error x => rw [typed] at made; cases made
  | ok type? =>
    rw [typed] at made
    obtain ⟨t, -, rfl⟩ := Option.map_eq_some_iff.mp (Except.ok.inj made)
    rfl

variable {sees : Bool → Prop}

mutual

theorem Resolves.orderly {depth : Nat} {guarded left : List String} {site : Site} {e : Expr}
    {outcome : Except ResolveError Resolution} {calls : List Call} :
    Resolves host index sees depth guarded site e outcome left calls →
    left = guarded ∧ ∀ c ∈ calls, c.Orderly guarded (depth + freeTargets host site guarded)
  | .cancelled _ | .direct _ _ =>
    ⟨rfl, List.forall_mem_singleton.mpr ⟨rfl, Nat.le_add_right .., List.Subset.refl _, nofun⟩⟩
  | .inferred _ _ tries => by
    obtain ⟨rfl, unguarded, orderly⟩ := tries.orderly
    exact ⟨rfl, List.forall_mem_cons.mpr
      ⟨⟨rfl, Nat.le_add_right .., List.Subset.refl _, unguarded⟩, orderly⟩⟩

theorem Tries.orderly {depth : Nat} {guarded left : List String} {site : Site} {e : Expr}
    {collected made : List Inference} {uses : List NameUse}
    {outcome : Except ResolveError Resolution} {calls : List Call} :
    Tries host index sees depth guarded site e collected uses outcome left made calls →
    left = guarded ∧
      (∀ i ∈ made, i.strategy = .siblingAssignment → i.ident ∉ guarded) ∧
      ∀ c ∈ calls, c.Orderly guarded (depth + freeTargets host site guarded)
  | .together _ | .exhausted _ | .interrupted _ => ⟨rfl, nofun, nofun⟩
  | .failed _ infers => by
    obtain ⟨rfl, -, orderly⟩ := infers.orderly
    exact ⟨rfl, nofun, orderly⟩
  | .skipped _ infers tries => by
    obtain ⟨rfl, -, first⟩ := infers.orderly
    obtain ⟨rfl, unguarded, others⟩ := tries.orderly
    exact ⟨rfl, unguarded, List.forall_mem_append.mpr ⟨first, others⟩⟩
  | .decided _ infers _ => by
    obtain ⟨rfl, unguarded, orderly⟩ := infers.orderly
    exact ⟨rfl, List.forall_mem_singleton.mpr (unguarded _ rfl), orderly⟩
  | .collected _ infers _ tries => by
    obtain ⟨rfl, own, first⟩ := infers.orderly
    obtain ⟨rfl, unguarded, others⟩ := tries.orderly
    exact ⟨rfl, List.forall_mem_cons.mpr ⟨own _ rfl, unguarded⟩,
      List.forall_mem_append.mpr ⟨first, others⟩⟩

theorem Infers.orderly {depth : Nat} {guarded left : List String} {site : Site}
    {referents : List (Span × Referent)} {use : NameUse}
    {outcome : Except ResolveError (Option Inference)} {calls : List Call} :
    Infers host index sees depth guarded site referents use outcome left calls →
    left = guarded ∧
      (∀ i, outcome = .ok (some i) → i.strategy = .siblingAssignment → i.ident ∉ guarded) ∧
      ∀ c ∈ calls, c.Orderly guarded (depth + freeTargets host site guarded)
  | .pattern found => by
    refine ⟨rfl, ?_, nofun⟩
    rintro _ ⟨⟩ sibling
    exact absurd sibling (strategy_of_generated? found)
  | .foreign _ _ | .guarded _ _ | .unassigned _ _ _ => ⟨rfl, nofun, nofun⟩
  | .sibling own free assigned resolves => by
    obtain ⟨rfl, orderly⟩ := resolves.orderly
    obtain ⟨same, mem⟩ := mem_targets_of_sibling? own.declared assigned
    have fewer := freeTargets_guard same mem free
    refine ⟨List.erase_cons_head .., fun i made _ => ?_, fun c mem => ?_⟩
    · rw [ident_of_map_typeOf made]
      exact free
    · exact (orderly c mem).mono (List.subset_cons_self ..) (by omega)

end

/-! ### Runs under a guard -/

section

variable {α β : Type} {guarded left : List String}

theorem run_pure (a : α) : (pure a : Resolve α).run.run guarded = (.ok a, guarded) := rfl

theorem run_bind_ok {r : Resolve α} {next : α → Resolve β} {a : α}
    (run : r.run.run guarded = (.ok a, left)) :
    (r >>= next).run.run guarded = (next a).run.run left := by
  change (ExceptT.bindCont next (r.run.run guarded).1).run (r.run.run guarded).2 = _
  rw [run]
  rfl

theorem run_bind_error {r : Resolve α} {next : α → Resolve β} {error : ResolveError}
    (run : r.run.run guarded = (.error error, left)) :
    (r >>= next).run.run guarded = (.error error, left) := by
  change (ExceptT.bindCont next (r.run.run guarded).1).run (r.run.run guarded).2 = _
  rw [run]
  rfl

theorem run_siblingType {r : Resolve Resolution} {outcome : Except ResolveError Resolution}
    (run : r.run.run guarded = (outcome, left)) :
    (siblingType r).run.run guarded = (typeOf outcome, left) := by
  simp only [siblingType, ExceptT.run_mk, StateT.run_bind, run]
  rcases outcome with (_ | _) | _ <;> rfl

theorem run_guarding_mem {ident : String} {r : Resolve (Option TypeRef)} (mem : ident ∈ guarded) :
    (guarding ident r).run.run guarded = (.ok none, guarded) := by
  simp only [guarding, ExceptT.run_mk, StateT.run_bind, StateT.run_get, pure_bind,
    List.contains_iff_mem.mpr mem, if_true]
  rfl

theorem run_guarding {ident : String} {r : Resolve (Option TypeRef)}
    {outcome : Except ResolveError (Option TypeRef)} (free : ident ∉ guarded)
    (run : r.run.run (ident :: guarded) = (outcome, left)) :
    (guarding ident r).run.run guarded = (outcome, left.erase ident) := by
  have free : guarded.contains ident = false := by simpa using free
  have inner : (guarding ident r).run.run guarded
      = (fun p : _ × List String => (p.1, p.2.erase ident)) (r.run.run (ident :: guarded)) := by
    simp only [guarding, ExceptT.run_mk, StateT.run_bind, StateT.run_get, pure_bind, free]
    rfl
  rw [inner, run]

end

/-! ### Runs of the steps -/

section

variable {resolve : Site → Expr → Resolve Resolution} {site : Site} {guarded left : List String}
  {referents : List (Span × Referent)} {use : NameUse} {owner : TypeDecl}

theorem run_infer_pattern {t : TypeRef} {strategy : Strategy}
    (found : generated? host index site referents use = some (t, strategy)) :
    (infer host index resolve site referents use).run.run guarded
      = (.ok (some ⟨use.ident, castSpan use, t, strategy⟩), guarded) := by
  rw [generated?] at found
  rw [infer, found]
  rfl

theorem run_infer_foreign (missing : generated? host index site referents use = none)
    (foreign : ∀ owner, ¬ IsOwnUse host index site referents use owner) :
    (infer host index resolve site referents use).run.run guarded = (.ok none, guarded) := by
  have missing' := missing
  rw [generated?] at missing'
  rw [infer, missing']
  cases declared : host.declaration? site.owner with
  | none => rfl
  | some owner =>
    have other : isOwnMember use ≠ true := fun own => foreign owner ⟨missing, declared, own⟩
    simp only [if_neg other]
    rfl

theorem run_infer_guarded (own : IsOwnUse host index site referents use owner)
    (mem : use.ident ∈ guarded) :
    (infer host index resolve site referents use).run.run guarded = (.ok none, guarded) := by
  have missing := own.missing
  rw [generated?] at missing
  simp only [infer, missing, own.declared, own.own, if_true]
  exact run_bind_ok (run_guarding_mem mem)

theorem run_infer_unassigned (own : IsOwnUse host index site referents use owner)
    (free : use.ident ∉ guarded) (unassigned : sibling? site.owner owner use.ident = none) :
    (infer host index resolve site referents use).run.run guarded = (.ok none, guarded) := by
  have missing := own.missing
  rw [generated?] at missing
  simp only [infer, missing, own.declared, own.own, if_true, unassigned]
  rw [run_bind_ok (run_guarding free (run_pure none)), List.erase_cons_head]
  rfl

theorem run_infer_sibling {next : Site} {value : Expr}
    {outcome : Except ResolveError Resolution}
    (own : IsOwnUse host index site referents use owner) (free : use.ident ∉ guarded)
    (assigned : sibling? site.owner owner use.ident = some (next, value))
    (run : (resolve next value).run.run (use.ident :: guarded) = (outcome, left)) :
    (infer host index resolve site referents use).run.run guarded
      = ((typeOf outcome).map (·.map fun t => ⟨use.ident, castSpan use, t, .siblingAssignment⟩),
        left.erase use.ident) := by
  have missing := own.missing
  rw [generated?] at missing
  simp only [infer, missing, own.declared, own.own, if_true, assigned]
  have guardedRun := run_guarding free (run_siblingType run)
  cases typed : typeOf outcome with
  | error x => rw [typed] at guardedRun; exact run_bind_error guardedRun
  | ok type? => rw [typed] at guardedRun; exact run_bind_ok guardedRun

variable {e : Expr} {collected : List Inference} {uses : List NameUse}

theorem run_tryNames_together {first second : Inference} {others : List Inference} {t : TypeRef}
    (fits : rebind? host site e (first :: second :: others) = some t) :
    (tryNames host index resolve site e referents (first :: second :: others) []).run.run guarded
      = (.ok ⟨t, first.strategy, first :: second :: others⟩, guarded) := by
  rw [tryNames, fits]
  rfl

theorem run_tryNames_exhausted
    (unfit : 1 < collected.length → rebind? host site e collected = none) :
    (tryNames host index resolve site e referents collected []).run.run guarded
      = (.error (.undetermined e.text), guarded) := by
  rcases collected with _ | ⟨first, _ | ⟨second, others⟩⟩
  · rfl
  · rfl
  · rw [tryNames, unfit (by simp)]
    rfl

theorem run_tryNames_failed {error : ResolveError}
    (run : (infer host index resolve site referents use).run.run guarded = (.error error, left)) :
    (tryNames host index resolve site e referents collected (use :: uses)).run.run guarded
      = (.error error, left) := by
  rw [tryNames]
  exact run_bind_error run

theorem run_tryNames_skipped
    (run : (infer host index resolve site referents use).run.run guarded = (.ok none, left)) :
    (tryNames host index resolve site e referents collected (use :: uses)).run.run guarded
      = (tryNames host index resolve site e referents collected uses).run.run left := by
  rw [tryNames]
  exact run_bind_ok run

theorem run_tryNames_decided {i : Inference} {t : TypeRef}
    (run : (infer host index resolve site referents use).run.run guarded = (.ok (some i), left))
    (fits : rebind? host site e [i] = some t) :
    (tryNames host index resolve site e referents collected (use :: uses)).run.run guarded
      = (.ok ⟨t, i.strategy, [i]⟩, left) := by
  rw [tryNames, run_bind_ok run]
  simp only [fits]
  rfl

theorem run_tryNames_collected {i : Inference}
    (run : (infer host index resolve site referents use).run.run guarded = (.ok (some i), left))
    (unfit : rebind? host site e [i] = none) :
    (tryNames host index resolve site e referents collected (use :: uses)).run.run guarded
      = (tryNames host index resolve site e referents (collected ++ [i]) uses).run.run left := by
  rw [tryNames, run_bind_ok run]
  simp only [unfit]

end

/-! ### The limit is never reached -/

section

variable {token : Token}

mutual

/-- The resolver computes what resolving without a limit gives, if its limit is more than the
number of targets that are not guarded. -/
theorem Resolves.run {depth limit : Nat} {guarded left : List String} {site : Site} {e : Expr}
    {outcome : Except ResolveError Resolution} {calls : List Call} :
    Resolves host index token.Shows depth guarded site e outcome left calls →
    freeTargets host site guarded < limit + 1 →
    (resolveWithin host index token (limit + 1) site e).run.run guarded = (outcome, left)
  | .cancelled seen, _ => by
    rw [resolveWithin, if_pos (show token.cancelled = true from seen)]
    rfl
  | .direct live answered, _ => by
    rw [resolveWithin, if_neg (Bool.eq_false_iff.mp live), answered]
    rfl
  | .inferred live unanswered tries, room => by
    rw [resolveWithin, if_neg (Bool.eq_false_iff.mp live), unanswered]
    exact tries.run live (Nat.le_of_lt_succ room)

theorem Tries.run {depth limit : Nat} {guarded left : List String} {site : Site} {e : Expr}
    {collected made : List Inference} {uses : List NameUse}
    {outcome : Except ResolveError Resolution} {calls : List Call} :
    Tries host index token.Shows depth guarded site e collected uses outcome left made
      calls →
    token.cancelled = false → freeTargets host site guarded ≤ limit →
    (tryNames host index (resolveWithin host index token limit) site e (host.nameReferents site e)
      collected uses).run.run guarded = (outcome, left)
  | .together fits, _, _ => run_tryNames_together fits
  | .exhausted unfit, _, _ => run_tryNames_exhausted unfit
  | .interrupted seen, live, _ => absurd (live.symm.trans seen) nofun
  | .failed _ infers, _, room => run_tryNames_failed (infers.run room)
  | .skipped _ infers tries, live, room =>
    (run_tryNames_skipped (infers.run room)).trans (tries.run live (infers.orderly.1 ▸ room))
  | .decided _ infers fits, _, room => run_tryNames_decided (infers.run room) fits
  | .collected _ infers unfit tries, live, room =>
    (run_tryNames_collected (infers.run room) unfit).trans
      (tries.run live (infers.orderly.1 ▸ room))

theorem Infers.run {depth limit : Nat} {guarded left : List String} {site : Site}
    {referents : List (Span × Referent)} {use : NameUse}
    {outcome : Except ResolveError (Option Inference)} {calls : List Call} :
    Infers host index token.Shows depth guarded site referents use outcome left calls →
    freeTargets host site guarded ≤ limit →
    (infer host index (resolveWithin host index token limit) site referents use).run.run guarded
      = (outcome, left)
  | .pattern found, _ => run_infer_pattern found
  | .foreign missing foreign, _ => run_infer_foreign missing foreign
  | .guarded own mem, _ => run_infer_guarded own mem
  | .unassigned own free unassigned, _ => run_infer_unassigned own free unassigned
  | .sibling own free assigned resolves, room => by
    obtain ⟨same, mem⟩ := mem_targets_of_sibling? own.declared assigned
    have fewer := freeTargets_guard same mem free
    cases limit with
    | zero => omega
    | succ limit => exact run_infer_sibling own free assigned (resolves.run (by omega))

end

end

/-! ### Resolving ends -/

section

variable {sees : Bool → Prop}

/-- What resolving siblings under more targets gives is all that inferring a type needs. -/
theorem exists_infers {depth : Nat} {guarded : List String} {site : Site}
    (deeper : ∀ next value ident,
      freeTargets host next (ident :: guarded) < freeTargets host site guarded →
      ∃ outcome left calls,
        Resolves host index sees (depth + 1) (ident :: guarded) next value outcome left calls)
    (referents : List (Span × Referent)) (use : NameUse) :
    ∃ outcome left calls,
      Infers host index sees depth guarded site referents use outcome left calls := by
  cases found : generated? host index site referents use with
  | some p => exact ⟨_, _, _, .pattern found⟩
  | none =>
    by_cases owned : ∃ owner, IsOwnUse host index site referents use owner
    · obtain ⟨owner, own⟩ := owned
      by_cases mem : use.ident ∈ guarded
      · exact ⟨_, _, _, .guarded own mem⟩
      cases assigned : sibling? site.owner owner use.ident with
      | none => exact ⟨_, _, _, .unassigned own mem assigned⟩
      | some p =>
        obtain ⟨same, target⟩ := mem_targets_of_sibling? own.declared assigned
        obtain ⟨outcome, left, calls, resolves⟩ :=
          deeper p.1 p.2 use.ident (freeTargets_guard same target mem)
        exact ⟨_, _, _, .sibling own mem assigned resolves⟩
    · exact ⟨_, _, _, .foreign found (not_exists.mp owned)⟩

theorem exists_tries {depth : Nat} {guarded : List String} {site : Site} {e : Expr}
    (live : sees false)
    (infers : ∀ use, ∃ outcome left calls,
      Infers host index sees depth guarded site (host.nameReferents site e) use outcome left calls)
    (collected : List Inference) (uses : List NameUse) :
    ∃ outcome left made calls,
      Tries host index sees depth guarded site e collected uses outcome left made calls := by
  induction uses generalizing collected with
  | nil =>
    cases fits : rebind? host site e collected with
    | none => exact ⟨_, _, _, _, .exhausted fun _ => fits⟩
    | some t =>
      rcases collected with _ | ⟨first, _ | ⟨second, others⟩⟩
      · exact ⟨_, _, _, _, .exhausted (by simp)⟩
      · exact ⟨_, _, _, _, .exhausted (by simp)⟩
      · exact ⟨_, _, _, _, .together fits⟩
  | cons use uses ih =>
    obtain ⟨outcome, left, calls, infers⟩ := infers use
    obtain ⟨rfl, -⟩ := infers.orderly
    rcases outcome with error | _ | i
    · exact ⟨_, _, _, _, .failed live infers⟩
    · obtain ⟨outcome, left, made, others, tries⟩ := ih collected
      exact ⟨_, _, _, _, .skipped live infers tries⟩
    · cases fits : rebind? host site e [i] with
      | some t => exact ⟨_, _, _, _, .decided live infers fits⟩
      | none =>
        obtain ⟨outcome, left, made, others, tries⟩ := ih (collected ++ [i])
        exact ⟨_, _, _, _, .collected live infers fits tries⟩

/-- Whatever is guarded, resolving ends. The induction is on the number of targets that are left to
guard. -/
theorem exists_resolves (looks : ∃ cancelled, sees cancelled) (depth : Nat) (guarded : List String)
    (site : Site) (e : Expr) :
    ∃ outcome left calls, Resolves host index sees depth guarded site e outcome left calls := by
  obtain ⟨_ | _, looks⟩ := looks
  case true => exact ⟨_, _, _, .cancelled looks⟩
  induction free : freeTargets host site guarded using Nat.strongRecOn
    generalizing depth guarded site e with
  | ind free ih =>
    subst free
    cases answered : direct? host site e with
    | some resolution => exact ⟨_, _, _, .direct looks answered⟩
    | none =>
      obtain ⟨outcome, left, made, calls, tries⟩ := exists_tries looks
        (exists_infers (fun next value ident fewer => ih _ fewer (depth + 1) _ next value rfl)
          (host.nameReferents site e)) [] (unbound host site e)
      exact ⟨_, _, _, .inferred looks answered tries⟩

end

/-! ### Both ways to resolve -/

theorem exists_resolves_iff {token : Token} {guarded : List String} {site : Site} {e : Expr}
    {outcome : Except ResolveError Resolution} :
    (∃ left calls, Resolves host index token.Shows 1 guarded site e outcome left calls)
      ↔ outcome
        = ((resolveWithin host index token ((targets host site).length + 1) site e).run.run
          guarded).1 := by
  have room : freeTargets host site guarded < (targets host site).length + 1 :=
    Nat.lt_succ_of_le (freeTargets_le host site guarded)
  constructor
  · rintro ⟨left, calls, resolves⟩
    rw [resolves.run room]
  · rintro rfl
    have looks : ∃ cancelled, token.Shows cancelled := ⟨_, rfl⟩
    obtain ⟨outcome, left, calls, resolves⟩ := exists_resolves looks 1 guarded site e
    rw [resolves.run room]
    exact ⟨left, calls, resolves⟩

/-- Resolving ends, restores its guard, nests at most one level deeper than there are targets, and
never infers the type of a target from its own assignment. -/
theorem resolving_finishes (host : Host) (index : MarkerIndex) (site : Site) (e : Expr) :
    (∀ token outcome,
      (∃ left calls, Resolves host index token.Shows 1 [] site e outcome left calls)
        ↔ outcome = resolve host index token site e) ∧
    (∀ token target outcome,
      (∃ left calls, Resolves host index token.Shows 1 [target] site e outcome left calls)
        ↔ outcome = resolveAssignment host index token site target e) ∧
    ∀ sees guarded outcome left calls,
      Resolves host index sees 1 guarded site e outcome left calls →
      left = guarded ∧ ∀ c ∈ calls,
        c.left = c.received ∧
        c.depth ≤ 1 + (targets host site).length ∧
        ∀ i ∈ c.made, i.strategy = .siblingAssignment → i.ident ∉ guarded := by
  refine ⟨fun token outcome => exists_resolves_iff, fun token target outcome => exists_resolves_iff,
    fun sees guarded outcome left calls resolves => ?_⟩
  obtain ⟨same, orderly⟩ := resolves.orderly
  refine ⟨same, fun c mem => ⟨(orderly c mem).restored, ?_, fun i made sibling listed => ?_⟩⟩
  · have few := freeTargets_le host site guarded
    exact Nat.le_trans (orderly c mem).depth_le (Nat.add_le_add_left few 1)
  · exact (orderly c mem).unguarded i made sibling ((orderly c mem).kept listed)

end Resolver

end Marksmith

import Marksmith.Inference.Resolver
import Marksmith.Proofs.Host.Declarations
import Marksmith.Proofs.Syntax.CastPlaces
import Marksmith.Proofs.Syntax.NameOrder

/-!
The inferences of a resolution are a certificate of its type.

* `AnsweredDirectly`, `Replayable`, `IsCertified`: what a resolution without inferences says, what
  one with inferences says, and both;
* `Placed.castSpans`: the spans that names are cast at end one behind the other;
* `FromNames.castable`: names of a placed expression can be cast, one after the other;
* `resolveWithinOr`: the resolver, with a computation that takes over where the target of a cast is
  missing; `resolveWithinOr_eq`: for expressions that were read from a text it is never asked for;
* `resolution_replays`: every resolution of such an expression is certified;
* `withCasts?_perm`: casts at distinct spans give the same tree in every order;
* `casts_commute`: two casts can be inserted in either order, so the type that binding finds does
  not depend on the order of the inferences.
-/

namespace Marksmith

open Syntax

/-! ### The names of an expression -/

namespace Syntax.Expr

theorem castSpan_of_ownUse? {n : Expr} {use : NameUse} (h : n.ownUse? = some use) :
    Resolver.castSpan use = n.span := by
  cases n <;> cases h <;> rfl

/-- A node is a name or a member access. -/
def IsNameOrMember (n : Expr) : Prop :=
  (∃ s x, n = .name s x) ∨ ∃ s target x, n = .member s target x

theorem isNameOrMember_of_ownUse? {n : Expr} {use : NameUse} (h : n.ownUse? = some use) :
    n.IsNameOrMember := by
  cases n with
  | name s x => exact .inl ⟨s, x, rfl⟩
  | member s target x => exact .inr ⟨s, target, x, rfl⟩
  | _ => cases h

theorem hasSpan_castSpan {e : Expr} {use : NameUse} (mem : use ∈ e.names) :
    e.HasSpan (Resolver.castSpan use) := by
  obtain ⟨n, node, own⟩ := exists_node_of_mem_names mem
  exact ⟨n, node, (castSpan_of_ownUse? own).symm⟩

/-- A name ends where the span ends that it is cast at. -/
theorem Placed.stop_castSpan {e : Expr} {use : NameUse} (placed : e.Placed)
    (mem : use ∈ e.names) : (Resolver.castSpan use).stop = use.span.stop := by
  obtain ⟨n, node, own⟩ := exists_node_of_mem_names mem
  cases n with
  | name s x =>
    cases own
    rfl
  | member s target x =>
    cases own
    exact ((placed _ node).named x rfl).2.2.symm
  | _ => cases own

/-- The spans that names are cast at end one behind the other. -/
theorem Placed.castSpans {e : Expr} (placed : e.Placed) :
    e.names.Pairwise fun a b => (Resolver.castSpan a).stop < (Resolver.castSpan b).stop := by
  refine placed.pairwise_names.imp_of_mem fun {a b} inA inB gap => ?_
  have room := (placed.names_within inB).1
  rw [placed.stop_castSpan inA, placed.stop_castSpan inB]
  omega

end Syntax.Expr

namespace Resolver

/-! ### Certificates -/

/-- An expression that was read from a text, on its own or as the value of a statement. -/
def IsParsed (e : Expr) : Prop :=
  (∃ text, parseExpr text = .ok e) ∨ ∃ text u, parseStatement text = .ok u ∧ u.value = e

theorem IsParsed.placed {e : Expr} (parsed : IsParsed e) : e.Placed := by
  rcases parsed with ⟨text, read⟩ | ⟨text, u, read, rfl⟩
  · exact placed_of_parseExpr read
  · exact placed_of_parseStatement read

section

variable (host : Host) (site : Site) (e : Expr)

/-- What the host says by itself, in the order in which it is asked. -/
def answers : List (Option TypeRef × Strategy) :=
  [(host.convertedType? site, .convertedType), (host.speculativeType? site e, .speculativeBinding),
    (host.operationType? site e, .operationType)]

/-- The type is the first answer of the host, and the strategy names it. -/
def AnsweredDirectly (r : Resolution) : Prop :=
  (answers host site e).findSome? (fun (answer, s) => answer.map fun t => (t, s))
    = some (r.type, r.strategy)

/-- The host has no answer, but it has one when the listed casts are put around names. -/
structure Replayable (r : Resolution) : Prop where
  unanswered : ∀ answer ∈ answers host site e, answer.1 = none
  strategy : r.inferences.head?.map (·.strategy) = some r.strategy
  targets : ∀ i ∈ r.inferences, ∃ n ∈ e.nodes, n.IsNameOrMember ∧ n.span = i.span
  ordered : r.inferences.Pairwise fun a b => a.span.stop < b.span.stop
  replays : ∃ e', withCasts? e r.inferences = some e' ∧ host.speculativeType? site e' = some r.type

/-- A resolution says how its type was found. -/
def IsCertified (r : Resolution) : Prop :=
  if r.inferences = [] then AnsweredDirectly host site e r else Replayable host site e r

end

variable {host : Host} {index : MarkerIndex} {site : Site} {e : Expr}

theorem direct?_certified {r : Resolution} (h : direct? host site e = some r) :
    IsCertified host site e r := by
  unfold direct? at h
  have none_listed : r.inferences = [] ∧ AnsweredDirectly host site e r := by
    unfold AnsweredDirectly answers
    rcases Option.or_eq_some_iff.mp h with found | ⟨none, h⟩
    · obtain ⟨t, converted, rfl⟩ := Option.map_eq_some_iff.mp found
      simp [converted]
    · rcases Option.or_eq_some_iff.mp h with found | ⟨none', found⟩
      · obtain ⟨t, bound, rfl⟩ := Option.map_eq_some_iff.mp found
        simp [Option.map_eq_none_iff.mp none, bound]
      · obtain ⟨t, operation, rfl⟩ := Option.map_eq_some_iff.mp found
        simp [Option.map_eq_none_iff.mp none, Option.map_eq_none_iff.mp none', operation]
  rw [IsCertified, if_pos none_listed.1]
  exact none_listed.2

theorem unanswered_of_direct? (h : direct? host site e = none) :
    ∀ answer ∈ answers host site e, answer.1 = none := by
  simpa [direct?, answers] using h

/-! ### Casts around names -/

/-- Inferences for names of the expression, from left to right. -/
def FromNames (e : Expr) (is : List Inference) : Prop :=
  (is.map (·.span)).Sublist (e.names.map castSpan)

namespace FromNames

variable {is : List Inference}

theorem exists_use (named : FromNames e is) {i : Inference} (mem : i ∈ is) :
    ∃ use ∈ e.names, castSpan use = i.span :=
  List.mem_map.mp (named.subset (List.mem_map_of_mem mem))

theorem targets (named : FromNames e is) :
    ∀ i ∈ is, ∃ n ∈ e.nodes, n.IsNameOrMember ∧ n.span = i.span := by
  intro i mem
  obtain ⟨use, mem, span⟩ := named.exists_use mem
  obtain ⟨n, node, own⟩ := Expr.exists_node_of_mem_names mem
  refine ⟨n, node, Expr.isNameOrMember_of_ownUse? own, ?_⟩
  rw [← span, Expr.castSpan_of_ownUse? own]

theorem ordered (placed : e.Placed) (named : FromNames e is) :
    is.Pairwise fun a b => a.span.stop < b.span.stop := by
  have spans : (e.names.map castSpan).Pairwise fun a b => a.stop < b.stop :=
    List.pairwise_map.mpr placed.castSpans
  have listed : (is.map (·.span)).Pairwise fun a b => a.stop < b.stop := spans.sublist named
  rw [List.pairwise_map] at listed
  exact listed

/-- All of them can be cast, one after the other. -/
theorem exists_withCasts? (nested : e.Nested) (has : ∀ i ∈ is, e.HasSpan i.span) :
    ∃ e', withCasts? e is = some e' := by
  induction is generalizing e with
  | nil => exact ⟨e, rfl⟩
  | cons i is ih =>
    obtain ⟨here, later⟩ := List.forall_mem_cons.mp has
    obtain ⟨cast, inserted, nested, kept⟩ := nested.insertCast? here i.type
    obtain ⟨e', whole⟩ := ih nested fun j mem => kept _ (later j mem)
    refine ⟨e', ?_⟩
    rw [withCasts?, inserted]
    exact whole

theorem castable (placed : e.Placed) (named : FromNames e is) :
    ∃ e', withCasts? e is = some e' := by
  refine exists_withCasts? placed.nested fun i mem => ?_
  obtain ⟨use, mem, span⟩ := named.exists_use mem
  exact span ▸ Expr.hasSpan_castSpan mem

end FromNames

/-- Inferences that were collected, and the names that are still to be tried behind them. -/
def Ahead (e : Expr) (collected : List Inference) (uses : List NameUse) : Prop :=
  (collected.map (·.span) ++ uses.map castSpan).Sublist (e.names.map castSpan)

namespace Ahead

variable {collected : List Inference} {use : NameUse} {uses : List NameUse} {i : Inference}

/-- Some of the names are to be tried, and nothing has been collected. -/
theorem filter (p : NameUse → Bool) : Ahead e [] (e.names.filter p) :=
  List.filter_sublist.map castSpan

theorem done (ahead : Ahead e collected []) : FromNames e collected := by
  rw [Ahead, List.map_nil, List.append_nil] at ahead
  exact ahead

theorem skip (ahead : Ahead e collected (use :: uses)) : Ahead e collected uses :=
  .trans (.append (.refl _) (List.sublist_cons_self ..)) ahead

theorem only (ahead : Ahead e collected (use :: uses)) (same : i.span = castSpan use) :
    FromNames e [i] := by
  refine .trans ?_ ahead
  rw [List.map_singleton, same, List.singleton_sublist]
  simp

theorem collect (ahead : Ahead e collected (use :: uses)) (same : i.span = castSpan use) :
    Ahead e (collected ++ [i]) uses := by
  rw [Ahead, List.map_append, List.map_singleton, same, List.append_assoc]
  exact ahead

end Ahead

/-- A type that is found with casts around names is certified by them. -/
theorem replayable_of_rebind? {is : List Inference} {t : TypeRef} {s : Strategy} (placed : e.Placed)
    (unanswered : ∀ answer ∈ answers host site e, answer.1 = none) (named : FromNames e is)
    (first : is.head?.map (·.strategy) = some s) (found : rebind? host site e is = some t) :
    IsCertified host site e ⟨t, s, is⟩ := by
  have some : is ≠ [] := by
    rintro rfl
    cases first
  rw [IsCertified, if_neg some]
  refine ⟨unanswered, first, named.targets, named.ordered placed, ?_⟩
  exact Option.bind_eq_some_iff.mp found

/-! ### What a computation yields -/

/-- Whatever is guarded, the result has a property if there is one. -/
def Yields {α : Type} (P : α → Prop) (r : Resolve α) : Prop :=
  ∀ guarded a state, r.run.run guarded = (.ok a, state) → P a

namespace Yields

variable {α β : Type} {P : α → Prop} {Q : β → Prop}

theorem pure {a : α} (holds : P a) : Yields P (Pure.pure a : Resolve α) := by
  intro guarded b state given
  cases given
  exact holds

theorem throw (error : ResolveError) : Yields P (throw error : Resolve α) := by
  intro guarded a state given
  cases given

theorem bind {r : Resolve α} {next : α → Resolve β} (first : Yields P r)
    (rest : ∀ a, P a → Yields Q (next a)) : Yields Q (r >>= next) := by
  intro guarded b state given
  simp only [ExceptT.run_bind, StateT.run_bind] at given
  cases outcome : r.run.run guarded with
  | mk result middle =>
    rw [outcome] at given
    cases result with
    | error e => cases given
    | ok a => exact rest a (first guarded a middle outcome) middle b state given

/-- What follows a computation only has to agree on what it yields. -/
theorem bind_congr {r : Resolve α} {next next' : α → Resolve β} (first : Yields P r)
    (agree : ∀ a, P a → next a = next' a) : r >>= next = r >>= next' := by
  refine ExceptT.ext (StateT.ext fun guarded => ?_)
  simp only [ExceptT.run_bind, StateT.run_bind]
  cases outcome : r.run.run guarded with
  | mk result middle =>
    cases result with
    | error e => rfl
    | ok a => exact congrArg (·.run.run middle) (agree a (first guarded a middle outcome))

end Yields

section

variable {resolve : Site → Expr → Resolve Resolution} {referents : List (Span × Referent)}

/-- An inference for a name casts the name. -/
theorem infer_yields (use : NameUse) :
    Yields (fun inference? => ∀ i ∈ inference?, i.span = castSpan use)
      (infer host index resolve site referents use) := by
  rw [infer]
  split
  · exact .pure (by simp)
  · split
    · exact .pure (by simp)
    · split
      · refine .bind (P := fun _ => True) (fun _ _ _ _ => trivial) fun type? _ => .pure ?_
        intro i mem
        obtain ⟨t, -, rfl⟩ := Option.map_eq_some_iff.mp mem
        rfl
      · exact .pure (by simp)

theorem tryNames_yields (placed : e.Placed)
    (unanswered : ∀ answer ∈ answers host site e, answer.1 = none) {collected : List Inference}
    {uses : List NameUse} (ahead : Ahead e collected uses) :
    Yields (IsCertified host site e)
      (tryNames host index resolve site e referents collected uses) := by
  induction uses generalizing collected with
  | nil =>
    unfold tryNames
    split
    · split
      · next found => exact .pure (replayable_of_rebind? placed unanswered ahead.done rfl found)
      · exact .throw _
    · exact .throw _
  | cons use uses ih =>
    rw [tryNames]
    refine .bind (infer_yields use) fun inference? span => ?_
    cases inference? with
    | none => exact ih ahead.skip
    | some inference =>
      have same : inference.span = castSpan use := span inference rfl
      dsimp only
      split
      · next found =>
        exact .pure (replayable_of_rebind? placed unanswered (ahead.only same) rfl found)
      · exact ih (ahead.collect same)

/-- What the resolver finds for a placed expression is certified. -/
theorem resolveWithin_yields {token : Token} (placed : e.Placed) (depth : Nat) :
    Yields (IsCertified host site e) (resolveWithin host index token depth site e) := by
  cases depth with
  | zero => exact .throw _
  | succ depth =>
    rw [resolveWithin]
    split
    · exact .throw _
    · split
      · next r direct => exact .pure (direct?_certified direct)
      · next none =>
        exact tryNames_yields placed (unanswered_of_direct? none) (.filter _)

end

/-! ### Missing targets -/

section

variable (missing : Resolve (Option TypeRef)) (host : Host) (index : MarkerIndex)

/-- Rebinding, where `missing` takes over if a cast has no target. -/
def rebindOr (site : Site) (e : Expr) (inferences : List Inference) : Resolve (Option TypeRef) :=
  match withCasts? e inferences with
  | some cast => return host.speculativeType? site cast
  | none => missing

/-- `tryNames`, where `missing` takes over if a cast has no target. -/
def tryNamesOr (resolve : Site → Expr → Resolve Resolution) (site : Site) (e : Expr)
    (referents : List (Span × Referent)) (collected : List Inference) :
    List NameUse → Resolve Resolution
  | [] =>
    match collected with
    | first :: _ :: _ => do
      match ← rebindOr missing host site e collected with
      | some t => return ⟨t, first.strategy, collected⟩
      | none => throw (.undetermined e.text)
    | _ => throw (.undetermined e.text)
  | use :: uses => do
    match ← infer host index resolve site referents use with
    | none => tryNamesOr resolve site e referents collected uses
    | some inference =>
      match ← rebindOr missing host site e [inference] with
      | some t => return ⟨t, inference.strategy, [inference]⟩
      | none => tryNamesOr resolve site e referents (collected ++ [inference]) uses

/-- `resolveWithin`, where `missing` takes over if a cast has no target. -/
def resolveWithinOr (token : Token) : (depth : Nat) → Site → Expr → Resolve Resolution
  | 0, _, e => throw (.undetermined e.text)
  | depth + 1, site, e =>
    if token.cancelled then throw .cancelled
    else
      match direct? host site e with
      | some resolution => return resolution
      | none =>
        let referents := host.nameReferents site e
        tryNamesOr missing host index (resolveWithinOr token depth) site e referents []
          (e.names.filter fun use => !isBound referents use)

/-- `resolve`, where `missing` takes over if a cast has no target. -/
def resolveOr (token : Token) (site : Site) (e : Expr) : Except ResolveError Resolution :=
  ((resolveWithinOr missing host index token ((targets host site).length + 1) site e).run.run []).1

/-- `resolveAssignment`, where `missing` takes over if a cast has no target. -/
def resolveAssignmentOr (token : Token) (site : Site) (target : String) (e : Expr) :
    Except ResolveError Resolution :=
  ((resolveWithinOr missing host index token ((targets host site).length + 1) site e).run.run
    [target]).1

end

section

variable {missing : Resolve (Option TypeRef)} {resolve : Site → Expr → Resolve Resolution}
  {referents : List (Span × Referent)}

/-- The value of a sibling assignment was read from a statement. -/
theorem sibling?_placed {owner : Symbol} {d : TypeDecl} {ident : String} {s : Site} {value : Expr}
    (h : sibling? owner d ident = some (s, value)) : value.Placed := by
  obtain ⟨⟨m, i, target, v⟩, found, same⟩ := Option.map_eq_some_iff.mp h
  cases same
  obtain ⟨m', -, mem⟩ := List.mem_flatMap.mp (List.mem_of_find?_eq_some found)
  obtain ⟨a, mem, same⟩ := List.mem_map.mp mem
  cases same
  obtain ⟨⟨statement, i'⟩, -, read⟩ := List.mem_filterMap.mp mem
  dsimp only at read
  split at read
  · next span target value parsed =>
    cases read
    exact placed_of_parseStatement parsed
  · cases read

/-- An inference only depends on how placed expressions are resolved. -/
theorem infer_congr {other : Site → Expr → Resolve Resolution}
    (agree : ∀ s v, v.Placed → resolve s v = other s v) (use : NameUse) :
    infer host index resolve site referents use = infer host index other site referents use := by
  unfold infer
  split
  · rfl
  · split
    · rfl
    · next owner _ =>
      split
      · cases found : sibling? site.owner owner use.ident with
        | none => rfl
        | some sibling => simp only [agree sibling.1 sibling.2 (sibling?_placed found)]
      · rfl

/-- Names are tried in the same way if every attempt at rebinding has its targets. -/
theorem tryNamesOr_eq {other : Site → Expr → Resolve Resolution}
    (agree : ∀ s v, v.Placed → other s v = resolve s v)
    (rebinds : ∀ is, FromNames e is →
      rebindOr missing host site e is = Pure.pure (rebind? host site e is))
    {collected : List Inference} {uses : List NameUse} (ahead : Ahead e collected uses) :
    tryNamesOr missing host index other site e referents collected uses
      = tryNames host index resolve site e referents collected uses := by
  induction uses generalizing collected with
  | nil =>
    rcases collected with _ | ⟨first, _ | ⟨second, others⟩⟩
    · rfl
    · rfl
    · cases found : rebind? host site e (first :: second :: others) <;>
        simp only [tryNamesOr, tryNames, rebinds _ ahead.done, pure_bind, found]
  | cons use uses ih =>
    rw [tryNamesOr, tryNames, infer_congr agree]
    refine (infer_yields use).bind_congr fun inference? span => ?_
    cases inference? with
    | none => exact ih ahead.skip
    | some inference =>
      have same : inference.span = castSpan use := span inference rfl
      dsimp only
      rw [rebinds _ (ahead.only same), pure_bind]
      cases rebind? host site e [inference] with
      | some t => rfl
      | none => exact ih (ahead.collect same)

/-- An attempt at rebinding only fails for the host's sake, if its casts have targets or if a
missing target is a failure as well. -/
theorem rebindOr_eq {is : List Inference}
    (ok : missing = Pure.pure none ∨ ∃ e', withCasts? e is = some e') :
    rebindOr missing host site e is = Pure.pure (rebind? host site e is) := by
  rw [rebindOr, rebind?]
  rcases ok with rfl | ⟨e', cast⟩
  · cases withCasts? e is <;> rfl
  · rw [cast]
    rfl

/-- For a placed expression, what would take over for a missing target makes no difference. If it is
a failure, it makes none for any expression. -/
theorem resolveWithinOr_eq {token : Token} (ok : missing = Pure.pure none ∨ e.Placed)
    (depth : Nat) :
    resolveWithinOr missing host index token depth site e
      = resolveWithin host index token depth site e := by
  induction depth generalizing site e with
  | zero => rfl
  | succ depth ih =>
    rw [resolveWithinOr, resolveWithin]
    split
    · rfl
    · cases direct? host site e with
      | some resolution => rfl
      | none =>
        refine tryNamesOr_eq (fun s v inner => ih (.inr inner)) (fun is named => ?_) (.filter _)
        exact rebindOr_eq (ok.imp_right fun placed => named.castable placed)

end

/-! ### Resolutions -/

/-- A result of a run from any guard is something that the run yields. -/
theorem Yields.of_run {α : Type} {P : α → Prop} {r : Resolve α} {guarded : List String} {a : α}
    (yields : Yields P r) (h : (r.run.run guarded).1 = .ok a) : P a :=
  yields guarded a (r.run.run guarded).2 (Prod.ext h rfl)

/-- Every resolution of an expression that was read from a text can be replayed, and no attempt at
rebinding is lost because a name that was to be cast is not there. -/
theorem resolution_replays (host : Host) (index : MarkerIndex) (token : Token) (site : Site)
    (e : Expr) (parsed : IsParsed e) :
    (∀ r, resolve host index token site e = .ok r → IsCertified host site e r) ∧
      (∀ target r, resolveAssignment host index token site target e = .ok r →
        IsCertified host site e r) ∧
      ∀ missing, resolveOr missing host index token site e = resolve host index token site e ∧
        ∀ target, resolveAssignmentOr missing host index token site target e
          = resolveAssignment host index token site target e := by
  have placed := parsed.placed
  refine ⟨?whole, ?assigned, ?attempts⟩
  case whole =>
    intro r given
    exact (resolveWithin_yields placed _).of_run given
  case assigned =>
    intro target r given
    exact (resolveWithin_yields placed _).of_run given
  case attempts =>
    intro missing
    constructor
    · rw [resolveOr, resolveWithinOr_eq (.inr placed), resolve]
    · intro target
      rw [resolveAssignmentOr, resolveWithinOr_eq (.inr placed), resolveAssignment]

/-! ### The instance of a singleton -/

/-- A project with one class, which is marked as a singleton. -/
def directors : Host :=
  .withPrelude
    { types := [{ name := "Game.Director", kind := .class, attributes := [⟨"Singleton", []⟩] }] }

def inDirector : Site := { owner := ⟨"Game.Director", 0⟩ }

/-- The name `Instance` as it is used in `Director.Instance`. -/
def instanceUse : NameUse :=
  .member ⟨"Instance", []⟩ ⟨9, 17⟩ (.name ⟨0, 8⟩ ⟨"Director", []⟩) ⟨0, 17⟩

def instanceAccess : Expr :=
  .member ⟨0, 17⟩ (.name ⟨0, 8⟩ ⟨"Director", []⟩) ⟨⟨"Instance", []⟩, ⟨9, 17⟩⟩

def instanceInference : Inference :=
  ⟨"Instance", ⟨0, 17⟩, .named "Game.Director", .instancePattern⟩

theorem parseExpr_instance : parseExpr "Director.Instance" = .ok instanceAccess := by
  with_unfolding_all rfl

theorem direct?_instance : direct? directors inDirector instanceAccess = none := by
  rw [direct?, Host.speculativeType?, instanceAccess, Binding.meaning, Binding.meaning]
  decide +kernel

theorem nameReferents_instance :
    directors.nameReferents inDirector instanceAccess
      = [(⟨0, 8⟩, .type (.named "Game.Director"))] := by
  rw [Host.nameReferents, instanceAccess, Binding.meaning, Binding.meaning]
  decide +kernel

theorem infer_instance (resolve : Site → Expr → Resolve Resolution) :
    infer directors (.ofHost directors) resolve inDirector
      [(⟨0, 8⟩, .type (.named "Game.Director"))] instanceUse
      = Pure.pure (some instanceInference) := by
  have pattern : (accessedType? directors inDirector [(⟨0, 8⟩, .type (.named "Game.Director"))]
      instanceUse).bind (pattern? (.ofHost directors) instanceUse.ident)
        = some (.named "Game.Director", .instancePattern) := by decide +kernel
  rw [infer, pattern]
  rfl

theorem rebind?_instance :
    rebind? directors inDirector instanceAccess [instanceInference]
      = some (.named "Game.Director") := by
  have cast : withCasts? instanceAccess [instanceInference]
      = some (instanceAccess.castTo (.named "Game.Director")) := by cbv
  rw [rebind?, cast]
  simp only [Option.bind_eq_bind, Option.bind_some, Host.speculativeType?, Expr.castTo,
    instanceAccess, Binding.meaning]
  decide +kernel

/-- The instance of a singleton is found with one cast. -/
theorem resolve_instance :
    resolve directors (.ofHost directors) .live inDirector instanceAccess
      = .ok ⟨.named "Game.Director", .instancePattern, [instanceInference]⟩ := by
  have unbound : instanceAccess.names.filter
      (fun use => !isBound [(⟨0, 8⟩, .type (.named "Game.Director"))] use) = [instanceUse] := rfl
  rw [resolve, resolveWithin, direct?_instance]
  dsimp only
  rw [nameReferents_instance, unbound, tryNames, infer_instance, pure_bind]
  dsimp only
  rw [rebind?_instance]
  rfl

theorem resolution_replays_instance :
    IsParsed instanceAccess ∧
      ∃ r, resolve directors (.ofHost directors) .live inDirector instanceAccess = .ok r ∧
        r.inferences ≠ [] ∧ IsCertified directors inDirector instanceAccess r := by
  have parsed : IsParsed instanceAccess := .inl ⟨"Director.Instance", parseExpr_instance⟩
  have certified := (resolution_replays directors (.ofHost directors) .live inDirector
    instanceAccess parsed).1 _ resolve_instance
  exact ⟨parsed, _, resolve_instance, List.cons_ne_nil _ _, certified⟩

/-! ### Casts in another order -/

theorem withCasts?_cons (e : Expr) (i : Inference) (is : List Inference) :
    withCasts? e (i :: is) = (e.insertCast? i.span i.type).bind (withCasts? · is) := rfl

/-- Casts at distinct spans give the same tree in every order. -/
theorem withCasts?_perm {is js : List Inference} (reordered : is.Perm js)
    (apart : (is.map (·.span)).Nodup) (e : Expr) : withCasts? e is = withCasts? e js := by
  induction reordered generalizing e with
  | nil => rfl
  | cons i _ ih =>
    rw [List.map_cons, List.nodup_cons] at apart
    rw [withCasts?_cons, withCasts?_cons]
    exact Option.bind_congr fun e' _ => ih apart.2 e'
  | swap i j is =>
    rw [List.map_cons, List.map_cons, List.nodup_cons, List.mem_cons, not_or] at apart
    have swapped := Expr.insertCast?_comm apart.1.1 j.type i.type e
    calc withCasts? e (j :: i :: is)
        = ((e.insertCast? j.span j.type).bind (Expr.insertCast? i.span i.type)).bind
            (withCasts? · is) := (Option.bind_assoc ..).symm
      _ = ((e.insertCast? i.span i.type).bind (Expr.insertCast? j.span j.type)).bind
            (withCasts? · is) := by rw [swapped]
      _ = withCasts? e (i :: j :: is) := Option.bind_assoc ..
  | trans first _ ih ih' =>
    exact (ih apart e).trans (ih' ((first.map _).nodup_iff.mp apart) e)

/-- Two casts at distinct spans can be inserted in either order: if one order succeeds so does the
other, with the same tree. So binding again with inferences at distinct spans has the same outcome
in every order of the inferences. -/
theorem casts_commute (host : Host) (site : Site) (e : Expr) :
    (∀ (s s' : Span) (t t' : TypeRef), s ≠ s' →
      (e.insertCast? s t).bind (Expr.insertCast? s' t')
        = (e.insertCast? s' t').bind (Expr.insertCast? s t)) ∧
      ∀ is js : List Inference, is.Perm js → (is.map (·.span)).Nodup →
        rebind? host site e is = rebind? host site e js := by
  refine ⟨fun s s' t t' other => Expr.insertCast?_comm other t t' e, ?_⟩
  intro is js reordered apart
  rw [rebind?, rebind?, withCasts?_perm reordered apart]

end Resolver

end Marksmith

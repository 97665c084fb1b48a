import Marksmith.Proofs.Tracking.Undoing

/-!
The accessors for payloads: what becomes of the types that get an accessor with a name of their own.

Unmanaged data and custom storages are named after their simple names, in two ways, and all of them
share one table of names. A name that the class declares itself is left to it; of several payloads
with one name the first one gets the accessor, and the others are reported.

* `Payload.outcome`: what becomes of a payload, told by the list of all of them;
* `Facts.claimNames_eq`: the table, which is filled payload by payload, comes to the same;
* `accounted_of_plan`: all of this for the plans of tracked classes.
-/

namespace Marksmith

open Syntax (TypeRef)

/-! ### Payloads -/

/-- A type in the capabilities of a class that gets an accessor with a name of its own. -/
inductive Payload where
  /-- Unmanaged data. -/
  | data (t : TypeRef)
  /-- A custom storage. -/
  | storage (t : TypeRef)
deriving DecidableEq, Repr

namespace Payload

def type : Payload → TypeRef
  | data t => t
  | storage t => t

/-- The name of the accessor. -/
def name : Payload → String
  | data t => "Local" ++ t.simpleName
  | storage t => t.simpleName ++ "Storage"

def accessor (p : Payload) : Accessor :=
  match p with
  | data t => .payload p.name t
  | storage t => .storage p.name t

def registration : Payload → Registration
  | data t => .unmanagedData t
  | storage t => .customStorage t

theorem accessor_injective : Function.Injective accessor := by
  intro p q same
  cases p with
  | data t =>
    cases q with
    | data u => rw [(Accessor.payload.inj same).2]
    | storage u => cases same
  | storage t =>
    cases q with
    | data u => cases same
    | storage u => rw [(Accessor.storage.inj same).2]

/-- The two ways of naming never give one type the same name. -/
theorem eq_of_name_of_type {p q : Payload} (names : p.name = q.name) (types : p.type = q.type) :
    p = q := by
  have apart (t : TypeRef) : (data t).name ≠ (storage t).name := by
    intro same
    have lengths := congrArg String.length same
    simp only [name, String.length_append] at lengths
    have five : "Local".length = 5 := by decide
    have seven : "Storage".length = 7 := by decide
    omega
  cases p with
  | data t =>
    cases q with
    | data u => exact congrArg data types
    | storage u =>
      cases types
      exact absurd names (apart t)
  | storage t =>
    cases q with
    | data u =>
      cases types
      exact absurd names.symm (apart t)
    | storage u => exact congrArg storage types

/-- What becomes of a payload. -/
inductive Outcome where
  /-- It gets its accessor. -/
  | given
  /-- The class has a member of the name. -/
  | shadowed
  /-- It is reported that the name is that of another payload. -/
  | reported (first : Payload)
deriving DecidableEq, Repr

/-- What becomes of one of several payloads in a class that declares some names: the first payload
of each other name gets it. -/
def outcome (declared : String → Bool) (ps : List Payload) (p : Payload) : Outcome :=
  if declared p.name then .shadowed
  else
    match ps.find? (·.name == p.name) with
    | some first => if first = p then .given else .reported first
    | none => .given

section

variable {declared : String → Bool} {ps : List Payload} {p q : Payload}

theorem outcome_eq_shadowed_iff :
    outcome declared ps p = .shadowed ↔ declared p.name = true := by
  rw [outcome]
  constructor
  · intro shadowed
    split at shadowed
    · next own => exact own
    · split at shadowed
      · split at shadowed <;> cases shadowed
      · cases shadowed
  · exact fun own => if_pos own

theorem outcome_of_find? (free : declared p.name = false)
    (first : ps.find? (·.name == p.name) = some q) :
    outcome declared ps p = if q = p then .given else .reported q := by
  simp [outcome, free, first]

/-- Payloads that get their accessors are the first ones of their names. -/
theorem outcome_eq_given (mem : p ∈ ps) (given : outcome declared ps p = .given) :
    declared p.name = false ∧ ps.find? (·.name == p.name) = some p := by
  cases own : declared p.name with
  | true =>
    rw [outcome_eq_shadowed_iff.mpr own] at given
    cases given
  | false =>
    have some : (ps.find? (·.name == p.name)).isSome :=
      List.find?_isSome.mpr ⟨p, mem, beq_self_eq_true _⟩
    obtain ⟨q, first⟩ := Option.isSome_iff_exists.mp some
    rw [outcome_of_find? own first] at given
    split at given
    · next same => exact ⟨rfl, same ▸ first⟩
    · cases given

/-- A payload is reported if another one of its name comes first, which gets the accessor. -/
theorem outcome_eq_reported (reported : outcome declared ps p = .reported q) :
    ps.find? (·.name == p.name) = some q ∧ q ≠ p ∧ outcome declared ps q = .given := by
  cases own : declared p.name with
  | true =>
    rw [outcome_eq_shadowed_iff.mpr own] at reported
    cases reported
  | false =>
    cases first : ps.find? (·.name == p.name) with
    | none => simp [outcome, own, first] at reported
    | some q' =>
      rw [outcome_of_find? own first] at reported
      split at reported
      · cases reported
      · next other =>
        cases reported
        have suits := List.find?_some first
        have name : q.name = p.name := eq_of_beq suits
        refine ⟨rfl, other, ?_⟩
        rw [outcome_of_find? (name ▸ own) (name ▸ first), if_pos rfl]

end

end Payload

/-! ### The table of names -/

/-- The name of an accessor that is named after a payload. -/
def Accessor.payloadName? : Accessor → Option String
  | payload name _ => some name
  | storage name _ => some name
  | _ => none

namespace Facts

open Payload (outcome)

variable (f : Facts)

/-- The payloads of a class, in the order in which they ask for their names. -/
def payloads : List Payload :=
  f.capabilities.unmanagedData.map .data ++ f.capabilities.customStorage.map .storage

/-- The report on a payload whose name is that of an earlier one. -/
def payloadReport (p first : Payload) : Diagnostic := f.collisionReport p.name p.type first.type

/-- What is reported on a payload with a given outcome. -/
def reportOn (p : Payload) : Payload.Outcome → Option Diagnostic
  | .reported first => some (f.payloadReport p first)
  | _ => none

theorem namedAccessors_eq :
    f.namedAccessors = f.payloads.map fun p => (p.name, p.type, p.accessor) := by
  rw [namedAccessors, payloads, List.map_append, List.map_map, List.map_map]
  rfl

variable {f}

/-- The table holds the first one of each name among the payloads that have asked, unless the class
declares the name. -/
def Remembers (f : Facts) (taken : List (String × TypeRef)) (before : List Payload) : Prop :=
  ∀ x, f.declares x = false → taken.lookup x = (before.find? (·.name == x)).map (·.type)

variable {taken : List (String × TypeRef)} {before : List Payload}

theorem Remembers.skip (holds : f.Remembers taken before) {p : Payload}
    (idle : f.declares p.name = true ∨ (before.find? (·.name == p.name)).isSome) :
    f.Remembers taken (before ++ [p]) := by
  intro x free
  rw [holds x free, List.find?_append]
  cases found : before.find? (·.name == x) with
  | some q => rfl
  | none =>
    have other : (p.name == x) = false := by
      rw [beq_eq_false_iff_ne]
      rintro rfl
      rw [free, found] at idle
      simp at idle
    rw [List.find?_singleton, other]
    rfl

theorem Remembers.take (holds : f.Remembers taken before) {p : Payload}
    (fresh : before.find? (·.name == p.name) = none) :
    f.Remembers ((p.name, p.type) :: taken) (before ++ [p]) := by
  intro x free
  rw [List.find?_append, List.find?_singleton, List.lookup_cons]
  by_cases same : p.name = x
  · subst same
    simp [fresh]
  · rw [beq_eq_false_iff_ne.mpr same, beq_eq_false_iff_ne.mpr (Ne.symm same), holds x free]
    cases before.find? (·.name == x) <;> rfl

/-- The table, filled payload by payload, gives the first payloads of undeclared names their
accessors and reports the others. -/
theorem claimNames_eq (before : List Payload) {ps : List Payload} (once : (before ++ ps).Nodup)
    (holds : f.Remembers taken before) :
    f.claimNames taken (ps.map fun p => (p.name, p.type, p.accessor)) =
      ((ps.filter fun p => outcome f.declares (before ++ ps) p = .given).map (·.accessor),
        ps.filterMap fun p => f.reportOn p (outcome f.declares (before ++ ps) p)) := by
  induction ps generalizing taken before with
  | nil => rfl
  | cons p ps ih =>
    have shifted : before ++ [p] ++ ps = before ++ p :: ps := by simp
    have later {taken' : List (String × TypeRef)} (holds : f.Remembers taken' (before ++ [p])) :=
      ih (before ++ [p]) (shifted ▸ once) holds
    rw [shifted] at later
    rw [List.map_cons, claimNames]
    cases own : f.declares p.name with
    | true =>
      have shadowed : outcome f.declares (before ++ p :: ps) p = .shadowed :=
        Payload.outcome_eq_shadowed_iff.mpr own
      rw [if_pos rfl, later (holds.skip (.inl own)),
        List.filter_cons_of_neg (by simp [shadowed]), List.filterMap_cons, shadowed]
      rfl
    | false =>
      rw [if_neg Bool.false_ne_true, holds p.name own]
      cases found : before.find? (·.name == p.name) with
      | some q =>
        have first : (before ++ p :: ps).find? (·.name == p.name) = some q := by
          rw [List.find?_append, found, Option.some_or]
        have other : q ≠ p := by
          rintro rfl
          have disjoint := (List.nodup_append.mp once).2.2
          exact disjoint q (List.mem_of_find?_eq_some found) q List.mem_cons_self rfl
        have reported : outcome f.declares (before ++ p :: ps) p = .reported q := by
          rw [Payload.outcome_of_find? own first, if_neg other]
        rw [Option.map_some]
        dsimp only
        rw [later (holds.skip (.inr (by rw [found]; rfl))),
          List.filter_cons_of_neg (by simp [reported]), List.filterMap_cons, reported]
        rfl
      | none =>
        have first : (before ++ p :: ps).find? (·.name == p.name) = some p := by
          rw [List.find?_append, found, Option.none_or, List.find?_cons, beq_self_eq_true]
        have given : outcome f.declares (before ++ p :: ps) p = .given := by
          rw [Payload.outcome_of_find? own first, if_pos rfl]
        rw [Option.map_none]
        dsimp only
        rw [later (holds.take found), List.filter_cons_of_pos (by simp [given]),
          List.filterMap_cons, given]
        rfl

/-! ### Plans -/

theorem nodup_payloads (distinct : f.Distinct) : f.payloads.Nodup := by
  obtain ⟨-, ⟨data, storage, -⟩, -⟩ := distinct
  refine List.Nodup.append (data.map fun _ _ => Payload.data.inj)
    (storage.map fun _ _ => Payload.storage.inj) fun p here there => ?_
  obtain ⟨t, -, rfl⟩ := List.mem_map.mp here
  obtain ⟨u, -, same⟩ := List.mem_map.mp there
  cases same

theorem claimNames_payloads (distinct : f.Distinct) :
    f.claimNames [] f.namedAccessors =
      ((f.payloads.filter fun p => outcome f.declares f.payloads p = .given).map (·.accessor),
        f.payloads.filterMap fun p => f.reportOn p (outcome f.declares f.payloads p)) := by
  rw [namedAccessors_eq]
  exact claimNames_eq [] (nodup_payloads distinct) fun _ _ => rfl

/-- Among the accessors of a tracked class, those that are named after payloads stand together. -/
theorem exists_accessors_eq (tracked : f.isTracked) (alwaysIndex : Bool) :
    ∃ front back, f.accessors alwaysIndex = front ++ (f.claimNames [] f.namedAccessors).1 ++ back ∧
      ∀ a ∈ front ++ back, a.payloadName? = none := by
  refine ⟨[.instances, .count] ++ (if f.isSingleton then [.active] else []) ++
    (if f.isTracked && (f.capabilities.instanceIndex || alwaysIndex) then [.instanceIndex]
    else []) ++ (if f.isTracked && f.trackOptions.cacheEnabledState then [.enabledCache] else []),
    f.capabilities.findById.map .findById ++
      (if f.trackOptions.transformAccessArray then [.transformAccessArray] else []) ++
      (if f.trackOptions.instanceIdArray then [.instanceIds] else []), ?_, ?_⟩
  · simp only [accessors, if_pos tracked, List.append_assoc]
  · have option (on : Bool) {a : Accessor} (plain : a.payloadName? = none) :
        ∀ b ∈ if on then [a] else [], b.payloadName? = none := by
      cases on with
      | false => exact List.forall_mem_nil _
      | true => exact List.forall_mem_singleton.mpr plain
    simp only [List.forall_mem_append, List.forall_mem_cons, List.forall_mem_map]
    refine ⟨⟨⟨⟨?_, option _ rfl⟩, option _ rfl⟩, option _ rfl⟩, ⟨?_, option _ rfl⟩, option _ rfl⟩
    · exact ⟨rfl, rfl, List.forall_mem_nil _⟩
    · exact fun _ _ => rfl

theorem filterMap_accessors (tracked : f.isTracked) (distinct : f.Distinct) (alwaysIndex : Bool) :
    (f.accessors alwaysIndex).filterMap Accessor.payloadName? =
      (f.payloads.filter fun p => outcome f.declares f.payloads p = .given).map (·.name) := by
  obtain ⟨front, back, parts, unnamed⟩ := exists_accessors_eq tracked alwaysIndex
  obtain ⟨before, behind⟩ := List.forall_mem_append.mp unnamed
  have names : (fun p : Payload => p.accessor.payloadName?) = fun p => some p.name := by
    funext p
    cases p <;> rfl
  rw [parts, List.filterMap_append, List.filterMap_append, List.filterMap_eq_nil_iff.mpr before,
    List.filterMap_eq_nil_iff.mpr behind, claimNames_payloads distinct, List.filterMap_map]
  simp only [Function.comp_def, names, List.filterMap_eq_map', List.nil_append, List.append_nil]

theorem count_accessors (tracked : f.isTracked) (distinct : f.Distinct) (alwaysIndex : Bool)
    {p : Payload} (mem : p ∈ f.payloads) :
    (f.accessors alwaysIndex).count p.accessor =
      if outcome f.declares f.payloads p = .given then 1 else 0 := by
  obtain ⟨front, back, parts, unnamed⟩ := exists_accessors_eq tracked alwaysIndex
  have other : p.accessor ∉ front ++ back := by
    intro there
    have none := unnamed _ there
    cases p <;> cases none
  rw [List.mem_append, not_or] at other
  rw [parts, List.count_append, List.count_append, List.count_eq_zero.mpr other.1,
    List.count_eq_zero.mpr other.2, Nat.zero_add, Nat.add_zero, claimNames_payloads distinct,
    List.count_map_of_injective _ _ Payload.accessor_injective]
  split
  · next given =>
    rw [List.count_filter (by simpa using given)]
    exact List.count_eq_one_of_mem (nodup_payloads distinct) mem
  · next other =>
    rw [List.count_eq_zero, List.mem_filter]
    exact fun there => other (of_decide_eq_true there.2)

theorem registration_mem_enable (tracked : f.isTracked) {p : Payload} (mem : p ∈ f.payloads) :
    p.registration ∈ f.enable := by
  have listed : p.registration ∈ f.trackedRegistrations := by
    rcases List.mem_append.mp mem with data | storage
    · obtain ⟨t, there, rfl⟩ := List.mem_map.mp data
      simp [trackedRegistrations, Payload.registration, there]
    · obtain ⟨t, there, rfl⟩ := List.mem_map.mp storage
      simp [trackedRegistrations, Payload.registration, there]
  rw [enable, if_pos tracked, if_pos tracked]
  exact List.mem_append_right _ listed

theorem plan_of_trackedClass (isClass : f.kind = .class) (tracked : f.isTracked)
    (settings : Settings) :
    (f.plan settings).accessors = f.accessors settings.alwaysEmitIndex ∧
      (f.plan settings).diagnostics = f.diagnostics ++ (f.claimNames [] f.namedAccessors).2 := by
  rw [plan, if_neg (not_isInterface isClass), if_pos tracked]
  exact ⟨rfl, rfl⟩

theorem name_of_payloadReport {p q first first' : Payload}
    (same : f.payloadReport p first = f.payloadReport q first') : p.name = q.name :=
  Option.some.inj (congrArg (·.location.member) same)

/-- Reports that name the same first payload are about one payload, if types are told apart by their
texts. -/
theorem payloadReport_inj {p q first : Payload}
    (texts : p.type.text = q.type.text → p.type = q.type)
    (same : f.payloadReport p first = f.payloadReport q first) : p = q := by
  have name := name_of_payloadReport same
  have message := congrArg (fun r : Diagnostic => r.message.toList) same
  simp only [payloadReport, collisionReport, name, String.toList_append,
    List.append_assoc] at message
  have text : p.type.text = q.type.text := by
    apply String.toList_injective
    simpa using message
  exact Payload.eq_of_name_of_type name (texts text)

/-- What is reported on a payload is reported on no other one. -/
theorem eq_of_reportOn {declared : String → Bool} {ps : List Payload} {p q first : Payload}
    (texts : p.type.text = q.type.text → p.type = q.type)
    (reported : outcome declared ps q = .reported first)
    (same : f.reportOn p (outcome declared ps p) = some (f.payloadReport q first)) : p = q := by
  cases becomes : outcome declared ps p with
  | given =>
    rw [becomes] at same
    cases same
  | shadowed =>
    rw [becomes] at same
    cases same
  | reported first' =>
    rw [becomes] at same
    have same := Option.some.inj same
    have found := (Payload.outcome_eq_reported becomes).1
    rw [name_of_payloadReport same, (Payload.outcome_eq_reported reported).1] at found
    cases found
    exact payloadReport_inj texts same

end Facts

namespace TrackingPlan

/-- What becomes of a payload of a class. -/
def outcome (plan : TrackingPlan) (d : TypeDecl) (p : Payload) : Payload.Outcome :=
  Payload.outcome d.declaresMember plan.facts.payloads p

/-- The payloads of a class that get their accessors. -/
def givenPayloads (plan : TrackingPlan) (d : TypeDecl) : List Payload :=
  plan.facts.payloads.filter fun p => plan.outcome d p = .given

/-- The names of the accessors that are named after payloads. -/
def payloadNames (plan : TrackingPlan) : List String :=
  plan.accessors.filterMap Accessor.payloadName?

/-- Every payload of a tracked class is accounted for. -/
structure Accounted (host : Host) (d : TypeDecl) (plan : TrackingPlan) : Prop where
  distinct : plan.payloadNames.Nodup
  undeclared : ∀ x ∈ plan.payloadNames, d.declaresMember x = false
  /-- Payloads that get an accessor get one, and the others none. -/
  given : ∀ p ∈ plan.facts.payloads,
    plan.accessors.count p.accessor = if plan.outcome d p = .given then 1 else 0
  shadowed : ∀ p, plan.outcome d p = .shadowed ↔ d.declaresMember p.name = true
  /-- The payload that a report names is the first one of the name, and gets the accessor. -/
  first : ∀ p q, plan.outcome d p = .reported q →
    plan.facts.payloads.find? (·.name == p.name) = some q ∧ q ≠ p ∧ plan.outcome d q = .given
  /-- There is one report on each payload that is reported, in their order, and no other one. -/
  reports : plan.diagnostics
    = plan.facts.payloads.filterMap fun p => plan.facts.reportOn p (plan.outcome d p)
  /-- With unpunctuated names, these reports are different. -/
  reportedOnce : host.Unpunctuated → ∀ p ∈ plan.facts.payloads, ∀ q,
    plan.outcome d p = .reported q → plan.diagnostics.count (plan.facts.payloadReport p q) = 1
  /-- All of them are registered. -/
  registered : ∀ p ∈ plan.facts.payloads,
    plan.enable.count p.registration = 1 ∧ plan.disable.count p.registration = 1

variable {p : Pass} {limit : Nat} {model : Model} {s : Symbol} {d : TypeDecl} {plan : TrackingPlan}

/-- The accessors and the reports of a plan are those of its facts. -/
theorem payloads_of_plan (declared : p.host.declaration? s = some d) (isClass : d.kind = .class)
    (ready : p.project.trackingPlan? s = some plan) (founded : Founded p s plan)
    (tracked : plan.facts.isTracked) :
    plan.accessors = plan.facts.accessors p.project.settings.alwaysEmitIndex ∧
      plan.diagnostics = plan.facts.payloads.filterMap (fun q =>
        plan.facts.reportOn q (plan.outcome d q)) ∧
      plan.facts.declares = d.declaresMember := by
  obtain ⟨f, found, fits, planned⟩ := Project.exists_facts_of_plan ready
  have facts : plan.facts = f := planned ▸ Facts.facts_plan f _
  have kind : f.kind = .class := (Project.kind_of_facts? found declared).1.trans isClass
  have declares : plan.facts.declares = d.declaresMember := by
    funext x
    rw [facts, Bool.eq_iff_iff, Pass.declares_iff found declared x, TypeDecl.declaresMember,
      List.contains_iff_mem]
  have silent : plan.facts.diagnostics = [] := by
    obtain ⟨location, reported⟩ := Project.diagnostics_of_facts? found
    rw [facts, reported, fits]
    rfl
  obtain ⟨accessors, diagnostics⟩ :=
    Facts.plan_of_trackedClass kind (facts ▸ tracked) p.project.settings
  rw [← planned, ← facts] at accessors diagnostics
  refine ⟨accessors, ?_, declares⟩
  rw [diagnostics, silent, List.nil_append, Facts.claimNames_payloads founded.distinct,
    declares]
  rfl

/-- With unpunctuated names, a payload is reported once. -/
theorem count_diagnostics (founded : Founded p s plan) (tracked : plan.facts.isTracked)
    (names : p.host.Unpunctuated) (reports : plan.diagnostics = plan.facts.payloads.filterMap
      fun q => plan.facts.reportOn q (plan.outcome d q))
    {q first : Payload} (mem : q ∈ plan.facts.payloads)
    (reported : plan.outcome d q = .reported first) :
    plan.diagnostics.count (plan.facts.payloadReport q first) = 1 := by
  have made {q : Payload} (mem : q ∈ plan.facts.payloads) : q.type.MadeOf Symbol.Unpunctuated := by
    refine founded.unpunctuated names q.registration
      (Facts.registration_mem_enable tracked mem) q.type ?_
    cases q <;> exact List.mem_cons_of_mem _ List.mem_cons_self
  have own : ∀ q' ∈ plan.facts.payloads,
      plan.facts.reportOn q' (plan.outcome d q') == some (plan.facts.payloadReport q first) ↔
        q' == q := by
    intro q' mem'
    rw [beq_iff_eq, beq_iff_eq]
    constructor
    · exact Facts.eq_of_reportOn (TypeRef.text_inj (made mem') (made mem)) reported
    · rintro rfl
      rw [reported]
      rfl
  rw [reports, List.count_filterMap, List.countP_congr own]
  exact List.count_eq_one_of_mem (Facts.nodup_payloads founded.distinct) mem

/-- Every payload of a tracked class is accounted for in its plan. -/
theorem accounted_of_plan (accepted : Host.ofModel limit model = .ok p.host)
    (marked : p.index.tracked.contains s) (declared : p.host.declaration? s = some d)
    (isClass : d.kind = .class) (ready : p.project.trackingPlan? s = some plan) :
    Accounted p.host d plan := by
  have isMarked : p.IsMarked s := by rw [Pass.IsMarked, marked, Bool.true_or]
  have founded := founded_of_marked accepted isMarked declared isClass ready
  have tracked : plan.facts.isTracked := founded.tracked.trans marked
  obtain ⟨accessors, reports, declares⟩ :=
    payloads_of_plan declared isClass ready founded tracked
  have distinct := founded.distinct
  have outcomes (q : Payload) : plan.outcome d q
      = Payload.outcome plan.facts.declares plan.facts.payloads q := by rw [outcome, declares]
  have names : plan.payloadNames = (plan.givenPayloads d).map (·.name) := by
    rw [payloadNames, accessors, Facts.filterMap_accessors tracked distinct]
    simp only [givenPayloads, outcomes]
  have firsts {q : Payload} (mem : q ∈ plan.givenPayloads d) :
      d.declaresMember q.name = false ∧
        plan.facts.payloads.find? (·.name == q.name) = some q := by
    obtain ⟨there, given⟩ := List.mem_filter.mp mem
    exact Payload.outcome_eq_given there (of_decide_eq_true given)
  refine ⟨?distinct, ?undeclared, ?given, fun q => Payload.outcome_eq_shadowed_iff,
    fun q first => Payload.outcome_eq_reported, reports, ?reportedOnce, ?registered⟩
  case distinct =>
    rw [names]
    refine ((Facts.nodup_payloads distinct).filter _).map_on fun q mem q' mem' same => ?_
    have found := (firsts mem).2
    rw [same, (firsts mem').2] at found
    exact (Option.some.inj found).symm
  case undeclared =>
    rw [names]
    exact List.forall_mem_map.mpr fun q mem => (firsts mem).1
  case given =>
    intro q mem
    rw [accessors, Facts.count_accessors tracked distinct _ mem, outcomes]
  case reportedOnce =>
    exact fun plain q mem first => count_diagnostics founded tracked plain reports mem
  case registered =>
    intro q mem
    have listed : plan.enable.count q.registration = 1 := by
      rw [founded.enable]
      exact List.count_eq_one_of_mem (Facts.nodup_enable distinct)
        (Facts.registration_mem_enable tracked mem)
    exact ⟨listed, (founded.perm.count_eq _).trans listed⟩

/-- A tracked class with four payloads. Three of them have one name, of which two are unmanaged data
and one is a custom storage, and the class has a member with the name of the other one. -/
def crowdedModel : Model where
  types :=
    [ { name := "Game.Storage", kind := .struct },
      { name := "Other.Storage", kind := .struct },
      { name := "Game.Mana", kind := .struct },
      { name := "Game.Local", kind := .class },
      { name := "Game.Hero", kind := .class, attributes := [⟨"Track", []⟩]
        fields := [{ name := "LocalMana", type := .named "int" }]
        interfaces :=
          [ .generic "Medicine.IUnmanagedData" [.named "Game.Storage"],
            .generic "Medicine.IUnmanagedData" [.named "Other.Storage"],
            .generic "Medicine.IUnmanagedData" [.named "Game.Mana"],
            .generic "Medicine.ICustomStorage" [.named "Game.Local"] ] } ]

/-- The pass over these declarations. -/
def crowdedPass : Pass := ⟨.withPrelude crowdedModel, {}⟩

/-- The payloads of this class. -/
def crowdedPayloads : List Payload :=
  [.data (.named "Game.Storage"), .data (.named "Other.Storage"), .data (.named "Game.Mana"),
    .storage (.named "Game.Local")]

/-- All outcomes are met. -/
theorem accounted_hero :
    ∃ d plan, crowdedPass.project.trackingPlan? ⟨"Game.Hero", 0⟩ = some plan ∧
      plan.facts.payloads.map (plan.outcome d) =
        [.given, .reported (.data (.named "Game.Storage")), .shadowed,
          .reported (.data (.named "Game.Storage"))] ∧
      crowdedPass.host.Unpunctuated ∧ Accounted crowdedPass.host d plan := by
  have plain : crowdedPass.host.Unpunctuated := by
    show crowdedPass.host.model.Unpunctuated
    decide +kernel
  have marked : crowdedPass.index.tracked.contains ⟨"Game.Hero", 0⟩ := by decide +kernel
  have payloads : (crowdedPass.project.trackingPlan? ⟨"Game.Hero", 0⟩).map (·.facts.payloads)
      = some crowdedPayloads := by
    decide +kernel
  have members : (crowdedPass.host.declaration? ⟨"Game.Hero", 0⟩).map
      (fun d => (d.kind, d.memberNames)) = some (.class, ["LocalMana"]) := by
    decide +kernel
  obtain ⟨plan, ready, payloads⟩ := Option.map_eq_some_iff.mp payloads
  obtain ⟨d, declared, members⟩ := Option.map_eq_some_iff.mp members
  obtain ⟨isClass, names⟩ := Prod.mk.inj members
  refine ⟨d, plan, ready, ?_, plain, ?_⟩
  · have declares : d.declaresMember = ["LocalMana"].contains := by
      funext x
      rw [TypeDecl.declaresMember, names]
    have outcomes : plan.outcome d = Payload.outcome ["LocalMana"].contains crowdedPayloads := by
      funext p
      rw [outcome, declares, payloads]
    rw [payloads, outcomes]
    decide +kernel
  · exact accounted_of_plan (Host.ofModel_withPrelude rfl rfl) marked declared isClass ready

end TrackingPlan

end Marksmith

import Marksmith.Proofs.Host.Declarations
import Marksmith.Tracking.Plan

/-!
What a class adds to its nearest marked ancestor, and what of it the code for the class registers.

* `standsFor`: what an interface is to be registered as; `eq_of_mem_standsFor`: no two interfaces
  stand for the same;
* `Facts.mem_introduced_ofDecl`: a class introduces what the interfaces stand for that its marked
  ancestor has not;
* `Facts.mem_enable_iff`: it registers what it introduces, payloads only if it is tracked.
-/

namespace Marksmith

open Syntax (TypeRef)

/-! ### What interfaces stand for -/

namespace Registration

/-- A registration with type arguments in place of type parameters. -/
def substitute (params : List String) (args : List TypeRef) : Registration → Registration
  | interface t => interface (t.substitute params args)
  | unmanagedData t => unmanagedData (t.substitute params args)
  | customStorage t => customStorage (t.substitute params args)
  | lookupById t => lookupById (t.substitute params args)
  | r => r

/-- Whether a registration is one of a payload. -/
def isPayload : Registration → Bool
  | unmanagedData _ | customStorage _ | lookupById _ => true
  | _ => false

/-- Whether a registration is one of an interface or a payload. -/
def isOwed : Registration → Bool
  | interface _ => true
  | r => r.isPayload

@[simp] theorem isPayload_substitute (params : List String) (args : List TypeRef)
    (r : Registration) : (r.substitute params args).isPayload = r.isPayload := by
  cases r <;> rfl

@[simp] theorem isOwed_substitute (params : List String) (args : List TypeRef) (r : Registration) :
    (r.substitute params args).isOwed = r.isOwed := by
  cases r <;> rfl

/-- Without type parameters, registrations look the same from below. -/
theorem substitute_nil (args : List TypeRef) (r : Registration) :
    r.substitute [] args = r := by
  have same : ∀ t : TypeRef, t.substitute [] args = t := by
    rintro ⟨name, targs, nullable, rank⟩
    rw [TypeRef.substitute]
    rfl
  cases r <;> simp [substitute, same]

/-- The registrations that a capability interface with a type argument stands for. -/
def ofCapability : Capability → TypeRef → List Registration
  | .unmanagedData, t => [unmanagedData t]
  | .customStorage, t => [customStorage t]
  | .findById, t => [lookupById t]
  | .instanceIndex, _ => []

end Registration

open Registration (ofCapability)

/-- Whether an interface is tracked. -/
def MarkerIndex.isTrackedInterface (index : MarkerIndex) (i : TypeRef) : Bool :=
  ((index.tracked.ofType? i).map (·.isInterface)).getD false

/-- The payloads that an interface stands for. -/
def payloadsOf (i : TypeRef) : List Registration :=
  match Capability.classify? i.name i.args.length, i.args with
  | some c, t :: _ => ofCapability c t
  | _, _ => []

/-- What an interface is to be registered as. -/
def standsFor (index : MarkerIndex) (i : TypeRef) : List Registration :=
  (if index.isTrackedInterface i then [.interface i] else []) ++ payloadsOf i

/-- The payloads among capabilities. -/
def Capabilities.payloads (c : Capabilities) : List Registration :=
  c.unmanagedData.map .unmanagedData ++ c.customStorage.map .customStorage ++
    c.findById.map .lookupById

theorem Capabilities.mem_addNew {t u : TypeRef} {ts : List TypeRef} :
    u ∈ addNew t ts ↔ u = t ∨ u ∈ ts := by
  rw [addNew]
  split
  · next met =>
    constructor
    · exact .inr
    · rintro (rfl | mem)
      · exact met
      · exact mem
  · rw [List.mem_append, List.mem_singleton, or_comm]

theorem Capabilities.mem_payloads_add (c : Capabilities) (i : TypeRef) (r : Registration) :
    r ∈ (c.add i).payloads ↔ r ∈ payloadsOf i ∨ r ∈ c.payloads := by
  rw [add, payloadsOf]
  cases Capability.classify? i.name i.args.length with
  | none => simp
  | some capability =>
    cases i.args with
    | nil => cases capability <;> simp [payloads]
    | cons t ts =>
      cases capability with
      | unmanagedData =>
        simp only [payloads, ofCapability, List.mem_append, List.mem_map, mem_addNew,
          List.mem_singleton]
        grind
      | findById =>
        simp only [payloads, ofCapability, List.mem_append, List.mem_map, mem_addNew,
          List.mem_singleton]
        grind
      | customStorage =>
        simp only [payloads, ofCapability, List.mem_append, List.mem_map, mem_addNew,
          List.mem_singleton]
        grind
      | instanceIndex => simp [payloads, ofCapability]

/-- The payloads of the capabilities of interfaces are those that the interfaces stand for. -/
theorem Capabilities.mem_payloads_ofInterfaces {is : List TypeRef} {r : Registration} :
    r ∈ (ofInterfaces is).payloads ↔ ∃ i ∈ is, r ∈ payloadsOf i := by
  suffices general : ∀ c : Capabilities,
      r ∈ (is.foldl add c).payloads ↔ r ∈ c.payloads ∨ ∃ i ∈ is, r ∈ payloadsOf i by
    rw [ofInterfaces, general]
    simp [payloads]
  intro c
  induction is generalizing c with
  | nil => simp
  | cons i is ih =>
    rw [List.foldl_cons, ih, mem_payloads_add]
    simp only [List.exists_mem_cons_iff]
    tauto

theorem shape_of_mem_payloadsOf {i : TypeRef} {r : Registration} (mem : r ∈ payloadsOf i) :
    ∃ c t, i.name = Capability.qualifiedName c ∧ i.args = [t] ∧ r ∈ ofCapability c t := by
  rw [payloadsOf] at mem
  split at mem
  · next c t ts classified args =>
    rw [Capability.classify?] at classified
    have suits := List.find?_some classified
    rw [Bool.and_eq_true, beq_iff_eq, beq_iff_eq, args] at suits
    refine ⟨c, t, suits.1.symm, ?_, mem⟩
    have single : ts = [] := by
      cases c with
      | instanceIndex => cases mem
      | unmanagedData => simpa [Capability.arity] using suits.2
      | findById => simpa [Capability.arity] using suits.2
      | customStorage => simpa [Capability.arity] using suits.2
    rw [args, single]
  · cases mem

theorem ofCapability_injective {c c' : Capability} {t t' : TypeRef} {r : Registration}
    (left : r ∈ ofCapability c t) (right : r ∈ ofCapability c' t') : c = c' ∧ t = t' := by
  cases c <;> cases c' <;> simp_all [ofCapability]

theorem isPayload_of_mem_payloadsOf {i : TypeRef} {r : Registration} (mem : r ∈ payloadsOf i) :
    r.isPayload := by
  obtain ⟨c, t, -, -, stands⟩ := shape_of_mem_payloadsOf mem
  cases c with
  | instanceIndex => cases stands
  | unmanagedData => rw [List.mem_singleton.mp stands]; rfl
  | findById => rw [List.mem_singleton.mp stands]; rfl
  | customStorage => rw [List.mem_singleton.mp stands]; rfl

theorem mem_standsFor {index : MarkerIndex} {i : TypeRef} {r : Registration} :
    r ∈ standsFor index i ↔
      (index.isTrackedInterface i ∧ r = .interface i) ∨ r ∈ payloadsOf i := by
  rw [standsFor, List.mem_append]
  refine or_congr_left ?_
  split
  · next tracked => simp [tracked]
  · next untracked => simp [untracked]

theorem isOwed_of_mem_standsFor {index : MarkerIndex} {i : TypeRef} {r : Registration}
    (stands : r ∈ standsFor index i) : r.isOwed := by
  rcases mem_standsFor.mp stands with ⟨-, rfl⟩ | payload
  · rfl
  · have isPayload := isPayload_of_mem_payloadsOf payload
    cases r with
    | interface t => rfl
    | _ => exact isPayload

/-- Interfaces without suffixes stand for different things. -/
theorem eq_of_mem_standsFor {index : MarkerIndex} {i j : TypeRef} {r : Registration}
    (plain : i.nullable = false ∧ i.rank = 0) (plain' : j.nullable = false ∧ j.rank = 0)
    (left : r ∈ standsFor index i) (right : r ∈ standsFor index j) : i = j := by
  rcases mem_standsFor.mp left with ⟨-, rfl⟩ | payload
  · rcases mem_standsFor.mp right with ⟨-, same⟩ | payload
    · exact Registration.interface.inj same
    · cases isPayload_of_mem_payloadsOf payload
  · rcases mem_standsFor.mp right with ⟨-, rfl⟩ | payload'
    · cases isPayload_of_mem_payloadsOf payload
    · obtain ⟨c, t, name, args, stands⟩ := shape_of_mem_payloadsOf payload
      obtain ⟨c', t', name', args', stands'⟩ := shape_of_mem_payloadsOf payload'
      obtain ⟨rfl, rfl⟩ := ofCapability_injective stands stands'
      obtain ⟨iName, iArgs, iNullable, iRank⟩ := i
      obtain ⟨jName, jArgs, jNullable, jRank⟩ := j
      simp_all

/-! ### Facts and plans -/

namespace Facts

/-- What a class adds to its marked ancestor: its tracked interfaces and its payloads. -/
def introduced (f : Facts) : List Registration :=
  f.markedInterfaces.map .interface ++ f.capabilities.payloads

/-- The interfaces that a type has and its marked ancestor has not. -/
def ownInterfaces (host : Host) (f : Facts) : List TypeRef :=
  (host.allInterfaces f.type).filter fun i =>
    !((f.markedAncestor.map host.allInterfaces).getD []).contains i

theorem mem_introduced_ofDecl (host : Host) (index : MarkerIndex) (marker : Marker) (d : TypeDecl)
    (track : Option TrackOptions) (singleton : Option SingletonOptions) (r : Registration) :
    r ∈ (ofDecl host index marker d track singleton).introduced ↔
      ∃ i ∈ (ofDecl host index marker d track singleton).ownInterfaces host,
        r ∈ standsFor index i := by
  have interfaces : (ofDecl host index marker d track singleton).markedInterfaces
      = ((ofDecl host index marker d track singleton).ownInterfaces host).filter
          index.isTrackedInterface := rfl
  have capabilities : (ofDecl host index marker d track singleton).capabilities
      = .ofInterfaces ((ofDecl host index marker d track singleton).ownInterfaces host) := rfl
  rw [introduced, List.mem_append, interfaces, capabilities, Capabilities.mem_payloads_ofInterfaces]
  simp only [List.mem_map, List.mem_filter, mem_standsFor]
  constructor
  · rintro (⟨i, ⟨own, tracked⟩, rfl⟩ | ⟨i, own, stands⟩)
    · exact ⟨i, own, .inl ⟨tracked, rfl⟩⟩
    · exact ⟨i, own, .inr stands⟩
  · rintro ⟨i, own, ⟨tracked, rfl⟩ | stands⟩
    · exact .inl ⟨i, ⟨own, tracked⟩, rfl⟩
    · exact .inr ⟨i, own, stands⟩

theorem interface_mem_enable (f : Facts) (t : TypeRef) :
    .interface t ∈ f.enable ↔ .interface t ∈ f.introduced := by
  have bare : .interface t ∉ f.trackedRegistrations := by
    simp [trackedRegistrations, apply_ite (Registration.interface t ∈ ·)]
  have noPayload : .interface t ∉ f.capabilities.payloads := by simp [Capabilities.payloads]
  simp [enable, introduced, noPayload, apply_ite (Registration.interface t ∈ ·), bare]

theorem payload_mem_enable (f : Facts) {r : Registration} (payload : r.isPayload) :
    r ∈ f.enable ↔ r ∈ f.introduced ∧ f.isTracked := by
  have tracked : r ∈ f.trackedRegistrations ↔ r ∈ f.capabilities.payloads := by
    cases r with
    | unmanagedData t | customStorage t | lookupById t =>
      simp only [trackedRegistrations, Capabilities.payloads, List.mem_append]
      split <;> split <;> simp
    | _ => cases payload
  cases r with
  | unmanagedData t | customStorage t | lookupById t =>
    by_cases isTracked : f.isTracked
    · simp [enable, introduced, isTracked, tracked]
    · simp [enable, introduced, isTracked]
  | _ => cases payload

/-- What a class registers of interfaces and payloads: what it introduces, payloads only if it is
tracked. -/
theorem mem_enable_iff (f : Facts) {r : Registration} (owed : r.isOwed) :
    r ∈ f.enable ↔ r ∈ f.introduced ∧ (r.isPayload → f.isTracked) := by
  by_cases payload : r.isPayload
  · rw [payload_mem_enable f payload]
    exact and_congr_right fun _ => ⟨fun tracked _ => tracked, fun h => h payload⟩
  · obtain ⟨t, rfl⟩ : ∃ t, r = .interface t := by
      cases r with
      | interface t => exact ⟨t, rfl⟩
      | _ => exact absurd owed payload
    rw [interface_mem_enable]
    exact ⟨fun mem => ⟨mem, fun absent => absurd absent payload⟩, fun h => h.1⟩

theorem not_isInterface {f : Facts} (isClass : f.kind = .class) : ¬f.isInterface := by
  rw [isInterface, isClass]
  decide

theorem facts_plan (f : Facts) (settings : Settings) : (f.plan settings).facts = f := by
  rw [plan]
  split
  · rfl
  · rfl

theorem enable_plan (f : Facts) (settings : Settings) :
    (f.plan settings).enable = if f.isInterface then [] else f.enable := by
  rw [plan]
  split
  · rfl
  · rfl

end Facts

theorem facts_of_extract {host : Host} {index : MarkerIndex} {token : Token} {s : Symbol}
    {marker : Marker} {facts : Facts}
    (extracted : Facts.extract host index token s marker = .ok facts) :
    ∃ d track singleton, host.declaration? s = some d ∧
      facts = Facts.ofDecl host index marker d track singleton := by
  rw [Facts.extract] at extracted
  split at extracted
  · cases extracted
  · next d declared =>
    split at extracted
    · cases extracted
    · split at extracted
      · cases extracted
      · split at extracted
        · cases extracted
        · cases first : Facts.readOptions .track TrackOptions.read d with
          | error e =>
            rw [first] at extracted
            cases extracted
          | ok track =>
            cases second : Facts.readOptions .singleton SingletonOptions.read d with
            | error e =>
              rw [first, second] at extracted
              cases extracted
            | ok singleton =>
              rw [first, second] at extracted
              cases extracted
              exact ⟨d, track, singleton, declared, rfl⟩

end Marksmith

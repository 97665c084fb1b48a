import Marksmith.Proofs.Host.TypeTexts
import Marksmith.Proofs.Pass.Unbraced
import Marksmith.Proofs.Source.Calls
import Marksmith.Proofs.Tracking.Lifecycle

/-!
Unregistering undoes registering. What a disabled instance unregisters from is what it registered
with when it was enabled, in reverse, but for the owning registry, which comes first as it yields the
slot that others ask for.

* `Facts.nodup_enable`: nothing is registered twice;
* `Facts.disable_eq`, `Facts.disable_perm`: the order of the two lists;
* `countP_enableLines`, `countP_disableLines`: each registration makes one call on its registry, and
  one call on the same registry undoes it;
* `registry_inj`: with unpunctuated names, different registrations have different registries;
* `undone_of_plan`: all of this for the plans of a pass.

`not_calledOnce_punctuated` is a project with names that are no identifiers, in which two tracked
interfaces share the text of their registries.
-/

namespace Marksmith

open Syntax (TypeRef)

/-! ### Nothing is registered twice -/

namespace Capabilities

/-- No capability is listed twice. -/
structure Distinct (c : Capabilities) : Prop where
  unmanagedData : c.unmanagedData.Nodup
  customStorage : c.customStorage.Nodup
  findById : c.findById.Nodup

theorem nodup_addNew {t : TypeRef} {ts : List TypeRef} (distinct : ts.Nodup) :
    (addNew t ts).Nodup := by
  rw [addNew]
  split
  · exact distinct
  · next fresh => exact distinct.append (List.nodup_singleton t) (by simpa using fresh)

theorem Distinct.add {c : Capabilities} (distinct : c.Distinct) (i : TypeRef) :
    (c.add i).Distinct := by
  obtain ⟨data, storage, ids⟩ := distinct
  rw [Capabilities.add]
  split
  · exact ⟨data, storage, ids⟩
  · exact ⟨nodup_addNew data, storage, ids⟩
  · exact ⟨data, storage, nodup_addNew ids⟩
  · exact ⟨data, nodup_addNew storage, ids⟩
  · exact ⟨data, storage, ids⟩

theorem distinct_ofInterfaces (is : List TypeRef) : (ofInterfaces is).Distinct := by
  have each : ∀ (is : List TypeRef) (c : Capabilities), c.Distinct → (is.foldl add c).Distinct := by
    intro is
    induction is with
    | nil => exact fun c distinct => distinct
    | cons i is ih => exact fun c distinct => ih _ (distinct.add i)
  exact each is {} ⟨List.nodup_nil, List.nodup_nil, List.nodup_nil⟩

end Capabilities

/-- The interfaces of a type are listed once, and the type itself is not among them. -/
theorem Host.nodup_allInterfaces (host : Host) (t : TypeRef) :
    (host.allInterfaces t).Nodup ∧ t ∉ host.allInterfaces t := by
  rw [allInterfaces]
  cases ends : host.allInterfacesWithin? host.stepLimit [t] [t] with
  | none => exact ⟨List.nodup_nil, List.not_mem_nil⟩
  | some found =>
    obtain ⟨all, explored⟩ := exists_explored ends (List.Subset.refl _)
      fun s met idle => absurd met idle
    exact ⟨explored.nodup, fun mem => explored.fresh t mem List.mem_cons_self⟩

namespace Registration

/-- The place of a kind of registrations in the list of an enabled instance. -/
def place : Registration → Nat
  | base => 0
  | singleton => 1
  | instances => 2
  | interface _ => 3
  | unmanagedData _ => 4
  | customStorage _ => 5
  | lookupById _ => 6
  | transformAccess => 7
  | instanceIds => 8

/-- Registrations that are listed once, with their places in a range. -/
structure Within (low high : Nat) (rs : List Registration) : Prop where
  nodup : rs.Nodup
  place : ∀ r ∈ rs, low ≤ r.place ∧ r.place < high

theorem within_single (r : Registration) (on : Bool) :
    Within r.place (r.place + 1) (if on then [r] else []) := by
  cases on with
  | false => exact ⟨List.nodup_nil, List.forall_mem_nil _⟩
  | true =>
    refine ⟨List.nodup_singleton r, List.forall_mem_singleton.mpr ?_⟩
    exact ⟨Nat.le_refl _, Nat.lt_succ_self _⟩

theorem within_map {f : TypeRef → Registration} {n : Nat} {ts : List TypeRef} (once : ts.Nodup)
    (injective : ∀ t u, f t = f u → t = u) (places : ∀ t, (f t).place = n) :
    Within n (n + 1) (ts.map f) := by
  refine ⟨once.map injective, List.forall_mem_map.mpr fun t _ => ?_⟩
  rw [places t]
  exact ⟨Nat.le_refl _, Nat.lt_succ_self _⟩

/-- What stands in two ranges, one behind the other, has no element in common. -/
theorem Within.append {low middle high : Nat} {rs others : List Registration}
    (first : Within low middle rs) (second : Within middle high others) (le : low ≤ middle)
    (le' : middle ≤ high) : Within low high (rs ++ others) where
  nodup := by
    refine first.nodup.append second.nodup fun r here there => ?_
    exact absurd (first.place r here).2 (Nat.not_lt.mpr (second.place r there).1)
  place := by
    refine List.forall_mem_append.mpr ⟨fun r here => ?_, fun r there => ?_⟩
    · exact ⟨(first.place r here).1, Nat.lt_of_lt_of_le (first.place r here).2 le'⟩
    · exact ⟨Nat.le_trans le (second.place r there).1, (second.place r there).2⟩

end Registration

namespace Facts

open Registration (Within within_single within_map)

variable {f : Facts}

/-- The interfaces and the capabilities of a declaration are listed once. -/
structure Distinct (f : Facts) : Prop where
  interfaces : f.markedInterfaces.Nodup
  capabilities : f.capabilities.Distinct
  /-- A type is no interface of its own. -/
  apart : f.type ∉ f.markedInterfaces

theorem distinct_ofDecl (host : Host) (index : MarkerIndex) (marker : Marker) (d : TypeDecl)
    (track : Option TrackOptions) (singleton : Option SingletonOptions) :
    (ofDecl host index marker d track singleton).Distinct := by
  obtain ⟨nodup, apart⟩ := host.nodup_allInterfaces d.selfType
  refine ⟨(nodup.filter _).filter _, Capabilities.distinct_ofInterfaces _, ?_⟩
  intro mem
  exact apart (List.mem_filter.mp (List.mem_filter.mp mem).1).1

theorem within_trackedRegistrations (distinct : f.Distinct) :
    Within 4 9 f.trackedRegistrations := by
  obtain ⟨-, ⟨data, storage, ids⟩, -⟩ := distinct
  have payloads : Within 4 6 (f.capabilities.unmanagedData.map .unmanagedData ++
      f.capabilities.customStorage.map .customStorage) :=
    (within_map data (fun _ _ => Registration.unmanagedData.inj) fun _ => rfl).append
      (within_map storage (fun _ _ => Registration.customStorage.inj) fun _ => rfl)
      (by decide) (by decide)
  have lookups := within_map ids (fun _ _ => Registration.lookupById.inj) fun _ => rfl
  exact ((payloads.append lookups (by decide) (by decide)).append
    (within_single .transformAccess _) (by decide) (by decide)).append
    (within_single .instanceIds _) (by decide) (by decide)

/-- Nothing is registered twice. -/
theorem nodup_enable (distinct : f.Distinct) : f.enable.Nodup := by
  have interfaces := within_map distinct.interfaces (fun _ _ => Registration.interface.inj)
    fun _ => rfl
  have tracked : Within 4 9 (if f.isTracked then f.trackedRegistrations else []) := by
    split
    · exact within_trackedRegistrations distinct
    · exact ⟨List.nodup_nil, List.forall_mem_nil _⟩
  have owners : Within 0 2 ((if f.markedAncestor.isSome then [.base] else []) ++
      (if f.isSingleton then [.singleton] else [])) :=
    (within_single .base _).append (within_single .singleton _) (by decide) (by decide)
  have whole := ((owners.append (within_single .instances f.isTracked) (by decide)
    (by decide)).append interfaces (by decide) (by decide)).append tracked (by decide) (by decide)
  exact whole.nodup

theorem owner_ne_base : f.owner ≠ .base := by
  rw [owner]
  split
  · exact Registration.noConfusion
  · exact Registration.noConfusion

theorem owner_mem_enable (marked : f.isTracked ∨ f.isSingleton) : f.owner ∈ f.enable := by
  rw [owner]
  by_cases tracked : f.isTracked
  · simp [enable, tracked]
  · simp [enable, tracked, marked.resolve_left tracked]

/-- The owning registration comes first, then the others in reverse. -/
theorem disable_eq (distinct : f.Distinct) :
    f.disable = f.owner :: (f.enable.erase f.owner).reverse := by
  rw [disable, (nodup_enable distinct).erase_eq_filter, List.filter_reverse]
  congr 3
  funext r
  rw [bne, beq_eq_decide, decide_not]

/-- What is unregistered is what is registered. -/
theorem disable_perm (distinct : f.Distinct) (marked : f.isTracked ∨ f.isSingleton) :
    f.disable.Perm f.enable := by
  rw [disable_eq distinct]
  have rest := (List.reverse_perm (f.enable.erase f.owner)).cons f.owner
  exact rest.trans (List.perm_cons_erase (owner_mem_enable marked)).symm

/-- The base class registers first and unregisters last. -/
theorem base_outermost (base : .base ∈ f.enable) :
    f.enable.head? = some .base ∧ f.disable.getLast? = some .base := by
  have marked : f.markedAncestor.isSome := by
    have later : .base ∉ f.trackedRegistrations := by simp [trackedRegistrations]
    simpa [enable, apply_ite (Registration.base ∈ ·), later] using base
  obtain ⟨rest, front⟩ : ∃ rest, f.enable = .base :: rest := by
    simp only [enable, if_pos marked, List.append_assoc]
    exact ⟨_, rfl⟩
  have kept : [Registration.base].filter (fun r => r ≠ f.owner) = [.base] :=
    List.filter_cons_of_pos (decide_eq_true owner_ne_base.symm)
  refine ⟨by rw [front, List.head?_cons], ?_⟩
  rw [disable, front, List.reverse_cons, List.filter_append, kept, ← List.cons_append]
  exact List.getLast?_append_of_ne_nil _ (List.cons_ne_nil _ _)

end Facts

/-! ### Registries -/

namespace Registration

/-- The runtime's name for the kind of registry that a registration is made with. -/
def api : Registration → String
  | base => ""
  | singleton => Runtime.singleton
  | instances | interface _ => Runtime.instances
  | unmanagedData _ => Runtime.unmanagedData
  | customStorage _ => Runtime.customStorage
  | lookupById _ => Runtime.lookupById
  | transformAccess => Runtime.transformAccess
  | instanceIds => Runtime.instanceIds

/-- The type arguments of the registry that a registration is made with. -/
def typeArgs (self : TypeRef) : Registration → List TypeRef
  | base => []
  | singleton | instances | transformAccess | instanceIds => [self]
  | interface t => [t]
  | unmanagedData t | customStorage t | lookupById t => [self, t]

/-- The kinds of registries. -/
def apis : List String :=
  [Runtime.singleton, Runtime.instances, Runtime.unmanagedData, Runtime.customStorage,
    Runtime.lookupById, Runtime.transformAccess, Runtime.instanceIds]

theorem api_mem_apis {r : Registration} (proper : r ≠ .base) : r.api ∈ apis := by
  cases r <;> simp_all [api, apis]

theorem not_isMark_api {r : Registration} (proper : r ≠ .base) :
    ∀ c ∈ r.api.toList, (!TypeRef.isMark c) = true := by
  have each : ∀ name ∈ apis, (Text.bytes name).all fun b =>
      b < 128 ∧ (!TypeRef.isMark (Char.ofUInt8 b)) = true := by
    decide +kernel
  exact Text.forall_mem_toList_of_bytes (each r.api (api_mem_apis proper))

theorem head?_api {r : Registration} (proper : r ≠ .base) : r.api.toList.head? = some 'g' := by
  have each : ∀ name ∈ apis, (Text.bytes name).all (· < 128) ∧
      ((Text.bytes name).map Char.ofUInt8).head? = some 'g' := by
    decide +kernel
  obtain ⟨ascii, front⟩ := each r.api (api_mem_apis proper)
  rw [Text.toList_eq_map_bytes ascii, front]

theorem typeArgs_ne_nil {self : TypeRef} {r : Registration} (proper : r ≠ .base) :
    r.typeArgs self ≠ [] := by
  cases r <;> simp_all [typeArgs]

/-- Registrations with the same registry are the same, unless a type is an interface of its own. -/
theorem eq_of_api {self : TypeRef} {r r' : Registration} (apart : r ≠ .interface self)
    (apart' : r' ≠ .interface self) (apis : r.api = r'.api)
    (args : r.typeArgs self = r'.typeArgs self) : r = r' := by
  cases r <;> cases r' <;>
    simp_all [api, typeArgs, Runtime.singleton, Runtime.instances, Runtime.unmanagedData,
      Runtime.customStorage, Runtime.lookupById, Runtime.transformAccess, Runtime.instanceIds]

end Registration

namespace TrackingPlan

variable {host : Host} {plan : TrackingPlan}

theorem toList_registry {r : Registration} (proper : r ≠ .base) :
    (plan.registry host r).toList
      = r.api.toList ++ host.qualifiedArgs (r.typeArgs plan.facts.type) := by
  cases r <;>
    simp_all [registry, Registration.api, Registration.typeArgs, Runtime.generic, self,
      Host.typeText, Host.qualifiedArgs, Host.qualifiedMore, String.intercalate_singleton,
      String.intercalate_cons_cons]

/-- With unpunctuated names, different registrations have different registries. -/
theorem registry_inj {r r' : Registration} (proper : r ≠ .base) (proper' : r' ≠ .base)
    (apart : r ≠ .interface plan.facts.type) (apart' : r' ≠ .interface plan.facts.type)
    (made : ∀ t ∈ r.typeArgs plan.facts.type, t.MadeOf Symbol.Unpunctuated)
    (made' : ∀ t ∈ r'.typeArgs plan.facts.type, t.MadeOf Symbol.Unpunctuated)
    (same : plan.registry host r = plan.registry host r') : r = r' := by
  have letters := congrArg String.toList same
  rw [toList_registry proper, toList_registry proper', TypeRef.qualifiedArgs_eq_spelled,
    TypeRef.qualifiedArgs_eq_spelled] at letters
  have opened : ∀ {ts : List TypeRef}, ts ≠ [] →
      ∀ c ∈ (TypeRef.spelledArgs host.qualifiedName ts).head?, ¬(!TypeRef.isMark c) = true := by
    intro ts some c first
    cases ts with
    | nil => exact absurd rfl some
    | cons t ts =>
      cases first
      decide
  obtain ⟨apis, args⟩ := run_inj (Registration.not_isMark_api proper)
    (Registration.not_isMark_api proper') (opened (Registration.typeArgs_ne_nil proper))
    (opened (Registration.typeArgs_ne_nil proper')) letters
  have behind := congrArg (· ++ []) args
  obtain ⟨lists, -⟩ := TypeRef.spelledArgs_append_inj Host.separates_qualifiedName made made'
    (by simp) (by simp) behind
  exact Registration.eq_of_api apart apart' (String.toList_injective apis) lists

/-! ### Statements -/

open Source (calls expression arguments)

/-- The statements of the method that an enabled instance calls. -/
def enableStatements (host : Host) (plan : TrackingPlan) : List String :=
  plan.enable.flatMap (plan.enableLines host)

/-- The statements of the method that a disabled instance calls. -/
def disableStatements (host : Host) (plan : TrackingPlan) : List String :=
  plan.disable.flatMap (plan.disableLines host)

/-- Whether a registration is made with a registry of this text. -/
def Uses (host : Host) (plan : TrackingPlan) (registry : String) (r : Registration) : Prop :=
  r ≠ .base ∧ plan.registry host r = registry

instance (registry : String) : DecidablePred (Uses host plan registry) :=
  fun _ => inferInstanceAs (Decidable (_ ∧ _))

/-- What is left of a statement that begins with a registry is the statement itself. -/
theorem expression_of_registry {r : Registration} (proper : r ≠ .base) {statement : String}
    {rest : List Char} (parts : statement.toList = (plan.registry host r).toList ++ rest) :
    expression statement = (plan.registry host r).toList ++ rest := by
  have front : statement.toList.head? = some 'g' := by
    rw [parts, toList_registry proper, List.append_assoc, List.head?_append,
      Registration.head?_api proper, Option.some_or]
  rw [Source.expression_eq (by rw [front]; decide), parts]

/-- A statement that calls a method of the registry of a registration calls it of no other one. -/
theorem countP_call {r : Registration} (proper : r ≠ .base) {registry method statement : String}
    {args : List Char} (last : '(' ∉ args)
    (here : expression statement = Source.callee (plan.registry host r) method ++ '(' :: args) :
    [statement].countP (calls registry method) = if Uses host plan registry r then 1 else 0 := by
  have uses : Uses host plan registry r ↔ plan.registry host r = registry := and_iff_right proper
  rw [List.countP_singleton, Source.calls_eq last here]
  simp only [uses, decide_eq_true_iff]

/-- The same for a statement that begins with the registry. -/
theorem countP_statement {r : Registration} (proper : r ≠ .base)
    {registry method statement : String} {args : List Char} (last : '(' ∉ args)
    (parts : statement.toList
      = (plan.registry host r).toList ++ ('.' :: method.toList ++ '(' :: args)) :
    [statement].countP (calls registry method) = if Uses host plan registry r then 1 else 0 := by
  refine countP_call proper last ?_
  rw [expression_of_registry proper parts, Source.callee, List.append_assoc]

theorem paren_notMem_toString (n : Int) : '(' ∉ (toString n).toList := by
  have digits : ∀ n : Nat, '(' ∉ (toString n).toList := by
    intro n mem
    rw [Nat.toString_eq_repr, Nat.toList_repr] at mem
    exact absurd (Nat.isDigit_of_mem_toDigits (by decide) (by decide) mem) (by decide)
  cases n with
  | ofNat n => exact digits n
  | negSucc n =>
    have parts : toString (Int.negSucc n) = "-" ++ toString (n + 1) := rfl
    rw [parts, String.toList_append, List.mem_append, not_or]
    exact ⟨by decide, digits (n + 1)⟩

/-- A statement whose result is assigned calls the registry behind the target. -/
theorem countP_assigned {r : Registration} (proper : r ≠ .base) {target args : List Char}
    (listed : target ∈ Source.targets) {registry method statement : String} (last : '(' ∉ args)
    (parts : statement.toList
      = target ++ ((plan.registry host r).toList ++ ('.' :: method.toList ++ '(' :: args))) :
    [statement].countP (calls registry method) = if Uses host plan registry r then 1 else 0 := by
  refine countP_call proper last ?_
  rw [Source.expression_assigned listed parts, Source.callee, List.append_assoc]

theorem countP_if_eq_zero {registry method statement : String} (on : Bool)
    (none : '(' ∉ statement.toList) :
    (if on then [statement] else []).countP (calls registry method) = 0 := by
  split
  · rw [List.countP_singleton, Source.calls_eq_false_of_notMem none]
    rfl
  · rfl

theorem countP_baseCall {registry method statement : String} (front : List Char)
    (parts : statement.toList = front ++ '(' :: ");".toList) (begins : front.head? ≠ some 'i')
    (other : ¬ '.' :: method.toList <:+ front) :
    [statement].countP (calls registry method)
      = if Uses host plan registry .base then 1 else 0 := by
  have unused : ¬Uses host plan registry .base := fun uses => uses.1 rfl
  have last : '(' ∉ ");".toList := by decide
  have here : expression statement = front ++ '(' :: ");".toList := by
    rw [Source.expression_eq, parts]
    rw [parts]
    cases front with
    | nil => decide
    | cons c front => exact begins
  rw [if_neg unused, List.countP_singleton, Source.calls_eq_false front last here other]
  rfl

/-- Each registration makes one call on its registry, and no other one. -/
theorem countP_enableLines (registry : String) (r : Registration) :
    (plan.enableLines host r).countP (calls registry "Register")
      = if Uses host plan registry r then 1 else 0 := by
  have this : '(' ∉ "this);".toList := by decide
  have bare : ∀ r : Registration, r ≠ .base →
      [plan.registry host r ++ ".Register(this);"].countP (calls registry "Register")
        = if Uses host plan registry r then 1 else 0 :=
    fun r proper => countP_statement proper this String.toList_append
  cases r with
  | base => exact countP_baseCall "base.OnEnableINTERNAL".toList rfl (by decide) (by decide)
  | singleton =>
    let strategy := (plan.facts.singleton.getD {}).strategy
    have last : '(' ∉ ("this, " ++ (Runtime.singletonStrategy ++ ("." ++ (strategy.text ++
        ");")))).toList := by
      cases strategy <;> decide
    refine countP_statement Registration.noConfusion last ?_
    simp only [String.toList_append, List.append_assoc]
    rfl
  | instances =>
    rw [enableLines, List.countP_append, countP_if_eq_zero _ (by decide), Nat.zero_add]
    split
    · have listed : (indexField ++ " = ").toList ∈ Source.targets := by decide
      refine countP_assigned Registration.noConfusion listed this ?_
      rw [String.toList_append, String.toList_append, List.append_assoc]
      rfl
    · rw [String.empty_append]
      exact bare .instances Registration.noConfusion
  | transformAccess =>
    let options := plan.facts.trackOptions
    have last : '(' ∉ ("this, initialCapacity: " ++ (toString options.transformInitialCapacity ++
        (", desiredJobCount: " ++ (toString options.transformDesiredJobCount ++ ");")))).toList := by
      simp only [String.toList_append, List.mem_append, not_or]
      exact ⟨by decide, paren_notMem_toString _, by decide, paren_notMem_toString _, by decide⟩
    refine countP_statement Registration.noConfusion last ?_
    simp only [String.toList_append, List.append_assoc]
    rfl
  | interface t | unmanagedData t | customStorage t | lookupById t | instanceIds =>
    exact bare _ Registration.noConfusion

/-- One call on the registry of a registration undoes it, and no other one. -/
theorem countP_disableLines (registry : String) (r : Registration) :
    (plan.disableLines host r).countP (calls registry "Unregister")
      = if Uses host plan registry r then 1 else 0 := by
  have this : '(' ∉ "this);".toList := by decide
  have slot : '(' ∉ "index);".toList := by decide
  have both : '(' ∉ "this, index);".toList := by decide
  cases r with
  | base => exact countP_baseCall "base.OnDisableINTERNAL".toList rfl (by decide) (by decide)
  | instances =>
    have listed : "int index = ".toList ∈ Source.targets := by decide
    have first : ["int index = " ++ plan.registry host .instances ++ ".Unregister(this);"].countP
        (calls registry "Unregister") = if Uses host plan registry .instances then 1 else 0 := by
      refine countP_assigned Registration.noConfusion listed this ?_
      rw [String.toList_append, String.toList_append, List.append_assoc]
      rfl
    rw [disableLines, List.countP_append, List.countP_append, first,
      countP_if_eq_zero _ (by decide), countP_if_eq_zero _ (by decide), Nat.add_zero]
  | unmanagedData t => exact countP_statement Registration.noConfusion both String.toList_append
  | transformAccess | instanceIds =>
    exact countP_statement Registration.noConfusion slot String.toList_append
  | singleton | interface t | customStorage t | lookupById t =>
    exact countP_statement Registration.noConfusion this String.toList_append

theorem countP_flatMap_of_each {α β : Type} {f : α → List β} {p : β → Bool} {q : α → Prop}
    [DecidablePred q] (each : ∀ a, (f a).countP p = if q a then 1 else 0) (as : List α) :
    (as.flatMap f).countP p = as.countP fun a => q a := by
  induction as with
  | nil => rfl
  | cons a as ih =>
    rw [List.flatMap_cons, List.countP_append, each, ih, List.countP_cons, Nat.add_comm]
    simp only [decide_eq_true_iff]

theorem countP_eq_one {α : Type} [DecidableEq α] {as : List α} (nodup : as.Nodup) {p : α → Bool}
    {a : α} (mem : a ∈ as) (here : p a) (only : ∀ b ∈ as, p b → b = a) : as.countP p = 1 := by
  have same : as.countP p = as.count a := by
    refine List.countP_congr fun b there => ?_
    rw [beq_iff_eq]
    exact ⟨only b there, fun same => same ▸ here⟩
  rw [same, List.count_eq_one_of_mem nodup mem]

theorem countP_enableStatements (registry : String) :
    (enableStatements host plan).countP (calls registry "Register")
      = plan.enable.countP fun r => Uses host plan registry r :=
  countP_flatMap_of_each (countP_enableLines registry) plan.enable

theorem countP_disableStatements (registry : String) :
    (disableStatements host plan).countP (calls registry "Unregister")
      = plan.disable.countP fun r => Uses host plan registry r :=
  countP_flatMap_of_each (countP_disableLines registry) plan.disable

/-! ### The slot of an instance -/

/-- Whether a statement declares the variable that holds the slot of an instance. -/
def DeclaresSlot (statement : String) : Prop := "int index = ".toList <+: statement.toList

/-- Whether a statement hands over the slot of an instance. -/
def HandsOverSlot (statement : String) : Prop := "index".toList <:+: arguments statement

theorem not_handsOverSlot {statement : String} (front : List Char)
    (parts : statement.toList = front ++ '(' :: "this);".toList) : ¬HandsOverSlot statement := by
  have last : '(' ∉ "this);".toList := by decide
  rw [HandsOverSlot, Source.arguments_eq last parts]
  decide

/-- Without a registry of instances, no statement hands over a slot. -/
theorem not_handsOverSlot_of_place {r : Registration} (early : r.place < 4)
    (other : r ≠ .instances) : ∀ l ∈ plan.disableLines host r, ¬HandsOverSlot l := by
  have bare : ∀ registry : String, ¬HandsOverSlot (registry ++ ".Unregister(this);") := by
    intro registry
    refine not_handsOverSlot (registry.toList ++ ".Unregister".toList) ?_
    rw [String.toList_append, List.append_assoc]
    rfl
  cases r with
  | base =>
    rw [disableLines, List.forall_mem_singleton]
    show ¬"index".toList <:+: arguments "base.OnDisableINTERNAL();"
    decide
  | instances => exact absurd rfl other
  | singleton | interface => exact List.forall_mem_singleton.mpr (bare _)
  | _ => simp [Registration.place] at early

/-- The registry of instances yields the slot. -/
theorem disableLines_instances :
    ∃ first rest, plan.disableLines host .instances = first :: rest ∧ DeclaresSlot first ∧
      ¬HandsOverSlot first := by
  refine ⟨_, _, rfl, ⟨(plan.registry host .instances).toList ++ ".Unregister(this);".toList, ?_⟩,
    not_handsOverSlot ("int index = ".toList ++ (plan.registry host .instances).toList
      ++ ".Unregister".toList) ?_⟩
  · rw [String.toList_append, String.toList_append, List.append_assoc]
  · rw [String.toList_append, String.toList_append, List.append_assoc _ _ ('(' :: _)]
    rfl

/-! ### Plans of a pass -/

/-- The registry that yields the slot of an instance. -/
def ownerOf (tracked : Bool) : Registration := if tracked then .instances else .singleton

/-- Unregistering undoes registering. -/
structure Undone (host : Host) (plan : TrackingPlan) (tracked : Bool) : Prop where
  methods : plan.lifecyclePieces host
    = plan.lifecycleMethod "OnEnableINTERNAL" (enableStatements host plan) ++
      .blankLine :: plan.lifecycleMethod "OnDisableINTERNAL" (disableStatements host plan)
  perm : plan.disable.Perm plan.enable
  ownerFirst : plan.disable
    = ownerOf tracked :: (plan.enable.erase (ownerOf tracked)).reverse
  baseOutermost : .base ∈ plan.enable →
    plan.enable.head? = some .base ∧ plan.disable.getLast? = some .base
  slotDeclared : ∀ before statement after,
    disableStatements host plan = before ++ statement :: after → HandsOverSlot statement →
      ∃ earlier ∈ before, DeclaresSlot earlier
  /-- As many calls unregister from a registry as register with it. -/
  balanced : ∀ registry, (disableStatements host plan).countP (calls registry "Unregister")
    = (enableStatements host plan).countP (calls registry "Register")
  /-- With unpunctuated names, it is one call. -/
  calledOnce : host.Unpunctuated → ∀ registry,
    (enableStatements host plan).any (calls registry "Register") →
      (disableStatements host plan).countP (calls registry "Unregister") = 1

end TrackingPlan

/-- The types in the registrations of a declaration are made of what its own type is made of and of
what is covered. -/
theorem Host.Covers.madeOf_typeArgs {host : Host} {Q : Symbol → Prop} (covers : host.Covers Q)
    {index : MarkerIndex} {marker : Marker} {d : TypeDecl} {track : Option TrackOptions}
    {singleton : Option SingletonOptions} (self : d.selfType.MadeOf Q) {r : Registration}
    (mem : r ∈ (Facts.ofDecl host index marker d track singleton).enable) :
    ∀ t ∈ r.typeArgs d.selfType, t.MadeOf Q := by
  by_cases owed : r.isOwed
  · obtain ⟨i, own, stands⟩ := (Facts.mem_introduced_ofDecl ..).mp
      ((Facts.mem_enable_iff _ owed).mp mem).1
    have made : i.MadeOf Q := covers.madeOf_allInterfaces self (List.mem_filter.mp own).1
    rcases mem_standsFor.mp stands with ⟨-, rfl⟩ | payload
    · exact List.forall_mem_singleton.mpr made
    · obtain ⟨c, t, -, args, given⟩ := shape_of_mem_payloadsOf payload
      have inner : t.MadeOf Q := made.arg (args ▸ List.mem_cons_self)
      cases c with
      | instanceIndex => cases given
      | unmanagedData | customStorage | findById =>
        rw [List.mem_singleton.mp given]
        exact List.forall_mem_cons.mpr ⟨self, List.forall_mem_singleton.mpr inner⟩
  · cases r with
    | base => exact List.forall_mem_nil _
    | singleton | instances | transformAccess | instanceIds =>
      exact List.forall_mem_singleton.mpr self
    | interface | unmanagedData | customStorage | lookupById => exact absurd rfl owed

namespace TrackingPlan

variable {p : Pass} {limit : Nat} {model : Model} {s : Symbol} {d : TypeDecl} {plan : TrackingPlan}

/-- What the plan for a marked class is made from. -/
structure Founded (p : Pass) (s : Symbol) (plan : TrackingPlan) : Prop where
  enable : plan.enable = plan.facts.enable
  disable : plan.disable = plan.facts.disable
  distinct : plan.facts.Distinct
  tracked : plan.facts.isTracked = p.index.tracked.contains s
  marked : plan.facts.isTracked ∨ plan.facts.isSingleton
  unpunctuated : p.host.Unpunctuated → ∀ r ∈ plan.facts.enable,
    ∀ t ∈ r.typeArgs plan.facts.type, t.MadeOf Symbol.Unpunctuated

theorem founded_of_marked (accepted : Host.ofModel limit model = .ok p.host) (marked : p.IsMarked s)
    (declared : p.host.declaration? s = some d) (isClass : d.kind = .class)
    (ready : p.project.trackingPlan? s = some plan) : Founded p s plan := by
  obtain ⟨f, found, -, planned⟩ := Project.exists_facts_of_plan ready
  have facts : plan.facts = f := planned ▸ Facts.facts_plan f _
  have kind : f.kind = .class := (Project.kind_of_facts? found declared).1.trans isClass
  obtain ⟨-, enable, disable, -⟩ := Pass.plan_of_class kind p.project.settings
  rw [← planned] at enable disable
  have tracked : f.isTracked = p.index.tracked.contains s := by
    rw [Facts.isTracked, Project.track_of_facts? accepted rfl found, Option.isSome_map]
    rfl
  obtain ⟨e, _, _, denotes, -, -, same⟩ := Project.facts?_eq_some_iff.mp found
  refine ⟨facts ▸ enable, facts ▸ disable, ?_, facts ▸ tracked, ?_, fun names => ?_⟩
  · rw [facts, same]
    exact Facts.distinct_ofDecl ..
  · rw [Pass.IsMarked, Bool.or_eq_true] at marked
    rw [facts, tracked, Facts.isSingleton, Project.singleton_of_facts? accepted rfl found]
    exact marked
  · have self := names.madeOf_selfType (Host.symbol_of_declaration? denotes).1
    rw [facts, same]
    exact fun r mem => names.covers.madeOf_typeArgs self mem

theorem founded_of_plan (accepted : Host.ofModel limit model = .ok p.host)
    (job : ⟨.tracking, s⟩ ∈ p.jobs) (declared : p.host.declaration? s = some d)
    (isClass : d.kind = .class) (ready : p.project.trackingPlan? s = some plan) :
    Founded p s plan :=
  founded_of_marked accepted (Pass.mem_jobs_tracking.mp job).1 declared isClass ready

namespace Founded

variable (founded : Founded p s plan)

include founded

theorem perm : plan.disable.Perm plan.enable := by
  rw [founded.disable, founded.enable]
  exact Facts.disable_perm founded.distinct founded.marked

/-- The slot is handed over behind its declaration only. -/
theorem exists_declaresSlot {before after : List String} {statement : String}
    (split : disableStatements p.host plan = before ++ statement :: after)
    (hands : HandsOverSlot statement) : ∃ earlier ∈ before, DeclaresSlot earlier := by
  by_cases tracked : plan.facts.isTracked
  · obtain ⟨first, rest, lines, declares, keeps⟩ :
        ∃ first rest, plan.disableLines p.host .instances = first :: rest ∧ DeclaresSlot first ∧
          ¬HandsOverSlot first := disableLines_instances
    have owner : plan.facts.owner = .instances := if_pos tracked
    rw [disableStatements, founded.disable, Facts.disable, owner, List.flatMap_cons, lines,
      List.cons_append] at split
    cases before with
    | nil =>
      obtain ⟨rfl, -⟩ := List.cons.inj split
      exact absurd hands keeps
    | cons head before =>
      obtain ⟨rfl, -⟩ := List.cons.inj split
      exact ⟨first, List.mem_cons_self, declares⟩
  · -- Only tracked classes have registrations that need a slot.
    have early : ∀ r ∈ plan.enable, r.place < 4 ∧ r ≠ .instances := by
      rw [founded.enable]
      simp [Facts.enable, tracked, Registration.place, or_imp, forall_and]
    have mem : statement ∈ disableStatements p.host plan :=
      split ▸ List.mem_append_right _ List.mem_cons_self
    obtain ⟨r, listed, line⟩ := List.mem_flatMap.mp mem
    obtain ⟨place, other⟩ := early r (founded.perm.mem_iff.mp listed)
    exact absurd hands (not_handsOverSlot_of_place place other statement line)

theorem balanced (registry : String) :
    (disableStatements p.host plan).countP (Source.calls registry "Unregister")
      = (enableStatements p.host plan).countP (Source.calls registry "Register") := by
  rw [countP_disableStatements, countP_enableStatements]
  exact founded.perm.countP_eq _

/-- With unpunctuated names, one registration uses a registry. -/
theorem eq_of_uses (names : p.host.Unpunctuated) {registry : String} {r r' : Registration}
    (mem : r ∈ plan.enable) (mem' : r' ∈ plan.enable) (uses : Uses p.host plan registry r)
    (uses' : Uses p.host plan registry r') : r = r' := by
  rw [founded.enable] at mem mem'
  have apart : ∀ r ∈ plan.facts.enable, r ≠ .interface plan.facts.type := by
    rintro _ mem rfl
    refine founded.distinct.apart ?_
    have listed := (Facts.interface_mem_enable plan.facts plan.facts.type).mp mem
    simpa [Facts.introduced, Capabilities.payloads] using listed
  exact registry_inj uses.1 uses'.1 (apart r mem) (apart r' mem') (founded.unpunctuated names r mem)
    (founded.unpunctuated names r' mem') (uses.2.trans uses'.2.symm)

theorem calledOnce (names : p.host.Unpunctuated) {registry : String}
    (called : (enableStatements p.host plan).any (Source.calls registry "Register")) :
    (disableStatements p.host plan).countP (Source.calls registry "Unregister") = 1 := by
  have some := List.countP_pos_iff.mpr (List.any_eq_true.mp called)
  rw [countP_enableStatements, List.countP_pos_iff] at some
  obtain ⟨r, mem, uses⟩ := some
  have nodup : plan.enable.Nodup := founded.enable ▸ Facts.nodup_enable founded.distinct
  rw [founded.balanced, countP_enableStatements]
  refine countP_eq_one nodup mem uses fun r' mem' uses' => ?_
  exact founded.eq_of_uses names mem' mem (of_decide_eq_true uses') (of_decide_eq_true uses)

end Founded

/-- The plan for a marked class of the project undoes what it does. -/
theorem undone_of_plan (accepted : Host.ofModel limit model = .ok p.host)
    (job : ⟨.tracking, s⟩ ∈ p.jobs) (declared : p.host.declaration? s = some d)
    (isClass : d.kind = .class) (ready : p.project.trackingPlan? s = some plan) :
    Undone p.host plan (p.index.tracked.contains s) := by
  have founded := founded_of_plan accepted job declared isClass ready
  have owner : plan.facts.owner = ownerOf (p.index.tracked.contains s) := by
    rw [Facts.owner, ownerOf, founded.tracked]
  exact
    { methods := rfl
      perm := founded.perm
      ownerFirst := by
        rw [founded.disable, founded.enable, ← owner]
        exact Facts.disable_eq founded.distinct
      baseOutermost := by
        rw [founded.disable, founded.enable]
        exact Facts.base_outermost
      slotDeclared := fun _ _ _ => founded.exists_declaresSlot
      balanced := founded.balanced
      calledOnce := fun names _ => founded.calledOnce names }

/-- A tracked class below another one, which is a singleton and has a tracked interface and a
payload. -/
def knightlyModel : Model where
  types :=
    [ { name := "Game.Stats", kind := .struct },
      { name := "Game.IFoe", kind := .interface, attributes := [⟨"Track", []⟩] },
      { name := "Game.Hero", kind := .class, attributes := [⟨"Track", []⟩] },
      { name := "Game.Knight", kind := .class, base := some (.named "Hero"),
        attributes := [⟨"Track", []⟩, ⟨"Singleton", []⟩],
        interfaces := [.named "IFoe", .generic "Medicine.IUnmanagedData" [.named "Stats"]] } ]

/-- The pass over these declarations. -/
def knightlyPass : Pass := ⟨.withPrelude knightlyModel, {}⟩

/-- The plan for the knight undoes what it does, registry by registry. -/
theorem undone_knight :
    ∃ plan, knightlyPass.project.trackingPlan? ⟨"Game.Knight", 0⟩ = some plan ∧
      plan.enable = [.base, .singleton, .instances, .interface (.named "Game.IFoe"),
        .unmanagedData (.named "Game.Stats")] ∧
      knightlyPass.host.Unpunctuated ∧ Undone knightlyPass.host plan true := by
  have job : ⟨.tracking, ⟨"Game.Knight", 0⟩⟩ ∈ knightlyPass.jobs := by decide +kernel
  have plain : knightlyPass.host.Unpunctuated := by
    show knightlyPass.host.model.Unpunctuated
    decide +kernel
  have given : (knightlyPass.project.trackingPlan? ⟨"Game.Knight", 0⟩).map (·.enable)
      = some [.base, .singleton, .instances, .interface (.named "Game.IFoe"),
        .unmanagedData (.named "Game.Stats")] := by
    decide +kernel
  have kind : (knightlyPass.host.declaration? ⟨"Game.Knight", 0⟩).map (·.kind) = some .class := by
    decide +kernel
  obtain ⟨plan, ready, enable⟩ := Option.map_eq_some_iff.mp given
  obtain ⟨d, declared, isClass⟩ := Option.map_eq_some_iff.mp kind
  refine ⟨plan, ready, enable, plain, ?_⟩
  exact undone_of_plan (Host.ofModel_withPrelude rfl rfl) job declared isClass ready

/-- Interfaces whose names are no identifiers, and a class that has two types of the same text. -/
def punctuated : Model where
  types :=
    [ { name := "R.S<global::Y.W<global::R.Hero", kind := .class, attributes := [⟨"Track", []⟩],
        interfaces := [.generic "W" [.named "X"], .generic "S" [.named "Y.X"]] },
      { name := "R.S<global::Y.W", kind := .interface, typeParams := ["T"],
        attributes := [⟨"Track", []⟩] },
      { name := "R.S<global::Y.W<global::R.S", kind := .interface, typeParams := ["T"],
        attributes := [⟨"Track", []⟩] },
      { name := "R.S<global::Y.X", kind := .struct },
      { name := "Y.X", kind := .struct } ]

/-- The pass over these declarations. -/
def punctuatedPass : Pass := ⟨.withPrelude punctuated, {}⟩

/-- Two calls unregister from the registry that both interfaces share. -/
theorem not_calledOnce_punctuated :
    ¬∀ (limit : Nat) (model : Model) (p : Pass), Host.ofModel limit model = .ok p.host →
      ∀ (s : Symbol) (d : TypeDecl) (plan : TrackingPlan), ⟨.tracking, s⟩ ∈ p.jobs →
      p.host.declaration? s = some d → d.kind = .class → p.project.trackingPlan? s = some plan →
      ∀ registry, (enableStatements p.host plan).any (Source.calls registry "Register") →
        (disableStatements p.host plan).countP (Source.calls registry "Unregister") = 1 := by
  intro always
  have job : ⟨.tracking, ⟨"R.S<global::Y.W<global::R.Hero", 0⟩⟩ ∈ punctuatedPass.jobs := by
    decide +kernel
  have kind : (punctuatedPass.host.declaration? ⟨"R.S<global::Y.W<global::R.Hero", 0⟩).map (·.kind)
      = some .class := by
    decide +kernel
  let registry := "global::Medicine.Internal.Storage.Instances<" ++
    "global::R.S<global::Y.W<global::R.S<global::Y.X>>"
  have counted : (punctuatedPass.project.trackingPlan? ⟨"R.S<global::Y.W<global::R.Hero", 0⟩).map
      (fun plan => (plan.enable.countP fun r => Uses punctuatedPass.host plan registry r,
        plan.disable.countP fun r => Uses punctuatedPass.host plan registry r)) = some (2, 2) := by
    decide +kernel
  obtain ⟨d, declared, isClass⟩ := Option.map_eq_some_iff.mp kind
  obtain ⟨plan, ready, counts⟩ := Option.map_eq_some_iff.mp counted
  obtain ⟨twice, again⟩ := Prod.mk.inj counts
  rw [← countP_enableStatements] at twice
  rw [← countP_disableStatements] at again
  have called : (enableStatements punctuatedPass.host plan).any
      (Source.calls registry "Register") := by
    refine List.any_eq_true.mpr (List.countP_pos_iff.mp ?_)
    rw [twice]
    decide
  have once := always _ _ punctuatedPass (Host.ofModel_withPrelude rfl rfl) _ d plan job declared
    isClass ready registry called
  rw [again] at once
  cases once

end TrackingPlan

end Marksmith

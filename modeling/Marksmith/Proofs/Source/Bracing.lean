import Marksmith.Pass.Job
import Marksmith.Proofs.Host.Unbraced
import Marksmith.Proofs.Source.Nesting

/-!
Generated sources are nested if the names in them have no braces. Each kind of source is put
together from blocks and lines, and braces come from the blocks only; names, types and numbers in the
lines bring none.
-/

namespace Marksmith

open Text
open Source (Piece)
open Source.Piece

namespace Source.Piece

theorem braceless_attributeLine {name : String} (less : Unbraced name) :
    (attributeLine name).IsBraceless := by
  simp (disch := (refine .ofList ?_; decide)) only [attributeLine, IsBraceless, unbraced_append,
    Unbraced.part, less, and_self]

theorem unbraced_reference {name : String} (less : Unbraced name) : Unbraced (reference name) := by
  simp (disch := (refine .ofList ?_; decide)) only [reference, unbraced_append, Unbraced.part, less,
    and_self]

theorem nested_privateField {declaration : String} (less : Unbraced declaration) :
    Nested (privateField declaration) := by
  have line : Unbraced (declaration ++ ";") := unbraced_append.mpr ⟨less, .ofList (by decide)⟩
  have mark : Unbraced Runtime.nonSerialized := .ofList (by decide)
  exact .cons (braceless_attributeLine mark) (.braceless line)

theorem unbraced_inlining : Unbraced Runtime.aggressiveInlining :=
  unbraced_append.mpr ⟨.ofList (by decide), .ofList (by decide)⟩

theorem nested_getter {value : String} (less : Unbraced value) : Nested (getter value) := by
  have line : Unbraced ("get => " ++ value ++ ";") := by
    simp (disch := (refine .ofList ?_; decide)) only [unbraced_append, Unbraced.part, less,
      and_self]
  exact .cons (braceless_attributeLine unbraced_inlining) (.braceless line)

theorem nested_property {signature value : String} (head : Unbraced signature)
    (less : Unbraced value) : Nested (property signature value) :=
  .block head (nested_getter less)

end Source.Piece

theorem Runtime.unbraced_generic {api : String} {args : List String} (own : Unbraced api)
    (each : ∀ a ∈ args, Unbraced a) : Unbraced (generic api args) := by
  simp (disch := (refine .ofList ?_; decide)) only [generic, unbraced_append, Unbraced.part, own,
    unbraced_commas each, and_self]

/-! ### Tracked types -/

/-- Whether the type that is registered with has no braces in its names. -/
def Registration.Unbraced : Registration → Prop
  | interface t | unmanagedData t | customStorage t | lookupById t => t.MadeOf Symbol.Unbraced
  | base | singleton | instances | transformAccess | instanceIds => True

/-- Whether the names of an accessor have no braces. -/
def Accessor.Unbraced : Accessor → Prop
  | payload name t | storage name t => Text.Unbraced name ∧ t.MadeOf Symbol.Unbraced
  | findById t => t.MadeOf Symbol.Unbraced
  | instances | count | active | instanceIndex | enabledCache | transformAccessArray
  | instanceIds => True

namespace TrackingPlan

/-- Whether the names in a plan have no braces. -/
structure Unbraced (plan : TrackingPlan) : Prop where
  symbol : plan.facts.symbol.Unbraced
  type : plan.facts.type.MadeOf Symbol.Unbraced
  typeParams : ∀ p ∈ plan.facts.typeParams, Text.Unbraced p
  enable : ∀ r ∈ plan.enable, r.Unbraced
  disable : ∀ r ∈ plan.disable, r.Unbraced
  accessors : ∀ a ∈ plan.accessors, a.Unbraced

theorem unbraced_newModifier (ancestor : Option Syntax.TypeRef) :
    Text.Unbraced (newModifier ancestor) := by
  cases ancestor with
  | none => exact .ofList (by decide)
  | some t => exact .ofList (by decide)

variable {host : Host} {plan : TrackingPlan} (names : plan.Unbraced)

include names

theorem Unbraced.self : Text.Unbraced (plan.self host) := Host.unbraced_typeText names.type

theorem Unbraced.registry {r : Registration} (less : r.Unbraced) :
    Text.Unbraced (plan.registry host r) := by
  have self : Text.Unbraced (plan.self host) := names.self
  cases r with
  | base => exact .ofList (by decide)
  | singleton | instances | transformAccess | instanceIds =>
    exact Runtime.unbraced_generic (.ofList (by decide)) (List.forall_mem_singleton.mpr self)
  | interface t =>
    exact Runtime.unbraced_generic (.ofList (by decide))
      (List.forall_mem_singleton.mpr (Host.unbraced_typeText less))
  | unmanagedData t | customStorage t | lookupById t =>
    refine Runtime.unbraced_generic (.ofList (by decide)) ?_
    exact List.forall_mem_cons.mpr
      ⟨self, List.forall_mem_singleton.mpr (Host.unbraced_typeText less)⟩

theorem Unbraced.displayName : Text.Unbraced plan.facts.displayName := by
  simp (disch := (refine .ofList ?_; decide)) only [Facts.displayName, unbraced_ite, unbraced_append,
    Unbraced.part, names.symbol.simpleName, unbraced_commas names.typeParams, and_self,
    implies_true]

theorem Unbraced.accessorPieces {a : Accessor} (less : a.Unbraced) :
    Nested (plan.accessorPieces host a) := by
  have self : Text.Unbraced (plan.self host) := names.self
  have simple := unbraced_reference names.symbol.simpleName
  have newMember := unbraced_newModifier plan.facts.trackedAncestor
  have instances : Text.Unbraced (plan.registry host .instances) := names.registry trivial
  cases a with
  | instances =>
    have enumerable : Text.Unbraced
        (Runtime.generic ("global::" ++ Runtime.trackedInstances) [plan.self host]) :=
      Runtime.unbraced_generic (unbraced_append.mpr ⟨.ofList (by decide), .ofList (by decide)⟩)
        (List.forall_mem_singleton.mpr self)
    refine .cons ?_ (nested_property ?_ (.ofList (by decide)))
    · simp (disch := (refine .ofList ?_; decide)) only [IsBraceless, unbraced_append, Unbraced.part,
        simple, and_self]
    · simp (disch := (refine .ofList ?_; decide)) only [unbraced_ite, unbraced_append, Unbraced.part,
        newMember, enumerable, and_self, implies_true]
  | count =>
    refine .cons ?_ (nested_property ?_ ?_) <;>
      simp (disch := (refine .ofList ?_; decide)) only [IsBraceless, unbraced_append, Unbraced.part,
        simple, newMember, instances, and_self]
  | active =>
    have newInstance := unbraced_newModifier plan.facts.singletonAncestor
    have singleton : Text.Unbraced (plan.registry host .singleton) := names.registry trivial
    refine .cons ?_ (nested_property ?_ ?_) <;>
      simp (disch := (refine .ofList ?_; decide)) only [IsBraceless, unbraced_append, Unbraced.part,
        simple, newInstance, self, singleton, and_self]
  | instanceIndex =>
    have field : Text.Unbraced indexField := .ofList (by decide)
    have others : Text.Unbraced (reference "Instances") :=
      unbraced_reference (.ofList (by decide))
    refine .append (nested_privateField ?_)
      (.cons trivial (.cons ?_ (nested_property ?_ field))) <;>
      simp (disch := (refine .ofList ?_; decide)) only [IsBraceless, unbraced_append, Unbraced.part,
        field, others, names.displayName, newMember, and_self]
  | enabledCache =>
    have field : Text.Unbraced enabledField := .ofList (by decide)
    refine .append (nested_privateField (unbraced_append.mpr ⟨.ofList (by decide), field⟩)) ?_
    refine .cons trivial (.cons (.ofList (by decide)) (.block (.ofList (by decide)) ?_))
    exact (nested_getter field).append (.braceless (.ofList (by decide)))
  | payload name t =>
    obtain ⟨own, made⟩ := less
    have registry : Text.Unbraced (plan.registry host (.unmanagedData t)) := names.registry made
    have simpleType := unbraced_reference made.simpleName
    have type : Text.Unbraced (host.typeText t) := Host.unbraced_typeText made
    refine .cons ?_ (nested_property ?_ ?_) <;>
      simp (disch := (refine .ofList ?_; decide)) only [IsBraceless, unbraced_append, Unbraced.part,
        simpleType, type, own, registry, and_self]
  | storage name t =>
    obtain ⟨own, made⟩ := less
    have registry : Text.Unbraced (plan.registry host (.customStorage t)) := names.registry made
    have simpleType := unbraced_reference made.simpleName
    have type : Text.Unbraced (host.typeText t) := Host.unbraced_typeText made
    refine .cons ?_ (nested_property ?_ ?_) <;>
      simp (disch := (refine .ofList ?_; decide)) only [IsBraceless, unbraced_append, Unbraced.part,
        simpleType, type, own, registry, and_self]
  | findById t =>
    have registry : Text.Unbraced (plan.registry host (.lookupById t)) := names.registry less
    have type : Text.Unbraced (host.typeText t) := Host.unbraced_typeText less
    refine .cons (.ofList (by decide)) (.cons (braceless_attributeLine unbraced_inlining) ?_)
    refine .braceless ?_
    simp (disch := (refine .ofList ?_; decide)) only [IsBraceless, unbraced_append, Unbraced.part,
      self, type, registry, and_self]
  | transformAccessArray =>
    have registry : Text.Unbraced (plan.registry host .transformAccess) := names.registry trivial
    have array : Text.Unbraced Runtime.transformAccessArray := .ofList (by decide)
    refine .cons ?_ (nested_property ?_ ?_) <;>
      simp (disch := (refine .ofList ?_; decide)) only [IsBraceless, unbraced_append, Unbraced.part,
        newMember, array, registry, unbraced_toString_int, and_self]
  | instanceIds =>
    have registry : Text.Unbraced (plan.registry host .instanceIds) := names.registry trivial
    have array : Text.Unbraced (Runtime.generic Runtime.nativeArray ["int"]) :=
      Runtime.unbraced_generic (.ofList (by decide))
        (List.forall_mem_singleton.mpr (.ofList (by decide)))
    refine .cons (.ofList (by decide)) (nested_property ?_ ?_) <;>
      simp (disch := (refine .ofList ?_; decide)) only [unbraced_append, Unbraced.part, newMember,
        array, registry, and_self]

/-! ### Lifecycle methods -/

theorem Unbraced.enableLines {r : Registration} (less : r.Unbraced) :
    ∀ line ∈ plan.enableLines host r, Text.Unbraced line := by
  have registry : Text.Unbraced (plan.registry host r) := names.registry less
  have statement : Text.Unbraced (plan.registry host r ++ ".Register(this);") :=
    unbraced_append.mpr ⟨registry, .ofList (by decide)⟩
  cases r with
  | base => exact List.forall_mem_singleton.mpr (.ofList (by decide))
  | singleton =>
    have strategies : Text.Unbraced Runtime.singletonStrategy := .ofList (by decide)
    have strategy : Text.Unbraced (plan.facts.singleton.getD {}).strategy.text := by
      cases (plan.facts.singleton.getD {}).strategy <;> exact .ofList (by decide)
    refine List.forall_mem_singleton.mpr ?_
    simp (disch := (refine .ofList ?_; decide)) only [unbraced_append, Unbraced.part, registry,
      strategies, strategy, and_self]
  | instances =>
    have index : Text.Unbraced indexField := .ofList (by decide)
    have enabled : Text.Unbraced (enabledField ++ " = true;") :=
      unbraced_append.mpr ⟨.ofList (by decide), .ofList (by decide)⟩
    refine List.forall_mem_append.mpr ⟨?_, List.forall_mem_singleton.mpr ?_⟩
    · split
      · exact List.forall_mem_singleton.mpr enabled
      · exact List.forall_mem_nil _
    · simp (disch := (refine .ofList ?_; decide)) only [unbraced_ite, unbraced_append, Unbraced.part,
        registry, index, and_self, implies_true]
  | transformAccess =>
    refine List.forall_mem_singleton.mpr ?_
    simp (disch := (refine .ofList ?_; decide)) only [unbraced_append, Unbraced.part, registry,
      unbraced_toString_int, and_self]
  | interface | unmanagedData | customStorage | lookupById | instanceIds =>
    exact List.forall_mem_singleton.mpr statement

theorem Unbraced.disableLines {r : Registration} (less : r.Unbraced) :
    ∀ line ∈ plan.disableLines host r, Text.Unbraced line := by
  have registry : Text.Unbraced (plan.registry host r) := names.registry less
  cases r with
  | base => exact List.forall_mem_singleton.mpr (.ofList (by decide))
  | instances =>
    have index : Text.Unbraced (indexField ++ " = -1;") :=
      unbraced_append.mpr ⟨.ofList (by decide), .ofList (by decide)⟩
    have enabled : Text.Unbraced (enabledField ++ " = false;") :=
      unbraced_append.mpr ⟨.ofList (by decide), .ofList (by decide)⟩
    refine List.forall_mem_append.mpr
      ⟨List.forall_mem_append.mpr ⟨List.forall_mem_singleton.mpr ?_, ?_⟩, ?_⟩
    · simp (disch := (refine .ofList ?_; decide)) only [unbraced_append, Unbraced.part, registry,
        and_self]
    · split
      · exact List.forall_mem_singleton.mpr index
      · exact List.forall_mem_nil _
    · split
      · exact List.forall_mem_singleton.mpr enabled
      · exact List.forall_mem_nil _
  | unmanagedData | transformAccess | instanceIds | singleton | interface | customStorage
  | lookupById =>
    exact List.forall_mem_singleton.mpr (unbraced_append.mpr ⟨registry, .ofList (by decide)⟩)

omit names in
theorem nested_lifecycleMethod {name : String} (own : Text.Unbraced name) {statements : List String}
    (less : ∀ s ∈ statements, Text.Unbraced s) : Nested (plan.lifecycleMethod name statements) := by
  have modifiers : Text.Unbraced plan.lifecycle.modifiers := by
    cases plan.lifecycle <;> exact .ofList (by decide)
  refine .block ?_ (nested_lines less)
  simp (disch := (refine .ofList ?_; decide)) only [unbraced_append, Unbraced.part, own, modifiers,
    and_self]

omit names in
theorem nested_forwarderPieces : Nested plan.forwarderPieces := by
  have message (name : String) (own : Text.Unbraced name) (target : String)
      (there : Text.Unbraced target) : Nested [.line ("void " ++ name ++ target)] :=
    .braceless (unbraced_append.mpr ⟨unbraced_append.mpr ⟨.ofList (by decide), own⟩, there⟩)
  rw [forwarderPieces]
  split
  · exact .nil
  · next enable disable _ =>
    refine .append ?_ ?_
    · split
      · exact .cons trivial (message _ (.ofList (by decide)) _ (.ofList (by decide)))
      · exact .nil
    · split
      · refine .append ?_ (message _ (.ofList (by decide)) _ (.ofList (by decide)))
        split
        · exact .nil
        · exact .braceless trivial
      · exact .nil
  · exact .cons trivial <| .cons (.ofList (by decide)) <| .cons (.ofList (by decide)) <|
      .cons trivial <| .cons (.ofList (by decide)) <| .braceless (.ofList (by decide))

/-- The members that a plan adds are nested if its names have no braces. -/
theorem Unbraced.memberPieces : Nested (plan.memberPieces host) := by
  refine .append (nested_members ?_) ?_
  · exact List.forall_mem_map.mpr fun a mem => names.accessorPieces (names.accessors a mem)
  · split
    · exact .nil
    · refine .cons trivial (.append (.append ?_ (.cons trivial ?_)) nested_forwarderPieces)
      · refine nested_lifecycleMethod (.ofList (by decide)) ?_
        exact List.forall_mem_flatMap.mpr fun r mem => names.enableLines (names.enable r mem)
      · refine nested_lifecycleMethod (.ofList (by decide)) ?_
        exact List.forall_mem_flatMap.mpr fun r mem => names.disableLines (names.disable r mem)

end TrackingPlan

/-! ### Injected properties and unmanaged fields -/

/-- Whether the names of an injected property have no braces. -/
structure InjectedProperty.Unbraced (p : InjectedProperty) : Prop where
  name : Text.Unbraced p.name
  type : ∀ t ∈ p.type, t.MadeOf Symbol.Unbraced
  method : Text.Unbraced p.method

theorem InjectedProperty.Unbraced.pieces {p : InjectedProperty} (names : p.Unbraced) (host : Host) :
    Nested (p.pieces host) := by
  have type : Text.Unbraced (p.typeText host) := by
    rw [typeText]
    split
    · next t given => exact Host.unbraced_typeText (names.type t given)
    · exact .ofList (by decide)
  have typed : Text.Unbraced (p.typed host) := by
    simp (disch := (refine .ofList ?_; decide)) only [typed, unbraced_ite, unbraced_append,
      Unbraced.part, type, and_self, implies_true]
  have field : Text.Unbraced p.fieldName :=
    unbraced_append.mpr ⟨.ofList (by decide), unbraced_lowerFirst names.name⟩
  have accessors : Nested (getter p.fieldName ++
      [.line ((if p.isPublic then "private set" else "set") ++ " => " ++ p.fieldName ++
        " = value;")]) := by
    refine (nested_getter field).append (.braceless ?_)
    simp (disch := (refine .ofList ?_; decide)) only [IsBraceless, unbraced_ite, unbraced_append,
      Unbraced.part, field, and_self, implies_true]
  refine .append (.cons trivial (nested_privateField ?_))
    (.cons trivial (.cons ?_ (.block ?_ accessors)))
  · simp (disch := (refine .ofList ?_; decide)) only [unbraced_append, Unbraced.part, typed, field,
      and_self]
  · simp (disch := (refine .ofList ?_; decide)) only [IsBraceless, unbraced_append, Unbraced.part,
      unbraced_reference names.method, and_self]
  · simp (disch := (refine .ofList ?_; decide)) only [unbraced_ite, unbraced_append, Unbraced.part,
      typed, names.name, and_self, implies_true]

/-- Whether the names of an exposed field have no braces. -/
structure UnmanagedField.Unbraced (f : UnmanagedField) : Prop where
  name : Text.Unbraced f.name
  type : f.type.MadeOf Symbol.Unbraced

namespace UnmanagedView

variable {host : Host} {options : UnmanagedAccessOptions} {self : String}
  {fields : List UnmanagedField}

theorem unbraced_offsets : Text.Unbraced offsetsName := .ofList (by decide)

theorem unbraced_view : Text.Unbraced viewName := .ofList (by decide)

theorem nested_fieldPieces {f : UnmanagedField} (names : f.Unbraced) :
    Nested (fieldPieces host options f) := by
  have type : Text.Unbraced (host.typeText f.type) := Host.unbraced_typeText names.type
  have access : Text.Unbraced ("ref target.Field<" ++ host.typeText f.type ++ ">(" ++ offsetsName ++
      "." ++ f.name ++ ");") := by
    simp (disch := (refine .ofList ?_; decide)) only [unbraced_append, Unbraced.part, type,
      unbraced_offsets, names.name, and_self]
  refine .block ?_ (.cons (braceless_attributeLine unbraced_inlining) ?_)
  · simp (disch := (refine .ofList ?_; decide)) only [unbraced_append, Unbraced.part, type,
      names.name, and_self]
  · split
    · exact .block (.ofList (by decide)) <| .cons (.ofList (by decide)) <|
        .braceless (unbraced_append.mpr ⟨.ofList (by decide), access⟩)
    · exact .braceless (unbraced_append.mpr ⟨.ofList (by decide), access⟩)

theorem nested_viewPieces (own : Text.Unbraced self) (names : ∀ f ∈ fields, f.Unbraced) :
    Nested (viewPieces host options self fields) := by
  have target : Text.Unbraced (Runtime.generic Runtime.unmanagedRef [self]) :=
    Runtime.unbraced_generic (.ofList (by decide)) (List.forall_mem_singleton.mpr own)
  refine .cons ?_ (.cons trivial (.cons ?_ (nested_members ?_)))
  · simp (disch := (refine .ofList ?_; decide)) only [IsBraceless, unbraced_append, Unbraced.part,
      target, and_self]
  · simp (disch := (refine .ofList ?_; decide)) only [IsBraceless, unbraced_append, Unbraced.part,
      unbraced_view, own, target, and_self]
  · exact List.forall_mem_map.mpr fun f mem => nested_fieldPieces (names f mem)

theorem unbraced_offsetLine (own : Text.Unbraced self) {f : UnmanagedField} (names : f.Unbraced) :
    (offsetLine self f).IsBraceless := by
  have lookup : Text.Unbraced (Runtime.generic Runtime.fieldOffset [self]) :=
    Runtime.unbraced_generic (.ofList (by decide)) (List.forall_mem_singleton.mpr own)
  simp (disch := (refine .ofList ?_; decide)) only [offsetLine, IsBraceless, unbraced_append,
    Unbraced.part, lookup, names.name, and_self]

/-- The members of a class with unmanaged access. -/
theorem nested_pieces {d : TypeDecl} (own : Text.Unbraced (host.selfText d))
    (names : ∀ f ∈ fields, f.Unbraced) : Nested (pieces host d options fields) := by
  have access : Text.Unbraced (host.effectiveAccessibility d).keyword := by
    cases host.effectiveAccessibility d <;> exact .ofList (by decide)
  have offsets : Nested (fields.map (offsetLine (host.selfText d))) := by
    rw [List.map_eq_flatMap]
    exact nested_flatMap fun f mem => .braceless (unbraced_offsetLine own (names f mem))
  refine .append (.append (.block ?_ offsets) ?_) ?_
  · exact unbraced_append.mpr ⟨.ofList (by decide), unbraced_offsets⟩
  · refine .cons trivial (.cons (.ofList (by decide)) (.block ?_ (nested_viewPieces own names)))
    simp (disch := (refine .ofList ?_; decide)) only [unbraced_append, Unbraced.part, access,
      unbraced_view, and_self]
  · refine .cons trivial (.cons (.ofList (by decide)) (.braceless ?_))
    simp (disch := (refine .ofList ?_; decide)) only [IsBraceless, unbraced_append, Unbraced.part,
      access, unbraced_view, and_self]

end UnmanagedView

/-! ### Unions -/

/-- Whether the names of a case have no braces. -/
structure UnionCase.Unbraced (c : UnionCase) : Prop where
  name : Text.Unbraced c.name
  variant : c.variant.symbol.Unbraced

namespace Union

theorem unbraced_reinterpreted {self other : String} (own : Text.Unbraced self)
    (there : Text.Unbraced other) : Text.Unbraced (reinterpreted self other) :=
  unbraced_append.mpr ⟨Runtime.unbraced_generic (.ofList (by decide))
    (List.forall_mem_cons.mpr ⟨own, List.forall_mem_singleton.mpr there⟩), .ofList (by decide)⟩

namespace MemberSignature

/-- Whether the names of a member have no braces. -/
structure Unbraced (m : MemberSignature) : Prop where
  name : Text.Unbraced m.name
  typeParams : ∀ p ∈ m.typeParams, Text.Unbraced p
  params : ∀ p ∈ m.params, Text.Unbraced p.name ∧ p.type.MadeOf Symbol.Unbraced
  returns : m.returns.MadeOf Symbol.Unbraced

theorem unbraced_withMode (mode : PassMode) {s : String} (less : Text.Unbraced s) :
    Text.Unbraced (withMode mode s) := by
  cases mode with
  | value => exact less
  | ref | out | «in» =>
    exact unbraced_append.mpr ⟨unbraced_append.mpr ⟨.ofList (by decide), .ofList (by decide)⟩, less⟩

variable {host : Host} {m : MemberSignature} (names : m.Unbraced)

include names

theorem Unbraced.paramList : ∀ p ∈ m.paramList host, Text.Unbraced p := by
  refine List.forall_mem_map.mpr fun p mem => unbraced_withMode p.mode ?_
  obtain ⟨own, made⟩ := names.params p mem
  have type : Text.Unbraced (host.typeText p.type) := Host.unbraced_typeText made
  exact unbraced_append.mpr ⟨unbraced_append.mpr ⟨type, .ofList (by decide)⟩, own⟩

theorem Unbraced.argList : ∀ a ∈ m.argList, Text.Unbraced a :=
  List.forall_mem_map.mpr fun p mem => unbraced_withMode p.mode (names.params p mem).1

theorem Unbraced.typeParamText : Text.Unbraced m.typeParamText := by
  simp (disch := (refine .ofList ?_; decide)) only [MemberSignature.typeParamText, unbraced_ite,
    unbraced_append, Unbraced.part, unbraced_commas names.typeParams, and_self, implies_true]

theorem Unbraced.helperName : Text.Unbraced m.helperName :=
  unbraced_append.mpr ⟨names.name, .ofList (by decide)⟩

theorem Unbraced.useOn {target : String} (own : Text.Unbraced target) :
    Text.Unbraced (m.useOn target) := by
  rw [MemberSignature.useOn]
  split <;>
    simp (disch := (refine .ofList ?_; decide)) only [unbraced_append, Unbraced.part, own,
      names.name, names.typeParamText, unbraced_commas names.argList, and_self]

theorem Unbraced.useOnVariant {self variant : String} (own : Text.Unbraced self)
    (there : Text.Unbraced variant) (declared : Bool) :
    Text.Unbraced (m.useOnVariant self variant declared) := by
  have target := unbraced_reinterpreted own there
  have args : ∀ a ∈ ("ref " ++ reinterpreted self variant) :: m.argList, Text.Unbraced a :=
    List.forall_mem_cons.mpr ⟨unbraced_append.mpr ⟨.ofList (by decide), target⟩, names.argList⟩
  rw [MemberSignature.useOnVariant]
  split
  · exact names.useOn target
  · simp (disch := (refine .ofList ?_; decide)) only [unbraced_append, Unbraced.part,
      names.helperName, unbraced_commas args, and_self]

theorem Unbraced.casePieces {self : String} (own : Text.Unbraced self) {c : UnionCase}
    (there : c.Unbraced) : Nested (m.casePieces host self c) := by
  have type : Text.Unbraced (host.nameText c.variant.symbol) :=
    Host.unbraced_nameText there.variant
  have use := names.useOnVariant own type (c.variant.members.contains m.name)
  refine .cons ?_ (.indented ?_)
  · simp (disch := (refine .ofList ?_; decide)) only [IsBraceless, unbraced_append, Unbraced.part,
      own, there.name, and_self]
  · split
    · refine List.forall_mem_cons.mpr ⟨?_, List.forall_mem_singleton.mpr (.ofList (by decide))⟩
      exact unbraced_append.mpr ⟨use, .ofList (by decide)⟩
    · refine List.forall_mem_singleton.mpr ?_
      simp (disch := (refine .ofList ?_; decide)) only [IsBraceless, unbraced_append, Unbraced.part,
        use, and_self]

omit names in
theorem nested_defaultPieces : Nested m.defaultPieces := by
  have thrown : Text.Unbraced (Runtime.unionUtility ++ ".ThrowUnknownTypeID((int)TypeID);") :=
    unbraced_append.mpr ⟨.ofList (by decide), .ofList (by decide)⟩
  refine .cons (.ofList (by decide)) (.indented ?_)
  refine List.forall_mem_cons.mpr ⟨thrown, List.forall_mem_singleton.mpr ?_⟩
  simp (disch := (refine .ofList ?_; decide)) only [IsBraceless, unbraced_ite, Unbraced.part,
    and_self, implies_true]

theorem Unbraced.dispatcher {self : String} (own : Text.Unbraced self) {cases : List UnionCase}
    (each : ∀ c ∈ cases, c.Unbraced) : Nested (m.dispatcher host self cases) := by
  have returns : Text.Unbraced (host.typeText m.returns) := Host.unbraced_typeText names.returns
  have choice : Nested (block "switch ((TypeIDs)TypeID)"
      (cases.flatMap (m.casePieces host self) ++ m.defaultPieces)) := by
    refine .block (.ofList (by decide)) (.append ?_ nested_defaultPieces)
    exact nested_flatMap fun c mem => names.casePieces own (each c mem)
  rw [MemberSignature.dispatcher]
  split
  · refine .block ?_ (.block (.ofList (by decide)) choice)
    simp (disch := (refine .ofList ?_; decide)) only [unbraced_append, Unbraced.part, returns,
      names.name, and_self]
  · refine .block ?_ choice
    simp (disch := (refine .ofList ?_; decide)) only [unbraced_append, Unbraced.part, returns,
      names.name, names.typeParamText, unbraced_commas names.paramList, and_self]

theorem Unbraced.helper {dispatch : String} (own : Text.Unbraced dispatch) :
    Nested (m.helper host dispatch) := by
  have returns : Text.Unbraced (host.typeText m.returns) := Host.unbraced_typeText names.returns
  have typeParams : ∀ p ∈ "TVariant" :: m.typeParams, Text.Unbraced p :=
    List.forall_mem_cons.mpr ⟨.ofList (by decide), names.typeParams⟩
  have params : ∀ p ∈ "ref TVariant self" :: m.paramList host, Text.Unbraced p :=
    List.forall_mem_cons.mpr ⟨.ofList (by decide), names.paramList⟩
  have use : Text.Unbraced (m.useOn "self") := names.useOn (.ofList (by decide))
  refine .cons (braceless_attributeLine unbraced_inlining) (.braceless ?_)
  simp (disch := (refine .ofList ?_; decide)) only [IsBraceless, unbraced_append, Unbraced.part,
    returns, names.helperName, unbraced_commas typeParams, unbraced_commas params, own, use,
    and_self]

end MemberSignature

section

variable {host : Host} {d : TypeDecl} {family : UnionFamily} {cases : List UnionCase}

theorem nested_tagPieces (each : ∀ c ∈ cases, c.Unbraced) : Nested (tagPieces cases) := by
  have unset : Text.Unbraced (UnionFamily.unsetName ++ " = 0,") :=
    unbraced_append.mpr ⟨.ofList (by decide), .ofList (by decide)⟩
  refine .cons (.ofList (by decide)) (.block (.ofList (by decide)) (.cons unset ?_))
  refine nested_lines fun c mem => ?_
  simp (disch := (refine .ofList ?_; decide)) only [unbraced_append, Unbraced.part,
    (each c mem).name, unbraced_toString_nat, and_self]

/-- The members of a union header. -/
theorem nested_headerPieces (own : Text.Unbraced (host.selfText d)) (header : UnionHeader)
    (dispatch : ∀ t ∈ header.dispatch, t.MadeOf Symbol.Unbraced) {members : List MemberSignature}
    (names : ∀ m ∈ members, m.Unbraced) (each : ∀ c ∈ cases, c.Unbraced) :
    Nested (headerPieces host d header family members cases) := by
  have size : Nested (.blankLine :: .doc "Estimated size in bytes of the largest variant." ::
      .line ("public const int MaxVariantSize = " ++ toString family.maxVariantSize ++ ";") ::
      if header.declaresTypeId then [] else [.blankLine, .line "public TypeIDs TypeID;"]) := by
    refine .cons trivial (.cons (.ofList (by decide)) (.cons ?_ ?_))
    · simp (disch := (refine .ofList ?_; decide)) only [IsBraceless, unbraced_append, Unbraced.part,
        unbraced_toString_nat, and_self]
    · split
      · exact .nil
      · exact .cons trivial (.braceless (.ofList (by decide)))
  have dispatchers : Nested
      (Piece.members (members.map (·.dispatcher host (host.selfText d) cases))) :=
    nested_members <| List.forall_mem_map.mpr fun m mem => (names m mem).dispatcher own each
  have helpers : Nested
      (Piece.members ((header.dispatch.map (helpers host · members cases)).getD [])) := by
    refine nested_members ?_
    cases given : header.dispatch with
    | none => exact List.forall_mem_nil _
    | some t =>
      refine List.forall_mem_map.mpr fun m mem => ?_
      exact (names m (List.mem_filter.mp mem).1).helper
        (Host.unbraced_typeText (dispatch t given))
  exact (((nested_tagPieces each).append size).append dispatchers).append helpers

theorem nested_headerReference (own : Text.Unbraced (host.selfText d)) (v : UnionVariant)
    {header : Symbol} (less : header.Unbraced) : Nested (headerReference host d v header) := by
  have type : Text.Unbraced (host.nameText header) := Host.unbraced_nameText less
  have use := unbraced_reinterpreted own type
  have mark : Text.Unbraced Runtime.unscopedRef := .ofList (by decide)
  rw [headerReference]
  dsimp only
  split
  · exact .nil
  · refine .cons trivial (.cons ?_ (.cons (braceless_attributeLine mark)
      (nested_property ?_ ?_))) <;>
      simp (disch := (refine .ofList ?_; decide)) only [IsBraceless, unbraced_append, Unbraced.part,
        unbraced_reference less.simpleName, type, less.simpleName, use, and_self]

/-- The members of a union variant. -/
theorem nested_variantPieces (own : Text.Unbraced (host.selfText d)) (root : family.root.Unbraced)
    {c : UnionCase} (there : c.Unbraced)
    (tagType : ∀ t ∈ tagFieldType? host family.root, Text.Unbraced t) {headers : List Symbol}
    (each : ∀ h ∈ headers, h.Unbraced) : Nested (variantPieces host d family c headers) := by
  have name : Text.Unbraced (host.nameText family.root) := Host.unbraced_nameText root
  have tags : Text.Unbraced (host.nameText family.root ++ ".TypeIDs") :=
    unbraced_append.mpr ⟨name, .ofList (by decide)⟩
  have type : Text.Unbraced
      ((tagFieldType? host family.root).getD (host.nameText family.root ++ ".TypeIDs")) := by
    cases given : tagFieldType? host family.root with
    | none => exact tags
    | some t => exact tagType t given
  have references := nested_flatMap fun h mem =>
    nested_headerReference own c.variant (each h mem)
  refine .append (.cons ?_ (.cons ?_ references))
    (.cons trivial (.cons (.ofList (by decide)) (.block (.ofList (by decide)) (.braceless ?_)))) <;>
    simp (disch := (refine .ofList ?_; decide)) only [IsBraceless, unbraced_append, Unbraced.part,
      unbraced_reference root.simpleName, name, there.name, unbraced_reinterpreted own name, type,
      and_self]

end

end Union

/-! ### Constants -/

namespace Constants

variable (manager : TagManager)

theorem unbraced_tagMembers : ∀ name ∈ tagMembers manager, Text.Unbraced name := by
  refine unbraced_of_allocateAll fun base mem => ?_
  obtain ⟨tag, -, made⟩ := List.mem_filterMap.mp mem
  exact unbraced_of_sanitize made

theorem unbraced_layerMembers : ∀ l ∈ layerMembers manager, Text.Unbraced l.2 := by
  intro l mem
  refine unbraced_of_allocateAll (fun base listed => ?_) l.2 (List.of_mem_zip mem).2
  obtain ⟨named, there, rfl⟩ := List.mem_map.mp listed
  obtain ⟨layer, -, found⟩ := List.mem_filterMap.mp there
  obtain ⟨ident, made, rfl⟩ := Option.map_eq_some_iff.mp found
  exact unbraced_of_sanitize made

theorem unbraced_maskMembers : ∀ l ∈ maskMembers manager, Text.Unbraced l.2 := by
  intro l mem
  refine unbraced_of_allocateAll (fun base listed => ?_) l.2 (List.of_mem_zip mem).2
  obtain ⟨named, there, rfl⟩ := List.mem_map.mp listed
  exact unbraced_layerMembers manager named there

/-- The class of constants; the names in it are made identifiers. -/
theorem nested_filePieces {options : ConstantsOptions} (own : Text.Unbraced options.className)
    (nameSpace : ∀ n ∈ options.nameSpace, Text.Unbraced n) :
    Nested (filePieces options manager) := by
  have heads : ∀ h ∈ (options.nameSpace.map ("namespace " ++ ·)).toList, Text.Unbraced h := by
    intro h mem
    obtain ⟨n, given, rfl⟩ := Option.map_eq_some_iff.mp (Option.mem_toList.mp mem)
    exact unbraced_append.mpr ⟨.ofList (by decide), nameSpace n given⟩
  have none : Text.Unbraced noLayer := .ofList (by decide)
  refine .within heads (.cons (.ofList (by decide)) (.block ?_ (.append (.append ?_ ?_) ?_)))
  · exact unbraced_append.mpr ⟨.ofList (by decide), own⟩
  · refine .cons (.ofList (by decide)) (.block (.ofList (by decide)) (nested_lines ?_))
    exact fun name mem =>
      unbraced_append.mpr ⟨unbraced_tagMembers manager name mem, .ofList (by decide)⟩
  · refine .cons trivial (.cons (.ofList (by decide))
      (.block (.ofList (by decide)) (nested_lines ?_)))
    intro l mem
    simp (disch := (refine .ofList ?_; decide)) only [unbraced_append, Unbraced.part,
      unbraced_layerMembers manager l mem, unbraced_toString_nat, and_self]
  · refine .cons trivial (.cons (.ofList (by decide)) (.cons (.ofList (by decide))
      (.block (.ofList (by decide)) (.cons ?_ (nested_lines ?_)))))
    · exact unbraced_append.mpr ⟨none, .ofList (by decide)⟩
    · intro l mem
      simp (disch := (refine .ofList ?_; decide)) only [unbraced_append, Unbraced.part,
        unbraced_maskMembers manager l mem, unbraced_toString_nat, and_self]

end Constants

end Marksmith

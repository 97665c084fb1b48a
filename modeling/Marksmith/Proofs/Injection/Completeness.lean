import Marksmith.Proofs.Analysis.Tables
import Marksmith.Proofs.Injection.Collected
import Marksmith.Proofs.Source.Names
import Marksmith.Proofs.Syntax.Reparsing

/-!
Completeness of injection: whether every assignment in a method that is marked for injection gets
its property.

* `Delivers`: what a class owes its assignments; `Collects.delivers`: statements that are looked up
  get it;
* `injectionComplete_iff`: it delivers to the statements of its marked methods exactly if what is
  looked up by the names of those methods gives every name the same first assignment;
* `injectionComplete_of_ownNames`: it does if every marked method is the first one of its name;
* `not_injectionComplete_overloads`: a marked overload loses its assignments.
-/

namespace Marksmith.Injection

open Syntax

/-! ### Reports on a name -/

/-- The report says of this name that its value gives nothing. -/
def ReportsNoValue (d : TypeDecl) (x : String) (r : Diagnostic) : Prop :=
  ∃ s value, r = valueReport d s x value

/-- The report says of this name that its property is typed `object`. -/
def ReportsUntyped (d : TypeDecl) (x : String) (r : Diagnostic) : Prop :=
  ∃ s value e, r = typeReport d s x value e

theorem ReportsNoValue.code {d : TypeDecl} {x : String} {r : Diagnostic}
    (h : ReportsNoValue d x r) :
    r.code = .injectedExpressionHasNoValue := by
  obtain ⟨s, v, rfl⟩ := h
  rfl

theorem ReportsUntyped.code {d : TypeDecl} {x : String} {r : Diagnostic}
    (h : ReportsUntyped d x r) :
    r.code = .undeterminedExpressionType ∧ r.location.span.isSome = true := by
  obtain ⟨s, v, e, rfl⟩ := h
  exact ⟨rfl, rfl⟩

/-- A text that ends in a quoted name can be read in one way only. -/
theorem quoted_inj (front front' ending : String) {x y : String} (plain : '\x60' ∉ x.toList)
    (plain' : '\x60' ∉ y.toList)
    (same : front ++ "`" ++ x ++ ending = front' ++ "`" ++ y ++ ending) : x = y := by
  have chars : front.toList ++ '\x60' :: x.toList = front'.toList ++ '\x60' :: y.toList := by
    have both := congrArg String.toList same
    simp only [String.toList_append] at both
    simpa using List.append_cancel_right both
  exact String.toList_injective (Source.FreshNames.append_cons_inj plain plain' chars).2

theorem ReportsNoValue.inj {d : TypeDecl} {x y : String} {r : Diagnostic}
    (plain : '\x60' ∉ x.toList) (plain' : '\x60' ∉ y.toList) (h : ReportsNoValue d x r)
    (h' : ReportsNoValue d y r) : x = y := by
  obtain ⟨s, v, rfl⟩ := h
  obtain ⟨s', v', same⟩ := h'
  have message := congrArg Diagnostic.message same
  refine quoted_inj ("`" ++ v.text ++ "` does not produce a value to assign to ")
    ("`" ++ v'.text ++ "` does not produce a value to assign to ") "`" plain plain' ?_
  simpa [valueReport, String.append_assoc] using message

theorem ReportsUntyped.inj {d : TypeDecl} {x y : String} {r : Diagnostic}
    (plain : '\x60' ∉ x.toList) (plain' : '\x60' ∉ y.toList) (h : ReportsUntyped d x r)
    (h' : ReportsUntyped d y r) : x = y := by
  obtain ⟨s, v, e, rfl⟩ := h
  obtain ⟨s', v', e', same⟩ := h'
  have message := congrArg Diagnostic.message same
  refine quoted_inj (e.message ++ "; ") (e'.message ++ "; ") "` is typed `object`" plain plain' ?_
  simpa [typeReport, String.append_assoc] using message

/-- A name that is assigned to has no quotes. -/
theorem plain_of_first? {ss : List Source} {x : String} {a : Assignment}
    (h : first? ss x = some a) :
    '\x60' ∉ x.toList := by
  obtain ⟨s, -, found⟩ := mem_of_first? h
  obtain ⟨-, span, target, name, parsed⟩ := source_of_assignment? found
  rw [← target_of_first? h, name]
  intro mem
  have part := isIdentPart_of_assign parsed _ mem
  exact absurd part (by decide)

/-! ### What a class owes its assignments -/

section

variable (project : Project) (d : TypeDecl)

/-- Every name that statements assign to has exactly one property, with the type and the modifiers
of the first assignment to it, unless the class declares it or its value gives nothing. A property
has no type exactly if that is reported. -/
structure Delivers (ss : List Source) (properties : List InjectedProperty)
    (reports : List Diagnostic) : Prop where
  property : ∀ x a, first? ss x = some a → d.declaresMember x = false → ¬a.GivesNothing project d →
    ∃ p, properties.filter (·.name == x) = [p] ∧ p.type = (a.resolved project d).toOption ∧
      p.isPublic = a.source.options.isPublic ∧ p.isStatic = a.source.method.isStatic
  nothing : ∀ x a, first? ss x = some a → d.declaresMember x = false → a.GivesNothing project d →
    properties.filter (·.name == x) = [] ∧ ∃ r ∈ reports, ReportsNoValue d x r
  declared : ∀ x, d.declaresMember x = true → properties.filter (·.name == x) = []
  untyped : ∀ p ∈ properties, p.type = none ↔ ∃ r ∈ reports, ReportsUntyped d p.name r

/-- The statements of all methods that are marked for injection with options that can be read, in
the order of the methods. -/
def markedSources : List Source :=
  d.methods.flatMap fun m =>
    match (Attribute.find? .inject m.attributes).bind fun a => (InjectOptions.read a).toOption with
    | none => []
    | some options => m.body.zipIdx.map fun (statement, i) => ⟨options, m, i, statement⟩

/-- The properties of a class and the reports on them, as a pass asks for them. -/
def injected : Except Cancelled (List InjectedProperty × List Diagnostic) :=
  match project.index.injectors.get? d.symbol with
  | some methods => properties project .live d methods
  | none => .ok ([], [])

/-- A class gives its marked methods what it owes them. -/
def InjectionComplete : Prop :=
  ∃ properties reports, injected project d = .ok (properties, reports) ∧
    Delivers project d (markedSources d) properties reports

/-- What a first assignment amounts to: the type and the modifiers of its property, or nothing. -/
def Assignment.outcome (a : Assignment) : Option (Option TypeRef × Bool × Bool) :=
  (a.property? project d).map fun p => (p.type, p.isPublic, p.isStatic)

end

variable {project : Project} {d : TypeDecl} {a : Assignment}

theorem property?_of_givesNothing (h : a.GivesNothing project d) :
    a.property? project d = none ∧
      a.report? project d = some (valueReport d a.source a.target a.value) := by
  obtain ⟨t, resolved, void⟩ := h
  constructor
  · simp [Assignment.property?, resolved, void]
  · simp [Assignment.report?, resolved, void]

theorem property?_of_not_givesNothing (h : ¬a.GivesNothing project d) :
    a.property? project d = some (property a.source a.target (a.resolved project d).toOption) := by
  unfold Assignment.property?
  cases resolved : a.resolved project d with
  | ok t =>
    have solid : ¬t.name = "void" := fun void => h ⟨t, resolved, void⟩
    simp only [if_neg solid]
    rfl
  | error e => rfl

theorem givesNothing_iff : a.GivesNothing project d ↔ a.property? project d = none := by
  constructor
  · exact fun h => (property?_of_givesNothing h).1
  · intro none
    by_contra solid
    rw [property?_of_not_givesNothing solid] at none
    cases none

/-- A report on a first assignment is on the name that it assigns to: that there is no value, or
that there is no type. -/
theorem report?_eq_some {r : Diagnostic} (h : a.report? project d = some r) :
    (a.GivesNothing project d ∧ ReportsNoValue d a.target r) ∨
      (∃ e, a.resolved project d = .error e) ∧ ReportsUntyped d a.target r := by
  unfold Assignment.report? at h
  split at h
  · next t resolved =>
    split at h
    · next void =>
      cases h
      exact .inl ⟨⟨t, resolved, void⟩, _, _, rfl⟩
    · cases h
  · next e resolved =>
    cases h
    exact .inr ⟨⟨e, resolved⟩, _, _, e, rfl⟩

/-! ### What is collected is delivered -/

variable {ss : List Source} {properties : List InjectedProperty} {reports : List Diagnostic}

/-- The property of a name that is collected. -/
theorem Collects.filter_eq (h : Collects project d [] ss properties reports) {x : String}
    (undeclared : d.declaresMember x = false) :
    properties.filter (·.name == x) = ((first? ss x).bind (·.property? project d)).toList := by
  rw [h.named, if_neg]
  simp [undeclared]

theorem Collects.exists_first (h : Collects project d [] ss properties reports)
    {p : InjectedProperty} (mem : p ∈ properties) :
    d.declaresMember p.name = false ∧
      ∃ a, first? ss p.name = some a ∧ a.property? project d = some p := by
  have found : p ∈ properties.filter (·.name == p.name) :=
    List.mem_filter.mpr ⟨mem, beq_self_eq_true _⟩
  rw [h.named] at found
  split at found
  · cases found
  · next fresh =>
    obtain ⟨a, first, given⟩ := Option.bind_eq_some_iff.mp (Option.mem_toList.mp found)
    exact ⟨by simpa using fresh, a, first, given⟩

/-- A property has no type exactly if that is reported. -/
theorem Collects.untyped (h : Collects project d [] ss properties reports) {p : InjectedProperty}
    (mem : p ∈ properties) : p.type = none ↔ ∃ r ∈ reports, ReportsUntyped d p.name r := by
  obtain ⟨undeclared, a, first, given⟩ := h.exists_first mem
  have solid : ¬a.GivesNothing project d := by
    rw [givesNothing_iff, given]
    exact Option.some_ne_none p
  have type : p.type = (a.resolved project d).toOption := by
    rw [property?_of_not_givesNothing solid] at given
    cases given
    rfl
  rw [type]
  constructor
  · intro none
    cases resolved : a.resolved project d with
    | ok t =>
      rw [resolved] at none
      cases none
    | error e =>
      have report : a.report? project d = some (typeReport d a.source a.target a.value e) := by
        simp [Assignment.report?, resolved]
      refine ⟨_, h.reports p.name a _ first report (by simp [undeclared]), a.source, a.value, e, ?_⟩
      rw [target_of_first? first]
  · rintro ⟨r, mem, tells⟩
    rcases h.reported r mem with ⟨s, e, rfl⟩ | ⟨y, b, found, report, -⟩
    · cases tells.code.2
    · rcases report?_eq_some report with ⟨-, other⟩ | ⟨⟨e, resolved⟩, tells'⟩
      · cases tells.code.1.symm.trans other.code
      · rw [target_of_first? found] at tells'
        have same := tells.inj (plain_of_first? first) (plain_of_first? found) tells'
        subst same
        cases first.symm.trans found
        rw [resolved]
        rfl

/-- Statements that can be looked up at their places get what they are owed. -/
theorem Collects.delivers (h : Collects project d [] ss properties reports) :
    Delivers project d ss properties reports := by
  refine ⟨?property, ?nothing, ?declared, fun p mem => h.untyped mem⟩
  case property =>
    intro x a first undeclared solid
    have given := property?_of_not_givesNothing solid
    refine ⟨property a.source a.target (a.resolved project d).toOption, ?_, rfl, rfl, rfl⟩
    rw [h.filter_eq undeclared, first, Option.bind_some, given]
    rfl
  case nothing =>
    intro x a first undeclared void
    obtain ⟨none, report⟩ := property?_of_givesNothing void
    refine ⟨by rw [h.filter_eq undeclared, first, Option.bind_some, none]; rfl, ?_⟩
    refine ⟨_, h.reports x a _ first report (by simp [undeclared]), a.source, a.value, ?_⟩
    rw [target_of_first? first]
  case declared =>
    intro x declared
    rw [h.named, if_pos (.inl declared)]

/-! ### What is looked up and what is marked -/

/-- The class delivers to other statements exactly if they give every name the same first
assignment. -/
theorem Collects.delivers_iff (h : Collects project d [] ss properties reports)
    (owed : List Source) : Delivers project d owed properties reports ↔
      ∀ x a, d.declaresMember x = false → first? owed x = some a →
        ∃ b, first? ss x = some b ∧ b.outcome project d = a.outcome project d := by
  constructor
  · intro delivers x a undeclared first
    by_cases void : a.GivesNothing project d
    · obtain ⟨none, r, mem, tells⟩ := delivers.nothing x a first undeclared void
      rcases h.reported r mem with ⟨s, e, rfl⟩ | ⟨y, b, found, report, -⟩
      · cases tells.code
      · rcases report?_eq_some report with ⟨void', tells'⟩ | ⟨-, other⟩
        · rw [target_of_first? found] at tells'
          have same := tells.inj (plain_of_first? first) (plain_of_first? found) tells'
          subst same
          refine ⟨b, found, ?_⟩
          rw [Assignment.outcome, Assignment.outcome, givesNothing_iff.mp void,
            givesNothing_iff.mp void']
        · cases tells.code.symm.trans other.code.1
    · obtain ⟨p, only, type, isPublic, isStatic⟩ := delivers.property x a first undeclared void
      rw [h.filter_eq undeclared] at only
      have given : (first? ss x).bind (·.property? project d) = some p := by
        rw [← Option.toList_eq_singleton_iff]
        exact only
      obtain ⟨b, found, given⟩ := Option.bind_eq_some_iff.mp given
      refine ⟨b, found, ?_⟩
      rw [Assignment.outcome, Assignment.outcome, given, property?_of_not_givesNothing void]
      simp only [Option.map_some, type, isPublic, isStatic, property]
  · intro agree
    refine ⟨?property, ?nothing, h.delivers.declared, h.delivers.untyped⟩
    case property =>
      intro x a first undeclared solid
      obtain ⟨b, found, same⟩ := agree x a undeclared first
      rw [Assignment.outcome, Assignment.outcome, property?_of_not_givesNothing solid] at same
      obtain ⟨p, given, same⟩ := Option.map_eq_some_iff.mp same
      simp only [property, Prod.mk.injEq] at same
      refine ⟨p, ?_, same⟩
      rw [h.filter_eq undeclared, found, Option.bind_some, given]
      rfl
    case nothing =>
      intro x a first undeclared void
      obtain ⟨b, found, same⟩ := agree x a undeclared first
      rw [Assignment.outcome, Assignment.outcome, givesNothing_iff.mp void, Option.map_none,
        Option.map_eq_none_iff, ← givesNothing_iff] at same
      exact h.delivers.nothing x b found undeclared same

/-! ### Whole classes -/

variable {limit : Nat} {model : Model}

/-- A class of an accepted project has a result, which is collected from what is looked up by the
names of its marked methods. -/
theorem exists_injected (accepted : Host.ofModel limit model = .ok project.host)
    (indexed : project.index = .ofHost project.host) (mem : d ∈ project.host.declarations) :
    ∃ properties reports, injected project d = .ok (properties, reports) ∧
      Collects project d [] (sources d (MarkerIndex.injectMethods d)) properties reports := by
  have declared := Host.declaration?_symbol accepted mem
  have listed : project.index.injectors.get? d.symbol
      = if (MarkerIndex.injectMethods d).isEmpty then none
        else some (MarkerIndex.injectMethods d) := by
    rw [indexed]
    refine (MarkerIndex.get?_tableOf accepted d.symbol).trans ?_
    rw [declared, Option.bind_some]
  obtain ⟨properties, reports, collected, collects⟩ :=
    exists_collected declared (fun s mem => stands_of_mem_sources mem) []
  refine ⟨properties, reports, ?_, collects⟩
  unfold injected
  rw [listed]
  by_cases none : (MarkerIndex.injectMethods d).isEmpty = true
  · rw [if_pos none]
    rw [List.isEmpty_iff.mp none] at collected
    exact collected
  · rw [if_neg none]
    exact collected

/-- A class gives its marked methods what it owes them exactly if, for every name that it does not
declare, the first assignment in them has the same outcome as the first one in the statements that
are looked up by the names of these methods. -/
theorem injectionComplete_iff (accepted : Host.ofModel limit model = .ok project.host)
    (indexed : project.index = .ofHost project.host) (mem : d ∈ project.host.declarations) :
    InjectionComplete project d ↔
      ∀ x a, d.declaresMember x = false → first? (markedSources d) x = some a →
        ∃ b, first? (sources d (MarkerIndex.injectMethods d)) x = some b ∧
          b.outcome project d = a.outcome project d := by
  obtain ⟨properties, reports, given, collects⟩ := exists_injected accepted indexed mem
  rw [← collects.delivers_iff]
  constructor
  · rintro ⟨properties', reports', given', delivers⟩
    rw [given] at given'
    cases given'
    exact delivers
  · exact fun delivers => ⟨properties, reports, given, delivers⟩

/-- If every marked method is the first one of its name, what is looked up is what is marked. -/
theorem sources_eq_markedSources (isClass : d.kind = .class)
    (own : ∀ m ∈ d.methods, (Attribute.find? .inject m.attributes).isSome →
      d.methods.find? (·.name == m.name) = some m) :
    sources d (MarkerIndex.injectMethods d) = markedSources d := by
  rw [sources, MarkerIndex.injectMethods, if_pos isClass, markedSources,
    List.filterMap_eq_flatMap_toList, List.flatMap_assoc]
  refine List.flatMap_congr fun m mem => ?_
  cases marked : Attribute.find? .inject m.attributes with
  | none => rfl
  | some a =>
    have first := own m mem (by rw [marked]; rfl)
    cases read : (InjectOptions.read a).toOption with
    | none => simp [read]
    | some options => simp [read, first]

/-- A class all of whose marked methods are the first ones of their names gives them what it owes
them. -/
theorem injectionComplete_of_ownNames (accepted : Host.ofModel limit model = .ok project.host)
    (indexed : project.index = .ofHost project.host) (mem : d ∈ project.host.declarations)
    (isClass : d.kind = .class)
    (own : ∀ m ∈ d.methods, (Attribute.find? .inject m.attributes).isSome →
      d.methods.find? (·.name == m.name) = some m) : InjectionComplete project d := by
  obtain ⟨properties, reports, given, collects⟩ := exists_injected accepted indexed mem
  rw [sources_eq_markedSources isClass own] at collects
  exact ⟨properties, reports, given, collects.delivers⟩

/-! ### Overloads -/

/-- A method that is marked for injection and assigns a number to one name. -/
def assigning (method : String) (params : List ParamDecl) (x : String) : MethodDecl :=
  { name := method, params, attributes := [⟨"Inject", []⟩]
    body := [{ text := x ++ " = 1", annotation := some (.named "int") }] }

/-- A class with two marked methods, which assign to `Body` and to `Speed`. -/
def player (first second : String) : TypeDecl :=
  { name := "Game.Player", kind := .class
    methods :=
      [ assigning first [] "Body",
        assigning second [{ name := "speed", type := .named "int" }] "Speed" ] }

def playerProject (first second : String) : Project where
  host := .withPrelude { types := [player first second] }
  index := .ofHost (.withPrelude { types := [player first second] })

theorem mem_playerProject (first second : String) :
    player first second ∈ (playerProject first second).host.declarations :=
  List.mem_append_left _ List.mem_cons_self

/-- With names of their own, both methods get what they are owed. -/
theorem injectionComplete_player :
    InjectionComplete (playerProject "Init" "Reset") (player "Init" "Reset") ∧
      (first? (markedSources (player "Init" "Reset")) "Speed").isSome := by
  have own : ∀ m ∈ (player "Init" "Reset").methods,
      (player "Init" "Reset").methods.find? (·.name == m.name) = some m := by
    intro m mem
    simp only [player, List.mem_cons, List.not_mem_nil, or_false] at mem
    rcases mem with rfl | rfl
    · rfl
    · rfl
  refine ⟨?_, by decide +kernel⟩
  refine (injectionComplete_iff (Host.ofModel_withPrelude rfl rfl) rfl
    (mem_playerProject _ _)).mpr ?_
  intro x a undeclared first
  refine ⟨a, ?_, rfl⟩
  rw [sources_eq_markedSources rfl fun m mem _ => own m mem]
  exact first

/-- A marked overload loses its assignments: the first method of its name is looked up again. -/
theorem not_injectionComplete_overloads :
    ¬∀ limit model (project : Project), Host.ofModel limit model = .ok project.host →
      project.index = .ofHost project.host → ∀ d ∈ project.host.declarations, d.kind = .class →
        InjectionComplete project d := by
  intro always
  obtain ⟨properties, reports, given, delivers⟩ := always _ _ (playerProject "Init" "Init")
    (Host.ofModel_withPrelude rfl rfl) rfl _ (mem_playerProject _ _) rfl
  have names : (injected (playerProject "Init" "Init") (player "Init" "Init")).toOption.map
      (fun r => r.1.map (·.name)) = some ["Body"] := by decide +kernel
  have owed : (first? (markedSources (player "Init" "Init")) "Speed").map
      (fun a => (a.resolved (playerProject "Init" "Init") (player "Init" "Init")).toOption.map
        (·.name)) = some (some "int") := by decide +kernel
  obtain ⟨a, first, type⟩ := Option.map_eq_some_iff.mp owed
  have solid : ¬a.GivesNothing (playerProject "Init" "Init") (player "Init" "Init") := by
    rintro ⟨t, resolved, void⟩
    rw [resolved] at type
    have int : t.name = "int" := Option.some.inj type
    exact absurd (void.symm.trans int) (by decide)
  obtain ⟨p, only, -⟩ := delivers.property "Speed" a first (by decide) solid
  rw [given] at names
  have mem : p ∈ properties.filter (·.name == "Speed") := only ▸ List.mem_singleton_self p
  have name : p.name ∈ properties.map (·.name) := List.mem_map_of_mem (List.mem_filter.mp mem).1
  have listed : properties.map (·.name) = ["Body"] := Option.some.inj names
  rw [listed, eq_of_beq (List.mem_filter.mp mem).2] at name
  exact absurd name (by decide)

end Marksmith.Injection

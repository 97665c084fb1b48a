import Marksmith.Proofs.Injection.Completeness

/-!
The members that injection adds to a class: whether their names clash.

A property has the name that is assigned to, its backing field the same name with its first
character in lower case behind an underscore. Names of properties are kept apart from each other and
from the members of the class when they are collected; names of backing fields are not.

* `Gets`: a name gets a property; `Collects.mem_names_iff`: the names of what is collected;
* `exists_injectionOutput`: the source of a class has exactly the properties that are collected;
* `membersApart_iff`: no two members clash exactly if the backing field of no property has the name
  of a member of the class, of a property or of the backing field of another one;
* `not_membersApart_cased`: two names that differ in the case of their first letters clash.
-/

namespace Marksmith.Injection

open Marksmith.Source (Piece)

/-! ### Names of properties -/

section

variable (project : Project) (d : TypeDecl)

/-- A name gets a property: the class does not declare it, and the first assignment to it in the
methods that are marked for injection gives a value. -/
def Gets (x : String) : Prop :=
  d.declaresMember x = false ∧
    ∃ a, first? (sources d (MarkerIndex.injectMethods d)) x = some a ∧ ¬a.GivesNothing project d

end

/-- The name of the backing field of a property. -/
def backing (x : String) : String := "_" ++ Identifier.lowerFirst x

variable {project : Project} {d : TypeDecl} {ss : List Source} {properties : List InjectedProperty}
  {reports : List Diagnostic}

/-- Of one name there is at most one property. -/
theorem Collects.nodup_names (h : Collects project d [] ss properties reports) :
    (properties.map (·.name)).Nodup := by
  rw [List.nodup_iff_count_le_one]
  intro x
  have only : (properties.filter (·.name == x)).length ≤ 1 := by
    rw [h.named]
    split
    · exact Nat.zero_le 1
    · exact Option.length_toList_le
  rw [List.count, List.countP_map, List.countP_eq_length_filter]
  exact only

theorem Collects.mem_names_iff
    (h : Collects project d [] (sources d (MarkerIndex.injectMethods d)) properties reports)
    {x : String} : x ∈ properties.map (·.name) ↔ Gets project d x := by
  constructor
  · intro mem
    obtain ⟨p, found, rfl⟩ := List.mem_map.mp mem
    obtain ⟨undeclared, a, first, given⟩ := h.exists_first found
    refine ⟨undeclared, a, first, fun void => ?_⟩
    rw [givesNothing_iff.mp void] at given
    cases given
  · rintro ⟨undeclared, a, first, solid⟩
    obtain ⟨p, only, -⟩ := h.delivers.property x a first undeclared solid
    have mem : p ∈ properties.filter (·.name == x) := only ▸ List.mem_singleton_self p
    obtain ⟨mem, same⟩ := List.mem_filter.mp mem
    exact List.mem_map.mpr ⟨p, mem, eq_of_beq same⟩

/-! ### Members of the source -/

/-- The names of all members that properties add: their own names and those of their backing
fields. -/
def addedNames (properties : List InjectedProperty) : List String :=
  properties.map (·.name) ++ properties.map (·.fieldName)

/-- The members that properties add to a class are different from each other and from the members of
the class. -/
structure Apart (d : TypeDecl) (properties : List InjectedProperty) : Prop where
  distinct : (addedNames properties).Nodup
  undeclared : ∀ x ∈ addedNames properties, d.declaresMember x = false

section

variable (project : Project) (d : TypeDecl)

/-- What is generated for a class and its properties. -/
def outputOf (properties : List InjectedProperty) (reports : List Diagnostic) : Output where
  files :=
    if properties.isEmpty then []
    else
      [{ name := SourceFile.nameFor d.symbol .injection
         text := SourceFile.textOf project.settings <|
           Piece.within (SourceFile.scopeOf project.host d)
             (properties.flatMap (·.pieces project.host)) }]
  diagnostics := reports

/-- The members in the injection source of a class do not clash. -/
def MembersApart : Prop :=
  ∃ properties reports, injected project d = .ok (properties, reports) ∧
    project.injectionOutput .live d.symbol = .ok (outputOf project d properties reports) ∧
    Apart d properties

end

/-- A class has its injection source, with the properties that are collected. -/
theorem exists_injectionOutput {limit : Nat} {model : Model}
    (accepted : Host.ofModel limit model = .ok project.host)
    (indexed : project.index = .ofHost project.host) (mem : d ∈ project.host.declarations) :
    ∃ properties reports, injected project d = .ok (properties, reports) ∧
      project.injectionOutput .live d.symbol = .ok (outputOf project d properties reports) ∧
      Collects project d [] (sources d (MarkerIndex.injectMethods d)) properties reports := by
  obtain ⟨properties, reports, given, collects⟩ := exists_injected accepted indexed mem
  refine ⟨properties, reports, given, ?_, collects⟩
  rw [Project.injectionOutput, Host.declaration?_symbol accepted mem]
  unfold injected at given
  cases listed : project.index.injectors.get? d.symbol with
  | none =>
    rw [listed] at given
    cases given
    rfl
  | some methods =>
    rw [listed] at given
    dsimp only at given ⊢
    rw [given]
    unfold outputOf
    cases properties <;> rfl

/-! ### Clashes -/

theorem map_fieldName (properties : List InjectedProperty) :
    properties.map (·.fieldName) = (properties.map (·.name)).map backing := by
  rw [List.map_map]
  rfl

theorem mem_addedNames {x : String} : x ∈ addedNames properties ↔
    x ∈ properties.map (·.name) ∨ ∃ y ∈ properties.map (·.name), backing y = x := by
  rw [addedNames, List.mem_append, map_fieldName]
  exact or_congr_right List.mem_map

/-- What is collected keeps its members apart exactly if no backing field has the name of a member
of the class, of a property, or of the backing field of another property. -/
theorem Collects.apart_iff
    (h : Collects project d [] (sources d (MarkerIndex.injectMethods d)) properties reports) :
    Apart d properties ↔ ∀ x, Gets project d x → d.declaresMember (backing x) = false ∧
      ∀ y, Gets project d y → backing x ≠ y ∧ (backing x = backing y → x = y) := by
  simp only [← h.mem_names_iff]
  constructor
  · intro ⟨distinct, undeclared⟩ x mem
    rw [addedNames, map_fieldName, List.nodup_append] at distinct
    obtain ⟨-, fields, other⟩ := distinct
    refine ⟨undeclared _ (mem_addedNames.mpr (.inr ⟨x, mem, rfl⟩)), fun y mem' => ⟨?_, ?_⟩⟩
    · exact (other y mem' _ (List.mem_map_of_mem mem)).symm
    · exact List.inj_on_of_nodup_map fields mem mem'
  · intro clear
    refine ⟨?distinct, ?undeclared⟩
    case distinct =>
      rw [addedNames, map_fieldName, List.nodup_append]
      refine ⟨h.nodup_names, ?_, ?_⟩
      · exact List.Nodup.map_on (fun x mem y mem' => ((clear x mem).2 y mem').2) h.nodup_names
      · intro y mem' z field same
        obtain ⟨x, mem, rfl⟩ := List.mem_map.mp field
        exact ((clear x mem).2 y mem').1 same.symm
    case undeclared =>
      intro z added
      rcases mem_addedNames.mp added with own | ⟨x, mem, rfl⟩
      · exact (h.mem_names_iff.mp own).1
      · exact (clear x mem).1

/-- The members of a source do not clash exactly if no backing field has the name of a member of the
class, of a property, or of the backing field of another property. -/
theorem membersApart_iff {limit : Nat} {model : Model}
    (accepted : Host.ofModel limit model = .ok project.host)
    (indexed : project.index = .ofHost project.host) (mem : d ∈ project.host.declarations) :
    MembersApart project d ↔ ∀ x, Gets project d x → d.declaresMember (backing x) = false ∧
      ∀ y, Gets project d y → backing x ≠ y ∧ (backing x = backing y → x = y) := by
  obtain ⟨properties, reports, given, output, collects⟩ :=
    exists_injectionOutput accepted indexed mem
  rw [← collects.apart_iff]
  constructor
  · rintro ⟨properties', reports', given', -, apart⟩
    rw [given] at given'
    cases given'
    exact apart
  · exact fun apart => ⟨properties, reports, given, output, apart⟩

/-! ### Names that differ in the case of their first letters -/

/-- A class with one method, which is marked for injection and assigns a number to every name. -/
def setter (xs : List String) : TypeDecl :=
  { name := "Game.Player", kind := .class
    methods :=
      [{ name := "Init", attributes := [⟨"Inject", []⟩]
         body := xs.map fun x => { text := x ++ " = 1", annotation := some (.named "int") } }] }

def setterProject (xs : List String) : Project where
  host := .withPrelude { types := [setter xs] }
  index := .ofHost (.withPrelude { types := [setter xs] })

theorem mem_setterProject (xs : List String) :
    setter xs ∈ (setterProject xs).host.declarations :=
  List.mem_append_left _ List.mem_cons_self

/-- Which names of a class get a property, if its properties are known. -/
theorem gets_setter_iff {xs names : List String}
    (given : (injected (setterProject xs) (setter xs)).toOption.map (·.1.map (·.name))
      = some names) (x : String) :
    Gets (setterProject xs) (setter xs) x ↔ x ∈ names := by
  obtain ⟨properties, reports, collected, collects⟩ :=
    exists_injected (Host.ofModel_withPrelude rfl rfl) rfl (mem_setterProject xs)
  rw [collected] at given
  cases given
  exact collects.mem_names_iff.symm

/-- Two names whose backing fields are different do not clash. -/
theorem membersApart_setter :
    MembersApart (setterProject ["Body", "Speed"]) (setter ["Body", "Speed"]) ∧
      Gets (setterProject ["Body", "Speed"]) (setter ["Body", "Speed"]) "Body" := by
  have gets (x : String) : Gets (setterProject ["Body", "Speed"]) (setter ["Body", "Speed"]) x ↔
      x ∈ ["Body", "Speed"] :=
    gets_setter_iff (by decide +kernel) x
  have clear : ∀ x ∈ ["Body", "Speed"],
      (setter ["Body", "Speed"]).declaresMember (backing x) = false ∧
        ∀ y ∈ ["Body", "Speed"], backing x ≠ y ∧ (backing x = backing y → x = y) := by
    decide +kernel
  refine ⟨?_, (gets "Body").mpr List.mem_cons_self⟩
  refine (membersApart_iff (Host.ofModel_withPrelude rfl rfl) rfl (mem_setterProject _)).mpr ?_
  simpa only [gets] using clear

/-- Names that differ in the case of their first letters have one backing field. -/
theorem not_membersApart_cased :
    ¬∀ limit model (project : Project), Host.ofModel limit model = .ok project.host →
      project.index = .ofHost project.host → ∀ d ∈ project.host.declarations,
        MembersApart project d := by
  intro always
  obtain ⟨properties, reports, given, -, apart⟩ := always _ _ (setterProject ["Body", "body"])
    (Host.ofModel_withPrelude rfl rfl) rfl _ (mem_setterProject _)
  have names : (injected (setterProject ["Body", "body"]) (setter ["Body", "body"])).toOption.map
      (fun r => addedNames r.1) = some ["Body", "body", "_body", "_body"] := by decide +kernel
  rw [given] at names
  have added : addedNames properties = ["Body", "body", "_body", "_body"] := Option.some.inj names
  have distinct := apart.distinct
  rw [added] at distinct
  exact absurd distinct (by decide)

end Marksmith.Injection

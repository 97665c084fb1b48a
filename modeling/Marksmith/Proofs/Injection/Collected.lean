import Marksmith.Proofs.Inference.Sites
import Marksmith.Proofs.Pass.Live

/-!
What is collected from the statements of methods that are marked for injection.

* `Assignment.resolved`: the type of an assigned value, which is the one recorded for its own
  statement if there is one;
* `Stands`: a statement is found again at its place, by the name of its method; those that are
  looked up are (`stands_of_mem_sources`);
* `exists_collected`: for every name, the first assignment to it gives the property and the report,
  and nothing else does.
-/

namespace Marksmith.Injection

open Syntax

/-! ### Assignments -/

/-- A statement that assigns a value to a plain name. -/
structure Assignment where
  source : Source
  target : String
  value : Expr

/-- The assignment that a statement is, if it is one. -/
def Source.assignment? (s : Source) : Option Assignment :=
  match parseStatement s.statement.text with
  | .ok (.assign _ target value) => some ⟨s, target.node, value⟩
  | _ => none

/-- The first assignment to a name among statements. -/
def first? (ss : List Source) (x : String) : Option Assignment :=
  (ss.filterMap Source.assignment?).find? (·.target == x)

theorem first?_cons_of_none {s : Source} {ss : List Source} (none : s.assignment? = none)
    (x : String) :
    first? (s :: ss) x = first? ss x := by
  rw [first?, List.filterMap_cons_none none, first?]

theorem first?_cons_of_some {s : Source} {ss : List Source} {a : Assignment}
    (found : s.assignment? = some a) (x : String) :
    first? (s :: ss) x = if a.target = x then some a else first? ss x := by
  rw [first?, List.filterMap_cons_some found, List.find?_cons, first?]
  by_cases same : a.target = x
  · rw [beq_iff_eq.mpr same, if_pos same]
  · rw [beq_eq_false_iff_ne.mpr same, if_neg same]

theorem target_of_first? {ss : List Source} {x : String} {a : Assignment}
    (h : first? ss x = some a) : a.target = x := by
  have suits := List.find?_some h
  exact eq_of_beq suits

theorem mem_of_first? {ss : List Source} {x : String} {a : Assignment} (h : first? ss x = some a) :
    ∃ s ∈ ss, s.assignment? = some a :=
  List.mem_filterMap.mp (List.mem_of_find?_eq_some h)

theorem source_of_assignment? {s : Source} {a : Assignment} (h : s.assignment? = some a) :
    a.source = s ∧ ∃ span target, a.target = target.node ∧
      parseStatement s.statement.text = .ok (.assign span target a.value) := by
  unfold Source.assignment? at h
  split at h
  · next span target value parsed =>
    cases h
    exact ⟨rfl, span, target, rfl, parsed⟩
  · cases h

section

variable (project : Project) (d : TypeDecl)

/-- The type of an assigned value: the one recorded for the statement itself, or else the one that
is found in the class, without a look at any statement's. -/
def Assignment.resolved (a : Assignment) : Except ResolveError TypeRef :=
  match a.source.statement.annotation.bind (project.host.resolve? d.symbol) with
  | some t => .ok t
  | none =>
    (Resolver.resolveAssignment project.host project.index .live { owner := d.symbol } a.target
      a.value).map (·.type)

/-- The value is a call that gives nothing. -/
def Assignment.GivesNothing (a : Assignment) : Prop :=
  ∃ t, a.resolved project d = .ok t ∧ t.name = "void"

/-- The property that an assignment gives if it is the first one. -/
def Assignment.property? (a : Assignment) : Option InjectedProperty :=
  match a.resolved project d with
  | .ok t => if t.name = "void" then none else some (property a.source a.target (some t))
  | .error _ => some (property a.source a.target none)

/-- The report on an assignment if it is the first one. -/
def Assignment.report? (a : Assignment) : Option Diagnostic :=
  match a.resolved project d with
  | .ok t => if t.name = "void" then some (valueReport d a.source a.target a.value) else none
  | .error e => some (typeReport d a.source a.target a.value e)

/-- A statement is found again where it stands, by the name of its method. -/
structure Stands (s : Source) : Prop where
  method : d.methods.find? (·.name == s.method.name) = some s.method
  statement : s.method.body[s.place]? = some s.statement

end

variable {project : Project} {d : TypeDecl}

theorem stands_of_mem_sources {methods : List InjectMethod} {s : Source}
    (mem : s ∈ sources d methods) : Stands d s := by
  obtain ⟨inject, -, mem⟩ := List.mem_flatMap.mp mem
  split at mem
  · cases mem
  · next method found =>
    obtain ⟨⟨statement, i⟩, listed, rfl⟩ := List.mem_map.mp mem
    have suits := List.find?_some found
    refine ⟨?_, List.mem_zipIdx_iff_getElem?.mp listed⟩
    rw [eq_of_beq suits]
    exact found

theorem Stands.convertedType? {s : Source} (stands : Stands d s)
    (declared : project.host.declaration? d.symbol = some d) :
    project.host.convertedType? ⟨d.symbol, some s.method.name, some s.place⟩
      = s.statement.annotation.bind (project.host.resolve? d.symbol) := by
  unfold Host.convertedType?
  simp only [declared, stands.method, stands.statement, Option.bind_eq_bind, Option.bind_some]

/-- What the resolver says at the place of a statement is what the assignment is resolved to. -/
theorem Stands.resolved {a : Assignment} (stands : Stands d a.source)
    (declared : project.host.declaration? d.symbol = some d) :
    (Resolver.resolveAssignment project.host project.index .live
      ⟨d.symbol, some a.source.method.name, some a.source.place⟩ a.target a.value).map (·.type)
      = a.resolved project d := by
  have recorded := stands.convertedType? declared
  unfold Assignment.resolved
  split
  · next t own =>
    rw [Resolver.resolveAssignment_converted (recorded.trans own)]
    rfl
  · next none =>
    rw [Resolver.resolveAssignment_bare (recorded.trans none)]
    rfl

theorem resolved_ne_cancelled (a : Assignment) : a.resolved project d ≠ .error .cancelled := by
  intro given
  unfold Assignment.resolved at given
  split at given
  · cases given
  · cases outcome : Resolver.resolveAssignment project.host project.index .live
        { owner := d.symbol } a.target a.value with
    | ok r =>
      rw [outcome] at given
      cases given
    | error e =>
      rw [outcome] at given
      cases given
      exact Resolver.uncancelled_resolveWithin _ _ _ _ outcome

/-- A first assignment gives its property and its report. -/
theorem assigned_eq {a : Assignment} (stands : Stands d a.source)
    (declared : project.host.declaration? d.symbol = some d) :
    assigned project .live d a.source a.target a.value
      = .ok (a.property? project d, a.report? project d) := by
  have resolved := stands.resolved declared
  have live : a.resolved project d ≠ .error .cancelled := resolved_ne_cancelled a
  unfold assigned Assignment.property? Assignment.report?
  dsimp only
  rw [← resolved] at live ⊢
  cases outcome : Resolver.resolveAssignment project.host project.index .live
      ⟨d.symbol, some a.source.method.name, some a.source.place⟩ a.target a.value with
  | ok r =>
    by_cases void : r.type.name = "void"
    · simp [Except.map, void]
    · simp [Except.map, void]
  | error e =>
    cases e with
    | cancelled => exact absurd (by rw [outcome]; rfl) live
    | undetermined text => rfl

/-! ### What is collected -/

section

variable (project : Project) (d : TypeDecl)

/-- What is collected from statements if some names have been assigned to already. -/
structure Collects (seen : List String) (ss : List Source) (properties : List InjectedProperty)
    (reports : List Diagnostic) : Prop where
  named : ∀ x, properties.filter (·.name == x) =
    if d.declaresMember x = true ∨ x ∈ seen then []
    else ((first? ss x).bind (·.property? project d)).toList
  reported : ∀ r ∈ reports, (∃ s e, r = parseReport d s e) ∨
    ∃ x a, first? ss x = some a ∧ a.report? project d = some r ∧
      ¬(d.declaresMember x = true ∨ x ∈ seen)
  reports : ∀ x a r, first? ss x = some a → a.report? project d = some r →
    ¬(d.declaresMember x = true ∨ x ∈ seen) → r ∈ reports

end

theorem collects_nil (seen : List String) : Collects project d seen [] [] [] :=
  ⟨by simp [first?], by simp, by simp [first?]⟩

variable {seen : List String} {s : Source} {ss : List Source} {properties : List InjectedProperty}
  {reports : List Diagnostic}

/-- A statement that is no assignment adds no property, and at most the report that it cannot be
read. -/
theorem Collects.skip (h : Collects project d seen ss properties reports)
    (none : s.assignment? = none) (unread : List Diagnostic)
    (parse : ∀ r ∈ unread, ∃ s e, r = parseReport d s e) :
    Collects project d seen (s :: ss) properties (unread ++ reports) := by
  refine ⟨?_, ?_, ?_⟩
  · intro x
    rw [h.named, first?_cons_of_none none]
  · intro r mem
    rcases List.mem_append.mp mem with own | mem
    · exact .inl (parse r own)
    · rcases h.reported r mem with parse | ⟨x, a, found, given, fresh⟩
      · exact .inl parse
      · exact .inr ⟨x, a, (first?_cons_of_none none x).trans found, given, fresh⟩
  · intro x a r found given fresh
    rw [first?_cons_of_none none] at found
    exact List.mem_append_right _ (h.reports x a r found given fresh)

/-- An assignment to a name that is taken changes nothing. -/
theorem Collects.pass {a : Assignment} (h : Collects project d seen ss properties reports)
    (found : s.assignment? = some a) (taken : d.declaresMember a.target = true ∨ a.target ∈ seen) :
    Collects project d seen (s :: ss) properties reports := by
  have same (x : String) (fresh : ¬(d.declaresMember x = true ∨ x ∈ seen)) :
      first? (s :: ss) x = first? ss x := by
    rw [first?_cons_of_some found, if_neg]
    rintro rfl
    exact fresh taken
  refine ⟨?_, ?_, ?_⟩
  · intro x
    rw [h.named]
    split
    · rfl
    · next fresh => rw [same x fresh]
  · intro r mem
    rcases h.reported r mem with parse | ⟨x, b, first, given, fresh⟩
    · exact .inl parse
    · exact .inr ⟨x, b, (same x fresh).trans first, given, fresh⟩
  · intro x b r first given fresh
    exact h.reports x b r ((same x fresh).symm.trans first) given fresh

theorem name_of_property? {a : Assignment} {p : InjectedProperty}
    (h : a.property? project d = some p) : p.name = a.target := by
  unfold Assignment.property? at h
  split at h
  · split at h
    · cases h
    · cases h
      rfl
  · cases h
    rfl

/-- The first assignment to a name adds its property and its report. -/
theorem Collects.take {a : Assignment}
    (h : Collects project d (a.target :: seen) ss properties reports)
    (found : s.assignment? = some a)
    (fresh : ¬(d.declaresMember a.target = true ∨ a.target ∈ seen)) :
    Collects project d seen (s :: ss) ((a.property? project d).toList ++ properties)
      ((a.report? project d).toList ++ reports) := by
  have later {x : String} (other : a.target ≠ x) :
      first? (s :: ss) x = first? ss x ∧
        ((d.declaresMember x = true ∨ x ∈ a.target :: seen) ↔
          (d.declaresMember x = true ∨ x ∈ seen)) := by
    refine ⟨by rw [first?_cons_of_some found, if_neg other], ?_⟩
    rw [List.mem_cons, or_iff_right (Ne.symm other)]
  have here : first? (s :: ss) a.target = some a := by rw [first?_cons_of_some found, if_pos rfl]
  refine ⟨?named, ?reported, ?reports⟩
  case named =>
    intro x
    rw [List.filter_append, h.named]
    by_cases same : a.target = x
    · subst same
      have own : (a.property? project d).toList.filter (·.name == a.target)
          = (a.property? project d).toList :=
        List.filter_eq_self.mpr fun p mem =>
          beq_iff_eq.mpr (name_of_property? (Option.mem_toList.mp mem))
      rw [own, if_pos (.inr List.mem_cons_self), List.append_nil, if_neg fresh, here,
        Option.bind_some]
    · have none : (a.property? project d).toList.filter (·.name == x) = [] := by
        refine List.filter_eq_nil_iff.mpr fun p mem suits => same ?_
        exact (name_of_property? (Option.mem_toList.mp mem)).symm.trans (eq_of_beq suits)
      obtain ⟨first, guard⟩ := later same
      rw [none, List.nil_append, first]
      simp only [guard]
  case reported =>
    intro r mem
    rcases List.mem_append.mp mem with own | mem
    · exact .inr ⟨a.target, a, here, Option.mem_toList.mp own, fresh⟩
    · rcases h.reported r mem with parse | ⟨x, b, first, given, free⟩
      · exact .inl parse
      · have other : a.target ≠ x := by
          rintro rfl
          exact free (.inr List.mem_cons_self)
        obtain ⟨same, guard⟩ := later other
        exact .inr ⟨x, b, same.trans first, given, fun taken => free (guard.mpr taken)⟩
  case reports =>
    intro x b r first given free
    by_cases same : a.target = x
    · subst same
      rw [here] at first
      cases first
      exact List.mem_append_left _ (Option.mem_toList.mpr given)
    · obtain ⟨eq, guard⟩ := later same
      refine List.mem_append_right _ ?_
      exact h.reports x b r (eq.symm.trans first) given fun taken => free (guard.mp taken)

/-- With a live token, the first assignment to a name gives its property and its report, and nothing
else does. -/
theorem exists_collected (declared : project.host.declaration? d.symbol = some d)
    (stand : ∀ s ∈ ss, Stands d s) (seen : List String) :
    ∃ properties reports, collect project .live d seen ss = .ok (properties, reports) ∧
      Collects project d seen ss properties reports := by
  induction ss generalizing seen with
  | nil => exact ⟨[], [], rfl, collects_nil seen⟩
  | cons s rest ih =>
    obtain ⟨stands, later⟩ := List.forall_mem_cons.mp stand
    have ok : Token.live.checkpoint = .ok () := rfl
    rw [collect, ok]
    cases parsed : parseStatement s.statement.text with
    | error e =>
      have none : s.assignment? = none := by rw [Source.assignment?, parsed]
      obtain ⟨properties, reports, rest, collects⟩ := ih later seen
      refine ⟨properties, parseReport d s e :: reports, ?_, ?_⟩
      · simp only [rest, bind, Except.bind, pure, Except.pure]
      · exact collects.skip none [parseReport d s e]
          (List.forall_mem_singleton.mpr ⟨s, e, rfl⟩)
    | ok statement =>
      cases statement with
      | expr value =>
        have none : s.assignment? = none := by rw [Source.assignment?, parsed]
        obtain ⟨properties, reports, rest, collects⟩ := ih later seen
        exact ⟨properties, reports, rest, collects.skip none [] (by simp)⟩
      | assign span target value =>
        let a : Assignment := ⟨s, target.node, value⟩
        have found : s.assignment? = some a := by rw [Source.assignment?, parsed]
        dsimp only [bind, Except.bind]
        split
        · next taken =>
          obtain ⟨properties, reports, rest, collects⟩ := ih later seen
          refine ⟨properties, reports, rest, collects.pass found ?_⟩
          simpa using taken
        · next fresh =>
          obtain ⟨properties, reports, rest, collects⟩ := ih later (target.node :: seen)
          refine ⟨_, _, ?_, collects.take (a := a) found (by simpa using fresh)⟩
          have given := assigned_eq (a := a) stands declared
          rw [given]
          simp only [rest, pure, Except.pure]

end Marksmith.Injection

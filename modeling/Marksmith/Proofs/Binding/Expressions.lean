import Marksmith.Proofs.Binding.Calls

/-!
Expressions that bind alike on two hosts.

* `NamesAgree`, `bindName_agrees`: names of parameters that have the same type, and names that stand
  for a member or a type;
* `ExprAgrees`: an expression binds on one host as another one does on the other host; one lemma for
  each kind of expression says how this follows from its parts;
* `ExprAgrees.same`: every expression whose names agree binds alike on both hosts.
-/

namespace Marksmith.Binding

open Syntax

open Syntax.TypeRef

variable {Q : Symbol → Prop} {site : Site} {host host' : Host}
  {R : List (String × TypeRef) → List (String × TypeRef) → Prop}

/-! ### Names -/

/-- The lambda parameter that a name refers to; names with type arguments refer to none. -/
def paramType? (L : List (String × TypeRef)) (n : SimpleName) : Option TypeRef :=
  if n.typeArgs.isEmpty then L.lookup n.ident else none

/-- A name as a member of the owner. -/
def bindOwnMember (host : Host) (site : Site) (span : Span) (n : SimpleName) : Bind TypeRef := do
  let owner ← Bind.ofOption (ownerType? host site)
  let found ← Bind.ofOption (member? host owner n.ident)
  Bind.record span found.1
  return found.2

/-- A name is looked up among the parameters first. -/
theorem run_bindValueName (span : Span) (n : SimpleName) (s : Scope) :
    (bindValueName host site span n).run s
      = ((paramType? s.locals n).elim (bindOwnMember host site span n) fun t => do
          Bind.record span (.local n.ident t)
          return t).run s := by
  have scope : (get : Bind Scope).run s = (some s, s) := rfl
  rw [bindValueName, Bind.run_bind_some scope, paramType?]
  generalize (if n.typeArgs.isEmpty then s.locals.lookup n.ident else none) = param
  cases param <;> rfl

/-- Names that refer to parameters of the same type, or the same name that refers to none. -/
def NamesAgree (R : List (String × TypeRef) → List (String × TypeRef) → Prop) (Q : Symbol → Prop)
    (n n' : SimpleName) : Prop :=
  ∀ L L', R L L' → (∃ t, paramType? L n = some t ∧ paramType? L' n' = some t ∧ t.MadeOf Q) ∨
    paramType? L n = none ∧ paramType? L' n' = none ∧ n' = n

section Naming

variable (reissues : Reissues Q site host host')

include reissues

theorem resolve_agrees (t : TypeRef) :
    Agrees R (SameType Q) (resolve host site t) (resolve host' site t) := by
  rw [reissues.outline.resolve_eq]
  refine .ofOption ?_
  cases found : host.resolve? site.owner t with
  | none => exact .none
  | some u => exact .some ⟨rfl, madeOf_resolve? reissues.covers reissues.visible found⟩

theorem ownerType_agrees :
    Agrees R (SameType Q) (Bind.ofOption (ownerType? host site))
      (Bind.ofOption (ownerType? host' site)) := by
  rw [reissues.outline.ownerType?_eq]
  refine .ofOption ?_
  cases found : ownerType? host site with
  | none => exact .none
  | some t => exact .some ⟨rfl, madeOf_ownerType? reissues.covers reissues.visible found⟩

theorem member_agrees {t : TypeRef} (made : t.MadeOf Q) (name : String) :
    Agrees R (Same fun found : Referent × TypeRef => found.2.MadeOf Q)
      (Bind.ofOption (member? host t name)) (Bind.ofOption (member? host' t name)) := by
  rw [reissues.outline.member?_eq]
  refine .ofOption ?_
  cases found : member? host t name with
  | none => exact .none
  | some x => exact .some ⟨rfl, madeOf_member? reissues.covers made found⟩

theorem bindOwnMember_agrees (span span' : Span) (n : SimpleName) :
    Agrees R (SameType Q) (bindOwnMember host site span n) (bindOwnMember host' site span' n) := by
  refine (ownerType_agrees reissues).bind ?_
  rintro _ t ⟨rfl, made⟩
  refine (member_agrees reissues made n.ident).bind ?_
  rintro _ found ⟨rfl, type⟩
  exact (Agrees.record _ _ _ _).bind fun _ _ _ => .pure ⟨rfl, type⟩

theorem bindValueName_agreesAt {n n' : SimpleName} {s s' : Scope} (names : NamesAgree R Q n n')
    (span span' : Span) (locals : R s.locals s'.locals) (depth : s.depth = s'.depth) :
    AgreesAt (SameType Q) (bindValueName host site span n) (bindValueName host' site span' n')
      s s' := by
  rcases names s.locals s'.locals locals with ⟨t, found, found', made⟩ | ⟨missing, missing', rfl⟩
  · have both : Agrees R (SameType Q) (do
          Bind.record span (.local n.ident t)
          return t) (do
          Bind.record span' (.local n'.ident t)
          return t) :=
      (Agrees.record _ _ _ _).bind fun _ _ _ => .pure ⟨rfl, made⟩
    refine (both s s' locals depth).ofRest ?_ ?_ (.refl s) (.refl s')
    · rw [run_bindValueName, found, Option.elim_some]
    · rw [run_bindValueName, found', Option.elim_some]
  · have both := bindOwnMember_agrees reissues (R := R) span span' n' s s' locals depth
    refine both.ofRest ?_ ?_ (.refl s) (.refl s')
    · rw [run_bindValueName, missing, Option.elim_none]
    · rw [run_bindValueName, missing', Option.elim_none]

omit reissues in
/-- A parameter is found at once, and types are not considered. -/
theorem run_bindName_param {n : SimpleName} {s : Scope} {t : TypeRef} (span : Span)
    (found : paramType? s.locals n = some t) :
    (bindName host site span n).run s
      = (some (.value t), { s with referents := (span, .local n.ident t) :: s.referents }) :=
  Bind.run_orElse_some (Bind.run_map (r := some t) (by rw [run_bindValueName, found]; rfl))

/-- A name stands for the same value or type. -/
theorem bindName_agrees {n n' : SimpleName} (names : NamesAgree R Q n n') (span span' : Span) :
    Agrees R (Same (Qualifier.MadeOf Q)) (bindName host site span n)
      (bindName host' site span' n') := by
  intro s s' locals depth
  rcases names s.locals s'.locals locals with ⟨t, found, found', made⟩ | ⟨-, -, rfl⟩
  · exact .ofRuns (run_bindName_param span found) (run_bindName_param span' found')
      (.some ⟨rfl, made⟩) ⟨rfl, rfl⟩ ⟨rfl, rfl⟩
  · have placed : ∀ t t', SameType Q t t' →
        Same (Qualifier.MadeOf Q) (Qualifier.value t) (Qualifier.value t') := by
      rintro _ t ⟨rfl, made⟩
      exact ⟨rfl, made⟩
    have value := (bindValueName_agreesAt reissues names span span' locals depth).map placed
    refine Agrees.orElseAt value ?_ locals depth
    refine (resolve_agrees reissues (.generic n'.ident n'.typeArgs)).bind ?_
    rintro _ t ⟨rfl, made⟩
    exact (Agrees.record _ _ _ _).bind fun _ _ _ => .pure ⟨rfl, made⟩

/-- A dotted name behind a namespace stands for the same type if it resolves alike. -/
theorem bindPath_agrees {path path' : Option TypeRef}
    (same : Option.Rel (SameType Q) (path.bind (host.resolve? site.owner))
      (path'.bind (host.resolve? site.owner))) (span span' : Span) :
    Agrees R (Same (Qualifier.MadeOf Q)) (bindPath host site span path)
      (bindPath host' site span' path') := by
  have step : ∀ (host : Host) (span : Span) (path : Option TypeRef), bindPath host site span path
      = Bind.ofOption (path.bind (host.resolve? site.owner)) >>= fun t => do
        Bind.record span (.type t)
        return .type t := by
    intro host span path
    cases path <;> rfl
  rw [step, step, reissues.outline.resolve?_eq]
  refine (Agrees.ofOption same).bind ?_
  rintro _ t ⟨rfl, made⟩
  exact (Agrees.record _ _ _ _).bind fun _ _ _ => .pure ⟨rfl, made⟩

/-- A member access stands for the same value or type if its target does. -/
theorem bindMember_agrees {q : Qualifier} (made : q.MadeOf Q) (span span' : Span)
    (n : Located SimpleName) :
    Agrees R (Same (Qualifier.MadeOf Q)) (bindMember host site span n q)
      (bindMember host' site span' n q) := by
  have access : ∀ t : TypeRef, t.MadeOf Q → Agrees R (Same (Qualifier.MadeOf Q))
      (bindMember.access host n t) (bindMember.access host' n t) := by
    intro t made
    refine (member_agrees reissues made n.node.ident).bind ?_
    rintro _ ⟨referent, type⟩ ⟨rfl, typeMade⟩
    exact (Agrees.record _ _ _ _).bind fun _ _ _ => .pure ⟨rfl, typeMade⟩
  cases q with
  | value t => exact access t made
  | type t =>
    rw [bindMember, bindMember, reissues.outline.nestedType?_eq]
    cases found : nestedType? host site t n.node with
    | none => exact access t made
    | some nested =>
      have nestedMade := madeOf_resolve? reissues.covers reissues.visible found
      exact (Agrees.record _ _ _ _).bind fun _ _ _ => .pure ⟨rfl, nestedMade⟩

end Naming

/-! ### Expressions -/

/-- Meanings that agree, as values and as qualifiers. -/
structure MeaningAgrees (R : List (String × TypeRef) → List (String × TypeRef) → Prop)
    (Q : Symbol → Prop) (m m' : Meaning) : Prop where
  value : Agrees R (SameType Q) m.value m'.value
  qualifier : Agrees R (Same (Qualifier.MadeOf Q)) m.qualifier m'.qualifier

theorem MeaningAgrees.ofValue {b b' : Bind TypeRef} (agrees : Agrees R (SameType Q) b b') :
    MeaningAgrees R Q (.ofValue b) (.ofValue b') where
  value := agrees.nested
  qualifier := agrees.nested.map fun _ _ same => ⟨congrArg Qualifier.value same.1, same.2⟩

theorem MeaningAgrees.ofQualifier {b b' : Bind Qualifier}
    (agrees : Agrees R (Same (Qualifier.MadeOf Q)) b b') :
    MeaningAgrees R Q (.ofQualifier b) (.ofQualifier b') where
  value := by
    refine (agrees.bind ?_).nested
    rintro _ q ⟨rfl, made⟩
    cases q with
    | value t => exact .pure ⟨rfl, made⟩
    | type t => exact .failure
  qualifier := agrees

/-- An argument of a call. -/
def argument (host : Host) (site : Site) : Expr → Argument
  | .literal _ .null => .null
  | .lambda _ params body => .lambda (params.map (·.node)) (meaning host site body).value
  | e => .plain (meaning host site e).value

theorem arguments_eq (host : Host) (site : Site) (es : List Expr) :
    arguments host site es = es.map (argument host site) := by
  induction es with
  | nil => rw [arguments, List.map_nil]
  | cons e es ih =>
    rw [List.map_cons, ← ih]
    cases e with
    | literal _ value => cases value <;> rw [arguments] <;> first | rfl | nofun
    | _ => rw [arguments] <;> first | rfl | nofun

/-- An expression that is neither `null` nor a lambda counts by its meaning, wherever it stands. -/
def IsOrdinary : Expr → Prop
  | .literal _ .null | .lambda .. => False
  | _ => True

theorem argument_of_isOrdinary {e : Expr} (ordinary : IsOrdinary e) :
    argument host site e = .plain (meaning host site e).value := by
  cases e with
  | literal _ value => cases value <;> first | rfl | exact ordinary.elim
  | lambda => exact ordinary.elim
  | _ => rfl

theorem operand_of_isOrdinary {e : Expr} (ordinary : IsOrdinary e) :
    operand host site e = some <$> (meaning host site e).value := by
  cases e with
  | literal _ value =>
    cases value with
    | null => exact ordinary.elim
    | _ =>
      rw [operand]
      intro _ same
      cases same
  | _ =>
    rw [operand]
    intro _ same
    cases same

/-- A call has a name or a member access in front of its arguments. -/
def IsCallable : Expr → Prop
  | .name .. | .member .. => True
  | _ => False

theorem meaning_invoke_other {callee : Expr} (other : ¬IsCallable callee) (span : Span)
    (es : List Expr) : meaning host site (.invoke span callee es) = .ofValue failure := by
  cases callee with
  | name | member => exact absurd trivial other
  | _ =>
    rw [meaning]
    · nofun
    · nofun

/-- An expression binds on one host as another expression does on another host, wherever it
stands. -/
structure ExprAgrees (R : List (String × TypeRef) → List (String × TypeRef) → Prop)
    (Q : Symbol → Prop) (site : Site) (host host' : Host) (e e' : Expr) : Prop where
  meaning : MeaningAgrees R Q (meaning host site e) (meaning host' site e')
  operand : Agrees R (Same fun o => ∀ t ∈ o, t.MadeOf Q) (operand host site e)
    (operand host' site e')
  argument : ArgAgrees R Q (argument host site e) (argument host' site e')

namespace ExprAgrees

theorem ofMeaning {e e' : Expr} (ordinary : IsOrdinary e) (ordinary' : IsOrdinary e')
    (agrees : MeaningAgrees R Q (Binding.meaning host site e) (Binding.meaning host' site e')) :
    ExprAgrees R Q site host host' e e' where
  meaning := agrees
  operand := by
    rw [operand_of_isOrdinary ordinary, operand_of_isOrdinary ordinary']
    refine agrees.value.map ?_
    rintro _ t ⟨rfl, made⟩
    refine ⟨rfl, ?_⟩
    rintro _ ⟨⟩
    exact made
  argument := by
    rw [argument_of_isOrdinary ordinary, argument_of_isOrdinary ordinary']
    exact .plain agrees.value

/-- The arguments of a call agree if they do one by one. -/
theorem arguments {es es' : List Expr}
    (each : List.Forall₂ (ExprAgrees R Q site host host') es es') :
    List.Forall₂ (ArgAgrees R Q) (Binding.arguments host site es)
      (Binding.arguments host' site es') := by
  rw [arguments_eq, arguments_eq]
  exact List.rel_map (fun _ _ agrees => agrees.argument) each

variable (reissues : Reissues Q site host host') {span span' : Span}

include reissues

theorem literal (value : Literal) :
    ExprAgrees R Q site host host' (.literal span value) (.literal span' value) := by
  have meaning : MeaningAgrees R Q (Binding.meaning host site (.literal span value))
      (Binding.meaning host' site (.literal span' value)) := by
    rw [Binding.meaning, Binding.meaning]
    refine .ofValue (.ofOption ?_)
    cases found : literalType? value with
    | none => exact .none
    | some t => exact .some ⟨rfl, madeOf_literalType? reissues.covers found⟩
  cases value with
  | null =>
    refine ⟨meaning, ?_, .null⟩
    rw [Binding.operand, Binding.operand]
    exact .pure ⟨rfl, fun t none => absurd none (Option.not_mem_none t)⟩
  | _ => exact .ofMeaning trivial trivial meaning

theorem this : ExprAgrees R Q site host host' (.this span) (.this span') := by
  refine .ofMeaning trivial trivial ?_
  rw [Binding.meaning, Binding.meaning]
  exact .ofValue (ownerType_agrees reissues)

theorem name {n n' : SimpleName} (names : NamesAgree R Q n n') :
    ExprAgrees R Q site host host' (.name span n) (.name span' n') := by
  refine .ofMeaning trivial trivial ?_
  rw [Binding.meaning, Binding.meaning]
  exact .ofQualifier (bindName_agrees reissues names span span')

/-- Where the target may fail to bind, the whole has to resolve alike as a dotted name. -/
theorem member {target target' : Expr} (agrees : ExprAgrees R Q site host host' target target')
    (n : Located SimpleName)
    (fallback : (∃ s s' : Scope, R s.locals s'.locals ∧ s.depth = s'.depth ∧
        ((Binding.meaning host site target).qualifier.run s).1 = none) →
      Option.Rel (SameType Q) ((typePath? (.member span target n)).bind (host.resolve? site.owner))
        ((typePath? (.member span' target' n)).bind (host.resolve? site.owner))) :
    ExprAgrees R Q site host host' (.member span target n) (.member span' target' n) := by
  refine .ofMeaning trivial trivial ?_
  rw [Binding.meaning, Binding.meaning]
  refine .ofQualifier fun s s' locals depth => ?_
  obtain ⟨t, t', kept, kept', ⟨ran, ran'⟩ | ⟨q, _, ⟨rfl, made⟩, ran, ran'⟩⟩ :=
    (agrees.meaning.qualifier s s' locals depth).outcomes
  · have same := fallback ⟨s, s', locals, depth, by rw [ran]⟩
    exact ((bindPath_agrees reissues same span span').after locals depth kept kept').ofRest
      (Bind.run_bind_some (Bind.run_attempt ran)) (Bind.run_bind_some (Bind.run_attempt ran'))
      kept kept'
  · exact ((bindMember_agrees reissues made span span' n).after locals depth kept kept').ofRest
      (Bind.run_bind_some (Bind.run_attempt ran)) (Bind.run_bind_some (Bind.run_attempt ran'))
      kept kept'

/-- A method of the owner is called. -/
theorem invokeName {nameSpan : Span} (n : SimpleName) {es es' : List Expr}
    (each : List.Forall₂ (ExprAgrees R Q site host host') es es') :
    ExprAgrees R Q site host host' (.invoke span (.name nameSpan n) es)
      (.invoke span' (.name nameSpan n) es') := by
  refine .ofMeaning trivial trivial ?_
  rw [Binding.meaning, Binding.meaning]
  refine .ofValue ((ownerType_agrees reissues).bind ?_)
  rintro _ owner ⟨rfl, made⟩
  exact callOn_agrees reissues (arguments each) made ⟨n, nameSpan⟩

/-- A method behind a point is called. -/
theorem invokeMember {memberSpan memberSpan' : Span} {target target' : Expr}
    (agrees : ExprAgrees R Q site host host' target target') (n : Located SimpleName)
    {es es' : List Expr} (each : List.Forall₂ (ExprAgrees R Q site host host') es es') :
    ExprAgrees R Q site host host' (.invoke span (.member memberSpan target n) es)
      (.invoke span' (.member memberSpan' target' n) es') := by
  refine .ofMeaning trivial trivial ?_
  rw [Binding.meaning, Binding.meaning]
  refine .ofValue (agrees.meaning.qualifier.bind ?_)
  rintro _ q ⟨rfl, made⟩
  exact callMember_agrees reissues (arguments each) made n

omit reissues in
/-- Nothing else can be called. -/
theorem invokeOther {callee callee' : Expr} (other : ¬IsCallable callee)
    (other' : ¬IsCallable callee') (es es' : List Expr) :
    ExprAgrees R Q site host host' (.invoke span callee es) (.invoke span' callee' es') := by
  refine .ofMeaning trivial trivial ?_
  rw [meaning_invoke_other other, meaning_invoke_other other']
  exact .ofValue .failure

theorem index {target target' : Expr} (agrees : ExprAgrees R Q site host host' target target')
    {es es' : List Expr} (each : List.Forall₂ (ExprAgrees R Q site host host') es es') :
    ExprAgrees R Q site host host' (.index span target es) (.index span' target' es') := by
  refine .ofMeaning trivial trivial ?_
  rw [Binding.meaning, Binding.meaning]
  refine .ofValue (agrees.meaning.value.bind ?_)
  rintro _ t ⟨rfl, made⟩
  refine (bindAll_agrees (arguments each)).bind fun _ _ _ => ?_
  rw [reissues.outline.elementType?_eq]
  refine .ofOption ?_
  cases found : elementType? host t with
  | none => exact .none
  | some u => exact .some ⟨rfl, madeOf_elementType? reissues.covers made found⟩

theorem cast (type : Located TypeRef) {operand operand' : Expr}
    (agrees : ExprAgrees R Q site host host' operand operand') :
    ExprAgrees R Q site host host' (.cast span type operand) (.cast span' type operand') := by
  refine .ofMeaning trivial trivial ?_
  rw [Binding.meaning, Binding.meaning]
  exact .ofValue (agrees.meaning.value.attempt.bind fun _ _ _ => resolve_agrees reissues type.node)

theorem new (type : Located TypeRef) {es es' : List Expr}
    (each : List.Forall₂ (ExprAgrees R Q site host host') es es') :
    ExprAgrees R Q site host host' (.new span type es) (.new span' type es') := by
  refine .ofMeaning trivial trivial ?_
  rw [Binding.meaning, Binding.meaning]
  exact .ofValue ((attemptAll_agrees (arguments each)).bind
    fun _ _ _ => resolve_agrees reissues type.node)

omit reissues in
/-- A lambda binds as an argument only. -/
theorem lambda {params params' : List (Located String)} {body body' : Expr}
    (lengths : params'.length = params.length)
    (agrees : ∀ inputs : List TypeRef, inputs.length = params.length → (∀ t ∈ inputs, t.MadeOf Q) →
      Agrees R (SameType Q)
        ((Binding.meaning host site body).value.withLocals ((params.map (·.node)).zip inputs))
        ((Binding.meaning host' site body').value.withLocals ((params'.map (·.node)).zip inputs))) :
    ExprAgrees R Q site host host' (.lambda span params body) (.lambda span' params' body') where
  meaning := by
    rw [Binding.meaning, Binding.meaning]
    exact .ofValue .failure
  operand := by
    rw [Binding.operand, Binding.operand, Binding.meaning, Binding.meaning]
    · exact ((Agrees.failure (V := fun _ _ => False)).nested.map fun _ _ never => never.elim)
    all_goals
      intro _ same
      cases same
  argument := by
    refine .lambda ?_ fun inputs number made => agrees inputs ?_ made
    · rw [List.length_map, List.length_map, lengths]
    · rw [number, List.length_map]

theorem unary (op : UnaryOp) {operand operand' : Expr}
    (agrees : ExprAgrees R Q site host host' operand operand') :
    ExprAgrees R Q site host host' (.unary span op operand) (.unary span' op operand') := by
  refine .ofMeaning trivial trivial ?_
  cases op with
  | not =>
    rw [Binding.meaning, Binding.meaning]
    refine .ofValue (agrees.meaning.value.bind fun _ _ _ => .pure ⟨rfl, ?_⟩)
    exact madeOf_predefined reissues.covers rfl
  | neg =>
    rw [Binding.meaning, Binding.meaning]
    exact .ofValue agrees.meaning.value

theorem binary {left left' right right' : Expr} (op : BinaryOp)
    (l : ExprAgrees R Q site host host' left left')
    (r : ExprAgrees R Q site host host' right right') :
    ExprAgrees R Q site host host' (.binary span left op right)
      (.binary span' left' op right') := by
  refine .ofMeaning trivial trivial ?_
  rw [Binding.meaning, Binding.meaning]
  refine .ofValue (l.operand.attempt.bind fun a a' sameLeft => r.operand.attempt.bind
    fun b b' sameRight => (Agrees.ofOption sameLeft).bind ?_)
  rintro _ a ⟨rfl, aMade⟩
  refine (Agrees.ofOption sameRight).bind ?_
  rintro _ b ⟨rfl, bMade⟩
  split
  · exact .pure ⟨rfl, madeOf_predefined reissues.covers rfl⟩
  · refine .ofOption ?_
    cases found : operationResult? op a b with
    | none => exact .none
    | some t => exact .some ⟨rfl, madeOf_operationResult? reissues.covers aMade bMade found⟩

omit reissues in
theorem paren {inner inner' : Expr} (agrees : ExprAgrees R Q site host host' inner inner') :
    ExprAgrees R Q site host host' (.paren span inner) (.paren span' inner') := by
  refine .ofMeaning trivial trivial ?_
  rw [Binding.meaning, Binding.meaning]
  exact .ofValue agrees.meaning.value

end ExprAgrees

/-! ### The same expression -/

/-- Scopes stay related when the same parameters come into scope on both sides. -/
def Extends (R : List (String × TypeRef) → List (String × TypeRef) → Prop) (Q : Symbol → Prop) :
    Prop :=
  ∀ L L' params, R L L' → (∀ p ∈ params, p.2.MadeOf Q) → R (params ++ L) (params ++ L')

/-- A body of a lambda that binds alike does so under the same parameters. -/
theorem Extends.withLocals (extend : Extends R Q) {names : List String} {inputs : List TypeRef}
    (made : ∀ t ∈ inputs, t.MadeOf Q) {body body' : Bind TypeRef}
    (agrees : Agrees R (SameType Q) body body') :
    Agrees R (SameType Q) (body.withLocals (names.zip inputs))
      (body'.withLocals (names.zip inputs)) :=
  agrees.withLocals fun L L' related => extend L L' _ related fun p mem =>
    made p.2 (List.of_mem_zip (List.mem_reverse.mp mem)).2

/-- The names of an expression agree with themselves. -/
def NamesKept (R : List (String × TypeRef) → List (String × TypeRef) → Prop) (Q : Symbol → Prop)
    (e : Expr) : Prop :=
  ∀ span n, .name span n ∈ e.nodes → NamesAgree R Q n n

theorem NamesKept.part {e c : Expr} (kept : NamesKept R Q e) (part : c ∈ e.children) :
    NamesKept R Q c := by
  intro span n mem
  refine kept span n ?_
  rw [Expr.nodes_eq]
  exact List.mem_cons_of_mem _ (List.mem_flatMap.mpr ⟨c, part, mem⟩)

/-- A dotted name resolves alike. -/
theorem path_rel (reissues : Reissues Q site host host') (path : Option TypeRef) :
    Option.Rel (SameType Q) (path.bind (host.resolve? site.owner))
      (path.bind (host.resolve? site.owner)) := by
  cases found : path.bind (host.resolve? site.owner) with
  | none => exact .none
  | some t =>
    obtain ⟨written, -, resolves⟩ := Option.bind_eq_some_iff.mp found
    exact .some ⟨rfl, madeOf_resolve? reissues.covers reissues.visible resolves⟩

mutual

/-- An expression whose names agree binds alike on both hosts. -/
theorem ExprAgrees.same (reissues : Reissues Q site host host') (extend : Extends R Q) :
    ∀ e : Expr, NamesKept R Q e → ExprAgrees R Q site host host' e e
  | .name span n, kept => .name reissues (kept span n (List.mem_singleton_self _))
  | .literal _ value, _ => .literal reissues value
  | .this _, _ => .this reissues
  | .member _ target n, kept =>
    .member reissues (same reissues extend target (kept.part List.mem_cons_self)) n
      fun _ => path_rel reissues _
  | .invoke _ callee args, kept => by
    have each := sameAll reissues extend args fun _ mem =>
      kept.part (List.mem_cons_of_mem callee mem)
    have target : NamesKept R Q callee := kept.part List.mem_cons_self
    cases callee with
    | name _ n => exact .invokeName reissues n each
    | member _ inner n =>
      have deeper := target.part List.mem_cons_self
      exact .invokeMember reissues (same reissues extend inner deeper) n each
    | _ => exact .invokeOther id id args args
  | .index _ target args, kept =>
    .index reissues (same reissues extend target (kept.part List.mem_cons_self))
      (sameAll reissues extend args fun _ mem => kept.part (List.mem_cons_of_mem _ mem))
  | .cast _ type operand, kept =>
    .cast reissues type (same reissues extend operand (kept.part List.mem_cons_self))
  | .new _ type args, kept =>
    .new reissues type (sameAll reissues extend args fun _ mem => kept.part mem)
  | .lambda _ params body, kept =>
    .lambda rfl fun _ _ made =>
      extend.withLocals made
        (same reissues extend body (kept.part List.mem_cons_self)).meaning.value
  | .unary _ op operand, kept =>
    .unary reissues op (same reissues extend operand (kept.part List.mem_cons_self))
  | .binary _ left op right, kept =>
    .binary reissues op (same reissues extend left (kept.part List.mem_cons_self))
      (same reissues extend right (kept.part (List.mem_cons_of_mem _ List.mem_cons_self)))
  | .paren _ inner, kept => .paren (same reissues extend inner (kept.part List.mem_cons_self))

theorem ExprAgrees.sameAll (reissues : Reissues Q site host host') (extend : Extends R Q) :
    ∀ es : List Expr, (∀ e ∈ es, NamesKept R Q e) →
      List.Forall₂ (ExprAgrees R Q site host host') es es
  | [], _ => .nil
  | e :: es, kept => by
    obtain ⟨first, rest⟩ := List.forall_mem_cons.mp kept
    exact .cons (same reissues extend e first) (sameAll reissues extend es rest)

end

/-- Scopes with the same parameters, whose types are made of what `Q` admits. -/
def SameParams (Q : Symbol → Prop) : List (String × TypeRef) → List (String × TypeRef) → Prop :=
  Same fun L => ∀ p ∈ L, p.2.MadeOf Q

theorem extends_sameParams (Q : Symbol → Prop) : Extends (SameParams Q) Q := by
  rintro _ L params ⟨rfl, made⟩ further
  exact ⟨rfl, List.forall_mem_append.mpr ⟨further, made⟩⟩

theorem lookup_mem {L : List (String × TypeRef)} {name : String} {t : TypeRef}
    (found : L.lookup name = some t) : (name, t) ∈ L := by
  induction L with
  | nil => cases found
  | cons p L ih =>
    rw [List.lookup_cons] at found
    split at found
    · next same =>
      cases found
      rw [beq_iff_eq.mp same]
      exact List.mem_cons_self
    · exact List.mem_cons_of_mem _ (ih found)

theorem namesAgree_sameParams (Q : Symbol → Prop) (n : SimpleName) :
    NamesAgree (SameParams Q) Q n n := by
  rintro _ L ⟨rfl, made⟩
  cases found : paramType? L n with
  | none => exact .inr ⟨rfl, rfl, rfl⟩
  | some t =>
    refine .inl ⟨t, rfl, rfl, ?_⟩
    rw [paramType?] at found
    split at found
    · exact made _ (lookup_mem found)
    · cases found

/-- Expressions that bind alike without parameters have the same type. -/
theorem ExprAgrees.speculativeType?_eq {e e' : Expr}
    (agrees : ExprAgrees (SameParams Q) Q site host host' e e') :
    host'.speculativeType? site e' = host.speculativeType? site e := by
  have related := (agrees.meaning.value {} {} ⟨rfl, List.forall_mem_nil _⟩ rfl).related
  rw [Host.speculativeType?, Host.speculativeType?]
  generalize ((Binding.meaning host site e).value.run {}).1 = t,
    ((Binding.meaning host' site e').value.run {}).1 = t' at related ⊢
  cases related with
  | none => rfl
  | some same => rw [same.1]

/-- Every expression binds alike on both hosts, under the same parameters. -/
theorem ExprAgrees.self (reissues : Reissues Q site host host') (e : Expr) :
    ExprAgrees (SameParams Q) Q site host host' e e :=
  .same reissues (extends_sameParams Q) e fun _ n _ => namesAgree_sameParams Q n

theorem ExprAgrees.selfAll (reissues : Reissues Q site host host') (es : List Expr) :
    List.Forall₂ (ExprAgrees (SameParams Q) Q site host host') es es :=
  List.forall₂_same.mpr fun e _ => .self reissues e

end Marksmith.Binding

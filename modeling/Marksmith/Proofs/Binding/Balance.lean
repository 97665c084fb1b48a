import Marksmith.Proofs.Binding.Expressions
import Marksmith.Proofs.Binding.LambdaParameters
import Marksmith.Proofs.Syntax.Casting

/-!
Binding leaves the scope as it finds it, wherever it fails.

* `Bind.Balanced`: the parameters in scope and the depth are after every run what they were before
  it; `Balanced.bind`, `Balanced.nested`, `Balanced.withLocals` and so on: computations that are
  put together from balanced ones are balanced;
* `tryCall_balanced`, `callOn_balanced`, `callExtension_balanced`: calls are, if their arguments
  are;
* `expression_balanced`: expressions are, as values and as qualifiers;
* `Bind.DropsOwn`: behind the body of a lambda its own parameters are dropped, all of them and
  nothing else.
-/

namespace Marksmith.Binding

open Syntax

namespace Bind

variable {α β : Type} {b c : Bind α} {f : α → Bind β} {bs : List (Bind α)}

/-! ### Balanced computations -/

/-- Whether the parameters in scope and the depth are the same before and after every run. -/
def Balanced (b : Bind α) : Prop := ∀ s : Scope, s.Keeps (b.run s).2

namespace Balanced

/-- Both ways in which a run can end, with the scope that it leaves. -/
theorem outcomes (balanced : b.Balanced) (s : Scope) :
    ∃ t, s.Keeps t ∧ (b.run s = (none, t) ∨ ∃ a, b.run s = (some a, t)) := by
  have kept := balanced s
  rcases ran : b.run s with ⟨_ | a, t⟩
  · rw [ran] at kept
    exact ⟨t, kept, .inl rfl⟩
  · rw [ran] at kept
    exact ⟨t, kept, .inr ⟨a, rfl⟩⟩

/-- A run that comes to the same as another one from a scope that was kept. -/
theorem ofRest {s t : Scope} {d : Bind β} (kept : s.Keeps t) (balanced : c.Balanced)
    (same : (d.run s).2 = (c.run t).2) : s.Keeps (d.run s).2 := by
  rw [same]
  exact kept.trans (balanced t)

theorem pure (a : α) : (Pure.pure a : Bind α).Balanced := fun s => .refl s

theorem failure : (Alternative.failure : Bind α).Balanced := fun s => .refl s

theorem ofOption (a : Option α) : (Bind.ofOption a).Balanced := fun s => .refl s

theorem record (span : Span) (referent : Referent) : (Bind.record span referent).Balanced :=
  fun _ => ⟨rfl, rfl⟩

theorem bind (first : b.Balanced) (next : ∀ a, (f a).Balanced) : (b >>= f).Balanced := by
  intro s
  obtain ⟨t, kept, ran | ⟨a, ran⟩⟩ := first.outcomes s
  · rw [run_bind_none ran]
    exact kept
  · exact ofRest kept (next a) (by rw [run_bind_some ran])

theorem map {g : α → β} (balanced : b.Balanced) : (g <$> b).Balanced := by
  rw [map_eq_pure_bind]
  exact balanced.bind fun a => .pure (g a)

theorem attempt (balanced : b.Balanced) : b.attempt.Balanced := by
  intro s
  obtain ⟨t, kept, ran | ⟨a, ran⟩⟩ := balanced.outcomes s
  · rw [run_attempt ran]
    exact kept
  · rw [run_attempt ran]
    exact kept

theorem orElse (first : b.Balanced) (second : c.Balanced) : (b <|> c).Balanced := by
  intro s
  obtain ⟨t, kept, ran | ⟨a, ran⟩⟩ := first.outcomes s
  · exact ofRest kept second (by rw [run_orElse_none ran])
  · rw [run_orElse_some ran]
    exact kept

theorem failure_bind : ((Alternative.failure : Bind α) >>= f).Balanced := by
  intro s
  have ran : (Alternative.failure : Bind α).run s = (none, s) := rfl
  rw [run_bind_none ran]
  exact .refl s

theorem first (each : ∀ b ∈ bs, b.Balanced) : (Bind.first bs).Balanced := by
  induction bs with
  | nil => exact .failure
  | cons b bs ih =>
    obtain ⟨here, later⟩ := List.forall_mem_cons.mp each
    exact here.orElse (ih later)

/-- The depth goes up by one and comes down by one; at the greatest depth it stays. -/
theorem nested (balanced : b.Balanced) : b.nested.Balanced := by
  intro s
  by_cases deep : maxDepth < s.depth
  · rw [run_nested_deep deep]
    exact .refl s
  · obtain ⟨t, kept, ran | ⟨a, ran⟩⟩ := balanced.outcomes { s with depth := s.depth + 1 }
    all_goals
      rw [run_nested deep ran]
      exact ⟨kept.locals, by rw [kept.depth, Nat.add_sub_cancel]⟩

/-- What is dropped behind a computation are the parameters that were in front of it. -/
theorem withLocals (balanced : b.Balanced) (params : List (String × TypeRef)) :
    (b.withLocals params).Balanced := by
  intro s
  obtain ⟨t, kept, ran | ⟨a, ran⟩⟩ :=
    balanced.outcomes { s with locals := params.reverse ++ s.locals }
  all_goals
    rw [run_withLocals ran]
    exact ⟨by rw [kept.locals, ← List.length_reverse, List.drop_left], kept.depth⟩

end Balanced

/-! ### The parameters of a lambda -/

/-- The scope behind a body that is run with parameters, before they are dropped. -/
def scopeBehind (body : Bind α) (params : List (String × TypeRef)) (s : Scope) : Scope :=
  (body.run { s with locals := params.reverse ++ s.locals }).2

/-- Behind a body that is run with the parameters of a lambda: they are all in scope, as many as the
lambda names and in front of everything else, so that dropping their number leaves the scope that
was there before them. -/
structure DropsOwn (names : List String) (inputs : List TypeRef) (body : Bind α) : Prop where
  named : (names.zip inputs).map Prod.fst = names
  room : ∀ s, names.length ≤ (body.scopeBehind (names.zip inputs) s).locals.length
  dropped : ∀ s, (body.scopeBehind (names.zip inputs) s).locals.take names.length
    = (names.zip inputs).reverse
  remaining : ∀ s, (body.scopeBehind (names.zip inputs) s).locals.drop names.length = s.locals

theorem Balanced.dropsOwn {body : Bind α} (balanced : body.Balanced) {names : List String}
    {inputs : List TypeRef} (sizes : inputs.length = names.length) :
    body.DropsOwn names inputs := by
  have behind (s : Scope) : (body.scopeBehind (names.zip inputs) s).locals
      = (names.zip inputs).reverse ++ s.locals := (balanced _).locals
  have count : (names.zip inputs).reverse.length = names.length := by
    rw [List.length_reverse, List.length_zip, sizes, Nat.min_self]
  constructor
  · exact List.map_fst_zip (Nat.le_of_eq sizes.symm)
  · intro s
    rw [behind, List.length_append, count]
    exact Nat.le_add_right _ _
  · intro s
    rw [behind, ← count, List.take_left]
  · intro s
    rw [behind, ← count, List.drop_left]

end Bind

/-- A lambda is given as many types as it has parameters. -/
theorem length_of_lambdaShape? {expected : TypeRef} {count : Nat} {inputs : List TypeRef}
    {result : Option TypeRef} (shape : lambdaShape? expected count = some (inputs, result)) :
    inputs.length = count := by
  rw [lambdaShape?] at shape
  split at shape
  · split at shape
    · split at shape
      · next enough =>
        cases shape
        rw [List.length_dropLast, enough]
      · cases shape
    · cases shape
  · split at shape
    · split at shape
      · next enough =>
        cases shape
        exact enough
      · cases shape
    · cases shape

variable (host : Host) (site : Site)

/-! ### Names -/

theorem bindValueName_balanced (span : Span) (n : SimpleName) :
    (bindValueName host site span n).Balanced := by
  intro s
  rw [run_bindValueName]
  cases paramType? s.locals n with
  | some t => exact (Bind.Balanced.record _ _).bind (fun _ => .pure t) s
  | none =>
    refine (Bind.Balanced.ofOption _).bind (fun owner => ?_) s
    exact (Bind.Balanced.ofOption _).bind fun found => (Bind.Balanced.record _ _).bind fun _ =>
      .pure found.2

theorem resolve_balanced (t : TypeRef) : (resolve host site t).Balanced := .ofOption _

theorem bindName_balanced (span : Span) (n : SimpleName) :
    (bindName host site span n).Balanced := by
  refine (bindValueName_balanced host site span n).map.orElse ?_
  exact (resolve_balanced host site _).bind fun t => (Bind.Balanced.record _ _).bind fun _ =>
    .pure _

theorem bindPath_balanced (span : Span) (path : Option TypeRef) :
    (bindPath host site span path).Balanced := by
  refine (Bind.Balanced.ofOption path).bind fun written => ?_
  exact (resolve_balanced host site written).bind fun t => (Bind.Balanced.record _ _).bind fun _ =>
    .pure _

theorem bindMember_balanced (span : Span) (n : Located SimpleName) (target : Qualifier) :
    (bindMember host site span n target).Balanced := by
  have access (t : TypeRef) : (bindMember.access host n t).Balanced :=
    (Bind.Balanced.ofOption _).bind fun _ => (Bind.Balanced.record _ _).bind fun _ => .pure _
  cases target with
  | value t => exact access t
  | type t =>
    rw [bindMember]
    split
    · exact (Bind.Balanced.record _ _).bind fun _ => .pure _
    · exact access t

/-! ### Calls -/

/-- Whether an argument is balanced as a value, and a lambda in its body. -/
def Argument.Balanced : Argument → Prop
  | plain value | lambda _ value => value.Balanced
  | null => True

theorem Argument.Balanced.value {arg : Argument} (balanced : arg.Balanced) :
    arg.value.Balanced := by
  cases arg with
  | plain value => exact balanced
  | null => exact .failure
  | lambda names body => exact .failure

section Calling

variable {args : List Argument} (each : ∀ arg ∈ args, arg.Balanced)

include each

theorem bindAll_balanced : (bindAll args).Balanced := by
  induction args with
  | nil => exact .pure ()
  | cons arg args ih =>
    obtain ⟨here, later⟩ := List.forall_mem_cons.mp each
    exact here.value.bind fun _ => ih later

theorem attemptAll_balanced : (attemptAll args).Balanced := by
  induction args with
  | nil => exact .pure ()
  | cons arg args ih =>
    obtain ⟨here, later⟩ := List.forall_mem_cons.mp each
    exact here.value.attempt.bind fun _ => ih later

theorem fitPlain_balanced (typeParams : List String) (inferred : Host.Inferred)
    (params : List TypeRef) : (fitPlain host typeParams inferred params args).Balanced := by
  induction params generalizing args inferred with
  | nil => exact .pure inferred
  | cons param params ih =>
    cases args with
    | nil => exact .pure inferred
    | cons arg args =>
      obtain ⟨here, later⟩ := List.forall_mem_cons.mp each
      cases arg with
      | plain value =>
        rw [fitPlain]
        exact Bind.Balanced.bind here fun t => (Bind.Balanced.ofOption _).bind fun further =>
          ih later further
      | null => exact ih later inferred
      | lambda names body => exact ih later inferred

theorem fitLambdas_balanced (typeParams : List String) (inferred : Host.Inferred)
    (params : List TypeRef) : (fitLambdas host typeParams inferred params args).Balanced := by
  induction params generalizing args inferred with
  | nil => exact .pure inferred
  | cons param params ih =>
    cases args with
    | nil => exact .pure inferred
    | cons arg args =>
      obtain ⟨here, later⟩ := List.forall_mem_cons.mp each
      cases arg with
      | plain value => exact ih later inferred
      | null => exact ih later inferred
      | lambda names body =>
        rw [fitLambdas]
        refine (Bind.Balanced.ofOption _).bind ?_
        rintro ⟨inputs, result⟩
        dsimp only
        split
        · exact .failure_bind
        · refine (Bind.Balanced.withLocals here _).attempt.bind fun type => ?_
          cases result with
          | none => exact ih later inferred
          | some result =>
            exact (Bind.Balanced.ofOption type).bind fun t =>
              (Bind.Balanced.ofOption _).bind fun further => ih later further

/-- A candidate may be given up at its signature, at an argument or at its result. -/
theorem tryCall_balanced (c : Candidate) (written : List TypeRef) (receiver : Option TypeRef) :
    (tryCall host site c written receiver args).Balanced := by
  refine (Bind.Balanced.ofOption _).bind fun signature => ?_
  refine (fitPlain_balanced host each _ _ _).bind fun inferred => ?_
  refine (fitLambdas_balanced host each _ _ _).bind fun inferred => ?_
  dsimp only
  split
  · exact .failure
  · exact .pure _

theorem callCandidate_balanced (n : Located SimpleName) (receiver : Option TypeRef)
    (c : Candidate) : (callCandidate host site n receiver args c).Balanced :=
  (tryCall_balanced host site each c _ receiver).bind fun returns =>
    (Bind.Balanced.record _ _).bind fun _ => .pure returns

theorem callOn_balanced (t : TypeRef) (n : Located SimpleName) :
    (callOn host site t n args).Balanced :=
  .first (List.forall_mem_map.mpr fun c _ => callCandidate_balanced host site each n none c)

theorem callExtension_balanced (t : TypeRef) (n : Located SimpleName) :
    (callExtension host site t n args).Balanced :=
  .first (List.forall_mem_map.mpr fun c _ => callCandidate_balanced host site each n (some t) c)

theorem callMember_balanced (n : Located SimpleName) (target : Qualifier) :
    (callMember host site n args target).Balanced := by
  cases target with
  | type t => exact callOn_balanced host site each t n
  | value t =>
    exact (callOn_balanced host site each t n).orElse (callExtension_balanced host site each t n)

end Calling

/-! ### Expressions -/

/-- Whether a meaning is balanced as a value and as a qualifier. -/
structure Meaning.Balanced (m : Meaning) : Prop where
  value : m.value.Balanced
  qualifier : m.qualifier.Balanced

theorem Meaning.Balanced.ofValue {b : Bind TypeRef} (balanced : b.Balanced) :
    (Meaning.ofValue b).Balanced :=
  ⟨balanced.nested, balanced.nested.map⟩

theorem Meaning.Balanced.ofQualifier {q : Bind Qualifier} (balanced : q.Balanced) :
    (Meaning.ofQualifier q).Balanced := by
  refine ⟨(balanced.bind fun found => ?_).nested, balanced⟩
  cases found with
  | value t => exact .pure t
  | type t => exact .failure

variable {host site}

theorem operand_balanced {e : Expr} (balanced : (meaning host site e).Balanced) :
    (operand host site e).Balanced := by
  by_cases null : ∃ span, e = .literal span .null
  · obtain ⟨span, rfl⟩ := null
    rw [operand]
    exact .pure none
  · rw [operand]
    · exact balanced.value.map
    · exact fun span same => null ⟨span, same⟩

theorem argument_balanced {e : Expr} (balanced : (meaning host site e).Balanced)
    (bodies : ∀ c ∈ e.children, (meaning host site c).Balanced) :
    (argument host site e).Balanced := by
  by_cases ordinary : IsOrdinary e
  · rw [argument_of_isOrdinary ordinary]
    exact balanced.value
  · cases e with
    | literal span value => cases value <;> first | trivial | exact absurd trivial ordinary
    | lambda span params body => exact (bodies body List.mem_cons_self).value
    | _ => exact absurd trivial ordinary

/-- Whether an expression and its direct parts have balanced meanings. The parts count by
themselves, since a call looks into its callee and an argument into the body of a lambda. -/
structure ExprBalanced (host : Host) (site : Site) (e : Expr) : Prop where
  own : (meaning host site e).Balanced
  parts : ∀ c ∈ e.children, (meaning host site c).Balanced

theorem arguments_balanced {es : List Expr} (each : ∀ e ∈ es, ExprBalanced host site e) :
    ∀ arg ∈ arguments host site es, arg.Balanced := by
  rw [arguments_eq]
  exact List.forall_mem_map.mpr fun e mem => argument_balanced (each e mem).own (each e mem).parts

theorem invoke_balanced {callee : Expr} {es : List Expr} (span : Span)
    (target : ExprBalanced host site callee) (each : ∀ e ∈ es, ExprBalanced host site e) :
    (meaning host site (.invoke span callee es)).Balanced := by
  have args := arguments_balanced each
  by_cases callable : IsCallable callee
  · cases callee with
    | name nameSpan n =>
      rw [meaning]
      exact .ofValue ((Bind.Balanced.ofOption _).bind fun owner =>
        callOn_balanced host site args owner ⟨n, nameSpan⟩)
    | member memberSpan before n =>
      rw [meaning]
      have receiver := target.parts before List.mem_cons_self
      exact .ofValue (receiver.qualifier.bind fun q => callMember_balanced host site args n q)
    | _ => exact callable.elim
  · rw [meaning_invoke_other callable]
    exact .ofValue .failure

/-- By induction on the parts of the expression. -/
theorem expression_balanced (host : Host) (site : Site) (e : Expr) : ExprBalanced host site e := by
  induction e using Expr.inductionOnParts with
  | node e ih =>
    refine ⟨?_, fun c part => (ih c part).own⟩
    cases e with
    | name span n =>
      rw [meaning]
      exact .ofQualifier (bindName_balanced host site span n)
    | literal span value =>
      rw [meaning]
      exact .ofValue (.ofOption _)
    | this span =>
      rw [meaning]
      exact .ofValue (.ofOption _)
    | member span target n =>
      rw [meaning]
      have before := (ih target List.mem_cons_self).own.qualifier
      refine .ofQualifier (before.attempt.bind fun found => ?_)
      cases found with
      | some q => exact bindMember_balanced host site span n q
      | none => exact bindPath_balanced host site span _
    | invoke span callee es =>
      exact invoke_balanced span (ih callee List.mem_cons_self) fun e mem =>
        ih e (List.mem_cons_of_mem callee mem)
    | index span target es =>
      rw [meaning]
      have before := (ih target List.mem_cons_self).own.value
      have args := arguments_balanced fun e mem => ih e (List.mem_cons_of_mem target mem)
      exact .ofValue (before.bind fun _ => (bindAll_balanced args).bind fun _ => .ofOption _)
    | cast span type operand =>
      rw [meaning]
      have inner := (ih operand List.mem_cons_self).own.value
      exact .ofValue (inner.attempt.bind fun _ => resolve_balanced host site type.node)
    | new span type es =>
      rw [meaning]
      have args := arguments_balanced fun e mem => ih e mem
      exact .ofValue ((attemptAll_balanced args).bind fun _ =>
        resolve_balanced host site type.node)
    | lambda span params body =>
      rw [meaning]
      exact .ofValue .failure
    | unary span op operand =>
      have inner := (ih operand List.mem_cons_self).own.value
      cases op with
      | not =>
        rw [meaning]
        exact .ofValue (inner.bind fun _ => .pure _)
      | neg =>
        rw [meaning]
        exact .ofValue inner
    | binary span left op right =>
      rw [meaning]
      have l := operand_balanced (ih left List.mem_cons_self).own
      have r := operand_balanced (ih right (List.mem_cons_of_mem _ List.mem_cons_self)).own
      refine .ofValue (l.attempt.bind fun a => r.attempt.bind fun b =>
        (Bind.Balanced.ofOption a).bind fun t => (Bind.Balanced.ofOption b).bind fun u => ?_)
      split
      · exact .pure _
      · exact .ofOption _
    | paren span inner =>
      rw [meaning]
      exact .ofValue (ih inner List.mem_cons_self).own.value

/-- Whatever is bound at a site, from whatever scope and whether it binds or not, leaves the
parameters in scope and the depth as they were: expressions as values and as qualifiers, and calls
of methods, of extension methods and of single candidates with any arguments. Behind the body of a
lambda that is given types for its parameters, these parameters are dropped and nothing else. -/
theorem scope_restored (host : Host) (site : Site) :
    (∀ e, (meaning host site e).value.Balanced ∧ (meaning host site e).qualifier.Balanced) ∧
      (∀ t n es, (callOn host site t n (arguments host site es)).Balanced) ∧
      (∀ t n es, (callExtension host site t n (arguments host site es)).Balanced) ∧
      (∀ c written receiver es,
        (tryCall host site c written receiver (arguments host site es)).Balanced) ∧
      ∀ (params : List (Located String)) (body : Expr) (expected : TypeRef) inputs result,
        lambdaShape? expected params.length = some (inputs, result) →
          (meaning host site body).value.DropsOwn (params.map (·.node)) inputs := by
  have each : ∀ es, ∀ arg ∈ arguments host site es, arg.Balanced := fun es =>
    arguments_balanced fun e _ => expression_balanced host site e
  refine ⟨fun e => ?value, fun t n es => ?method, fun t n es => ?extension,
    fun c written receiver es => ?candidate, fun params body expected inputs result shape => ?body⟩
  case value =>
    have balanced := (expression_balanced host site e).own
    exact ⟨balanced.value, balanced.qualifier⟩
  case method => exact callOn_balanced host site (each es) t n
  case extension => exact callExtension_balanced host site (each es) t n
  case candidate => exact tryCall_balanced host site (each es) c written receiver
  case body =>
    have balanced := (expression_balanced host site body).own.value
    refine balanced.dropsOwn ?_
    rw [length_of_lambdaShape? shape, List.length_map]

/-- For a function of a player, the lambda `p => p.Health` takes one parameter. Behind its body,
which binds, that parameter is dropped and the one that was in scope before it remains. -/
theorem healthBody_dropsOwn :
    lambdaShape? (.generic "System.Func" [.named "Game.Player", .named "int"]) 1
        = some ([.named "Game.Player"], some (.named "int")) ∧
      (meaning (Host.withPrelude pickers) inPlayer healthBody).value.DropsOwn ["p"]
        [.named "Game.Player"] ∧
      ((meaning (Host.withPrelude pickers) inPlayer healthBody).value.run
          { locals := [("p", .named "Game.Player"), ("q", .named "int")] }).1
        = some (.named "int") := by
  have shape : lambdaShape? (.generic "System.Func" [.named "Game.Player", .named "int"]) 1
      = some ([.named "Game.Player"], some (.named "int")) := rfl
  refine ⟨shape, ?_, ?_⟩
  · obtain ⟨-, -, -, -, lambdas⟩ := scope_restored (Host.withPrelude pickers) inPlayer
    exact lambdas [⟨"p", ⟨5, 6⟩⟩] healthBody _ _ _ shape
  · rw [healthBody, meaning, meaning]
    decide +kernel

end Marksmith.Binding

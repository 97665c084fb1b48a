import Marksmith.Binding.Binder
import Marksmith.Proofs.Lists

/-!
Two runs of binding computations side by side.

* `Bind.run_bind_some`, `Bind.run_nested` and so on: what a computation does from a scope;
* `Agrees R V`: from scopes whose parameters are related by `R`, both computations fail or both give
  results that are related by `V`, and both leave parameters and depth as they found them;
* `Agrees.bind`, `Agrees.orElse`, `Agrees.nested`, `Agrees.withLocals` and so on: computations that
  are put together from ones that agree do so as well.
-/

namespace Marksmith.Binding

open Syntax

/-! ### Runs -/

namespace Bind

variable {α β : Type} {b c : Bind α} {f : α → Bind β} {s t : Scope} {a : α} {r : Option α}

theorem run_bind_some (ran : b.run s = (some a, t)) : (b >>= f).run s = (f a).run t := by
  rw [OptionT.run_bind, Option.elimM]
  simp only [bind, StateT.bind]
  rw [ran]
  rfl

theorem run_bind_none (ran : b.run s = (none, t)) : (b >>= f).run s = (none, t) := by
  rw [OptionT.run_bind, Option.elimM]
  simp only [bind, StateT.bind]
  rw [ran]
  rfl

theorem run_map {g : α → β} (ran : b.run s = (r, t)) : (g <$> b).run s = (r.map g, t) := by
  rw [map_eq_pure_bind]
  cases r with
  | none => exact run_bind_none ran
  | some a => exact run_bind_some ran

theorem run_orElse_some (ran : b.run s = (some a, t)) : (b <|> c).run s = (some a, t) := by
  rw [OptionT.run_orElse, Option.elimM]
  simp only [bind, StateT.bind]
  rw [ran]
  rfl

theorem run_orElse_none (ran : b.run s = (none, t)) : (b <|> c).run s = c.run t := by
  rw [OptionT.run_orElse, Option.elimM]
  simp only [bind, StateT.bind]
  rw [ran]
  rfl

theorem run_attempt (ran : b.run s = (r, t)) : b.attempt.run s = (some r, t) := by
  have steps : b.attempt.run s = (some (b.run s).1, (b.run s).2) := rfl
  rw [steps, ran]

theorem run_nested_deep (deep : maxDepth < s.depth) : b.nested.run s = (none, s) := by
  unfold nested
  rw [OptionT.run_mk]
  simp only [bind, StateT.bind, get, getThe, MonadStateOf.get, StateT.get, pure]
  rw [if_pos deep]
  rfl

theorem run_nested (shallow : ¬maxDepth < s.depth)
    (ran : b.run { s with depth := s.depth + 1 } = (r, t)) :
    b.nested.run s = (r, { t with depth := t.depth - 1 }) := by
  have steps : b.nested.run s = ((b.run { s with depth := s.depth + 1 }).1,
      { (b.run { s with depth := s.depth + 1 }).2 with
        depth := (b.run { s with depth := s.depth + 1 }).2.depth - 1 }) := by
    unfold nested
    rw [OptionT.run_mk]
    simp only [bind, StateT.bind, get, getThe, MonadStateOf.get, StateT.get, pure]
    rw [if_neg shallow]
    rfl
  rw [steps, ran]

theorem run_withLocals {params : List (String × TypeRef)}
    (ran : b.run { s with locals := params.reverse ++ s.locals } = (r, t)) :
    (b.withLocals params).run s = (r, { t with locals := t.locals.drop params.length }) := by
  have steps : (b.withLocals params).run s
      = ((b.run { s with locals := params.reverse ++ s.locals }).1,
        { (b.run { s with locals := params.reverse ++ s.locals }).2 with
          locals := (b.run { s with locals := params.reverse ++ s.locals }).2.locals.drop
            params.length }) := rfl
  rw [steps, ran]

end Bind

/-! ### Agreement -/

/-- A scope with the parameters and the depth of another one. -/
structure Scope.Keeps (s t : Scope) : Prop where
  locals : t.locals = s.locals
  depth : t.depth = s.depth

theorem Scope.Keeps.refl (s : Scope) : s.Keeps s := ⟨rfl, rfl⟩

theorem Scope.Keeps.trans {s t u : Scope} (first : s.Keeps t) (second : t.Keeps u) : s.Keeps u :=
  ⟨second.locals.trans first.locals, second.depth.trans first.depth⟩

/-- Both computations fail from the given scopes, or both give related results. -/
structure AgreesAt {α β : Type} (V : α → β → Prop) (b : Bind α) (b' : Bind β) (s s' : Scope) :
    Prop where
  related : Option.Rel V (b.run s).1 (b'.run s').1
  kept : s.Keeps (b.run s).2
  kept' : s'.Keeps (b'.run s').2

/-- The computations agree from all scopes of the same depth whose parameters are related. -/
def Agrees {α β : Type} (R : List (String × TypeRef) → List (String × TypeRef) → Prop)
    (V : α → β → Prop) (b : Bind α) (b' : Bind β) : Prop :=
  ∀ s s' : Scope, R s.locals s'.locals → s.depth = s'.depth → AgreesAt V b b' s s'

/-- The same result, of a given kind. -/
def Same {α : Type} (P : α → Prop) (a a' : α) : Prop := a' = a ∧ P a

variable {α β α' β' : Type} {V : α → α' → Prop} {W : β → β' → Prop} {b c : Bind α}
  {b' c' : Bind α'} {f : α → Bind β} {f' : α' → Bind β'} {s s' : Scope}

/-- From scopes from which computations agree, both runs go on in the same way. -/
theorem AgreesAt.outcomes (agrees : AgreesAt V b b' s s') :
    ∃ t t', s.Keeps t ∧ s'.Keeps t' ∧
      (b.run s = (none, t) ∧ b'.run s' = (none, t') ∨
        ∃ a a', V a a' ∧ b.run s = (some a, t) ∧ b'.run s' = (some a', t')) := by
  obtain ⟨related, kept, kept'⟩ := agrees
  generalize b.run s = r, b'.run s' = r' at related kept kept'
  obtain ⟨o, t⟩ := r
  obtain ⟨o', t'⟩ := r'
  refine ⟨t, t', kept, kept', ?_⟩
  cases related with
  | none => exact .inl ⟨rfl, rfl⟩
  | some v => exact .inr ⟨_, _, v, rfl, rfl⟩

theorem AgreesAt.ofRuns {t t' : Scope} {o : Option α} {o' : Option α'} (ran : b.run s = (o, t))
    (ran' : b'.run s' = (o', t')) (related : Option.Rel V o o') (kept : s.Keeps t)
    (kept' : s'.Keeps t') : AgreesAt V b b' s s' := by
  refine ⟨?_, ?_, ?_⟩
  · rw [ran, ran']
    exact related
  · rw [ran]
    exact kept
  · rw [ran']
    exact kept'

/-- Computations agree if what is left of them agrees from where both runs have come. -/
theorem AgreesAt.ofRest {t t' : Scope} (rest : AgreesAt V c c' t t') (ran : b.run s = c.run t)
    (ran' : b'.run s' = c'.run t') (kept : s.Keeps t) (kept' : s'.Keeps t') :
    AgreesAt V b b' s s' := by
  refine ⟨?_, ?_, ?_⟩
  · rw [ran, ran']
    exact rest.related
  · rw [ran]
    exact kept.trans rest.kept
  · rw [ran']
    exact kept'.trans rest.kept'

theorem AgreesAt.map {g : α → β} {g' : α' → β'} (agrees : AgreesAt V b b' s s')
    (related : ∀ a a', V a a' → W (g a) (g' a')) : AgreesAt W (g <$> b) (g' <$> b') s s' := by
  obtain ⟨t, t', kept, kept', ⟨ran, ran'⟩ | ⟨a, a', v, ran, ran'⟩⟩ := agrees.outcomes
  · exact .ofRuns (Bind.run_map ran) (Bind.run_map ran') .none kept kept'
  · exact .ofRuns (Bind.run_map ran) (Bind.run_map ran') (.some (related a a' v)) kept kept'

namespace Agrees

variable {R : List (String × TypeRef) → List (String × TypeRef) → Prop}

theorem after (agrees : Agrees R V b b') (locals : R s.locals s'.locals)
    (depth : s.depth = s'.depth)
    {t t' : Scope} (kept : s.Keeps t) (kept' : s'.Keeps t') : AgreesAt V b b' t t' := by
  refine agrees t t' ?_ ?_
  · rw [kept.locals, kept'.locals]
    exact locals
  · rw [kept.depth, kept'.depth]
    exact depth

/-! ### Single steps -/

theorem pure {a : α} {a' : α'} (related : V a a') :
    Agrees R V (Pure.pure a : Bind α) (Pure.pure a' : Bind α') :=
  fun s s' _ _ => ⟨.some related, .refl s, .refl s'⟩

theorem failure : Agrees R V (Alternative.failure : Bind α) (Alternative.failure : Bind α') :=
  fun s s' _ _ => ⟨.none, .refl s, .refl s'⟩

theorem ofOption {o : Option α} {o' : Option α'} (related : Option.Rel V o o') :
    Agrees R V (Bind.ofOption o) (Bind.ofOption o') :=
  fun s s' _ _ => ⟨related, .refl s, .refl s'⟩

/-- What is recorded does not matter. -/
theorem record (span span' : Span) (referent referent' : Referent) :
    Agrees R (fun _ _ => True) (Bind.record span referent) (Bind.record span' referent') :=
  fun _ _ _ _ => ⟨.some trivial, ⟨rfl, rfl⟩, ⟨rfl, rfl⟩⟩

/-! ### Steps one after the other -/

theorem bind (first : Agrees R V b b') (next : ∀ a a', V a a' → Agrees R W (f a) (f' a')) :
    Agrees R W (b >>= f) (b' >>= f') := by
  intro s s' locals depth
  obtain ⟨t, t', kept, kept', ⟨ran, ran'⟩ | ⟨a, a', related, ran, ran'⟩⟩ :=
    (first s s' locals depth).outcomes
  · exact .ofRuns (Bind.run_bind_none ran) (Bind.run_bind_none ran') .none kept kept'
  · exact .ofRest ((next a a' related).after locals depth kept kept') (Bind.run_bind_some ran)
      (Bind.run_bind_some ran') kept kept'

theorem map {g : α → β} {g' : α' → β'} (agrees : Agrees R V b b')
    (related : ∀ a a', V a a' → W (g a) (g' a')) : Agrees R W (g <$> b) (g' <$> b') :=
  fun s s' locals depth => (agrees s s' locals depth).map related

theorem attempt (agrees : Agrees R V b b') : Agrees R (Option.Rel V) b.attempt b'.attempt := by
  intro s s' locals depth
  obtain ⟨t, t', kept, kept', ⟨ran, ran'⟩ | ⟨a, a', related, ran, ran'⟩⟩ :=
    (agrees s s' locals depth).outcomes
  · exact .ofRuns (Bind.run_attempt ran) (Bind.run_attempt ran') (.some .none) kept kept'
  · exact .ofRuns (Bind.run_attempt ran) (Bind.run_attempt ran') (.some (.some related)) kept kept'

/-- A second computation only counts from scopes from which the first one fails. -/
theorem orElseAt (first : AgreesAt V b b' s s') (second : Agrees R V c c')
    (locals : R s.locals s'.locals) (depth : s.depth = s'.depth) :
    AgreesAt V (b <|> c) (b' <|> c') s s' := by
  obtain ⟨t, t', kept, kept', ⟨ran, ran'⟩ | ⟨a, a', related, ran, ran'⟩⟩ := first.outcomes
  · exact .ofRest (second.after locals depth kept kept') (Bind.run_orElse_none ran)
      (Bind.run_orElse_none ran') kept kept'
  · exact .ofRuns (Bind.run_orElse_some ran) (Bind.run_orElse_some ran') (.some related) kept kept'

theorem orElse (first : Agrees R V b b') (second : Agrees R V c c') :
    Agrees R V (b <|> c) (b' <|> c') :=
  fun s s' locals depth => orElseAt (first s s' locals depth) second locals depth

theorem first {bs : List (Bind α)} {bs' : List (Bind α')}
    (each : List.Forall₂ (Agrees R V) bs bs') :
    Agrees R V (Bind.first bs) (Bind.first bs') := by
  induction each with
  | nil => exact .failure
  | cons one _ ih => exact one.orElse ih

/-! ### Deeper, and with parameters -/

theorem nested (agrees : Agrees R V b b') : Agrees R V b.nested b'.nested := by
  intro s s' locals depth
  by_cases deep : Bind.maxDepth < s.depth
  · exact .ofRuns (Bind.run_nested_deep deep) (Bind.run_nested_deep (depth ▸ deep)) .none (.refl s)
      (.refl s')
  · have deeper : s.depth + 1 = s'.depth + 1 := congrArg (· + 1) depth
    obtain ⟨t, t', kept, kept', outcome⟩ :=
      (agrees { s with depth := s.depth + 1 } { s' with depth := s'.depth + 1 } locals
        deeper).outcomes
    have back : s.Keeps { t with depth := t.depth - 1 } :=
      ⟨kept.locals, by rw [kept.depth, Nat.add_sub_cancel]⟩
    have back' : s'.Keeps { t' with depth := t'.depth - 1 } :=
      ⟨kept'.locals, by rw [kept'.depth, Nat.add_sub_cancel]⟩
    rcases outcome with ⟨ran, ran'⟩ | ⟨a, a', related, ran, ran'⟩
    · exact .ofRuns (Bind.run_nested deep ran) (Bind.run_nested (depth ▸ deep) ran') .none back
        back'
    · exact .ofRuns (Bind.run_nested deep ran) (Bind.run_nested (depth ▸ deep) ran') (.some related)
        back back'

/-- Parameters come into scope, and as many are dropped afterwards. -/
theorem withLocals {R' : List (String × TypeRef) → List (String × TypeRef) → Prop}
    {params params' : List (String × TypeRef)}
    (extend : ∀ L L', R L L' → R' (params.reverse ++ L) (params'.reverse ++ L'))
    (agrees : Agrees R' V b b') : Agrees R V (b.withLocals params) (b'.withLocals params') := by
  intro s s' locals depth
  obtain ⟨t, t', kept, kept', outcome⟩ :=
    (agrees { s with locals := params.reverse ++ s.locals }
      { s' with locals := params'.reverse ++ s'.locals } (extend _ _ locals) depth).outcomes
  have dropped : ∀ (ps L : List (String × TypeRef)), (ps.reverse ++ L).drop ps.length = L := by
    intro ps L
    rw [← List.length_reverse, List.drop_left]
  have back : s.Keeps { t with locals := t.locals.drop params.length } :=
    ⟨by rw [kept.locals, dropped], kept.depth⟩
  have back' : s'.Keeps { t' with locals := t'.locals.drop params'.length } :=
    ⟨by rw [kept'.locals, dropped], kept'.depth⟩
  rcases outcome with ⟨ran, ran'⟩ | ⟨a, a', related, ran, ran'⟩
  · exact .ofRuns (Bind.run_withLocals ran) (Bind.run_withLocals ran') .none back back'
  · exact .ofRuns (Bind.run_withLocals ran) (Bind.run_withLocals ran') (.some related) back back'

end Agrees

end Marksmith.Binding

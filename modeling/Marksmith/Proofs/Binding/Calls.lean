import Marksmith.Proofs.Binding.Lockstep
import Marksmith.Proofs.Binding.Signatures

/-!
Binding on two hosts that differ in the names of methods' type parameters.

* `Reissues`: the same declarations, with other names for type parameters of methods;
* `methodsOf_rel`, `extensionsOf_rel`: calls try the same candidates;
* `tryCall_agrees`, `callMember_agrees`: they take and refuse the same arguments, and give the same
  types.
-/

namespace Marksmith

open Syntax (TypeRef)

/-! ### The same declarations -/

/-- A method of a declaration with other names for its type parameters. -/
def MethodDecl.Reissued (Q : Symbol → Prop) (d : TypeDecl) (m m' : MethodDecl) : Prop :=
  ∃ ρ, Binding.Respells Q d m ρ ∧ m' = m.renamed ρ

theorem MethodDecl.Reissued.refl (Q : Symbol → Prop) (d : TypeDecl) (m : MethodDecl) :
    m.Reissued Q d m :=
  ⟨id, .keep Q d m, (Binding.renamed_id m).symm⟩

/-- A declaration with other names for the type parameters of its methods. -/
inductive TypeDecl.Reissued (Q : Symbol → Prop) (d : TypeDecl) : TypeDecl → Prop
  | methods {methods : List MethodDecl}
      (each : List.Forall₂ (MethodDecl.Reissued Q d) d.methods methods) :
      Reissued Q d { d with methods }

theorem TypeDecl.Reissued.refl (Q : Symbol → Prop) (d : TypeDecl) : d.Reissued Q d :=
  .methods (List.forall₂_same.mpr fun m _ => .refl Q d m)

theorem TypeDecl.Reissued.outline {Q : Symbol → Prop} {d d' : TypeDecl}
    (reissued : d.Reissued Q d') :
    d.SameOutline d' := by
  obtain ⟨each⟩ := reissued
  exact .methods _

/-- Methods are filtered alike by what does not depend on the names. -/
theorem TypeDecl.Reissued.methods_rel {Q : Symbol → Prop} {d d' : TypeDecl}
    (reissued : d.Reissued Q d') {p : MethodDecl → Bool}
    (same : ∀ (m : MethodDecl) ρ, p (m.renamed ρ) = p m) :
    List.Forall₂ (MethodDecl.Reissued Q d) (d.methods.filter p) (d'.methods.filter p) := by
  obtain ⟨each⟩ := reissued
  refine List.rel_filter ?_ each
  rintro m _ ⟨ρ, respells, rfl⟩
  exact iff_of_eq (congrArg (· = true) (same m ρ).symm)

namespace Binding

open Syntax

open Syntax.TypeRef

/-- A host with other names for type parameters of methods, seen from a site. Values are made of
what `Q` admits. -/
structure Reissues (Q : Symbol → Prop) (site : Site) (host host' : Host) : Prop where
  stepLimit : host'.stepLimit = host.stepLimit
  declarations : List.Forall₂ (TypeDecl.Reissued Q) host.declarations host'.declarations
  covers : host.Covers Q
  visible : ∀ p ∈ host.visibleTypeParams site.owner, Q ⟨p, 0⟩
  action : Q ⟨"System.Action", 0⟩

variable {Q : Symbol → Prop} {site : Site} {host host' : Host}

namespace Reissues

variable (reissues : Reissues Q site host host')

theorem refl (covers : host.Covers Q) (visible : ∀ p ∈ host.visibleTypeParams site.owner, Q ⟨p, 0⟩)
    (action : Q ⟨"System.Action", 0⟩) : Reissues Q site host host where
  stepLimit := rfl
  declarations := List.forall₂_same.mpr fun d _ => .refl Q d
  covers := covers
  visible := visible
  action := action

include reissues

theorem outline : host.SameOutline host' :=
  ⟨reissues.stepLimit, reissues.declarations.imp fun _ _ => TypeDecl.Reissued.outline⟩

theorem declaration?_rel (s : Symbol) :
    Option.Rel (TypeDecl.Reissued Q) (host.declaration? s) (host'.declaration? s) := by
  refine find?_of_forall₂ reissues.declarations ?_
  rintro d _ ⟨each⟩
  rfl

/-! ### Candidates -/

/-- A call tries the same methods of a type. -/
theorem methodsOf_rel {t : TypeRef} (made : t.MadeOf Q) (name : String) :
    List.Forall₂ (fun c c' => ∃ ρ, Recast host Q ρ c c') (methodsOf host t name)
      (methodsOf host' t name) := by
  have supertypes : List.Forall₂ (Same (TypeRef.MadeOf Q)) (host.supertypes t)
      (host'.supertypes t) := by
    rw [reissues.outline.supertypes_eq]
    exact List.forall₂_same.mpr fun u mem => ⟨rfl, reissues.covers.madeOf_supertypes made mem⟩
  refine List.rel_flatMap supertypes ?_
  rintro _ current ⟨rfl, above⟩
  dsimp only
  have found := reissues.declaration?_rel (.ofType current)
  cases denotes : host.declaration? (.ofType current) with
  | none =>
    rw [denotes] at found
    generalize host'.declaration? (.ofType current) = d' at found ⊢
    cases found
    exact .nil
  | some d =>
    rw [denotes] at found
    generalize host'.declaration? (.ofType current) = d' at found ⊢
    cases found with
    | @some _ d' reissued =>
      obtain ⟨mem, symbol⟩ := Host.symbol_of_declaration? denotes
      have each := reissued.methods_rel (p := fun m => m.name == name && !m.isExtension)
        fun _ _ => rfl
      refine List.rel_map ?_ each
      rintro m m' ⟨ρ, respells, rfl⟩
      exact ⟨ρ, reissued.outline, mem, rfl, (congrArg Symbol.arity symbol).symm, fun a => above.arg,
        respells, rfl⟩

/-- The extension methods are the same. -/
theorem extensionMethods_rel :
    List.Forall₂ (fun x x' : TypeDecl × MethodDecl => x.1 ∈ host.declarations ∧
        x.1.Reissued Q x'.1 ∧ MethodDecl.Reissued Q x.1 x.2 x'.2)
      host.extensionMethods host'.extensionMethods := by
  refine List.rel_flatMap (forall₂_and_mem reissues.declarations) ?_
  rintro d d' ⟨mem, reissued⟩
  have each := reissued.methods_rel (p := fun m => m.isExtension && !m.params.isEmpty)
    fun m ρ => by simp only [MethodDecl.renamed, List.isEmpty_map]
  exact List.rel_map (fun m m' same => ⟨mem, reissued, same⟩) each

/-- A call tries the same extension methods. -/
theorem extensionsOf_rel (name : String) :
    List.Forall₂ (fun c c' => ∃ ρ, Recast host Q ρ c c') (extensionsOf host name)
      (extensionsOf host' name) := by
  have suiting := List.rel_filter (p := fun x => x.2.name == name) (q := fun x => x.2.name == name)
    ?named (forall₂_and_mem reissues.extensionMethods_rel)
  case named =>
    rintro ⟨d, m⟩ ⟨d', m'⟩ ⟨-, -, -, ρ, -, same⟩
    cases same
    exact Iff.rfl
  refine List.rel_map ?_ suiting
  rintro ⟨d, m⟩ ⟨d', m'⟩ ⟨extending, mem, reissued, ρ, respells, same⟩
  cases same
  refine ⟨ρ, reissued.outline, mem, reissued.outline.selfType_eq, ?_, ?_, respells, rfl⟩
  · exact List.length_map TypeRef.named
  · exact List.forall_mem_map.mpr fun p parameter =>
      madeOf_named (reissues.covers.extending (d, m) extending p parameter)

end Reissues

/-! ### Calls -/

/-- Results that are the same type, made of what `Q` admits. -/
abbrev SameType (Q : Symbol → Prop) : TypeRef → TypeRef → Prop := Same (TypeRef.MadeOf Q)

/-- Arguments that bind to the same types, lambdas for all types of their parameters. -/
inductive ArgAgrees (R : List (String × TypeRef) → List (String × TypeRef) → Prop)
    (Q : Symbol → Prop) : Argument → Argument → Prop
  | plain {value value' : Bind TypeRef} (agrees : Agrees R (SameType Q) value value') :
      ArgAgrees R Q (.plain value) (.plain value')
  | null : ArgAgrees R Q .null .null
  | lambda {names names' : List String} {body body' : Bind TypeRef}
      (lengths : names'.length = names.length)
      (agrees : ∀ inputs : List TypeRef, inputs.length = names.length →
        (∀ t ∈ inputs, t.MadeOf Q) →
        Agrees R (SameType Q) (body.withLocals (names.zip inputs))
          (body'.withLocals (names'.zip inputs))) :
      ArgAgrees R Q (.lambda names body) (.lambda names' body')

variable {R : List (String × TypeRef) → List (String × TypeRef) → Prop}

theorem ArgAgrees.value {arg arg' : Argument} (agrees : ArgAgrees R Q arg arg') :
    Agrees R (SameType Q) arg.value arg'.value := by
  cases agrees with
  | plain agrees => exact agrees
  | null => exact .failure
  | lambda _ _ => exact .failure

theorem bindAll_agrees {args args' : List Argument}
    (each : List.Forall₂ (ArgAgrees R Q) args args') :
    Agrees R (fun _ _ => True) (bindAll args) (bindAll args') := by
  induction each with
  | nil => exact .pure trivial
  | cons first _ ih => exact first.value.bind fun _ _ _ => ih

theorem attemptAll_agrees {args args' : List Argument}
    (each : List.Forall₂ (ArgAgrees R Q) args args') :
    Agrees R (fun _ _ => True) (attemptAll args) (attemptAll args') := by
  induction each with
  | nil => exact .pure trivial
  | cons first _ ih => exact first.value.attempt.bind fun _ _ _ => ih

section Fitting

variable {params : List String} {ρ : String → String} (names : Renames Q params ρ)
  (outline : host.SameOutline host') (covers : host.Covers Q)

include names outline covers

/-- Plain arguments fit the same parameters. -/
theorem fitPlain_agrees {types types' : List TypeRef}
    (spelled : List.Forall₂ (Respelled Q params ρ) types types') {args args' : List Argument}
    (each : List.Forall₂ (ArgAgrees R Q) args args') {i i' : Host.Inferred}
    (tables : Retabled Q params ρ i i') :
    Agrees R (Retabled Q params ρ) (fitPlain host params i types args)
      (fitPlain host' (params.map ρ) i' types' args') := by
  induction spelled generalizing args args' i i' with
  | nil => exact .pure tables
  | cons first _ ih =>
    cases each with
    | nil => exact .pure tables
    | cons one rest =>
      cases one with
      | null => exact ih rest tables
      | lambda lengths agrees => exact ih rest tables
      | plain agrees =>
        rw [fitPlain, fitPlain, outline.unify?_eq]
        refine agrees.bind ?_
        rintro _ t ⟨rfl, made⟩
        exact (Agrees.ofOption (unify?_rel names covers first made tables)).bind
          fun _ _ further => ih rest further

/-- Lambda arguments fit the same parameters. -/
theorem fitLambdas_agrees (action : Q ⟨"System.Action", 0⟩) {types types' : List TypeRef}
    (spelled : List.Forall₂ (Respelled Q params ρ) types types') {args args' : List Argument}
    (each : List.Forall₂ (ArgAgrees R Q) args args') {i i' : Host.Inferred}
    (tables : Retabled Q params ρ i i') :
    Agrees R (Retabled Q params ρ) (fitLambdas host params i types args)
      (fitLambdas host' (params.map ρ) i' types' args') := by
  induction spelled generalizing args args' i i' with
  | nil => exact .pure tables
  | cons first _ ih =>
    cases each with
    | nil => exact .pure tables
    | cons one rest =>
      cases one with
      | null => exact ih rest tables
      | plain agrees => exact ih rest tables
      | @lambda lambdaNames lambdaNames' body body' lengths agrees =>
        rw [fitLambdas, fitLambdas, lengths]
        have wanted :=
          (first.withInferred names tables).lambdaShape? names action lambdaNames.length
        refine (Agrees.ofOption wanted).bind ?_
        rintro ⟨inputs, result⟩ ⟨inputs', result'⟩ ⟨number, sameInputs, sameResult⟩
        dsimp only at number sameInputs sameResult ⊢
        rw [Respelled.mentionsAny_eq names sameInputs]
        split
        · exact (Agrees.failure (V := fun _ _ => False)).bind fun _ _ never => never.elim
        · next free =>
          obtain ⟨rfl, made⟩ :=
            Respelled.eq_of_not_mentionsAny names sameInputs (Bool.eq_false_iff.mpr free)
          refine (agrees inputs' number made).attempt.bind fun type type' sameType => ?_
          cases sameResult with
          | none => exact ih rest tables
          | some spelled =>
            refine (Agrees.ofOption sameType).bind ?_
            rintro _ t ⟨rfl, made⟩
            rw [outline.unify?_eq]
            exact (Agrees.ofOption (unify?_rel names covers spelled made tables)).bind
              fun _ _ further => ih rest further

end Fitting

/-- A qualifier whose type is made of what `Q` admits. -/
def Qualifier.MadeOf (Q : Symbol → Prop) : Qualifier → Prop
  | .type t | .value t => t.MadeOf Q

section Calling

variable (reissues : Reissues Q site host host') {args args' : List Argument}
  (each : List.Forall₂ (ArgAgrees R Q) args args')

include reissues each

/-- A candidate takes the same arguments under its new names, and gives the same type. -/
theorem tryCall_agrees {c c' : Candidate} {ρ : String → String} (recast : Recast host Q ρ c c')
    (written : List TypeRef) {receiver : Option TypeRef} (made : ∀ t ∈ receiver, t.MadeOf Q) :
    Agrees R (SameType Q) (tryCall host site c written receiver args)
      (tryCall host' site c' written receiver args') := by
  have names := recast.respells.names
  have outline := reissues.outline
  have covers := reissues.covers
  have typeParams : c'.method.typeParams = c.method.typeParams.map ρ := by
    rw [recast.method, MethodDecl.renamed]
  have signature := recast.signature?_rel covers reissues.visible written made args.length
  rw [tryCall, tryCall, outline.signature?_eq, typeParams, ← each.length_eq]
  refine (Agrees.ofOption signature).bind fun σ σ' same => ?_
  refine (fitPlain_agrees names outline covers same.params each same.inferred).bind
    fun i i' tables => ?_
  refine (fitLambdas_agrees names outline covers reissues.action same.params each tables).bind
    fun j j' tables => ?_
  have result := same.returns.withInferred names tables
  dsimp only
  rw [result.mentions_eq names]
  split
  · exact .failure
  · next free =>
    have closed := Bool.eq_false_iff.mpr free
    exact .pure ⟨result.eq_of_not_mentions names closed, madeOf_of_not_mentions result.made closed⟩

theorem callCandidate_agrees {c c' : Candidate} {ρ : String → String}
    (recast : Recast host Q ρ c c')
    (n : Located SimpleName) {receiver : Option TypeRef} (made : ∀ t ∈ receiver, t.MadeOf Q) :
    Agrees R (SameType Q) (callCandidate host site n receiver args c)
      (callCandidate host' site n receiver args' c') := by
  refine (tryCall_agrees reissues each recast n.node.typeArgs made).bind fun t t' same => ?_
  exact (Agrees.record _ _ _ _).bind fun _ _ _ => .pure same

theorem callOn_agrees {t : TypeRef} (made : t.MadeOf Q) (n : Located SimpleName) :
    Agrees R (SameType Q) (callOn host site t n args) (callOn host' site t n args') := by
  refine .first (List.rel_map ?_ (reissues.methodsOf_rel made n.node.ident))
  rintro c c' ⟨ρ, recast⟩
  exact callCandidate_agrees reissues each recast n fun _ none => nomatch none

theorem callExtension_agrees {t : TypeRef} (made : t.MadeOf Q) (n : Located SimpleName) :
    Agrees R (SameType Q) (callExtension host site t n args)
      (callExtension host' site t n args') := by
  refine .first (List.rel_map ?_ (reissues.extensionsOf_rel n.node.ident))
  rintro c c' ⟨ρ, recast⟩
  refine callCandidate_agrees reissues each recast n ?_
  rintro _ ⟨⟩
  exact made

theorem callMember_agrees {q : Qualifier} (made : q.MadeOf Q) (n : Located SimpleName) :
    Agrees R (SameType Q) (callMember host site n args q) (callMember host' site n args' q) := by
  cases q with
  | type t => exact callOn_agrees reissues each made n
  | value t =>
    exact (callOn_agrees reissues each made n).orElse (callExtension_agrees reissues each made n)

end Calling

end Binding

end Marksmith

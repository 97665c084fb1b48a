import Marksmith.Pass.Job
import Marksmith.Proofs.Analysis.Reordering
import Marksmith.Proofs.Binding.Reordering

/-!
Sources of a reordered project. What is generated for a definition is made from the declarations
that names denote, from the tables of the index, and from the cases of families. None of these shows
the order of declarations, so a job for a reordered project gives what it gives for the project; only
what is wrong with the ids of a family may be worded otherwise.
-/

namespace Marksmith

open Source (Piece)

/-! ### Texts -/

namespace Host.Reorders

variable {other host : Host} (same : other.Reorders host)

include same

theorem registry : TrackingPlan.registry other = TrackingPlan.registry host := by
  funext plan r
  simp only [TrackingPlan.registry, TrackingPlan.self, same.typeText]

theorem trackingFile : TrackingPlan.file other = TrackingPlan.file host := by
  funext plan settings
  have accessors : plan.accessorPieces other = plan.accessorPieces host := by
    funext a
    cases a <;> simp only [TrackingPlan.accessorPieces, TrackingPlan.self, same.registry,
      same.typeText]
  have enable : plan.enableLines other = plan.enableLines host := by
    funext r
    simp only [TrackingPlan.enableLines, same.registry]
  have disable : plan.disableLines other = plan.disableLines host := by
    funext r
    simp only [TrackingPlan.disableLines, same.registry]
  have lifecycle : plan.lifecyclePieces other = plan.lifecyclePieces host := by
    simp only [TrackingPlan.lifecyclePieces, enable, disable]
  simp only [TrackingPlan.file, TrackingPlan.memberPieces, accessors, lifecycle]

theorem injectedPieces : InjectedProperty.pieces other = InjectedProperty.pieces host := by
  funext p
  simp only [InjectedProperty.pieces, InjectedProperty.typed, InjectedProperty.typeText,
    same.typeText]

theorem unmanagedPieces : UnmanagedView.pieces other = UnmanagedView.pieces host := by
  funext d options fields
  have field : UnmanagedView.fieldPieces other = UnmanagedView.fieldPieces host := by
    funext options f
    simp only [UnmanagedView.fieldPieces, same.typeText]
  simp only [UnmanagedView.pieces, UnmanagedView.viewPieces, field, same.selfText,
    same.effectiveAccessibility]

theorem unmanagedFields : UnmanagedField.ofDecl other = UnmanagedField.ofDecl host := by
  funext token d options
  have field : UnmanagedField.ofField? other = UnmanagedField.ofField? host := by
    funext d options f
    simp only [UnmanagedField.ofField?, same.resolve?, same.isUnmanaged]
  simp only [UnmanagedField.ofDecl, field]

theorem signaturesWithin? : Union.signaturesWithin? other = Union.signaturesWithin? host := by
  have members : Union.membersOf other = Union.membersOf host := by
    funext depth i
    simp only [Union.membersOf, Union.declaredMembers, Union.memberType, same.declaration?,
      same.resolve?]
  funext levels
  induction levels with
  | zero =>
    funext depth seen found level
    cases level <;> rfl
  | succ levels ih =>
    funext depth seen found level
    cases level with
    | nil => rfl
    | cons i is => simp only [Union.signaturesWithin?, members, same.declaredInterfaces, ih]

theorem signatures : Union.signatures other = Union.signatures host := by
  funext dispatch
  simp only [Union.signatures, same.signaturesWithin?, same.stepLimit]

theorem variantPieces {family family' : UnionFamily} (root : family'.root = family.root)
    (d : TypeDecl) (c : UnionCase) (headers : List Symbol) :
    Union.variantPieces other d family' c headers
      = Union.variantPieces host d family c headers := by
  have references : Union.headerReference other = Union.headerReference host := by
    funext d v header
    simp only [Union.headerReference, same.nameText, same.selfText]
  simp only [Union.variantPieces, Union.tagFieldType?, references, root, same.nameText,
    same.selfText, same.declaration?, same.resolve?, same.typeText]

theorem headerPieces {family family' : UnionFamily}
    (size : family'.maxVariantSize = family.maxVariantSize) (d : TypeDecl) (header : UnionHeader)
    (members : List Union.MemberSignature) (cases : List UnionCase) :
    Union.headerPieces other d header family' members cases
      = Union.headerPieces host d header family members cases := by
  have params : Union.MemberSignature.paramList other = Union.MemberSignature.paramList host := by
    funext m
    simp only [Union.MemberSignature.paramList, same.typeText]
  have helpers : Union.helpers other = Union.helpers host := by
    funext dispatch members cases
    simp only [Union.helpers, Union.MemberSignature.helper, params, same.typeText]
  have casePieces : Union.MemberSignature.casePieces other
      = Union.MemberSignature.casePieces host := by
    funext m self c
    simp only [Union.MemberSignature.casePieces, same.nameText]
  have dispatchers : Union.MemberSignature.dispatcher other
      = Union.MemberSignature.dispatcher host := by
    funext m self cases
    simp only [Union.MemberSignature.dispatcher, casePieces, params, same.typeText]
  simp only [Union.headerPieces, size, helpers, dispatchers, same.selfText]

end Host.Reorders

/-! ### Projects -/

/-- A project with the same declarations, perhaps in another order, and the same inputs. -/
structure Project.Reorders (q p : Project) : Prop where
  host : q.host.Reorders p.host
  index : q.index.Reorders p.index
  settings : q.settings = p.settings
  tagManager : q.tagManager = p.tagManager

namespace Project.Reorders

variable {q p : Project} (same : q.Reorders p)

include same

theorem facts : Facts.extract q.host q.index = Facts.extract p.host p.index := by
  funext token symbol marker
  have marked : Facts.isMarked q.host q.index = Facts.isMarked p.host p.index := by
    funext marker t
    simp only [Facts.isMarked, same.index.tracked, same.index.singletons, same.host.declaration?]
  have mismatch : Facts.mismatch? q.index = Facts.mismatch? p.index := by
    funext f
    simp only [Facts.mismatch?, same.index.tracked, same.index.singletons]
  simp only [Facts.extract, Facts.ofDecl, same.host.declaration?, same.host.baseChain,
    same.host.allInterfaces, same.host.effectiveAccessibility, same.host.nesting,
    same.host.namespace?, same.index.tracked, same.index.singletons, marked, mismatch]

theorem trackingOutput : q.trackingOutput = p.trackingOutput := by
  funext token symbol
  have output : TrackingState.output q.host = TrackingState.output p.host := by
    funext settings state
    cases state <;> simp only [TrackingState.output, same.host.trackingFile]
  simp only [Project.trackingOutput, TrackingState.analyze, same.index.tracked, same.facts,
    same.settings, output]

theorem injectionOutput : q.injectionOutput = p.injectionOutput := by
  funext token symbol
  have assigned : Injection.assigned q token = Injection.assigned p token := by
    funext d s target value
    simp only [Injection.assigned,
      same.host.resolveAssignment same.index.tracked same.index.singletons]
  have collected : Injection.collect q token = Injection.collect p token := by
    funext d seen sources
    induction sources generalizing seen with
    | nil => rfl
    | cons s rest ih => simp only [Injection.collect, assigned, ih]
  simp only [Project.injectionOutput, Injection.properties, same.host.declaration?,
    same.index.injectors, same.settings, same.host.scopeOf, same.host.injectedPieces, collected]

theorem unmanagedOutput : q.unmanagedOutput = p.unmanagedOutput := by
  funext token symbol
  simp only [Project.unmanagedOutput, same.host.declaration?, same.index.unmanagedAccess,
    same.settings, same.host.scopeOf, same.host.unmanagedFields, same.host.unmanagedPieces]

theorem constantsOutput : q.constantsOutput = p.constantsOutput := by
  funext token
  simp only [Project.constantsOutput, same.index.constants, same.settings, same.tagManager]

/-! ### Unions -/

theorem variantFile {f g : UnionFamily} (family : f.Rearranges g) (d : TypeDecl) (c : UnionCase)
    (headers : List Symbol) :
    Union.variantFile q d f c headers = Union.variantFile p d g c headers := by
  simp only [Union.variantFile, same.settings, same.host.scopeOf,
    same.host.variantPieces family.root]

theorem headerFile {f g : UnionFamily} (family : f.Rearranges g) (d : TypeDecl)
    (header : UnionHeader) (members : List Union.MemberSignature) (cases : List UnionCase) :
    Union.headerFile q d header f members cases = Union.headerFile p d header g members cases := by
  simp only [Union.headerFile, same.settings, same.host.scopeOf,
    same.host.headerPieces family.maxVariantSize]

theorem unionVariantOutput (s : Symbol) :
    q.unionVariantOutput .live s = p.unionVariantOutput .live s := by
  cases declared : p.host.declaration? s with
  | none =>
    rw [Project.unionVariantOutput, Project.unionVariantOutput, same.host.declaration?, declared]
  | some d =>
    have declared' : q.host.declaration? s = some d := by rw [same.host.declaration?, declared]
    rw [unionVariantOutput_eq declared, unionVariantOutput_eq declared', same.index.orphanVariants,
      same.index.headerChain]
    have variants := same.index.variant? s
    generalize q.index.variant? s = found', p.index.variant? s = found at variants ⊢
    cases variants with
    | none => rfl
    | @some a b related =>
      obtain ⟨f, v⟩ := a
      obtain ⟨g, w⟩ := b
      obtain ⟨family, rfl⟩ := related
      simp only [family.cases, same.variantFile family]

/-- The family that a header is generated for. -/
theorem headerFamily (s : Symbol) :
    ((q.index.families.get? s).getD (.empty s)).Rearranges
      ((p.index.families.get? s).getD (.empty s)) := by
  have families := same.index.family s
  generalize q.index.families.get? s = f, p.index.families.get? s = g at families ⊢
  cases families with
  | none => exact .refl _
  | some related => exact related

/-- The output for a header; how the error of a family without ids is worded may differ. -/
theorem unionHeaderOutput (s : Symbol) {o o' : Output}
    (made : q.unionHeaderOutput .live s = .ok o) (made' : p.unionHeaderOutput .live s = .ok o') :
    o.files = o'.files ∧ (p.index.Settled → o = o') := by
  by_cases unlisted : p.host.declaration? s = none ∨ p.index.unionHeaders.get? s = none
  · have unlisted' : q.host.declaration? s = none ∨ q.index.unionHeaders.get? s = none := by
      rwa [same.host.declaration?, same.index.unionHeaders]
    rw [unionHeaderOutput_eq_empty unlisted] at made'
    rw [unionHeaderOutput_eq_empty unlisted'] at made
    cases made
    cases made'
    exact ⟨rfl, fun _ => rfl⟩
  · rw [not_or] at unlisted
    obtain ⟨d, declared⟩ := Option.ne_none_iff_exists'.mp unlisted.1
    obtain ⟨header, listed⟩ := Option.ne_none_iff_exists'.mp unlisted.2
    have declared' : q.host.declaration? s = some d := by rw [same.host.declaration?, declared]
    have listed' : q.index.unionHeaders.get? s = some header := by
      rw [same.index.unionHeaders, listed]
    rw [unionHeaderOutput_eq declared listed] at made'
    rw [unionHeaderOutput_eq declared' listed'] at made
    have family := same.headerFamily s
    have settled : p.index.Settled →
        ((p.index.families.get? s).getD (.empty s)).ids.isOk := fun settled => settled.family s
    generalize (q.index.families.get? s).getD (.empty s) = f,
      (p.index.families.get? s).getD (.empty s) = g at family settled made made'
    rcases family.ids_cases with ⟨e, e', given, given'⟩ | ⟨ids, ids', given, given', cases⟩
    · rw [given] at made
      rw [given'] at made' settled
      cases made
      cases made'
      refine ⟨rfl, ?_⟩
      intro all
      cases settled all
    · rw [given] at made
      rw [given'] at made'
      cases made
      cases made'
      simp only [Union.dispatched, same.host.signatures, same.headerFile family, cases]
      exact ⟨trivial, fun _ => trivial⟩

/-! ### Jobs -/

/-- A job for a reordered project; how the error of a family without ids is worded may differ. -/
theorem output (job : Job) {o o' : Output} (made : job.output q .live = .ok o)
    (made' : job.output p .live = .ok o') : o.files = o'.files ∧ (p.index.Settled → o = o') := by
  have equal : job.output q .live = job.output p .live →
      o.files = o'.files ∧ (p.index.Settled → o = o') := by
    intro outputs
    rw [outputs, made'] at made
    cases made
    exact ⟨rfl, fun _ => rfl⟩
  obtain ⟨kind, s⟩ := job
  cases kind with
  | tracking => exact equal (by simp only [Job.output, same.trackingOutput])
  | injection => exact equal (by simp only [Job.output, same.injectionOutput])
  | unionHeader => exact same.unionHeaderOutput s made made'
  | unionVariant => exact equal (same.unionVariantOutput s)
  | unmanaged => exact equal (by simp only [Job.output, same.unmanagedOutput])
  | constants => exact equal (by simp only [Job.output, same.constantsOutput])

theorem kindsFor : Job.kindsFor q.index = Job.kindsFor p.index := by
  funext s
  have families : q.index.families.contains s = p.index.families.contains s :=
    SymbolTable.isSome_eq_of_rel (same.index.family s)
  have variants : (q.index.variant? s).isSome = (p.index.variant? s).isSome :=
    SymbolTable.isSome_eq_of_rel (same.index.variant? s)
  rw [Job.kindsFor, Job.kindsFor, Job.isRootHeader, Job.isRootHeader, same.index.tracked,
    same.index.singletons, same.index.injectors, same.index.unionHeaders,
    same.index.orphanVariants, same.index.unmanagedAccess, families, variants]

theorem jobs_perm : (Job.all q.host q.index).Perm (Job.all p.host p.index) := by
  rw [Job.all, Job.all, same.kindsFor, same.index.constants]
  exact ((same.host.perm.filter _).flatMap_right _).append_right _

end Project.Reorders

end Marksmith

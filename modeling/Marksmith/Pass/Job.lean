import Marksmith.Constants.Source
import Marksmith.Injection.Source
import Marksmith.Tracking.Source
import Marksmith.Union.VariantSource
import Marksmith.Unmanaged.Source

/-!
Jobs of a pass: one kind of source for one definition. Jobs follow the order of the declarations, so
what a pass gives does not depend on when they are done.
-/

namespace Marksmith

/-- One kind of source for one definition. -/
structure Job where
  kind : SourceKind
  symbol : Symbol
deriving DecidableEq, Repr

namespace Job

/-- What stands for the assembly where a definition is asked for. -/
def assembly : Symbol := ⟨"<assembly>", 0⟩

/-- Whether a definition is a header that extends no other one. -/
def isRootHeader (index : MarkerIndex) (s : Symbol) : Bool :=
  (index.unionHeaders.get? s).any (·.parent.isNone)

/-- The kinds of source that a definition gets. -/
def kindsFor (index : MarkerIndex) (s : Symbol) : List SourceKind :=
  (if index.tracked.contains s || index.singletons.contains s then [.tracking] else []) ++
    (if index.injectors.contains s then [.injection] else []) ++
    (if index.families.contains s || isRootHeader index s then [.unionHeader] else []) ++
    (if (index.variant? s).isSome || index.orphanVariants.contains s then [.unionVariant]
    else []) ++
    (if index.unmanagedAccess.contains s then [.unmanaged] else [])

/-- The jobs of a pass. Nothing is generated for external declarations. -/
def all (host : Host) (index : MarkerIndex) : List Job :=
  (host.declarations.filter fun d => !d.external).flatMap (fun d =>
    (kindsFor index d.symbol).map fun kind => ⟨kind, d.symbol⟩) ++
  (if index.constants.isSome then [⟨.constants, assembly⟩] else [])

/-- Does a job. -/
def output (project : Project) (token : Token) (job : Job) : Except Cancelled Output :=
  match job.kind with
  | .tracking => project.trackingOutput token job.symbol
  | .injection => project.injectionOutput token job.symbol
  | .unionHeader => project.unionHeaderOutput token job.symbol
  | .unionVariant => project.unionVariantOutput token job.symbol
  | .unmanaged => project.unmanagedOutput token job.symbol
  | .constants => project.constantsOutput token

/-! ### Dependencies -/

/-- The definitions that the source for a header is made from. -/
def headerRoots (index : MarkerIndex) (s : Symbol) : List Symbol :=
  s :: ((((index.unionHeaders.get? s).bind (·.dispatch)).map Symbol.ofType).toList ++
    ((index.families.get? s).map fun family => family.variants.map (·.symbol)).getD [])

/-- The definitions that the source for a variant is made from. -/
def variantRoots (index : MarkerIndex) (s : Symbol) : List Symbol :=
  s :: ((index.variant? s).map fun (_, v) => index.headerChain v.header).getD []

/-- The definitions that a job starts from. -/
def roots (index : MarkerIndex) (job : Job) : List Symbol :=
  match job.kind with
  | .tracking | .injection | .unmanaged => [job.symbol]
  | .unionHeader => headerRoots index job.symbol
  | .unionVariant => variantRoots index job.symbol
  | .constants => []

/-- The family that a job is about. -/
def family? (index : MarkerIndex) (job : Job) : Option UnionFamily :=
  match job.kind with
  | .unionHeader => index.families.get? job.symbol
  | .unionVariant => (index.variant? job.symbol).map (·.1)
  | .tracking | .injection | .unmanaged | .constants => none

end Job

end Marksmith

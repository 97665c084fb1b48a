import Marksmith.Cache.Fingerprint
import Marksmith.Cache.Gate
import Marksmith.Pass.Job

/-!
Sessions: passes over a project that share a cache. A job whose fingerprint has not changed since
the last pass is not done again. A pass that is cancelled leaves the session as it was.

The fingerprint of a job covers its dependencies, and what it reads beyond them: the settings, the
ids of its family, and the tag manager asset.
-/

namespace Marksmith

/-! ### Fingerprints of jobs -/

def Symbol.toJson (s : Symbol) : Json := .object [("name", .string s.name), ("arity", .nat s.arity)]

def UnionVariant.toJson (v : UnionVariant) : Json :=
  .object [("symbol", v.symbol.toJson), ("header", v.header.toJson),
    ("header_field", .string v.headerField), ("forced_id", .ofOption (v.forcedId.map Json.nat)),
    ("size", .nat v.size), ("members", .strings v.members)]

/-- The ids of a family, or the wording of the error. -/
def UnionFamily.idsToJson (family : UnionFamily) : Json :=
  match family.ids with
  | .ok ids => .object [("ids", .array (ids.map Json.nat))]
  | .error e => .object [("error", .string e.message)]

def UnionFamily.toJson (family : UnionFamily) : Json :=
  .object [("root", family.root.toJson),
    ("variants", .array (family.variants.map UnionVariant.toJson)), ("ids", family.idsToJson)]

def ConstantsOptions.toJson (o : ConstantsOptions) : Json :=
  .object [("namespace", .ofString? o.nameSpace), ("class_name", .string o.className)]

namespace Job

def toJson (job : Job) : Json :=
  .object [("kind", .string job.kind.text), ("symbol", job.symbol.toJson)]

/-- The constants request with the asset, for the job that reads them. -/
def constantsInput (project : Project) (job : Job) : Json :=
  match job.kind, project.index.constants with
  | .constants, some options => .array [options.toJson, .ofString? project.tagManager]
  | _, _ => .null

/-- What a job reads beyond its dependencies. -/
def extras (project : Project) (job : Job) : Json :=
  .object [("job", job.toJson), ("settings", project.settings.toJson),
    ("family", .ofOption ((job.family? project.index).map UnionFamily.toJson)),
    ("constants", job.constantsInput project)]

/-- The fingerprint of a job. -/
def fingerprint (project : Project) (token : Token) (job : Job) : Except Cancelled Fingerprint :=
  Fingerprint.ofDeclarations project.host token (job.roots project.index) (job.extras project)

end Job

/-! ### Sessions -/

/-- What a pass reads besides the declarations. -/
structure PassInputs where
  settings : Settings := {}
  tagManager : Option String := none
deriving DecidableEq, Repr

/-- What a pass gives. -/
structure PassResult where
  files : List SourceFile
  /-- In reporting order. -/
  diagnostics : List Diagnostic
  stats : CacheStats
deriving DecidableEq, Repr

/-- Whether a pass has found an error. -/
def PassResult.hasErrors (r : PassResult) : Bool := r.diagnostics.any (·.isError)

/-- A generator that remembers its last pass. -/
structure Session where
  cache : CacheGate Job Fingerprint Output := {}
deriving Repr

namespace Session

/-- A job's output, from the cache or made anew. -/
def compute (session : Session) (project : Project) (token : Token) (job : Job) :
    Except Cancelled (Computed Job Fingerprint Output) := do
  let fingerprint ← job.fingerprint project token
  session.cache.getOrMaterialize job fingerprint fun _ => job.output project token

/-- What a pass gives, from the outputs of its jobs and what is reported of the index. -/
def gather (index : MarkerIndex) (outputs : List Output) (stats : CacheStats) : PassResult :=
  { files := outputs.flatMap (·.files)
    diagnostics := Diagnostic.normalize (outputs.flatMap (·.diagnostics) ++ index.diagnostics)
    stats }

/-- A pass over a project whose markers have been indexed. -/
def runProject (session : Session) (project : Project) (token : Token) :
    Except Cancelled (PassResult × Session) := do
  let computed ← (Job.all project.host project.index).mapM (session.compute project token)
  token.checkpoint
  let cache := session.cache.commit computed
  return (gather project.index (computed.map (·.value)) cache.last, ⟨cache⟩)

/-- A pass over a project, and the session after it. -/
def run (session : Session) (host : Host) (inputs : PassInputs) (token : Token) :
    Except Cancelled (PassResult × Session) := do
  let index ← MarkerIndex.build host token
  session.runProject ⟨host, index, inputs.settings, inputs.tagManager⟩ token

/-- The number of jobs whose output is kept. -/
def size (session : Session) : Nat := session.cache.size

end Session

/-- A single pass. -/
def generate (host : Host) (inputs : PassInputs) (token : Token) : Except Cancelled PassResult :=
  (·.1) <$> Session.run {} host inputs token

/-- A cancelled pass as a diagnostic. -/
def Cancelled.diagnostic (_ : Cancelled) : Diagnostic :=
  ⟨.assembly, .generationCancelled, "generation was cancelled before it completed"⟩

end Marksmith

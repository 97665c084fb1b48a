import Marksmith.Proofs.Analysis.Silence
import Marksmith.Proofs.Cache.Fingerprint
import Marksmith.Proofs.Host.Layout
import Marksmith.Proofs.Json.Reading
import Marksmith.Proofs.Pass.Incremental

/-!
What the layout of source texts does to fingerprints. A pass has the same jobs with the same roots
whatever the layout is, and types are hashed as they are read; but statements are hashed as they are
spelled.

* `Pass.jobs_eq`: layout does not change the jobs of a pass;
* `Pass.fingerprint_eq_iff`: a job keeps its fingerprint exactly if the statements in its
  dependencies are spelled as before;
* `sameFingerprints_iff`: so layout invalidates nothing exactly if it leaves those statements alone.
-/

namespace Marksmith

open Json
open Syntax (TypeRef SameLexemes)

/-- The texts of the statements in the methods of a symbol. -/
def Host.spellings (host : Host) (s : Symbol) : List String := (host.bodiesOf s).map (·.text)

/-- Every pass has the same jobs with the same fingerprints on both hosts. -/
def Host.SameFingerprints (host host' : Host) : Prop :=
  ∀ inputs, (Pass.mk host' inputs).jobs = (Pass.mk host inputs).jobs ∧
    ∀ job ∈ (Pass.mk host inputs).jobs,
      (Pass.mk host' inputs).fingerprint job = (Pass.mk host inputs).fingerprint job

namespace Fingerprint

theorem eq_iff_bytes {f g : Fingerprint} : f = g ↔ f.bytes = g.bytes := by
  cases f
  cases g
  exact Fingerprint.mk.injEq _ _ ▸ Iff.rfl

variable {host host' : Host}

/-- Layout leaves the entry of a dependency alone exactly if it leaves its statements alone. -/
theorem sameEntry_iff_spellings (relaid : host.Relaid host') (s : Symbol) :
    SameEntry host' host s s ↔ host'.spellings s = host.spellings s := by
  have declared := relaid.declaration? s
  rw [Host.spellings, Host.spellings, Host.bodiesOf, Host.bodiesOf]
  cases here : host.declaration? s with
  | none =>
    cases there : host'.declaration? s with
    | none => exact iff_of_true (.missing there here) rfl
    | some d' =>
      rw [here, there] at declared
      cases declared
  | some d =>
    cases there : host'.declaration? s with
    | none =>
      rw [here, there] at declared
      cases declared
    | some d' =>
      rw [here, there] at declared
      obtain ⟨relaid⟩ := declared
      constructor
      · intro entry
        cases entry with
        | declared there' here' same =>
          rw [there] at there'
          rw [here] at here'
          cases there'
          cases here'
          rw [relaid.eq_of_toJson same]
        | missing there' _ =>
          rw [there] at there'
          cases there'
        | backtick there' _ _ _ =>
          rw [there] at there'
          cases there'
      · intro spelled
        cases relaid.eq_of_spellings spelled
        exact .declared there here rfl

end Fingerprint

namespace Pass

variable {host host' : Host} (relaid : host.Relaid host') (inputs : PassInputs)

include relaid

theorem index_eq : (Pass.mk host' inputs).index = (Pass.mk host inputs).index := by
  show MarkerIndex.ofHost host' = MarkerIndex.ofHost host
  rw [← MarkerIndex.ofHost_silenced, relaid.silenced_eq, MarkerIndex.ofHost_silenced]

/-- Layout does not change the jobs of a pass. -/
theorem jobs_eq : (Pass.mk host' inputs).jobs = (Pass.mk host inputs).jobs := by
  have silenced (host : Host) (index : MarkerIndex) :
      Job.all host.silenced index = Job.all host index := by
    rw [Job.all, Job.all, Host.declarations_silenced, List.filter_map, List.flatMap_map]
    rfl
  show Job.all host' (Pass.mk host' inputs).index = Job.all host (Pass.mk host inputs).index
  rw [index_eq relaid, ← silenced host', relaid.silenced_eq, silenced]

/-- A job keeps its fingerprint exactly if the statements in its dependencies are spelled as
before. -/
theorem fingerprint_eq_iff (job : Job) :
    (Pass.mk host' inputs).fingerprint job = (Pass.mk host inputs).fingerprint job ↔
      ∀ s ∈ host.dependencyClosure (job.roots (Pass.mk host inputs).index),
        host'.spellings s = host.spellings s := by
  have index := index_eq relaid inputs
  have made := (Pass.mk host inputs).fingerprint_ok job
  have made' := (Pass.mk host' inputs).fingerprint_ok job
  have roots : job.roots (Pass.mk host' inputs).index = job.roots (Pass.mk host inputs).index := by
    rw [index]
  have extras : job.extras (Pass.mk host' inputs).project
      = job.extras (Pass.mk host inputs).project := by
    simp only [Job.extras, Job.constantsInput, Pass.project, index]
  have closure : host'.dependencyClosure (job.roots (Pass.mk host' inputs).index)
      = host.dependencyClosure (job.roots (Pass.mk host inputs).index) := by
    rw [roots, relaid.dependencyClosure_eq]
  rw [Fingerprint.eq_iff_bytes, Fingerprint.bytes_eq_iff made' made, and_iff_left extras]
  show List.Forall₂ (Fingerprint.SameEntry host' host)
    (host'.dependencyClosure (job.roots (Pass.mk host' inputs).index))
    (host.dependencyClosure (job.roots (Pass.mk host inputs).index)) ↔ _
  rw [closure, List.forall₂_same]
  exact forall₂_congr fun s _ => Fingerprint.sameEntry_iff_spellings relaid s

end Pass

/-! ### Layout of model texts -/

namespace Layout

/-- For models that differ in the layout of their types and statements, all fingerprints are the
same exactly if the statements in the dependencies of the jobs are spelled the same. The layout of
types never matters. -/
theorem sameFingerprints_iff {text text' : String} (relaid : ModelTexts text text')
    {host host' : Host} (here : Host.ofText text = .ok host)
    (there : Host.ofText text' = .ok host') :
    host.SameFingerprints host' ↔
      ∀ inputs, ∀ job ∈ (Pass.mk host inputs).jobs,
        ∀ s ∈ host.dependencyClosure (job.roots (Pass.mk host inputs).index),
          host'.spellings s = host.spellings s := by
  have hosts := Host.relaid_of_ofText relaid here there
  refine forall_congr' fun inputs => ?_
  rw [and_iff_right (Pass.jobs_eq hosts inputs)]
  exact forall₂_congr fun job _ => Pass.fingerprint_eq_iff hosts inputs job

/-- The form of a model with a class that has a field and a statement for injection. -/
def playerJson (type statement : String) : Json :=
  .object [("types", .array [.object [("name", .string "Game.Player"), ("kind", .string "class"),
    ("fields", .array [.object [("name", .string "names"), ("type", .string type)]]),
    ("methods", .array [.object [("name", .string "Init"),
      ("attributes", .array [.object [("name", .string "Inject")]]),
      ("body", .array [.string statement])]])]])]

/-- The model that is read from it. -/
def playerModel (type : TypeRef) (statement : String) : Model where
  types := [{
    name := "Game.Player", kind := .class
    fields := [{ name := "names", type }]
    methods := [{
      name := "Init", attributes := [⟨"Inject", []⟩], body := [{ text := statement }] }] }]

theorem readable_playerJson (type statement : String) :
    Readable Draft.maxDepth (playerJson type statement) := by
  simp [playerJson, Readable, ReadableEntries, ReadableItems, Draft.maxDepth]

theorem ofText_playerJson {text : String} {type : TypeRef} {statement : String}
    (read : Model.Reader.model (Draft.ofJson (playerJson text statement))
      = .ok (playerModel type statement)) :
    Host.ofText (playerJson text statement).text
      = .ok (.withPrelude (playerModel type statement)) := by
  refine Host.ofText_eq_ok_iff.mpr ⟨playerModel type statement, ?_, ?_⟩
  · rw [Model.ofText, document_text (readable_playerJson text statement), read]
  · exact Host.ofModel_withPrelude rfl rfl

theorem modelTexts_playerJson {type type' statement statement' : String}
    (types : SameLexemes type type') (statements : SameLexemes statement statement') :
    ModelTexts (playerJson type statement).text (playerJson type' statement').text := by
  have field : Fields
      (.object [(some "name", .string "names"), (some "type", .string type)] none)
      (.object [(some "name", .string "names"), (some "type", .string type')] none) :=
    .object none (.cons (.plain rfl _) (.cons (.special rfl (.relaid types)) .nil))
  have method (attributes : Draft) : Methods
      (.object [(some "name", .string "Init"), (some "attributes", attributes),
        (some "body", .array [.string statement] none)] none)
      (.object [(some "name", .string "Init"), (some "attributes", attributes),
        (some "body", .array [.string statement'] none)] none) :=
    .object none (.cons (.plain rfl _) (.cons (.plain rfl _) (.cons
      (.special rfl (.array none (.cons (.text (.relaid statements)) .nil))) .nil)))
  rw [ModelTexts, read_text (readable_playerJson _ _), read_text (readable_playerJson _ _)]
  refine .object none (.cons (.special rfl (.array none (.cons ?_ .nil))) .nil)
  exact .object none (.cons (.plain rfl _) (.cons (.plain rfl _)
    (.cons (.special rfl (.array none (.cons field .nil)))
      (.cons (.special rfl (.array none (.cons (method _) .nil))) .nil))))

/-- A blank in the text of a type leaves all fingerprints alone. -/
theorem sameFingerprints_blank :
    ModelTexts (playerJson "string[]" "Body = 1").text (playerJson "string[ ]" "Body = 1").text ∧
      ∃ host host', Host.ofText (playerJson "string[]" "Body = 1").text = .ok host ∧
        Host.ofText (playerJson "string[ ]" "Body = 1").text = .ok host' ∧
        host.SameFingerprints host' := by
  have relaid : ModelTexts (playerJson "string[]" "Body = 1").text
      (playerJson "string[ ]" "Body = 1").text :=
    modelTexts_playerJson (by decide +kernel) (by decide +kernel)
  have here : Host.ofText (playerJson "string[]" "Body = 1").text
      = .ok (.withPrelude (playerModel ⟨"string", [], false, 1⟩ "Body = 1")) :=
    ofText_playerJson (by with_unfolding_all rfl)
  have there : Host.ofText (playerJson "string[ ]" "Body = 1").text
      = .ok (.withPrelude (playerModel ⟨"string", [], false, 1⟩ "Body = 1")) :=
    ofText_playerJson (by with_unfolding_all rfl)
  exact ⟨relaid, _, _, here, there,
    (sameFingerprints_iff relaid here there).mpr fun _ _ _ _ _ => rfl⟩

/-- A blank in a statement changes the fingerprint of the job that reads it. -/
theorem not_sameFingerprints_blank :
    ModelTexts (playerJson "int" "Body = 1").text (playerJson "int" "Body  = 1").text ∧
      ∃ host host', Host.ofText (playerJson "int" "Body = 1").text = .ok host ∧
        Host.ofText (playerJson "int" "Body  = 1").text = .ok host' ∧
        ¬host.SameFingerprints host' := by
  have relaid : ModelTexts (playerJson "int" "Body = 1").text
      (playerJson "int" "Body  = 1").text :=
    modelTexts_playerJson (by decide +kernel) (by decide +kernel)
  have here : Host.ofText (playerJson "int" "Body = 1").text
      = .ok (.withPrelude (playerModel (.named "int") "Body = 1")) :=
    ofText_playerJson (by with_unfolding_all rfl)
  have there : Host.ofText (playerJson "int" "Body  = 1").text
      = .ok (.withPrelude (playerModel (.named "int") "Body  = 1")) :=
    ofText_playerJson (by with_unfolding_all rfl)
  refine ⟨relaid, _, _, here, there, fun same => ?_⟩
  let host : Host := .withPrelude (playerModel (.named "int") "Body = 1")
  let job : Job := ⟨.injection, ⟨"Game.Player", 0⟩⟩
  have listed : job ∈ (Pass.mk host {}).jobs := by decide +kernel
  have hosts := Host.relaid_of_ofText relaid here there
  have spelled := (Pass.fingerprint_eq_iff hosts {} job).mp ((same {}).2 job listed)
  have reached : (⟨"Game.Player", 0⟩ : Symbol)
      ∈ host.dependencyClosure (job.roots (Pass.mk host {}).index) := by decide +kernel
  exact absurd (spelled _ reached) (by decide +kernel)

end Layout

end Marksmith

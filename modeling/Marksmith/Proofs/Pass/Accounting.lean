import Marksmith.Proofs.Cache.Closure
import Marksmith.Proofs.Cache.Fingerprint
import Marksmith.Proofs.Lists
import Marksmith.Proofs.Pass.FileNames
import Marksmith.Proofs.Pass.Incremental
import Marksmith.Proofs.Tracking.Lifecycle
import Marksmith.Proofs.Union.Agreement
import Marksmith.Proofs.Union.Assignment

/-!
What becomes of marked declarations. Jobs leave many things to be reported elsewhere: markers that
cannot be read are reported with the index, and a family without ids is reported at its root header.

* `blamed_or_sound`: a declaration at whose location the index reports nothing has sound markers
  only;
* `tracking_accounted`, `variant_accounted`: a job for sound markers gives a source or reports an
  error, unless the family of a variant has no ids;
* `header_blamed`: the job for the root of a family without ids reports an error;
* `answers_or_abandoned`: so a pass answers for every marked declaration, except the variants
  of a family without ids whose root is external (`Abandoned`).

The last step passes through the cache. What a job is served was made by some earlier pass from the
same fingerprint (`exists_origin`), so by one with an alike declaration and a family of the same form
(`Shares`, `shares_of_fingerprint_eq`).
-/

namespace Marksmith

/-! ### Origins -/

namespace Pass

/-- A served output was made in the present pass or an earlier one, under the same fingerprint. -/
theorem exists_origin (earlier : List Pass) (p : Pass) {job : Job} (mem : job ∈ p.jobs) :
    ∃ q ∈ p :: earlier, job ∈ q.jobs ∧ q.fingerprint job = p.fingerprint job ∧
      served earlier p job = q.fresh job := by
  induction earlier generalizing p with
  | nil => exact ⟨p, List.mem_cons_self, mem, rfl, rfl⟩
  | cons r earlier ih =>
    rw [served]
    split
    · next kept =>
      obtain ⟨q, place, known, same, output⟩ := ih r kept.1
      exact ⟨q, List.mem_cons_of_mem _ place, known, same.trans kept.2, output⟩
    · exact ⟨p, List.mem_cons_self, mem, rfl, rfl⟩

/-- What two passes have in common for a job: the serialized declarations of its roots, and what it
reads beyond its dependencies. -/
structure Shares (job : Job) (q p : Pass) : Prop where
  declared : ∀ s ∈ job.roots p.index, ∀ d, p.host.declaration? s = some d →
    ∃ e, q.host.declaration? s = some e ∧ e.toJson = d.toJson
  extras : job.extras q.project = job.extras p.project

/-- Passes with the same fingerprint of a job share what the job is made from. -/
theorem shares_of_fingerprint_eq {q p : Pass} {job : Job}
    (same : q.fingerprint job = p.fingerprint job) : Shares job q p := by
  obtain ⟨entries, extras⟩ := (Fingerprint.bytes_eq_iff (q.fingerprint_ok job)
    (p.fingerprint_ok job)).mp (congrArg Fingerprint.bytes same)
  refine ⟨?_, extras⟩
  intro s root d here
  obtain ⟨t, _, entry⟩ := exists_of_forall₂ entries (Host.mem_dependencyClosure root)
  cases entry with
  | declared there again form =>
    cases again.symm.trans here
    exact ⟨_, there, form⟩
  | missing _ none => cases none.symm.trans here
  | backtick _ none _ _ => cases none.symm.trans here

end Pass

open MarkerIndex

/-- A model of the project has been accepted. -/
def Pass.Accepted (p : Pass) : Prop := ∃ limit model, Host.ofModel limit model = .ok p.host

/-- An error that is located at a declaration. -/
def TypeDecl.Blamed (d : TypeDecl) (ds : List Diagnostic) : Prop :=
  ∃ e ∈ ds, e.isError ∧ e.location = d.location

/-! ### Markers on declarations -/

namespace TypeDecl

/-- The markers on a type may stand where they stand, and can be read. -/
def Sound (d : TypeDecl) : Prop :=
  ∀ marker a, marker ≠ .inject → Attribute.find? marker d.attributes = some a →
    marker.accepts d.kind ∧ optionError? marker a = none

theorem Alike.location {d e : TypeDecl} (alike : d.Alike e) : d.location = e.location := by
  have name : d.name = e.name := congrArg Symbol.name alike.symbol
  rw [TypeDecl.location, TypeDecl.location, name, alike.file]

theorem Alike.sound {d e : TypeDecl} (alike : d.Alike e) (sound : e.Sound) : d.Sound := by
  intro marker a other found
  rw [alike.attributes] at found
  rw [alike.kind]
  exact sound marker a other found

theorem Blamed.mono {d : TypeDecl} {ds es : List Diagnostic} (sub : ds ⊆ es)
    (blamed : d.Blamed ds) : d.Blamed es := by
  obtain ⟨e, mem, rest⟩ := blamed
  exact ⟨e, sub mem, rest⟩

theorem blamed_of_mem_typeProblems {d : TypeDecl} {e : Diagnostic} (mem : e ∈ typeProblems d) :
    e.isError ∧ e.location = d.location := by
  obtain ⟨⟨marker, a⟩, _, problem⟩ := List.mem_filterMap.mp mem
  dsimp only at problem
  split at problem
  · cases problem
  · split at problem
    · cases problem
      exact ⟨rfl, rfl⟩
    · obtain ⟨wrong, _, rfl⟩ := Option.map_eq_some_iff.mp problem
      exact ⟨rfl, rfl⟩

theorem sound_of_typeProblems {d : TypeDecl} (none : typeProblems d = []) : d.Sound := by
  intro marker a other found
  have silent := List.filterMap_eq_nil_iff.mp none _ (mem_firstMarkers List.not_mem_nil found)
  simp only [if_neg other] at silent
  split at silent
  · cases silent
  · next accepts =>
    rw [Bool.not_eq_true', Bool.not_eq_false] at accepts
    exact ⟨accepts, Option.map_eq_none_iff.mp silent⟩

/-- A declaration at whose location the index reports nothing has sound markers only. -/
theorem blamed_or_sound {host : Host} {d : TypeDecl} (mem : d ∈ host.declarations)
    (own : d.external = false) : d.Blamed (ofHost host).diagnostics ∨ d.Sound := by
  cases problems : typeProblems d with
  | nil => exact .inr (sound_of_typeProblems problems)
  | cons e rest =>
    have here : e ∈ typeProblems d := problems ▸ List.mem_cons_self
    refine .inl ⟨e, List.mem_append_left _ (List.mem_flatMap.mpr ⟨d, mem, ?_⟩),
      blamed_of_mem_typeProblems here⟩
    rw [MarkerIndex.problems, own]
    exact List.mem_append_left _ here

variable {α : Type} {read : Attribute → Except OptionError α}

theorem Sound.exists_optionsOf? {d : TypeDecl} (sound : d.Sound) {marker : Marker} {a : Attribute}
    (other : marker ≠ .inject) (found : Attribute.find? marker d.attributes = some a)
    (reads : optionError? marker a = optionError?.errorOf (read a)) :
    ∃ options, optionsOf? marker read d = some options := by
  obtain ⟨accepts, readable⟩ := sound marker a other found
  rw [reads] at readable
  rw [optionsOf?, if_pos accepts, found, Option.bind_some]
  cases outcome : read a with
  | ok options => exact ⟨options, rfl⟩
  | error e =>
    rw [outcome] at readable
    cases readable

theorem Sound.exists_readOptions {d : TypeDecl} (sound : d.Sound) {marker : Marker}
    (other : marker ≠ .inject)
    (reads : ∀ a, optionError? marker a = optionError?.errorOf (read a)) :
    ∃ options, Facts.readOptions marker read d = .ok options :=
  Facts.exists_readOptions fun a found => (reads a).symm.trans (sound marker a other found).2

end TypeDecl

namespace Pass

variable {p q : Pass} {d e : TypeDecl}

/-! ### Tracked types and singletons -/

/-- The markers that ask for a kind of source. -/
inductive Calls : Marker → SourceKind → Prop
  | track : Calls .track .tracking
  | singleton : Calls .singleton .tracking
  | union : Calls .union .unionVariant

theorem tracking_mem_jobs (accepted : p.Accepted) (mem : d ∈ p.host.declarations)
    (own : d.external = false) (sound : d.Sound) {marker : Marker} (calls : Calls marker .tracking)
    (marked : (Attribute.find? marker d.attributes).isSome) : ⟨.tracking, d.symbol⟩ ∈ p.jobs := by
  obtain ⟨limit, model, accepted⟩ := accepted
  have declared := Host.declaration?_symbol accepted mem
  obtain ⟨a, found⟩ := Option.isSome_iff_exists.mp marked
  refine mem_jobs_tracking.mpr ⟨?_, d, mem, own, rfl⟩
  rw [IsMarked, Bool.or_eq_true, SymbolTable.contains, SymbolTable.contains, index,
    get?_tracked accepted, get?_singletons accepted, declared, Option.bind_some, Option.bind_some]
  cases calls with
  | track =>
    obtain ⟨options, read⟩ := sound.exists_optionsOf? (by decide) found rfl
    rw [read]
    exact .inl rfl
  | singleton =>
    obtain ⟨options, read⟩ := sound.exists_optionsOf? (by decide) found rfl
    rw [read]
    exact .inr rfl

/-- The job for a sound marker gives a file, or reports an error at the declaration. -/
theorem tracking_accounted (declared : q.host.declaration? e.symbol = some e) (sound : e.Sound)
    {marker : Marker} (calls : Calls marker .tracking)
    (marked : (Attribute.find? marker e.attributes).isSome) :
    (∃ file, file ∈ (q.fresh ⟨.tracking, e.symbol⟩).files) ∨
      e.Blamed (q.fresh ⟨.tracking, e.symbol⟩).diagnostics := by
  obtain ⟨a, found⟩ := Option.isSome_iff_exists.mp marked
  have kind : e.kind = .class ∨ e.kind = .interface := by
    cases calls with
    | track =>
      have accepts := (sound .track a (by decide) found).1
      cases same : e.kind <;> simp_all [Marker.accepts, Marker.target]
    | singleton =>
      have accepts := (sound .singleton a (by decide) found).1
      cases same : e.kind <;> simp_all [Marker.accepts, Marker.target]
  obtain ⟨track, first⟩ : ∃ track, Facts.readOptions .track TrackOptions.read e = .ok track :=
    sound.exists_readOptions (by decide) fun _ => rfl
  obtain ⟨singleton, second⟩ :
      ∃ singleton, Facts.readOptions .singleton SingletonOptions.read e = .ok singleton :=
    sound.exists_readOptions (by decide) fun _ => rfl
  let f := Facts.ofDecl q.host q.index (q.index.markerOf e.symbol) e track singleton
  have known : q.project.facts? e.symbol = some f :=
    Project.facts?_eq_some_iff.mpr ⟨e, track, singleton, declared, kind, ⟨first, second⟩, rfl⟩
  have reports : f.diagnostics = ((Facts.mismatch? q.index f).map fun found =>
      Facts.mismatchReport e.location f found.1 found.2).toList := rfl
  rw [fresh_tracking, known]
  dsimp only
  cases mismatch : Facts.mismatch? q.index f with
  | none => exact .inl ⟨q.planFile f, List.mem_cons_self⟩
  | some found =>
    rw [mismatch] at reports
    refine .inr ⟨Facts.mismatchReport e.location f found.1 found.2, ?_, rfl, rfl⟩
    show _ ∈ f.diagnostics
    rw [reports]
    exact List.mem_cons_self

/-! ### Variants -/

theorem ids_of_listed {host : Host} {family : UnionFamily}
    (listed : family ∈ (ofHost host).families.values) :
    family.ids = Union.assignIds
      (family.variants.map fun v => ⟨v.symbol.simpleName, v.forcedId⟩) := by
  obtain ⟨⟨root, _⟩, mem, rfl⟩ := List.mem_map.mp listed
  obtain ⟨⟨_, given⟩, _, same⟩ := List.mem_map.mp mem
  cases same
  rfl

/-- A family with ids has a case for each of its variants. -/
theorem exists_case {host : Host} {family : UnionFamily}
    (listed : family ∈ (ofHost host).families.values) {ids : List Nat}
    (assigned : family.ids = .ok ids) {v : UnionVariant} (mem : v ∈ family.variants) :
    ∃ c, family.assignedCases.find? (·.variant.symbol == v.symbol) = some c := by
  have aligned : ids.length = family.variants.length := by
    have given := assigned
    rw [ids_of_listed listed] at given
    have lengths := (Union.assignIds_eq_ok_iff.mp given).2.aligned
    rwa [List.length_map] at lengths
  obtain ⟨i, small, rfl⟩ := List.mem_iff_getElem.mp mem
  have inside : i < (ids.zip family.variants).length := by
    rw [List.length_zip]
    omega
  have paired : (ids.zip family.variants)[i] ∈ ids.zip family.variants := List.getElem_mem inside
  rw [List.getElem_zip, ← (List.mergeSort_perm _ fun a b => decide (a.1 ≤ b.1)).mem_iff] at paired
  have case : (ids[i], family.variants[i])
      ∈ (family.cases ids).map fun c => (c.id, c.variant) := by
    rw [UnionFamily.map_variants_cases]
    exact paired
  obtain ⟨c, listed, same⟩ := List.mem_map.mp case
  have found : (family.assignedCases.find?
      (·.variant.symbol == family.variants[i].symbol)).isSome := by
    rw [List.find?_isSome, UnionFamily.assignedCases, assigned]
    refine ⟨c, listed, ?_⟩
    rw [← (Prod.mk.inj same).2]
    exact beq_self_eq_true _
  exact Option.isSome_iff_exists.mp found

theorem ids_of_toJson_eq {f g : UnionFamily} (same : f.toJson = g.toJson) {ids : List Nat}
    (assigned : f.ids = .ok ids) : ∃ ids, g.ids = .ok ids := by
  cases given : g.ids with
  | ok others => exact ⟨others, rfl⟩
  | error e =>
    simp only [UnionFamily.toJson, UnionFamily.idsToJson, assigned, given, Json.object.injEq,
      List.cons.injEq, Prod.mk.injEq] at same
    exact absurd same.2.2.1.2.1.1 (by decide)

/-- Passes that share what a job is made from have families of the same form for it. -/
theorem family_toJson_eq {job : Job} (shares : Shares job q p) :
    (job.family? q.index).map UnionFamily.toJson
      = (job.family? p.index).map UnionFamily.toJson := by
  have forms : Json.ofOption ((job.family? q.index).map UnionFamily.toJson)
      = Json.ofOption ((job.family? p.index).map UnionFamily.toJson) := by
    have same := shares.extras
    simp only [Job.extras, Json.object.injEq, List.cons.injEq, Prod.mk.injEq, true_and] at same
    exact same.2.1
  cases here : job.family? q.index with
  | none =>
    cases there : job.family? p.index with
    | none => rfl
    | some g =>
      rw [here, there] at forms
      cases forms
  | some f =>
    cases there : job.family? p.index with
    | none =>
      rw [here, there] at forms
      cases forms
    | some g =>
      rw [here, there] at forms
      exact congrArg some forms

/-- A variant of a family without ids whose root does not belong to the project. Nothing is
generated for the root, which the error would be reported at. -/
def Abandoned (p : Pass) (s : Symbol) : Prop :=
  ∃ family v root e, p.index.variant? s = some (family, v) ∧ family.ids = .error e ∧
    p.host.declaration? family.root = some root ∧ root.external = true

theorem variant_mem_jobs (accepted : p.Accepted) (mem : d ∈ p.host.declarations)
    (own : d.external = false) (sound : d.Sound)
    (marked : (Attribute.find? .union d.attributes).isSome) :
    ⟨.unionVariant, d.symbol⟩ ∈ p.jobs := by
  obtain ⟨limit, model, accepted⟩ := accepted
  obtain ⟨a, found⟩ := Option.isSome_iff_exists.mp marked
  obtain ⟨options, read⟩ : ∃ options, optionsOf? .union UnionOptions.read d = some options :=
    sound.exists_optionsOf? (by decide) found rfl
  have decl : (d, options) ∈ variantDecls p.host :=
    List.mem_filterMap.mpr ⟨d, mem, by rw [read]; rfl⟩
  have listed : (p.index.variant? d.symbol).isSome ∨
      p.index.orphanVariants.contains d.symbol = true := by
    rcases Union.family_or_orphan accepted decl with ⟨family, listed, v, held, same⟩ | ⟨orphan, _⟩
    · left
      rw [variant?, List.findSome?_isSome_iff]
      refine ⟨family, listed, ?_⟩
      rw [Option.isSome_map, List.find?_isSome]
      exact ⟨v, held, by rw [same]; exact beq_self_eq_true _⟩
    · exact .inr (List.contains_iff_mem.mpr orphan)
  refine (mem_jobs_of_kind (by decide)).mpr ⟨d, mem, own, rfl, ?_⟩
  rcases listed with variant | orphan
  · simp [Job.kindsFor, variant]
  · simp [Job.kindsFor, List.contains_iff_mem.mp orphan]

theorem variant_of_mem_jobs {s : Symbol} (mem : ⟨.unionVariant, s⟩ ∈ q.jobs) :
    (q.index.variant? s).isSome ∨ q.index.orphanVariants.contains s = true := by
  obtain ⟨d, _, _, _, kind⟩ := (mem_jobs_of_kind (by decide)).mp mem
  simpa [Job.kindsFor, apply_ite (SourceKind.unionVariant ∈ ·)] using kind

theorem fresh_unionVariant (q : Pass) {s : Symbol} (declared : q.host.declaration? s = some e) :
    q.fresh ⟨.unionVariant, s⟩
      = (if q.index.orphanVariants.contains s then { diagnostics := [Union.orphanReport e s] }
        else
          match q.index.variant? s with
          | none => {}
          | some (family, v) =>
            match family.assignedCases.find? (·.variant.symbol == s) with
            | none => {}
            | some c =>
              { files := [Union.variantFile q.project e family c
                  (q.index.headerChain v.header)] }) := by
  have made : q.project.unionVariantOutput .live s = .ok (q.fresh ⟨.unionVariant, s⟩) :=
    q.output_ok ⟨.unionVariant, s⟩
  rw [Project.unionVariantOutput_eq declared] at made
  exact (Except.ok.inj made).symm

/-- The job for a variant gives a file, or reports an error at the declaration, or its family has no
ids. -/
theorem variant_accounted (mem : ⟨.unionVariant, e.symbol⟩ ∈ q.jobs)
    (declared : q.host.declaration? e.symbol = some e) :
    (∃ file, file ∈ (q.fresh ⟨.unionVariant, e.symbol⟩).files) ∨
      e.Blamed (q.fresh ⟨.unionVariant, e.symbol⟩).diagnostics ∨
      ∃ family v problem, q.index.variant? e.symbol = some (family, v) ∧
        family.ids = .error problem := by
  rw [fresh_unionVariant q declared]
  by_cases orphan : q.index.orphanVariants.contains e.symbol
  · right
    left
    rw [if_pos orphan]
    exact ⟨Union.orphanReport e e.symbol, List.mem_cons_self, rfl, rfl⟩
  · rw [if_neg orphan]
    obtain ⟨⟨family, v⟩, found⟩ :=
      Option.isSome_iff_exists.mp ((variant_of_mem_jobs mem).resolve_right orphan)
    rw [found]
    dsimp only
    cases ids : family.ids with
    | error problem => exact .inr (.inr ⟨family, v, problem, rfl, ids⟩)
    | ok ids =>
      left
      obtain ⟨listed, held, symbol⟩ := Union.variant?_spec found
      obtain ⟨c, first⟩ := exists_case listed (by assumption) held
      rw [symbol] at first
      rw [first]
      exact ⟨_, List.mem_cons_self⟩

/-! ### Roots of families -/

theorem family_of_get? {host : Host} {s : Symbol} {family : UnionFamily}
    (entry : (ofHost host).families.get? s = some family) :
    family ∈ (ofHost host).families.values ∧ family.root = s := by
  have mem := SymbolTable.mem_of_get? entry
  obtain ⟨⟨root, given⟩, _, same⟩ := List.mem_map.mp mem
  cases same
  exact ⟨List.mem_map_of_mem mem, rfl⟩

theorem exists_variant_of_toJson_eq {f g : UnionFamily} (same : f.toJson = g.toJson)
    {v : UnionVariant} (mem : v ∈ g.variants) : ∃ w, w ∈ f.variants := by
  simp only [UnionFamily.toJson, Json.object.injEq, List.cons.injEq, Prod.mk.injEq, true_and,
    Json.array.injEq] at same
  have listed : v.toJson ∈ f.variants.map UnionVariant.toJson := by
    rw [same.2.1]
    exact List.mem_map_of_mem mem
  obtain ⟨w, here, _⟩ := List.mem_map.mp listed
  exact ⟨w, here⟩

theorem isError_idReport (root : Symbol) (file : Option String) (e : Union.IdError) :
    (UnionFamily.idReport root file e).isError := by
  cases e <;> rfl

/-- The job for the root of a family without ids reports an error there. -/
theorem header_blamed (accepted : q.Accepted) {family : UnionFamily}
    (entry : q.index.families.get? family.root = some family) {v : UnionVariant}
    (mem : v ∈ family.variants) {problem : Union.IdError} (none : family.ids = .error problem)
    {root : TypeDecl} (declared : q.host.declaration? family.root = some root) :
    root.Blamed (q.fresh ⟨.unionHeader, family.root⟩).diagnostics := by
  obtain ⟨limit, model, accepted⟩ := accepted
  have listed := (family_of_get? entry).1
  obtain ⟨header, isHeader⟩ :=
    Option.isSome_iff_exists.mp ((isHeader_root listed mem).listed accepted).2
  have made : q.project.unionHeaderOutput .live family.root
      = .ok (q.fresh ⟨.unionHeader, family.root⟩) := q.output_ok ⟨.unionHeader, family.root⟩
  have held : (q.project.index.families.get? family.root).getD (.empty family.root) = family :=
    congrArg (·.getD (.empty family.root)) entry
  rw [Project.unionHeaderOutput_eq declared isHeader, held, none] at made
  rw [← Except.ok.inj made]
  refine ⟨UnionFamily.idReport family.root root.file problem, List.mem_cons_self,
    isError_idReport _ _ _, ?_⟩
  rw [← (Host.symbol_of_declaration? declared).2]
  rfl

/-! ### Served outputs -/

variable {earlier : List Pass}

/-- What a served output for the job of a declaration was made from: a pass that is accepted too and
has an alike declaration. -/
theorem exists_alike (known : ∀ q ∈ p :: earlier, q.Accepted) {kind : SourceKind} {s : Symbol}
    (mem : ⟨kind, s⟩ ∈ p.jobs) (root : s ∈ Job.roots p.index ⟨kind, s⟩)
    (declared : p.host.declaration? s = some d) :
    ∃ q e, q.Accepted ∧ ⟨kind, s⟩ ∈ q.jobs ∧ Shares ⟨kind, s⟩ q p ∧
      served earlier p ⟨kind, s⟩ = q.fresh ⟨kind, s⟩ ∧ q.host.declaration? s = some e ∧
      e.Alike d := by
  obtain ⟨q, place, job, same, output⟩ := exists_origin earlier p mem
  have shares := shares_of_fingerprint_eq same
  obtain ⟨e, there, form⟩ := shares.declared s root d declared
  exact ⟨q, e, known q place, job, shares, output, there, TypeDecl.alike_of_toJson_eq form⟩

theorem served_tracking (known : ∀ q ∈ p :: earlier, q.Accepted) (mem : d ∈ p.host.declarations)
    (own : d.external = false) (sound : d.Sound) {marker : Marker} (calls : Calls marker .tracking)
    (marked : (Attribute.find? marker d.attributes).isSome) :
    ⟨.tracking, d.symbol⟩ ∈ p.jobs ∧
      ((∃ file, file ∈ (served earlier p ⟨.tracking, d.symbol⟩).files) ∨
        d.Blamed (served earlier p ⟨.tracking, d.symbol⟩).diagnostics) := by
  have accepted := known p List.mem_cons_self
  have job := tracking_mem_jobs accepted mem own sound calls marked
  obtain ⟨limit, model, isAccepted⟩ := accepted
  obtain ⟨q, e, _, _, _, output, there, alike⟩ :=
    exists_alike known job List.mem_cons_self (Host.declaration?_symbol isAccepted mem)
  refine ⟨job, ?_⟩
  rw [output]
  rw [← alike.symbol] at there ⊢
  rw [← alike.attributes] at marked
  have accounted := tracking_accounted there (alike.sound sound) calls marked
  rwa [TypeDecl.Blamed, alike.location] at accounted

theorem served_header (known : ∀ q ∈ p :: earlier, q.Accepted) {s : Symbol} {family : UnionFamily}
    {v : UnionVariant} (variant : p.index.variant? s = some (family, v))
    {problem : Union.IdError} (none : family.ids = .error problem) {root : TypeDecl}
    (declared : p.host.declaration? family.root = some root) (own : root.external = false) :
    ⟨.unionHeader, family.root⟩ ∈ p.jobs ∧
      root.Blamed (served earlier p ⟨.unionHeader, family.root⟩).diagnostics := by
  obtain ⟨listed, held, _⟩ := Union.variant?_spec variant
  obtain ⟨mem, symbol⟩ := Host.symbol_of_declaration? declared
  have entry : p.index.families.get? family.root = some family := get?_familyTable listed
  have job : ⟨.unionHeader, family.root⟩ ∈ p.jobs := by
    refine (mem_jobs_of_kind (by decide)).mpr ⟨root, mem, own, symbol, ?_⟩
    simp [Job.kindsFor, SymbolTable.contains, entry]
  obtain ⟨q, e, accepted, _, shares, output, there, alike⟩ :=
    exists_alike known job List.mem_cons_self declared
  refine ⟨job, ?_⟩
  have forms : (q.index.families.get? family.root).map UnionFamily.toJson
      = some family.toJson := by
    have same := family_toJson_eq shares
    rw [Job.family?, Job.family?, entry] at same
    exact same
  obtain ⟨other, entry', form⟩ := Option.map_eq_some_iff.mp forms
  obtain ⟨w, held'⟩ := exists_variant_of_toJson_eq form held
  have root' := (family_of_get? entry').2
  have none' : ∃ problem, other.ids = .error problem := by
    cases ids : other.ids with
    | error problem => exact ⟨problem, rfl⟩
    | ok ids =>
      obtain ⟨others, given⟩ := ids_of_toJson_eq form (by assumption)
      cases none.symm.trans given
  obtain ⟨problem', none'⟩ := none'
  rw [output]
  rw [← root'] at entry' there ⊢
  have blamed := header_blamed accepted entry' held' none' there
  rwa [TypeDecl.Blamed, alike.location] at blamed

theorem variant_toJson_eq {s : Symbol} (shares : Shares ⟨.unionVariant, s⟩ q p)
    {family : UnionFamily} {v : UnionVariant} (variant : p.index.variant? s = some (family, v)) :
    ∃ other w, q.index.variant? s = some (other, w) ∧ other.toJson = family.toJson := by
  have forms : ((q.index.variant? s).map (·.1)).map UnionFamily.toJson = some family.toJson := by
    have same := family_toJson_eq shares
    rw [Job.family?, Job.family?, variant] at same
    exact same
  obtain ⟨other, first, form⟩ := Option.map_eq_some_iff.mp forms
  obtain ⟨⟨_, w⟩, found, rfl⟩ := Option.map_eq_some_iff.mp first
  exact ⟨_, w, found, form⟩

theorem served_variant (known : ∀ q ∈ p :: earlier, q.Accepted) (mem : d ∈ p.host.declarations)
    (own : d.external = false) (sound : d.Sound)
    (marked : (Attribute.find? .union d.attributes).isSome) :
    ⟨.unionVariant, d.symbol⟩ ∈ p.jobs ∧
      ((∃ file, file ∈ (served earlier p ⟨.unionVariant, d.symbol⟩).files) ∨
        d.Blamed (served earlier p ⟨.unionVariant, d.symbol⟩).diagnostics ∨
        ∃ family v problem, p.index.variant? d.symbol = some (family, v) ∧
          family.ids = .error problem) := by
  have accepted := known p List.mem_cons_self
  have job := variant_mem_jobs accepted mem own sound marked
  obtain ⟨limit, model, isAccepted⟩ := accepted
  obtain ⟨q, e, _, made, shares, output, there, alike⟩ :=
    exists_alike known job List.mem_cons_self (Host.declaration?_symbol isAccepted mem)
  refine ⟨job, ?_⟩
  rw [output]
  rw [← alike.symbol] at there made shares job ⊢
  rcases variant_accounted made there with file | blamed | ⟨family, v, problem, found, none⟩
  · exact .inl file
  · rw [TypeDecl.Blamed, alike.location] at blamed
    exact .inr (.inl blamed)
  · right
    right
    cases variant : p.index.variant? e.symbol with
    | some pair =>
      obtain ⟨mine, w⟩ := pair
      obtain ⟨other, u, again, form⟩ := variant_toJson_eq shares variant
      cases found.symm.trans again
      cases ids : mine.ids with
      | error problem => exact ⟨mine, w, problem, rfl, ids⟩
      | ok ids =>
        obtain ⟨others, given⟩ := ids_of_toJson_eq form.symm (by assumption)
        cases none.symm.trans given
    | none =>
      have same := family_toJson_eq shares
      rw [Job.family?, Job.family?, variant, found] at same
      cases same

/-- Nothing is ever generated for an abandoned variant. -/
theorem files_abandoned (known : ∀ q ∈ p :: earlier, q.Accepted) (mem : d ∈ p.host.declarations)
    (own : d.external = false) (abandoned : p.Abandoned d.symbol) :
    (served earlier p ⟨.unionVariant, d.symbol⟩).files = [] := by
  obtain ⟨family, v, _, problem, variant, none, _, _⟩ := abandoned
  obtain ⟨limit, model, isAccepted⟩ := known p List.mem_cons_self
  have job : ⟨.unionVariant, d.symbol⟩ ∈ p.jobs := by
    refine (mem_jobs_of_kind (by decide)).mpr ⟨d, mem, own, rfl, ?_⟩
    simp [Job.kindsFor, variant]
  obtain ⟨q, e, _, _, shares, output, there, _⟩ :=
    exists_alike known job List.mem_cons_self (Host.declaration?_symbol isAccepted mem)
  obtain ⟨other, w, found, form⟩ := variant_toJson_eq shares variant
  rw [output, fresh_unionVariant q there]
  split
  · rfl
  · rw [found]
    cases ids : other.ids with
    | error problem => simp [UnionFamily.assignedCases, ids]
    | ok ids =>
      obtain ⟨others, given⟩ := ids_of_toJson_eq form (by assumption)
      cases none.symm.trans given

/-- How a pass answers for a marked declaration: with a source from the declaration's own job, with
an error at the declaration, or, for a variant, with an error at the root of its family. -/
inductive Answers (earlier : List Pass) (p : Pass) (result : PassResult) (d : TypeDecl) :
    SourceKind → Prop
  | source {kind : SourceKind} {file : SourceFile}
    (made : file ∈ (served earlier p ⟨kind, d.symbol⟩).files) (given : file ∈ result.files) :
    Answers earlier p result d kind
  | declaration {kind : SourceKind} (blamed : d.Blamed result.diagnostics) :
    Answers earlier p result d kind
  | root {family : UnionFamily} {v : UnionVariant} {root : TypeDecl}
    (variant : p.index.variant? d.symbol = some (family, v))
    (declared : p.host.declaration? family.root = some root)
    (blamed : root.Blamed result.diagnostics) : Answers earlier p result d .unionVariant

/-- What is reported of a job is reported by the pass. -/
theorem reported_of_gives {result : PassResult} (gives : Session.Gives earlier p result) {job : Job}
    (mem : job ∈ p.jobs) :
    (served earlier p job).files ⊆ result.files ∧
      (served earlier p job).diagnostics ⊆ result.diagnostics := by
  constructor
  · intro file here
    rw [gives.1]
    exact List.mem_flatMap.mpr ⟨job, mem, here⟩
  · intro e here
    rw [gives.2, Diagnostic.mem_normalize]
    exact List.mem_append_left _ (List.mem_flatMap.mpr ⟨job, mem, here⟩)

/-- A pass answers for every marked declaration of its project, unless it is an abandoned
variant. -/
theorem answers_or_abandoned (known : ∀ q ∈ p :: earlier, q.Accepted) {result : PassResult}
    (gives : Session.Gives earlier p result) (mem : d ∈ p.host.declarations)
    (own : d.external = false) {marker : Marker} {kind : SourceKind} (calls : Calls marker kind)
    (marked : (Attribute.find? marker d.attributes).isSome) :
    Answers earlier p result d kind ∨ kind = .unionVariant ∧ p.Abandoned d.symbol := by
  have listed : p.index.diagnostics ⊆ result.diagnostics := by
    intro e here
    rw [gives.2, Diagnostic.mem_normalize]
    exact List.mem_append_right _ here
  rcases TypeDecl.blamed_or_sound mem own with blamed | sound
  · exact .inl (.declaration (blamed.mono listed))
  · have tracking : ∀ {marker}, Calls marker .tracking →
        (Attribute.find? marker d.attributes).isSome → Answers earlier p result d .tracking := by
      intro marker calls marked
      obtain ⟨job, file | blamed⟩ := served_tracking known mem own sound calls marked
      · obtain ⟨file, made⟩ := file
        exact .source made ((reported_of_gives gives job).1 made)
      · exact .declaration (blamed.mono (reported_of_gives gives job).2)
    cases calls with
    | track => exact .inl (tracking .track marked)
    | singleton => exact .inl (tracking .singleton marked)
    | union =>
      obtain ⟨job, file | blamed | ⟨family, v, problem, variant, none⟩⟩ :=
        served_variant known mem own sound marked
      · obtain ⟨file, made⟩ := file
        exact .inl (.source made ((reported_of_gives gives job).1 made))
      · exact .inl (.declaration (blamed.mono (reported_of_gives gives job).2))
      · obtain ⟨limit, model, accepted⟩ := known p List.mem_cons_self
        obtain ⟨here, held, _⟩ := Union.variant?_spec variant
        obtain ⟨root, declared⟩ :=
          Option.isSome_iff_exists.mp ((isHeader_root here held).listed accepted).1
        cases owner : root.external with
        | true => exact .inr ⟨rfl, family, v, root, problem, variant, none, declared, owner⟩
        | false =>
          obtain ⟨header, blamed⟩ := served_header known variant none declared owner
          exact .inl (.root variant declared (blamed.mono (reported_of_gives gives header).2))

end Pass

namespace Session

open Pass (served Calls Answers)

/-- After any history, a pass answers for every marked declaration of its project with a source or
an error, unless it is a variant of a family without ids whose root is external; there is no source
for such a variant. -/
theorem marked_answered {history : List Pass} {results : List PassResult} {session : Session}
    (ran : runAll {} history = .ok (results, session)) (before : ∀ q ∈ history, q.Accepted)
    {p : Pass} (accepted : p.Accepted) :
    ∃ result next, session.run p.host p.inputs .live = .ok (result, next) ∧
      ∀ d ∈ p.host.declarations, d.external = false → ∀ marker kind, Calls marker kind →
        (Attribute.find? marker d.attributes).isSome →
          (Answers history.reverse p result d kind ∨
            kind = .unionVariant ∧ p.Abandoned d.symbol) ∧
          (p.Abandoned d.symbol →
            (served history.reverse p ⟨.unionVariant, d.symbol⟩).files = []) := by
  have remembers := remembers_of_runAll remembers_empty ran
  rw [List.append_nil] at remembers
  obtain ⟨result, next, run, gives, -⟩ := run_remembers remembers p
  have known : ∀ q ∈ p :: history.reverse, q.Accepted := by
    intro q mem
    rcases List.mem_cons.mp mem with rfl | later
    · exact accepted
    · exact before q (List.mem_reverse.mp later)
  refine ⟨result, next, run, ?_⟩
  intro d mem own marker kind calls marked
  exact ⟨Pass.answers_or_abandoned known gives mem own calls marked,
    Pass.files_abandoned known mem own⟩

/-- Circles and squares that both ask for the id 1, and the header that they begin with. -/
def rivals (external : Bool) : Model where
  types :=
    [ { name := "Game.Shape", kind := .struct, attributes := [⟨"UnionHeader", []⟩], external },
      { name := "Game.Circle", kind := .struct, attributes := [⟨"Union", [⟨none, .int 1⟩]⟩],
        fields := [{ name := "Header", type := .named "Shape" }] },
      { name := "Game.Square", kind := .struct, attributes := [⟨"Union", [⟨none, .int 1⟩]⟩],
        fields := [{ name := "Header", type := .named "Shape" }] } ]

/-- A pass over these declarations. -/
def rivalsPass (external : Bool) : Pass where
  host := .withPrelude (rivals external)

theorem rivals_accepted (external : Bool) : (rivalsPass external).Accepted := by
  cases external with
  | true => exact ⟨_, _, Host.ofModel_withPrelude rfl rfl⟩
  | false => exact ⟨_, _, Host.ofModel_withPrelude rfl rfl⟩

/-- If the header belongs to the project, a pass answers for circles and squares. -/
theorem marked_answered_rivals :
    ∃ result next,
      Session.run {} (rivalsPass false).host (rivalsPass false).inputs .live = .ok (result, next) ∧
        ∀ d ∈ (rivalsPass false).host.declarations, d.external = false →
          ∀ marker kind, Calls marker kind → (Attribute.find? marker d.attributes).isSome →
            Answers [] (rivalsPass false) result d kind := by
  have ran : runAll {} [] = .ok ([], {}) := rfl
  have nothing : ∀ q ∈ ([] : List Pass), q.Accepted := by
    intro q mem
    cases mem
  obtain ⟨result, next, run, answers⟩ := marked_answered ran nothing (rivals_accepted false)
  refine ⟨result, next, run, ?_⟩
  intro d mem own marker kind calls marked
  rcases (answers d mem own marker kind calls marked).1 with answered | ⟨-, abandoned⟩
  · exact answered
  · obtain ⟨family, v, root, problem, variant, _, declared, external⟩ := abandoned
    have roots : ∀ family ∈ (rivalsPass false).index.families.values,
        ((rivalsPass false).host.declaration? family.root).all (!·.external) := by
      decide +kernel
    have root := roots family (Union.variant?_spec variant).1
    rw [declared] at root
    simp [external] at root

/-- If the header is external, nobody answers for circles and squares. -/
theorem not_marked_answered :
    ¬∀ p : Pass, p.Accepted → ∀ result, generate p.host p.inputs .live = .ok result →
      ∀ d ∈ p.host.declarations, d.external = false → ∀ marker kind, Calls marker kind →
        (Attribute.find? marker d.attributes).isSome → Answers [] p result d kind := by
  intro always
  obtain ⟨result, made, files, -⟩ := generate_ok (rivalsPass true)
  have noFile : result.files = [] := by
    have each : ∀ job ∈ (rivalsPass true).jobs, ((rivalsPass true).fresh job).files.isEmpty := by
      decide +kernel
    rw [files, List.flatMap_eq_nil_iff]
    exact fun job mem => List.isEmpty_iff.mp (each job mem)
  have noReport : ∀ e, e ∉ result.diagnostics := by
    have each : ∀ job ∈ (rivalsPass true).jobs,
        ((rivalsPass true).fresh job).diagnostics.isEmpty := by
      decide +kernel
    have index : (rivalsPass true).index.diagnostics.isEmpty := by decide +kernel
    intro e mem
    rcases (Pass.mem_diagnostics_of_generate made).mp mem with ⟨job, listed, here⟩ | here
    · rw [List.isEmpty_iff.mp (each job listed)] at here
      cases here
    · rw [List.isEmpty_iff.mp index] at here
      cases here
  have unblamed : ∀ d : TypeDecl, ¬d.Blamed result.diagnostics := by
    rintro d ⟨e, mem, -⟩
    exact noReport e mem
  obtain ⟨d, mem, own, marked⟩ : ∃ d ∈ (rivalsPass true).host.declarations, d.external = false ∧
      (Attribute.find? .union d.attributes).isSome := by
    decide +kernel
  have answered := always _ (rivals_accepted true) result made d mem own .union .unionVariant .union
    marked
  cases answered with
  | source _ given =>
    rw [noFile] at given
    cases given
  | declaration blamed => exact unblamed _ blamed
  | root _ _ blamed => exact unblamed _ blamed

end Session

end Marksmith

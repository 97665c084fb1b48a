import Marksmith.Proofs.Pass.Jobs
import Marksmith.Proofs.Union.Roots
import Marksmith.Proofs.Union.Sources

/-!
The sources for the header and for the variants of a union agree. They are made apart from each
other, by jobs that a third piece of code lists, and what one of them says of the other has to hold.

* `Agreement`: the header's source is there, its enumeration of tags has the tag that the variant's
  source refers to, with the variant's id, and each of its dispatchers has one case for it, which
  takes the header for the variant by the name that the variant's source uses;
* `idOf?_of_mem_cases`: the id of a case is the one that the family has assigned;
* `agrees_of_ownRoot`: the sources agree if the root belongs to the project.

`not_agrees_externalShape` is a project with a variant of an external header, for which nothing is
generated.
-/

namespace Marksmith

open Source (Piece)

namespace UnionFamily

variable {family : UnionFamily} {ids : List Nat}

/-- The id of a case is the one that the family has assigned to the variant. -/
theorem idOf?_of_mem_cases (distinct : (family.variants.map (·.symbol)).Nodup)
    (assigned : family.ids = .ok ids) {c : UnionCase} (mem : c ∈ family.cases ids) :
    family.idOf? c.variant.symbol = some c.id := by
  obtain ⟨place, here⟩ := List.mem_iff_getElem?.mp (mem_cases mem)
  obtain ⟨id, variant⟩ := List.getElem?_zip_eq_some.mp here
  obtain ⟨short, variant⟩ := List.getElem?_eq_some_iff.mp variant
  have first : family.variants.findIdx? (·.symbol == c.variant.symbol) = some place := by
    refine List.findIdx?_eq_some_iff_getElem.mpr ⟨short, ?_, fun j earlier same => ?_⟩
    · rw [variant]
      exact beq_self_eq_true _
    · have before : j < family.variants.length := earlier.trans short
      have again : (family.variants.map (·.symbol))[j]?
          = (family.variants.map (·.symbol))[place]? := by
        rw [List.getElem?_map, List.getElem?_map, List.getElem?_eq_getElem before,
          List.getElem?_eq_getElem short, variant]
        exact congrArg some (eq_of_beq same)
      have inside : j < (family.variants.map (·.symbol)).length := by rwa [List.length_map]
      exact earlier.ne ((List.getElem?_inj inside distinct).mp again)
  rw [idOf?, first, assigned]
  exact id

/-- The case that is found for a variant of a family is made for this variant. -/
theorem variant_of_find? (distinct : (family.variants.map (·.symbol)).Nodup) {v : UnionVariant}
    (held : v ∈ family.variants) {c : UnionCase}
    (found : family.assignedCases.find? (·.variant.symbol == v.symbol) = some c) :
    c.variant = v ∧ ∃ ids, family.ids = .ok ids ∧ c ∈ family.cases ids := by
  have symbol : c.variant.symbol = v.symbol := by
    have suits := List.find?_some found
    exact eq_of_beq suits
  have mem := List.mem_of_find?_eq_some found
  rw [assignedCases] at mem
  split at mem
  · next ids assigned =>
    have listed := (List.of_mem_zip (mem_cases mem)).2
    exact ⟨List.inj_on_of_nodup_map distinct listed held symbol, ids, assigned, mem⟩
  · cases mem

end UnionFamily

namespace Union

open MarkerIndex MemberSignature

/-! ### Agreement -/

/-- A dispatcher treats a variant: it has one label for the tag, and the statements behind it use
the header as the variant. -/
structure Handles (host : Host) (m : MemberSignature) (self : String) (cases : List UnionCase)
    (c : UnionCase) : Prop where
  once : (m.dispatcher host self cases).count (caseLabel self c.name) = 1
  reinterprets : caseLabel self c.name ::
      Piece.indented ((m.caseStatements (m.useOnVariant self (host.nameText c.variant.symbol)
        (c.variant.members.contains m.name))).map fun s => .line (s ++ ";"))
    <:+: m.dispatcher host self cases

/-- The source for a variant and the source for the root of its family say the same. -/
structure Agreement (p : Pass) (file : SourceFile) (family : UnionFamily) (d root : TypeDecl)
    (options : UnionHeader) (cases : List UnionCase) (c : UnionCase) : Prop where
  found : p.index.variant? c.variant.symbol = some (family, c.variant)
  declared : p.host.declaration? c.variant.symbol = some d
  rootDeclared : p.host.declaration? family.root = some root
  variant : file = variantFile p.project d family c (p.index.headerChain c.variant.header)
  header : p.Makes ⟨.unionHeader, family.root⟩
    (headerFile p.project root options family (dispatched p.host options) cases)
  assigned : family.idOf? c.variant.symbol = some c.id
  tag : file.Shows (tagConstant (p.host.nameText family.root ++ ".TypeIDs") c.name)
  entry : (c.name, c.id) ∈ tagEntries cases ∧
    (headerFile p.project root options family (dispatched p.host options) cases).Shows
      (tagLine (c.name, c.id))
  distinct : ((tagEntries cases).map (·.1)).Nodup
  handled : ∀ m ∈ dispatched p.host options, Handles p.host m (p.host.selfText root) cases c
  /-- Both sources use the same name for the variant, if it has no type parameters. -/
  variantText : d.typeParams = [] → p.host.nameText c.variant.symbol = p.host.selfText d
  /-- Both sources use the same name for the root, if it has no type parameters. -/
  rootText : root.typeParams = [] → p.host.nameText family.root = p.host.selfText root

/-- The source for a variant agrees with the source for the root of its family. -/
def Agrees (p : Pass) (s : Symbol) (file : SourceFile) : Prop :=
  ∃ family d root options cases c, c.variant.symbol = s ∧
    Agreement p file family d root options cases c

/-! ### What the sources are made from -/

theorem variant?_spec {index : MarkerIndex} {s : Symbol} {family : UnionFamily} {v : UnionVariant}
    (found : index.variant? s = some (family, v)) :
    family ∈ index.families.values ∧ v ∈ family.variants ∧ v.symbol = s := by
  obtain ⟨family', listed, here⟩ := List.exists_of_findSome?_eq_some found
  obtain ⟨w, first, same⟩ := Option.map_eq_some_iff.mp here
  cases same
  have suits := List.find?_some first
  exact ⟨listed, List.mem_of_find?_eq_some first, eq_of_beq suits⟩

/-- The file for a variant is made from a case of its family. -/
theorem case_of_makes {p : Pass} {limit : Nat} {model : Model}
    (accepted : Host.ofModel limit model = .ok p.host) {s : Symbol} {file : SourceFile}
    (makes : p.Makes ⟨.unionVariant, s⟩ file) :
    ∃ d family ids c, p.host.declaration? s = some d ∧
      p.index.variant? s = some (family, c.variant) ∧ family.ids = .ok ids ∧ c ∈ family.cases ids ∧
      file = variantFile p.project d family c (p.index.headerChain c.variant.header) := by
  obtain ⟨job, given⟩ := makes
  obtain ⟨d, mem, -, rfl, -⟩ := (Pass.mem_jobs_of_kind (by decide)).mp job
  have declared := Host.declaration?_symbol accepted mem
  have made : p.project.unionVariantOutput .live d.symbol
      = .ok (p.fresh ⟨.unionVariant, d.symbol⟩) := p.output_ok ⟨.unionVariant, d.symbol⟩
  rw [Project.unionVariantOutput_eq declared] at made
  have output := Except.ok.inj made
  rw [← output] at given
  split at given
  · cases given
  · split at given
    · cases given
    · next family v found =>
      split at given
      · cases given
      · next c first =>
        obtain ⟨listed, held, same⟩ := variant?_spec found
        rw [← same] at first
        obtain ⟨rfl, ids, assigned, mem⟩ :=
          UnionFamily.variant_of_find? (nodup_family accepted listed) held first
        exact ⟨d, family, ids, c, declared, found, assigned, mem, List.mem_singleton.mp given⟩

/-- The file for the root of a family with ids, if the root belongs to the project. -/
theorem header_of_ownRoot {p : Pass} {family : UnionFamily}
    (listed : family ∈ p.index.families.values) {ids : List Nat} (assigned : family.ids = .ok ids)
    {root : TypeDecl} (declared : p.host.declaration? family.root = some root)
    (own : root.external = false) {options : UnionHeader}
    (entry : p.index.unionHeaders.get? family.root = some options) :
    p.Makes ⟨.unionHeader, family.root⟩ (headerFile p.project root options family
      (dispatched p.host options) (family.cases ids)) := by
  obtain ⟨mem, symbol⟩ := Host.symbol_of_declaration? declared
  have held : p.index.families.get? family.root = some family := get?_familyTable listed
  constructor
  · refine (Pass.mem_jobs_of_kind (by decide)).mpr ⟨root, mem, own, symbol, ?_⟩
    simp [Job.kindsFor, SymbolTable.contains, held]
  · have made : p.project.unionHeaderOutput .live family.root
        = .ok (p.fresh ⟨.unionHeader, family.root⟩) := p.output_ok ⟨.unionHeader, family.root⟩
    have same : (p.project.index.families.get? family.root).getD (.empty family.root) = family :=
      congrArg (·.getD (.empty family.root)) held
    rw [Project.unionHeaderOutput_eq declared entry, same, assigned] at made
    rw [← Except.ok.inj made]
    exact List.mem_cons_self

theorem nameText_eq_selfText {host : Host} {d : TypeDecl} (plain : d.typeParams = []) :
    host.nameText d.symbol = host.selfText d := by
  rw [Host.nameText, Host.selfText, TypeDecl.selfType, plain]
  rfl

theorem handles_of_mem (host : Host) (m : MemberSignature) (self : String) {family : UnionFamily}
    {ids : List Nat} {c : UnionCase} (mem : c ∈ family.cases ids) :
    Handles host m self (family.cases ids) c where
  once := by
    rw [count_label]
    exact List.count_eq_one_of_mem (family.nodup_names_cases ids) (List.mem_map_of_mem mem)
  reinterprets := casePieces_eq host m self c ▸ casePieces_infix host m self mem

/-- The declaration of the root of a variant's family. -/
def rootDecl? (p : Pass) (s : Symbol) : Option TypeDecl :=
  (p.index.variant? s).bind fun (family, _) => p.host.declaration? family.root

/-- The source for a variant agrees with the source for its root, if the root belongs to the
project. -/
theorem agrees_of_ownRoot {p : Pass} {limit : Nat} {model : Model}
    (accepted : Host.ofModel limit model = .ok p.host) {s : Symbol} {file : SourceFile}
    (makes : p.Makes ⟨.unionVariant, s⟩ file)
    (own : ∀ root, rootDecl? p s = some root → root.external = false) : Agrees p s file := by
  obtain ⟨d, family, ids, c, declared, found, assigned, mem, source⟩ :=
    case_of_makes accepted makes
  obtain ⟨listed, held, rfl⟩ := variant?_spec found
  obtain ⟨isDeclared, isListed⟩ := (isHeader_root listed held).listed accepted
  obtain ⟨root, rootDeclared⟩ := Option.isSome_iff_exists.mp isDeclared
  obtain ⟨options, entry⟩ := Option.isSome_iff_exists.mp isListed
  have ownRoot := own root (by rw [rootDecl?, found]; exact rootDeclared)
  refine ⟨family, d, root, options, family.cases ids, c, rfl, ?_⟩
  exact
    { found
      declared
      rootDeclared
      variant := source
      header := header_of_ownRoot listed assigned rootDeclared ownRoot entry
      assigned := UnionFamily.idOf?_of_mem_cases (nodup_family accepted listed) assigned mem
      tag := source ▸ shows_tagConstant _ _ _ _ _
      entry := ⟨entry_of_mem mem, shows_tagLine (entry_of_mem mem)⟩
      distinct := nodup_tagEntries family ids
      handled := fun m _ => handles_of_mem p.host m _ mem
      variantText := fun plain =>
        (Host.symbol_of_declaration? declared).2 ▸ nameText_eq_selfText plain
      rootText := fun plain =>
        (Host.symbol_of_declaration? rootDeclared).2 ▸ nameText_eq_selfText plain }

/-- The symbol of `Circle`. -/
def circle : Symbol := ⟨"Game.Circle", 0⟩

/-- The sources for a circle and for the shape that it begins with agree. -/
theorem agrees_shapes :
    ∃ file, Pass.Makes ⟨shapesHost (.named "Shape"), {}⟩ ⟨.unionVariant, circle⟩ file ∧
      Agrees ⟨shapesHost (.named "Shape"), {}⟩ circle file := by
  have job : ⟨.unionVariant, circle⟩ ∈ Pass.jobs ⟨shapesHost (.named "Shape"), {}⟩ := by
    decide +kernel
  have some : (Pass.fresh ⟨shapesHost (.named "Shape"), {}⟩ ⟨.unionVariant, circle⟩).files
      ≠ [] := by decide +kernel
  obtain ⟨file, given⟩ := List.exists_mem_of_ne_nil _ some
  refine ⟨file, ⟨job, given⟩, agrees_of_ownRoot (shapes_accepted (.named "Shape")) ⟨job, given⟩ ?_⟩
  have own : ∀ root ∈ (rootDecl? ⟨shapesHost (.named "Shape"), {}⟩ circle).toList,
      root.external = false := by decide +kernel
  exact fun root found => own root (Option.mem_toList.mpr found)

/-- The declarations of `shapes`, with a `Shape` that is declared elsewhere. -/
def externalShapes : Model where
  types := (shapes (.named "Shape")).types.map fun d =>
    { d with external := d.name == "Game.Shape" }

/-- There is no source for an external shape, with which the source for a circle could agree. -/
theorem not_agrees_externalShape :
    ¬∀ limit model p, Host.ofModel limit model = .ok p.host → ∀ s file,
      p.Makes ⟨.unionVariant, s⟩ file → Agrees p s file := by
  intro always
  have job : ⟨.unionVariant, circle⟩ ∈ Pass.jobs ⟨.withPrelude externalShapes, {}⟩ := by
    decide +kernel
  have some : (Pass.fresh ⟨.withPrelude externalShapes, {}⟩ ⟨.unionVariant, circle⟩).files
      ≠ [] := by decide +kernel
  obtain ⟨file, given⟩ := List.exists_mem_of_ne_nil _ some
  obtain ⟨family, d, root, options, cases, c, -, agreement⟩ :=
    always _ _ _ (Host.ofModel_withPrelude rfl rfl) circle file ⟨job, given⟩
  have none : ∀ job ∈ Pass.jobs ⟨.withPrelude externalShapes, {}⟩, job.kind ≠ .unionHeader := by
    decide +kernel
  exact none _ agreement.header.1 rfl

end Union

end Marksmith

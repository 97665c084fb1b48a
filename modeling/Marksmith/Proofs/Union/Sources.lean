import Marksmith.Proofs.Host.Declarations
import Marksmith.Proofs.Source.Names
import Marksmith.Proofs.Source.Page
import Marksmith.Union.VariantSource

/-!
What the sources for union headers and variants are made from.

* `unionHeaderOutput_eq`, `unionVariantOutput_eq`: both outputs, from the declaration and the index;
* `nodup_names_cases`, `mem_cases`: the cases of a family have different names, none of them
  reserved, and pair each variant with its id;
* `shows_tagLine`, `shows_tagConstant`: the enumeration of type tags lists the cases, and a variant
  refers to its own;
* `count_label`: a dispatcher has as many labels for a name as there are cases with it.
-/

namespace Marksmith

open Source (Piece FreshNames)

/-! ### Cases -/

namespace UnionFamily

variable {family : UnionFamily} {ids : List Nat}

theorem map_names_cases (family : UnionFamily) (ids : List Nat) :
    (family.cases ids).map (·.name) = FreshNames.allocateAll ⟨[unsetName]⟩
      ((byId ids family.variants).map fun (_, v) => baseName v) := by
  rw [cases, List.map_map]
  refine (List.map_congr_left fun pair _ => rfl).trans (List.map_snd_zip ?_)
  exact Nat.le_of_eq (by rw [FreshNames.length_allocateAll, List.length_map])

theorem map_variants_cases (family : UnionFamily) (ids : List Nat) :
    (family.cases ids).map (fun c => (c.id, c.variant)) = byId ids family.variants := by
  rw [cases, List.map_map]
  refine (List.map_congr_left fun pair _ => rfl).trans (List.map_fst_zip ?_)
  exact Nat.le_of_eq (by rw [FreshNames.length_allocateAll, List.length_map])

/-- The cases of a family have different names. -/
theorem nodup_names_cases (family : UnionFamily) (ids : List Nat) :
    ((family.cases ids).map (·.name)).Nodup := by
  rw [map_names_cases]
  exact FreshNames.nodup_allocateAll _ _

/-- No case is named like the tag of no variant. -/
theorem name_ne_unsetName {c : UnionCase} (mem : c ∈ family.cases ids) : c.name ≠ unsetName := by
  intro same
  have allocated := List.mem_map_of_mem (f := UnionCase.name) mem
  rw [map_names_cases, same] at allocated
  exact FreshNames.notMem_taken_of_mem_allocateAll _ allocated List.mem_cons_self

/-- The cases of a family pair its variants with their ids. -/
theorem mem_cases {c : UnionCase} (mem : c ∈ family.cases ids) :
    (c.id, c.variant) ∈ ids.zip family.variants := by
  have paired := List.mem_map_of_mem (f := fun c : UnionCase => (c.id, c.variant)) mem
  rw [map_variants_cases, byId, (List.mergeSort_perm _ _).mem_iff] at paired
  exact paired

end UnionFamily

namespace Union

/-! ### Type tags -/

/-- The members of the enumeration of type tags with their values. -/
def tagEntries (cases : List UnionCase) : List (String × Nat) :=
  (UnionFamily.unsetName, 0) :: cases.map fun c => (c.name, c.id)

theorem entry_of_mem {cases : List UnionCase} {c : UnionCase} (mem : c ∈ cases) :
    (c.name, c.id) ∈ tagEntries cases :=
  List.mem_cons_of_mem _ (List.mem_map_of_mem (f := fun c => (c.name, c.id)) mem)

/-- The line for a member of the enumeration. -/
def tagLine (entry : String × Nat) : String := entry.1 ++ " = " ++ toString entry.2 ++ ","

theorem tagPieces_eq (cases : List UnionCase) :
    tagPieces cases = .doc "Type tags of every variant in this union family." ::
      Piece.block "public enum TypeIDs : byte"
        ((tagEntries cases).map fun entry => .line (tagLine entry)) := by
  rw [tagPieces, tagEntries, List.map_cons, List.map_map]
  rfl

/-- The members of the enumeration have different names. -/
theorem nodup_tagEntries (family : UnionFamily) (ids : List Nat) :
    ((tagEntries (family.cases ids)).map (·.1)).Nodup := by
  rw [tagEntries, List.map_cons, List.map_map, List.nodup_cons]
  refine ⟨?_, family.nodup_names_cases ids⟩
  intro mem
  obtain ⟨c, listed, same⟩ := List.mem_map.mp mem
  exact UnionFamily.name_ne_unsetName listed same

/-! ### Dispatchers -/

namespace MemberSignature

variable (host : Host) (m : MemberSignature) (self : String)

/-- The label of the case for a type tag. -/
def caseLabel (self name : String) : Piece := .line ("case " ++ self ++ ".TypeIDs." ++ name ++ ":")

theorem caseLabel_inj {self name name' : String} :
    caseLabel self name = caseLabel self name' ↔ name = name' := by
  rw [caseLabel, caseLabel, Piece.line.injEq, String.append_left_inj, String.append_right_inj]

/-- A statement is no label. -/
theorem line_ne_caseLabel (statement self name : String) :
    Piece.line (statement ++ ";") ≠ caseLabel self name := by
  intro same
  have last := congrArg (fun s => s.toList.getLast?) (Piece.line.inj same)
  simp only [String.toList_append, List.getLast?_append] at last
  exact absurd (Option.some.inj last) (by decide)

theorem count_block (header : String) (inside : List Piece) (s : String) :
    (Piece.block header inside).count (.line s) = inside.count (.line s) := by
  simp [Piece.block]

theorem count_indented (inside : List Piece) (s : String) :
    (Piece.indented inside).count (.line s) = inside.count (.line s) := by
  simp [Piece.indented]

/-- Statements behind a label hold no label. -/
theorem count_statements (statements : List String) (self name : String) :
    (Piece.indented (statements.map fun s => .line (s ++ ";"))).count (caseLabel self name)
      = 0 := by
  rw [caseLabel, count_indented]
  refine List.count_eq_zero.mpr fun mem => ?_
  obtain ⟨s, -, same⟩ := List.mem_map.mp mem
  exact line_ne_caseLabel s self name same

/-- The statements of the case for a variant. -/
def caseStatements (use : String) : List String :=
  if m.isVoid then [use, "return"] else ["return " ++ use]

theorem casePieces_eq (c : UnionCase) :
    m.casePieces host self c = caseLabel self c.name ::
      Piece.indented ((m.caseStatements (m.useOnVariant self (host.nameText c.variant.symbol)
        (c.variant.members.contains m.name))).map fun s => .line (s ++ ";")) := by
  rw [casePieces, caseStatements]
  split
  · rfl
  · rfl

theorem count_casePieces (c : UnionCase) (name : String) :
    (m.casePieces host self c).count (caseLabel self name) = [c.name].count name := by
  rw [casePieces_eq, List.count_cons, count_statements, List.count_singleton]
  simp [caseLabel_inj]

theorem count_defaultPieces (name : String) :
    m.defaultPieces.count (caseLabel self name) = 0 := by
  have pieces : m.defaultPieces = .line "default:" ::
      Piece.indented ([Runtime.unionUtility ++ ".ThrowUnknownTypeID((int)TypeID)",
        if m.isVoid then "return" else "return default!"].map fun s => .line (s ++ ";")) := by
    rw [defaultPieces]
    split
    · rfl
    · rfl
  have other : Piece.line "default:" ≠ caseLabel self name := by
    intro same
    have first := congrArg (fun s => s.toList.head?) (Piece.line.inj same)
    simp at first
  rw [pieces, List.count_cons_of_ne other, count_statements]

/-- A dispatcher has as many labels for a name as there are cases with it. -/
theorem count_label (cases : List UnionCase) (name : String) :
    (m.dispatcher host self cases).count (caseLabel self name)
      = (cases.map (·.name)).count name := by
  have inside : (m.dispatcher host self cases).count (caseLabel self name)
      = (cases.flatMap (m.casePieces host self) ++ m.defaultPieces).count
          (caseLabel self name) := by
    rw [dispatcher, caseLabel]
    cases m.kind with
    | property => simp only [count_block]
    | method => simp only [count_block]
  rw [inside, List.count_append, count_defaultPieces, Nat.add_zero]
  clear inside
  induction cases with
  | nil => rfl
  | cons c cases ih =>
    rw [List.flatMap_cons, List.count_append, count_casePieces, ih, ← List.count_append]
    rfl

/-- The case of a variant stands in the dispatcher as a whole. -/
theorem casePieces_infix {cases : List UnionCase} {c : UnionCase} (mem : c ∈ cases) :
    m.casePieces host self c <:+: m.dispatcher host self cases := by
  have block : ∀ (header : String) (inside : List Piece), inside <:+: Piece.block header inside :=
    fun header inside => ⟨[.openBlock header], [.closeBlock ""], rfl⟩
  have chosen : m.casePieces host self c <:+:
      cases.flatMap (m.casePieces host self) ++ m.defaultPieces := by
    obtain ⟨front, back, rfl⟩ := List.append_of_mem mem
    refine ⟨front.flatMap (m.casePieces host self),
      back.flatMap (m.casePieces host self) ++ m.defaultPieces, ?_⟩
    simp
  rw [dispatcher]
  cases m.kind with
  | property => exact ((chosen.trans (block _ _)).trans (block _ _)).trans (block _ _)
  | method => exact (chosen.trans (block _ _)).trans (block _ _)

end MemberSignature

/-! ### Files -/

/-- The file for a union header. -/
def headerFile (project : Project) (d : TypeDecl) (header : UnionHeader) (family : UnionFamily)
    (members : List MemberSignature) (cases : List UnionCase) : SourceFile where
  name := SourceFile.nameFor d.symbol .unionHeader
  text := SourceFile.textOf project.settings <|
    Piece.within (SourceFile.scopeOf project.host d)
      (headerPieces project.host d header family members cases)

/-- The file for a union variant. -/
def variantFile (project : Project) (d : TypeDecl) (family : UnionFamily) (c : UnionCase)
    (headers : List Symbol) : SourceFile where
  name := SourceFile.nameFor d.symbol .unionVariant
  text := SourceFile.textOf project.settings <|
    Piece.within (SourceFile.scopeOf project.host d)
      (variantPieces project.host d family c headers)

/-- The file for a union header shows the members of the enumeration. -/
theorem shows_tagLine {project : Project} {d : TypeDecl} {header : UnionHeader}
    {family : UnionFamily} {members : List MemberSignature} {cases : List UnionCase}
    {entry : String × Nat} (mem : entry ∈ tagEntries cases) :
    (headerFile project d header family members cases).Shows (tagLine entry) := by
  have listed : .line (tagLine entry) ∈ tagPieces cases := by
    rw [tagPieces_eq, Piece.block]
    exact List.mem_cons_of_mem _ (List.mem_cons_of_mem _
      (List.mem_append_left _ (List.mem_map_of_mem mem)))
  have inside : .line (tagLine entry)
      ∈ headerPieces project.host d header family members cases := by
    rw [headerPieces]
    simp only [List.mem_append]
    exact .inl (.inl (.inl listed))
  exact SourceFile.shows_of_mem inside (.inl rfl)

/-- The declaration of a variant's type tag. -/
def tagConstant (tags name : String) : String :=
  "public const " ++ tags ++ " TypeID = " ++ tags ++ "." ++ name ++ ";"

/-- The file for a union variant shows its type tag. -/
theorem shows_tagConstant (project : Project) (d : TypeDecl) (family : UnionFamily) (c : UnionCase)
    (headers : List Symbol) :
    (variantFile project d family c headers).Shows
      (tagConstant (project.host.nameText family.root ++ ".TypeIDs") c.name) := by
  have inside : .line (tagConstant (project.host.nameText family.root ++ ".TypeIDs") c.name)
      ∈ variantPieces project.host d family c headers := by
    rw [variantPieces]
    exact List.mem_cons_of_mem _ List.mem_cons_self
  exact SourceFile.shows_of_mem inside (.inl rfl)

/-- The members of the dispatch interface of a header. -/
def dispatched (host : Host) (header : UnionHeader) : List MemberSignature :=
  (header.dispatch.map (signatures host)).getD []

end Union

namespace UnionFamily

/-- The cases of a family; none if it has no ids. -/
def assignedCases (family : UnionFamily) : List UnionCase :=
  match family.ids with
  | .ok ids => family.cases ids
  | .error _ => []

end UnionFamily

namespace Project

variable {project : Project} {s : Symbol}

/-- The output for a union header. -/
theorem unionHeaderOutput_eq {d : TypeDecl} {header : UnionHeader}
    (declared : project.host.declaration? s = some d)
    (listed : project.index.unionHeaders.get? s = some header) :
    project.unionHeaderOutput .live s = .ok
      (match ((project.index.families.get? s).getD (.empty s)).ids with
      | .ok ids =>
        let family := (project.index.families.get? s).getD (.empty s)
        { files := [Union.headerFile project d header family
            (Union.dispatched project.host header) (family.cases ids)] }
      | .error e => { diagnostics := [UnionFamily.idReport s d.file e] }) := by
  obtain ⟨-, rfl⟩ := Host.symbol_of_declaration? declared
  simp only [unionHeaderOutput, declared, listed]
  show (Except.ok () >>= _) = _
  cases ((project.index.families.get? d.symbol).getD (.empty d.symbol)).ids with
  | error e => rfl
  | ok ids =>
    cases dispatch : header.dispatch with
    | none => simp [dispatch, Union.dispatched]; rfl
    | some t => simp [dispatch, Union.dispatched]; rfl

theorem unionHeaderOutput_eq_empty
    (unlisted : project.host.declaration? s = none ∨ project.index.unionHeaders.get? s = none) :
    project.unionHeaderOutput .live s = .ok {} := by
  rw [unionHeaderOutput]
  show (Except.ok () >>= _) = _
  rcases unlisted with absent | absent
  · rw [absent]
    rfl
  · rw [absent]
    cases project.host.declaration? s <;> rfl

/-- The output for a union variant that is in a family. -/
theorem unionVariantOutput_eq {d : TypeDecl} (declared : project.host.declaration? s = some d) :
    project.unionVariantOutput .live s = .ok
      (if project.index.orphanVariants.contains s then { diagnostics := [Union.orphanReport d s] }
      else
        match project.index.variant? s with
        | none => {}
        | some (family, v) =>
          match family.assignedCases.find? (·.variant.symbol == s) with
          | none => {}
          | some c =>
            { files := [Union.variantFile project d family c
                (project.index.headerChain v.header)] }) := by
  obtain ⟨-, rfl⟩ := Host.symbol_of_declaration? declared
  simp only [unionVariantOutput, declared]
  show (Except.ok () >>= _) = _
  show (if project.index.orphanVariants.contains d.symbol then _ else _) = _
  split
  · rfl
  · cases project.index.variant? d.symbol with
    | none => rfl
    | some found =>
      obtain ⟨family, v⟩ := found
      change (match family.assignedCases.find? (·.variant.symbol == d.symbol) with
        | none => _
        | some c => _) = _
      dsimp only
      cases family.assignedCases.find? (·.variant.symbol == d.symbol) with
      | none => rfl
      | some c => rfl

end Project

end Marksmith

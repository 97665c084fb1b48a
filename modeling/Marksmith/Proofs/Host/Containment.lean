import Marksmith.Analysis.Facts
import Marksmith.Proofs.Host.Declarations

/-!
Declarations around others.

* `Encloses`: a declaration that is seen around another one by everything that looks at nesting;
  `Unenclosed`: nothing is seen around a declaration;
* `encloses_iff`: a containing type is always declared, and it is seen exactly if few enough type
  parameters are declared with it;
* `dotted_enclosing`: a name is spelled by the types that a walk outwards meets, whatever its limit;
  `dotted_scope`: the namespace, the types around a declaration and its own simple name spell its
  name, where nested types are named after the types around them.
-/

namespace Marksmith.Host

variable {host : Host} {d outer : TypeDecl}

/-! ### The declaration around another one -/

theorem containing?_eq_some (found : host.containing? d = some outer) :
    d.containing = some outer.name ∧ outer ∈ host.declarations ∧
      outer.typeParams.length ≤ maxArity := by
  obtain ⟨name, written, rest⟩ := Option.bind_eq_some_iff.mp found
  obtain ⟨arity, tried, there⟩ := List.exists_of_findSome?_eq_some rest
  obtain ⟨declared, symbol⟩ := symbol_of_declaration? (s := ⟨name, arity⟩) there
  have symbol : outer.name = name ∧ outer.typeParams.length = arity := by
    simpa [TypeDecl.symbol] using symbol
  have least := List.mem_range.mp tried
  rw [← symbol.1] at written
  refine ⟨written, declared, ?_⟩
  omega

/-- The declaration around another one is found if one of its name has few enough parameters. -/
theorem containing?_isSome_iff {name : String} (written : d.containing = some name) :
    (host.containing? d).isSome = true ↔
      ∃ e ∈ host.declarations, e.name = name ∧ e.typeParams.length ≤ maxArity := by
  constructor
  · intro found
    obtain ⟨outer, found⟩ := Option.isSome_iff_exists.mp found
    obtain ⟨same, declared, few⟩ := containing?_eq_some found
    rw [written, Option.some.injEq] at same
    exact ⟨outer, declared, same.symm, few⟩
  · rintro ⟨e, declared, rfl, few⟩
    rw [containing?, written, Option.bind_eq_bind, Option.bind_some, List.findSome?_isSome_iff]
    refine ⟨e.typeParams.length, List.mem_range.mpr (by omega), ?_⟩
    rw [lookup?, List.find?_isSome]
    exact ⟨e, declared, by simp⟩

theorem enclosing_of_some (found : host.containing? d = some outer) (limit : Nat) :
    host.enclosing (limit + 1) d = d :: host.enclosing limit outer := by
  rw [enclosing, found]

theorem enclosing_of_none (alone : host.containing? d = none) (limit : Nat) :
    host.enclosing (limit + 1) d = [d] := by
  rw [enclosing, alone]

/-! ### What sees it -/

/-- A declaration that is seen around another one wherever nesting is looked at: as the innermost of
the types around it, on the way to its namespace, and by its type parameters. -/
structure Encloses (host : Host) (outer d : TypeDecl) : Prop where
  declared : outer ∈ host.declarations
  around : host.containing? d = some outer
  nested : (host.nesting d).getLast? = some ⟨outer.simpleName, outer.kind, outer.typeParams⟩
  placed : host.namespace? d.symbol =
    (host.enclosing maxNesting outer).getLast?.bind fun e => qualifier? e.name
  visible : outer.typeParams ⊆ host.visibleTypeParams d.symbol

/-- Nothing is seen around a declaration: it is taken for a type of the namespace that its own name
spells. -/
structure Unenclosed (host : Host) (d : TypeDecl) : Prop where
  around : host.containing? d = none
  nested : host.nesting d = []
  placed : host.namespace? d.symbol = qualifier? d.name
  visible : host.visibleTypeParams d.symbol = d.typeParams

section Accepted

variable {limit : Nat} {model : Model} (accepted : ofModel limit model = .ok host)
  (there : d ∈ host.declarations)

include accepted there

theorem namespace?_symbol : host.namespace? d.symbol =
    (host.enclosing (maxNesting + 1) d).getLast?.bind fun e => qualifier? e.name := by
  rw [namespace?, declaration?_symbol accepted there]
  rfl

theorem visibleTypeParams_symbol :
    host.visibleTypeParams d.symbol = (host.enclosing maxNesting d).flatMap (·.typeParams) := by
  rw [visibleTypeParams, declaration?_symbol accepted there]

theorem encloses_of_containing? (found : host.containing? d = some outer) :
    Encloses host outer d where
  declared := (containing?_eq_some found).2.1
  around := found
  nested := by
    rw [nesting, outerDecls, enclosing_of_some found, List.getLast?_reverse]
    simp [enclosing, maxNesting]
  placed := by
    rw [namespace?_symbol accepted there, enclosing_of_some found, List.getLast?_cons]
    cases last : (host.enclosing maxNesting outer).getLast? with
    | none => simp [enclosing, maxNesting] at last
    | some e => simp
  visible := by
    rw [visibleTypeParams_symbol accepted there, maxNesting, enclosing_of_some found, enclosing]
    simp

theorem unenclosed_of_containing? (alone : host.containing? d = none) : Unenclosed host d where
  around := alone
  nested := by
    rw [nesting, outerDecls, enclosing_of_none alone]
    rfl
  placed := by
    rw [namespace?_symbol accepted there, enclosing_of_none alone]
    rfl
  visible := by
    rw [visibleTypeParams_symbol accepted there, maxNesting, enclosing_of_none alone]
    simp

/-- A containing type is declared. It is seen from the declarations in it exactly if some type of
its name has at most as many type parameters as are tried; otherwise nothing is seen around them. -/
theorem encloses_iff {name : String} (written : d.containing = some name) :
    (∃ e ∈ host.declarations, e.name = name) ∧
      ((∃ outer, outer.name = name ∧ Encloses host outer d) ↔
        ∃ e ∈ host.declarations, e.name = name ∧ e.typeParams.length ≤ maxArity) ∧
      ((∀ e ∈ host.declarations, e.name = name → maxArity < e.typeParams.length) →
        Unenclosed host d) := by
  have known : ∃ e ∈ host.declarations, e.name = name := by
    obtain ⟨-, contained, rfl⟩ := ofModel_eq_ok_iff.mp accepted
    have any := firstUnknownContaining?_eq_none_iff.mp contained d there name written
    obtain ⟨e, declared, same⟩ := List.any_eq_true.mp any
    exact ⟨e, declared, beq_iff_eq.mp same⟩
  refine ⟨known, ?_, ?_⟩
  · rw [← containing?_isSome_iff written]
    constructor
    · rintro ⟨outer, -, encloses⟩
      rw [encloses.around]
      rfl
    · intro found
      obtain ⟨outer, found⟩ := Option.isSome_iff_exists.mp found
      have same := (containing?_eq_some found).1
      rw [written, Option.some.injEq] at same
      exact ⟨outer, same.symm, encloses_of_containing? accepted there found⟩
  · intro many
    apply unenclosed_of_containing? accepted there
    rw [← Option.not_isSome_iff_eq_none, containing?_isSome_iff written]
    rintro ⟨e, declared, same, few⟩
    have := many e declared same
    omega

end Accepted

/-- The rows of a table with eight type parameters, and the cells of a grid with nine. -/
def tables : Model where
  types :=
    [ { name := "Game.Table", kind := .class,
        typeParams := ["A", "B", "C", "D", "E", "F", "G", "H"] },
      { name := "Game.Table.Row", kind := .class, containing := some "Game.Table" },
      { name := "Game.Grid", kind := .class,
        typeParams := ["A", "B", "C", "D", "E", "F", "G", "H", "I"] },
      { name := "Game.Grid.Cell", kind := .class, containing := some "Game.Grid" } ]

theorem tables_accepted : ofModel usualStepLimit tables = .ok (.withPrelude tables) :=
  ofModel_withPrelude rfl rfl

/-- The table is seen around its rows. -/
theorem encloses_iff_row : ∃ row ∈ (Host.withPrelude tables).declarations,
    ofModel usualStepLimit tables = .ok (.withPrelude tables) ∧
      row.containing = some "Game.Table" ∧
      ∃ outer, outer.name = "Game.Table" ∧ Encloses (.withPrelude tables) outer row := by
  have there : tables.types[1] ∈ (Host.withPrelude tables).declarations :=
    List.mem_append_left _ (List.getElem_mem _)
  have enough : ∃ e ∈ (Host.withPrelude tables).declarations,
      e.name = "Game.Table" ∧ e.typeParams.length ≤ maxArity :=
    ⟨tables.types[0], List.mem_append_left _ (List.getElem_mem _), rfl, by decide⟩
  exact ⟨_, there, tables_accepted, rfl, (encloses_iff tables_accepted there rfl).2.1.mpr enough⟩

/-- The grid is not seen around its cells, though it is declared. -/
theorem not_encloses_cell : ¬∀ (limit : Nat) (model : Model) (host : Host),
    ofModel limit model = .ok host → ∀ d ∈ host.declarations, ∀ name, d.containing = some name →
      ∃ outer, outer.name = name ∧ Encloses host outer d := by
  intro all
  have there : tables.types[3] ∈ (Host.withPrelude tables).declarations :=
    List.mem_append_left _ (List.getElem_mem _)
  obtain ⟨outer, -, encloses⟩ := all _ _ _ tables_accepted _ there "Game.Grid" rfl
  have none : ((Host.withPrelude tables).containing? tables.types[3]).isSome = false := by
    decide +kernel
  rw [encloses.around] at none
  cases none

/-! ### The name of a declaration -/

/-- Segments of a name, put together with points. -/
def dotted (segments : List String) : String := ".".intercalate segments

theorem dotted_single (s : String) : dotted [s] = s := String.intercalate_singleton

theorem dotted_append_single {segments : List String} (some : segments ≠ []) (s : String) :
    dotted (segments ++ [s]) = dotted segments ++ "." ++ s := by
  rw [dotted, String.intercalate_append_of_ne_nil some (List.cons_ne_nil s []),
    String.intercalate_singleton]
  rfl

/-- Segments at the front may be put together first. -/
theorem dotted_cons_dotted {front : List String} (some : front ≠ []) (segments : List String) :
    dotted (dotted front :: segments) = dotted (front ++ segments) := by
  cases segments with
  | nil => rw [dotted_single, List.append_nil]
  | cons s segments =>
    simp only [dotted, String.intercalate_cons_cons,
      String.intercalate_append_of_ne_nil some (List.cons_ne_nil s segments)]

/-- A name is its qualifier, if it has one, and its last segment. -/
theorem dotted_qualifier (name : String) :
    dotted ((qualifier? name).toList ++ [Syntax.TypeRef.lastSegment name]) = name := by
  have split := List.takeWhile_append_dropWhile (p := (· != '.')) (l := name.toList.reverse)
  have stop := List.head?_dropWhile_not (· != '.') name.toList.reverse
  rw [qualifier?, Syntax.TypeRef.lastSegment]
  generalize name.toList.reverse.takeWhile (· != '.') = own,
    name.toList.reverse.dropWhile (· != '.') = around at split stop
  have whole := congrArg List.reverse split
  rw [List.reverse_reverse] at whole
  cases around with
  | nil =>
    rw [List.append_nil] at whole
    simp [dotted_single, whole]
  | cons c before =>
    have dot : c = '.' := by simpa using stop
    subst dot
    show dotted ([String.ofList before.reverse] ++ [_]) = name
    rw [dotted_append_single (List.cons_ne_nil _ _), dotted_single, ← String.toList_inj, ← whole]
    simp

/-- Whether every type with a declaration around it is named after that. -/
def NamedByPlace (host : Host) : Prop :=
  ∀ d ∈ host.declarations, ∀ outer, host.containing? d = some outer →
    d.name = outer.name ++ "." ++ d.simpleName

/-- However far a walk outwards goes, the name of the last declaration that it meets and the simple
names of those before it spell the name of the first one. -/
theorem dotted_enclosing (named : NamedByPlace host) (limit : Nat) (there : d ∈ host.declarations) :
    ∃ inner outermost, host.enclosing (limit + 1) d = inner ++ [outermost] ∧
      dotted (outermost.name :: (inner.map TypeDecl.simpleName).reverse) = d.name := by
  induction limit generalizing d with
  | zero =>
    refine ⟨[], d, ?_, dotted_single d.name⟩
    rw [enclosing]
    cases host.containing? d <;> rfl
  | succ limit ih =>
    cases found : host.containing? d with
    | none => exact ⟨[], d, enclosing_of_none found _, dotted_single d.name⟩
    | some outer =>
      obtain ⟨inner, outermost, walk, joined⟩ := ih (containing?_eq_some found).2.1
      refine ⟨d :: inner, outermost, ?_, ?_⟩
      · rw [enclosing_of_some found, walk, List.cons_append]
      · rw [List.map_cons, List.reverse_cons, ← List.cons_append,
          dotted_append_single (List.cons_ne_nil _ _), joined, ← named d there outer found]

/-- The types around a declaration and the declaration itself, from the outermost one on. -/
theorem map_name_nesting (host : Host) (d : TypeDecl) :
    (host.nesting d).map ContainingType.name ++ [d.simpleName] =
      ((host.enclosing (maxNesting + 1) d).map TypeDecl.simpleName).reverse := by
  simp [nesting, outerDecls, enclosing, Function.comp_def]

/-- The namespace of a declaration, the types around it from the outermost one on, and its simple
name spell its name, however deep it is nested: both walks outwards end at the same type. -/
theorem dotted_scope {limit : Nat} {model : Model} (accepted : ofModel limit model = .ok host)
    (named : NamedByPlace host) (there : d ∈ host.declarations) :
    dotted ((host.namespace? d.symbol).toList ++ (host.nesting d).map ContainingType.name ++
      [d.simpleName]) = d.name := by
  obtain ⟨inner, outermost, walk, joined⟩ := dotted_enclosing named maxNesting there
  have placed : host.namespace? d.symbol = qualifier? outermost.name := by
    rw [namespace?_symbol accepted there, walk]
    simp
  calc
    _ = dotted ((qualifier? outermost.name).toList ++ [outermost.simpleName] ++
          (inner.map TypeDecl.simpleName).reverse) := by
      rw [placed, List.append_assoc, map_name_nesting, walk]
      simp
    _ = dotted (outermost.name :: (inner.map TypeDecl.simpleName).reverse) := by
      rw [← dotted_cons_dotted (by simp), TypeDecl.simpleName, dotted_qualifier]
    _ = d.name := joined

/-- Names of classes that are nested in one another. -/
def shellNames : List String :=
  ["Game.A", "Game.A.B", "Game.A.B.C", "Game.A.B.C.D", "Game.A.B.C.D.E", "Game.A.B.C.D.E.F",
    "Game.A.B.C.D.E.F.G", "Game.A.B.C.D.E.F.G.H", "Game.A.B.C.D.E.F.G.H.I",
    "Game.A.B.C.D.E.F.G.H.I.J", "Game.A.B.C.D.E.F.G.H.I.J.K", "Game.A.B.C.D.E.F.G.H.I.J.K.L",
    "Game.A.B.C.D.E.F.G.H.I.J.K.L.M", "Game.A.B.C.D.E.F.G.H.I.J.K.L.M.N",
    "Game.A.B.C.D.E.F.G.H.I.J.K.L.M.N.O", "Game.A.B.C.D.E.F.G.H.I.J.K.L.M.N.O.P",
    "Game.A.B.C.D.E.F.G.H.I.J.K.L.M.N.O.P.Q", "Game.A.B.C.D.E.F.G.H.I.J.K.L.M.N.O.P.Q.R"]

/-- Eighteen classes, each one nested in the one before it. -/
def shells : Model where
  types := List.zipWith (fun name containing => { name, kind := .class, containing })
    shellNames (none :: shellNames.map some)

/-- Around the innermost shell stand more types than walks outwards go to. -/
theorem dotted_scope_shells : ∃ shell ∈ (Host.withPrelude shells).declarations,
    ofModel usualStepLimit shells = .ok (.withPrelude shells) ∧
      NamedByPlace (.withPrelude shells) ∧
      (Host.withPrelude shells).namespace? shell.symbol = some "Game.A" ∧
      dotted (((Host.withPrelude shells).namespace? shell.symbol).toList ++
        ((Host.withPrelude shells).nesting shell).map ContainingType.name ++ [shell.simpleName])
          = shell.name := by
  have accepted : ofModel usualStepLimit shells = .ok (.withPrelude shells) :=
    ofModel_withPrelude (by decide +kernel) (by decide +kernel)
  have named : NamedByPlace (.withPrelude shells) := by
    have all : ((Host.withPrelude shells).declarations.all fun d =>
        d.containing.all fun name => d.name == name ++ "." ++ d.simpleName) = true := by
      decide +kernel
    intro d there outer found
    have here := List.all_eq_true.mp all d there
    rw [(containing?_eq_some found).1, Option.all_some] at here
    exact beq_iff_eq.mp here
  have there : shells.types[17] ∈ (Host.withPrelude shells).declarations :=
    List.mem_append_left _ (List.getElem_mem _)
  exact ⟨_, there, accepted, named, by decide +kernel, dotted_scope accepted named there⟩

end Marksmith.Host

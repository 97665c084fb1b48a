import Marksmith.Proofs.Host.Declarations
import Marksmith.Proofs.Host.TypeParts
import Marksmith.Proofs.Host.Walks

/-!
Generic declarations that mention themselves. A walk over types ends if declarations do not let type
arguments grow without end. Where arguments go can be read off the declarations:

* `Flow`: a type parameter is passed on to a position of a definition, as it is or inside of a larger
  argument;
* `Expansive`: some flow that grows comes back to where it started;
* `Grading`: a level for each position that flows keep and that growing flows raise; there is one
  exactly if no flow is expansive (`nonempty_grading_iff`);
* `Graded.mention`: the arguments of all types that are met stay below heights given by the levels,
  so there are finitely many types to meet (`finite_of_graded`).

The condition is the one that common runtimes put on generic types. It is not necessary, as arguments
are only followed where they become types of their own.
-/

namespace Marksmith.Host

open Syntax (TypeRef)
open Syntax.TypeRef

/-! ### Where type arguments go -/

/-- A type parameter of a definition, by its place. -/
abbrev Position := Symbol × Nat

/-- A type parameter that a declaration passes on. -/
structure Flow where
  source : Position
  target : Position
  /-- Whether it is passed on inside of a larger argument. -/
  grows : Bool
deriving DecidableEq, Repr

/-- The type parameters in a type, by their places. -/
def paramsIn (params : List String) (t : TypeRef) : List Nat :=
  t.parts.filterMap fun s => if s.args.isEmpty then params.findIdx? (· == s.name) else none

/-- What a declaration passes on in a type that it mentions. -/
def flowsIn (d : TypeDecl) (m : TypeRef) : List Flow :=
  m.parts.flatMap fun r => r.args.zipIdx.flatMap fun arg =>
    (paramsIn d.typeParams arg.1).map fun j =>
      ⟨(d.symbol, j), (.ofType r, arg.2), !arg.1.args.isEmpty⟩

variable (host : Host)

/-- The types that a declaration derives from, implements or stores, as they are meant in it. -/
def mentions (d : TypeDecl) : List TypeRef :=
  (d.base.toList ++ d.interfaces ++ d.fields.map (·.type)).filterMap (host.resolve? d.symbol)

/-- All that declarations pass on. -/
def flows : List Flow := host.declarations.flatMap fun d => (host.mentions d).flatMap (flowsIn d)

/-- A position whose argument is passed on to another one. -/
def Feeds (p q : Position) : Prop := ∃ f ∈ host.flows, f.source = p ∧ f.target = q

/-- An argument grows on a way back to where it started. -/
def Expansive : Prop :=
  ∃ f ∈ host.flows, f.grows ∧ Relation.ReflTransGen (Feeds host) f.target f.source

/-- Levels of positions that no flow lowers and that growing flows raise. -/
structure Grading where
  level : Position → Nat
  bound : Nat
  level_le : ∀ p, level p ≤ bound
  feeds : ∀ f ∈ host.flows, level f.source ≤ level f.target
  grows : ∀ f ∈ host.flows, f.grows → level f.source < level f.target

variable {host}

theorem Grading.le_of_feeds (g : Grading host) {p q : Position}
    (way : Relation.ReflTransGen (Feeds host) p q) : g.level p ≤ g.level q := by
  induction way with
  | refl => exact Nat.le_refl _
  | tail _ step ih =>
    obtain ⟨f, mem, rfl, rfl⟩ := step
    exact Nat.le_trans ih (g.feeds f mem)

open Classical in
/-- The level of a position: the number of growing flows from which it can be reached. -/
theorem nonempty_grading_iff : Nonempty (Grading host) ↔ ¬Expansive host := by
  constructor
  · rintro ⟨g⟩ ⟨f, mem, grows, back⟩
    exact absurd (g.le_of_feeds back) (Nat.not_le.mpr (g.grows f mem grows))
  · intro flat
    let growing (p : Position) : Finset Flow := host.flows.toFinset.filter fun f =>
      f.grows ∧ Relation.ReflTransGen (Feeds host) f.target p
    have mem_growing : ∀ {f p}, f ∈ growing p ↔ f ∈ host.flows ∧ f.grows ∧
        Relation.ReflTransGen (Feeds host) f.target p := by
      intro f p
      rw [Finset.mem_filter, List.mem_toFinset]
    have along : ∀ f ∈ host.flows, growing f.source ⊆ growing f.target := by
      intro f mem e before
      obtain ⟨flow, grows, way⟩ := mem_growing.mp before
      exact mem_growing.mpr ⟨flow, grows, way.tail ⟨f, mem, rfl, rfl⟩⟩
    refine ⟨⟨fun p => (growing p).card, host.flows.toFinset.card, ?_, ?_, ?_⟩⟩
    · exact fun p => Finset.card_le_card (Finset.filter_subset _ _)
    · exact fun f mem => Finset.card_le_card (along f mem)
    · intro f mem grows
      refine Finset.card_lt_card ⟨along f mem, fun same => ?_⟩
      have here := same (mem_growing.mpr ⟨mem, grows, .refl⟩)
      exact flat ⟨f, mem, grows, (mem_growing.mp here).2.2⟩

theorem mem_flows {d : TypeDecl} (decl : d ∈ host.declarations) {m : TypeRef}
    (mention : m ∈ host.mentions d) {r a s : TypeRef} (part : r ∈ m.parts) {i j : Nat}
    (arg : r.args[i]? = some a) (inside : s ∈ a.parts) (plain : s.args = [])
    (param : d.typeParams.findIdx? (· == s.name) = some j) :
    ⟨(d.symbol, j), (.ofType r, i), !a.args.isEmpty⟩ ∈ host.flows := by
  refine List.mem_flatMap.mpr ⟨d, decl, List.mem_flatMap.mpr ⟨m, mention, ?_⟩⟩
  refine List.mem_flatMap.mpr ⟨r, part, List.mem_flatMap.mpr ⟨(a, i), ?_, ?_⟩⟩
  · exact List.mk_mem_zipIdx_iff_getElem?.mpr arg
  · refine List.mem_map.mpr ⟨j, List.mem_filterMap.mpr ⟨s, inside, ?_⟩, rfl⟩
    rw [plain, List.isEmpty_nil, if_pos rfl, param]

/-! ### Types that are met are mentioned -/

theorem exists_mention_of_above {t u : TypeRef} (above : Above host t u) :
    ∃ d, host.declaration? (.ofType t) = some d ∧
      ∃ m ∈ host.mentions d, u = m.substitute d.typeParams t.args := by
  rcases above with base | interface
  · obtain ⟨d, decl, rest⟩ := Option.bind_eq_some_iff.mp base
    obtain ⟨written, listed, rest⟩ := Option.bind_eq_some_iff.mp rest
    obtain ⟨m, meant, value⟩ := Option.bind_eq_some_iff.mp rest
    refine ⟨d, decl, m, List.mem_filterMap.mpr ⟨written, ?_, meant⟩, (Option.some.inj value).symm⟩
    exact List.mem_append_left _ (List.mem_append_left _ (Option.mem_toList.mpr listed))
  · rw [declaredInterfaces] at interface
    split at interface
    · cases interface
    · next d decl =>
      obtain ⟨m, meant, rfl⟩ := List.mem_map.mp interface
      obtain ⟨written, listed, meaning⟩ := List.mem_filterMap.mp meant
      refine ⟨d, decl, m, List.mem_filterMap.mpr ⟨written, ?_, meaning⟩, rfl⟩
      exact List.mem_append_left _ (List.mem_append_right _ listed)

theorem exists_mention_of_instanceFields {t u : TypeRef} {name : String}
    (stored : (name, some u) ∈ host.instanceFields t) :
    ∃ d, host.declaration? (.ofType t) = some d ∧
      ∃ m ∈ host.mentions d, u = m.substitute d.typeParams t.args := by
  rw [instanceFields] at stored
  split at stored
  · cases stored
  · next d decl =>
    obtain ⟨f, listed, same⟩ := List.mem_map.mp stored
    obtain ⟨m, meant, rfl⟩ := Option.map_eq_some_iff.mp (Prod.mk.inj same).2
    refine ⟨d, decl, m, List.mem_filterMap.mpr ⟨f.type, List.mem_append_right _ ?_, meant⟩, rfl⟩
    exact List.mem_map_of_mem (List.mem_of_mem_filter listed)

theorem exists_mention_of_holds {t u : TypeRef} (holds : Holds host t u) :
    ∃ d, host.declaration? (.ofType t) = some d ∧
      ∃ m ∈ host.mentions d, u = m.substitute d.typeParams t.args := by
  obtain ⟨_, ⟨name, _⟩, mem, rfl⟩ := holds
  exact exists_mention_of_instanceFields mem

/-! ### Heights of arguments -/

/-- Bounds for what declarations mention: the definitions in it, and its height. -/
structure Bounds (host : Host) where
  symbols : List Symbol
  height : Nat
  symbols_mem : ∀ d ∈ host.declarations, ∀ m ∈ host.mentions d, ∀ r ∈ m.parts,
    Symbol.ofType r ∈ symbols
  height_le : ∀ d ∈ host.declarations, ∀ m ∈ host.mentions d, m.height ≤ height

/-- Every type inside of a type is made of the given definitions, and its arguments stay below the
heights of their positions. -/
def Graded (g : Grading host) (bounds : Bounds host) (start : Nat) (t : TypeRef) : Prop :=
  ∀ s ∈ t.parts, Symbol.ofType s ∈ bounds.symbols ∧ ∀ i a, s.args[i]? = some a →
    a.height ≤ start + (g.level (.ofType s, i) + 1) * bounds.height

variable {g : Grading host} {bounds : Bounds host} {start : Nat}

/-- The arguments that are passed on in a mentioned type stay below the heights of the positions that
they are passed on to. -/
theorem Graded.passed {t : TypeRef} (graded : Graded g bounds start t) {d : TypeDecl}
    (decl : host.declaration? (.ofType t) = some d) {m r b : TypeRef}
    (mention : m ∈ host.mentions d) (part : r ∈ m.parts) {i : Nat} (arg : r.args[i]? = some b) :
    (b.substitute d.typeParams t.args).height
      ≤ start + (g.level (.ofType r, i) + 1) * bounds.height := by
  obtain ⟨mem, symbol⟩ := symbol_of_declaration? decl
  have level : ∀ s ∈ b.parts, s.args = [] → ∀ a, argumentFor? d.typeParams t.args s.name = some a →
      ∃ j, a.height ≤ start + (g.level (d.symbol, j) + 1) * bounds.height ∧
        (⟨(d.symbol, j), (.ofType r, i), !b.args.isEmpty⟩ : Flow) ∈ host.flows := by
    intro s inside plain a found
    obtain ⟨j, param, place⟩ := argumentFor?_eq_some found
    refine ⟨j, ?_, mem_flows mem mention part arg inside plain param⟩
    rw [symbol]
    exact (graded t (self_mem_parts t)).2 j a place
  by_cases bare : b.args = []
  · rcases substitute_cases d.typeParams t.args b with ⟨_, a, nullable, rank, found, value⟩ | ⟨_, args⟩
    · obtain ⟨j, low, flow⟩ := level b (self_mem_parts b) bare a found
      have kept : g.level (d.symbol, j) ≤ g.level (.ofType r, i) := g.feeds _ flow
      rw [value, height_applied]
      refine Nat.le_trans low (Nat.add_le_add_left (Nat.mul_le_mul_right _ ?_) _)
      omega
    · refine height_le_iff.mpr ?_
      rw [args, bare]
      exact fun a none => absurd none List.not_mem_nil
  · have inside : b.height ≤ bounds.height := by
      have below := height_lt_of_mem_args (List.mem_of_getElem? arg)
      have within := height_le_of_mem_parts part
      have bound := bounds.height_le d mem m mention
      omega
    have grown : (b.substitute d.typeParams t.args).height
        ≤ b.height + (start + g.level (.ofType r, i) * bounds.height) := by
      apply height_substitute_le
      intro s below plain a found
      obtain ⟨j, low, flow⟩ := level s below plain a found
      have nested : (!b.args.isEmpty) = true := by
        rw [Bool.not_eq_true', List.isEmpty_eq_false_iff]
        exact bare
      have raised : g.level (d.symbol, j) < g.level (.ofType r, i) := g.grows _ flow nested
      exact Nat.le_trans low (Nat.add_le_add_left (Nat.mul_le_mul_right _ raised) _)
    rw [Nat.add_mul, Nat.one_mul]
    omega

/-- What a declaration mentions is graded if the type that it stands for is. -/
theorem Graded.mention {t : TypeRef} (graded : Graded g bounds start t) {d : TypeDecl}
    (decl : host.declaration? (.ofType t) = some d) {m : TypeRef} (mention : m ∈ host.mentions d) :
    Graded g bounds start (m.substitute d.typeParams t.args) := by
  intro s mem
  rcases part_substitute mem with ⟨a, arg, r, part, name, args⟩ | ⟨r, part, name, args⟩
  · have old : r ∈ t.parts := mem_parts.mpr (.inr ⟨a, arg, part⟩)
    have same : Symbol.ofType s = Symbol.ofType r := by rw [Symbol.ofType, Symbol.ofType, name, args]
    rw [same, ← args]
    exact graded r old
  · have same : Symbol.ofType s = Symbol.ofType r := by
      rw [Symbol.ofType, Symbol.ofType, name, args, List.length_map]
    rw [same]
    refine ⟨bounds.symbols_mem d (symbol_of_declaration? decl).1 m mention r part, ?_⟩
    intro i a place
    rw [args, List.getElem?_map] at place
    obtain ⟨b, arg, rfl⟩ := Option.map_eq_some_iff.mp place
    exact graded.passed decl mention part arg

/-- Types that are met from a graded one by way of mentions are finitely many. -/
theorem finite_of_graded {step : TypeRef → TypeRef → Prop}
    (mentioned : ∀ {t u}, step t u → ∃ d, host.declaration? (.ofType t) = some d ∧
      ∃ m ∈ host.mentions d, u = m.substitute d.typeParams t.args)
    {t : TypeRef} (graded : Graded g bounds start t) :
    {u | Relation.ReflTransGen step t u}.Finite := by
  have all : ∀ u, Relation.ReflTransGen step t u → Graded g bounds start u := by
    intro u way
    induction way with
    | refl => exact graded
    | tail _ last ih =>
      obtain ⟨d, decl, m, mention, rfl⟩ := mentioned last
      exact ih.mention decl mention
  let limit := start + (g.bound + 1) * bounds.height
  refine (finite_height_lt bounds.symbols (limit + 2)).subset ?_
  intro u way
  have here := all u way
  refine ⟨Nat.lt_succ_of_le (height_le_iff.mpr ?_), fun s part => (here s part).1⟩
  intro a arg
  obtain ⟨i, place⟩ := List.mem_iff_getElem?.mp arg
  have low := (here u (self_mem_parts u)).2 i a place
  have level := Nat.mul_le_mul_right bounds.height (Nat.succ_le_succ (g.level_le (.ofType u, i)))
  exact Nat.lt_succ_of_le (Nat.le_trans low (Nat.add_le_add_left level _))

theorem exists_bounds (host : Host) (t : TypeRef) :
    ∃ bounds : Bounds host, ∀ s ∈ t.parts, Symbol.ofType s ∈ bounds.symbols := by
  let mentioned := host.declarations.flatMap host.mentions
  obtain ⟨height, highest⟩ := (mentioned.map TypeRef.height).toFinset.exists_le
  refine ⟨⟨(t :: mentioned).flatMap fun m => m.parts.map .ofType, height, ?_, ?_⟩, ?_⟩
  · intro d decl m mention r part
    have mem : m ∈ t :: mentioned :=
      List.mem_cons_of_mem _ (List.mem_flatMap.mpr ⟨d, decl, mention⟩)
    exact List.mem_flatMap.mpr ⟨m, mem, List.mem_map_of_mem part⟩
  · intro d decl m mention
    refine highest _ (List.mem_toFinset.mpr (List.mem_map_of_mem ?_))
    exact List.mem_flatMap.mpr ⟨d, decl, mention⟩
  · intro s part
    exact List.mem_flatMap.mpr ⟨t, List.mem_cons_self, List.mem_map_of_mem part⟩

/-- Every type is graded, from its own height on. -/
theorem graded_self (g : Grading host) {bounds : Bounds host} {t : TypeRef}
    (known : ∀ s ∈ t.parts, Symbol.ofType s ∈ bounds.symbols) :
    Graded g bounds t.height t := by
  intro s part
  refine ⟨known s part, fun i a place => ?_⟩
  have below := height_lt_of_mem_args (List.mem_of_getElem? place)
  have within := height_le_of_mem_parts part
  omega

/-! ### Walks that end, and walks that do not -/

/-- The walks from a type end exactly if there are finitely many types to meet above it and inside of
its values. There are finitely many if no argument grows on a way back to where it started. -/
theorem typeWalks_end (host : Host) (t : TypeRef) :
    (WalksEnd host t ↔ {u | Reaches host t u}.Finite ∧ {u | Stores host t u}.Finite) ∧
      (¬Expansive host → WalksEnd host t) := by
  refine ⟨walksEnd_iff, ?_⟩
  intro flat
  obtain ⟨g⟩ := nonempty_grading_iff.mpr flat
  obtain ⟨bounds, known⟩ := exists_bounds host t
  have graded := graded_self g known
  exact walksEnd_iff.mpr
    ⟨finite_of_graded exists_mention_of_above graded, finite_of_graded exists_mention_of_holds graded⟩

/-- A node is an edge between nodes of its own type, and a cell has room for another cell: both
mention themselves. -/
def nodes : Model where
  types :=
    [ { name := "Game.IEdge", kind := .interface, typeParams := ["T"] },
      { name := "Game.Node", kind := .class, typeParams := ["T"],
        interfaces := [.generic "Game.IEdge" [.generic "Game.Node" [.named "T"]]] },
      { name := "Game.Cell", kind := .struct, typeParams := ["T"],
        fields := [{ name := "Value", type := .named "T" },
          { name := "Next", type := .generic "Game.Cell" [.named "T"] }] } ]

/-- Arguments of edges may be larger than those of nodes, and edges pass nothing on. -/
def nodesGrading : Grading (.withPrelude nodes) where
  level p := if p.1 = ⟨"Game.IEdge", 1⟩ then 1 else 0
  bound := 1
  level_le p := by split <;> decide
  feeds := by decide +kernel
  grows := by decide +kernel

theorem typeWalks_end_nodes :
    ¬Expansive (.withPrelude nodes) ∧ ∀ t, WalksEnd (.withPrelude nodes) t := by
  have flat : ¬Expansive (.withPrelude nodes) := nonempty_grading_iff.mp ⟨nodesGrading⟩
  exact ⟨flat, fun t => (typeWalks_end _ t).2 flat⟩

/-- An interface that extends itself with a larger argument. -/
def loopDecl : TypeDecl where
  name := "Game.ILoop"
  kind := .interface
  typeParams := ["T"]
  interfaces := [.generic "Game.ILoop" [.generic "Game.ILoop" [.named "T"]]]

/-- A project with this interface. -/
def loops : Model where
  types := [loopDecl]

/-- The interface applied to itself. -/
def loop : Nat → TypeRef
  | 0 => .named "int"
  | n + 1 => .generic "Game.ILoop" [loop n]

theorem height_loop (n : Nat) : (loop n).height = n := by
  induction n with
  | zero => rfl
  | succ n ih =>
    rw [loop, generic, height, heightAll, heightAll, ih]
    exact Nat.max_zero (n + 1)

theorem applied_unmarked (t : TypeRef) : t.applied false 0 = t := by
  obtain ⟨name, args, nullable, rank⟩ := t
  simp [applied]

theorem above_loop (n : Nat) : Above (.withPrelude loops) (loop (n + 1)) (loop (n + 2)) := by
  have declared : (withPrelude loops).declaration? ⟨"Game.ILoop", 1⟩ = some loopDecl := rfl
  have meant : loopDecl.interfaces.filterMap ((withPrelude loops).resolve? loopDecl.symbol)
      = loopDecl.interfaces := by decide +kernel
  have interfaces : (withPrelude loops).declaredInterfaces (loop (n + 1)) = [loop (n + 2)] := by
    have here : (withPrelude loops).declaration? (.ofType (loop (n + 1))) = some loopDecl := declared
    simp only [declaredInterfaces, here, meant]
    simp [loopDecl, loop, generic, named, substitute, substituteAll, argumentFor?,
      applied_unmarked]
  right
  rw [interfaces]
  exact List.mem_singleton_self _

/-- Some walks do not end. -/
theorem not_typeWalks_end :
    ¬∀ limit model host, Host.ofModel limit model = .ok host → ∀ t, WalksEnd host t := by
  intro always
  have ends := always _ loops _ (Host.ofModel_withPrelude rfl rfl) (loop 1)
  have reached : ∀ n, Reaches (.withPrelude loops) (loop 1) (loop (n + 1)) := by
    intro n
    induction n with
    | zero => exact .refl
    | succ n ih => exact ih.tail (above_loop n)
  have distinct : Function.Injective fun n => loop (n + 1) := by
    intro m n same
    have heights := congrArg TypeRef.height same
    simp only [height_loop] at heights
    omega
  exact Set.infinite_of_injective_forall_mem distinct reached (walksEnd_iff.mp ends).1

end Marksmith.Host

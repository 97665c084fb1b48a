import Marksmith.Proofs.Host.Makeup
import Marksmith.Proofs.Host.Walks

/-!
The members that a dispatch interface asks for. `signatures` is a walk, level by level, that keeps
the first member of a shape; what it should find is said without a walk:

* `Ancestor`, `Nearest`: the interfaces at a distance from the dispatch interface, whatever leads to
  them;
* `Declares`, `Asks`: the abstract members of an interface, and the shapes of those at a distance;
* `Front.step`: what the walk has met before a level, and how one level changes it;
* `Collected`, `collected_signatures`: one member of every shape that is asked for, as near as
  possible, by distance and name.
-/

namespace Marksmith

open Syntax (TypeRef)

namespace Union

/-! ### Distances -/

/-- An interface at the end of a number of steps from the dispatch interface, each to one that the
interface before it lists. -/
inductive Ancestor (host : Host) (dispatch : TypeRef) : Nat → TypeRef → Prop
  | self : Ancestor host dispatch 0 dispatch
  | step {n : Nat} {i j : TypeRef} (way : Ancestor host dispatch n i)
      (lists : j ∈ host.declaredInterfaces i) : Ancestor host dispatch (n + 1) j

/-- An interface to which no fewer steps lead. -/
def Nearest (host : Host) (dispatch : TypeRef) (n : Nat) (i : TypeRef) : Prop :=
  Ancestor host dispatch n i ∧ ∀ m < n, ¬Ancestor host dispatch m i

section

variable {host : Host} {dispatch i j : TypeRef} {n m : Nat}

theorem Ancestor.exists_nearest (way : Ancestor host dispatch n i) :
    ∃ m ≤ n, Nearest host dispatch m i := by
  classical
  have some : ∃ m, Ancestor host dispatch m i := ⟨n, way⟩
  exact ⟨Nat.find some, Nat.find_min' some way, Nat.find_spec some, fun _ => Nat.find_min some⟩

/-- Interfaces on the way are made of what the dispatch interface is made of and of what is
covered. -/
theorem Ancestor.madeOf {Q : Symbol → Prop} (covers : host.Covers Q) (made : dispatch.MadeOf Q)
    (way : Ancestor host dispatch n i) : i.MadeOf Q := by
  induction way with
  | self => exact made
  | step _ lists ih => exact covers.madeOf_above ih (.inr lists)

theorem Nearest.zero (near : Nearest host dispatch 0 i) : i = dispatch := by
  cases near.1
  rfl

/-- An interface that is not the dispatch interface is listed by one that is nearer by one step. -/
theorem Nearest.lister (near : Nearest host dispatch (n + 1) j) :
    ∃ i, Nearest host dispatch n i ∧ j ∈ host.declaredInterfaces i := by
  obtain ⟨way, first⟩ := near
  cases way with
  | @step _ i _ way lists =>
    refine ⟨i, ⟨way, fun m less earlier => ?_⟩, lists⟩
    exact first (m + 1) (Nat.succ_lt_succ less) (.step earlier lists)

theorem Nearest.exists_of_le (near : Nearest host dispatch n i) (le : m ≤ n) :
    ∃ j, Nearest host dispatch m j := by
  induction n generalizing i with
  | zero =>
    cases Nat.le_zero.mp le
    exact ⟨i, near⟩
  | succ n ih =>
    rcases Nat.le_succ_iff.mp le with before | rfl
    · obtain ⟨j, nearer, -⟩ := near.lister
      exact ih nearer before
    · exact ⟨i, near⟩

end

/-! ### Abstract members -/

/-- The abstract members of an interface, with its type arguments in place. -/
inductive Declares (host : Host) (i : TypeRef) (depth : Nat) : MemberSignature → Prop
  | property {d : TypeDecl} {p : PropertyDecl} (denotes : host.declaration? (.ofType i) = some d)
      (mem : p ∈ d.properties) (instanced : p.isStatic = false) (abstract : p.hasBody = false) :
      Declares host i depth ⟨p.name, .property, [], [], memberType host d i [] p.type, depth⟩
  | method {d : TypeDecl} {m : MethodDecl} (denotes : host.declaration? (.ofType i) = some d)
      (mem : m ∈ d.methods) (instanced : m.isStatic = false) (abstract : m.body = []) :
      Declares host i depth ⟨m.name, .method, m.typeParams,
        m.params.map (fun p => ⟨p.name, memberType host d i m.typeParams p.type, p.mode⟩),
        memberType host d i m.typeParams m.returns, depth⟩

/-- Whether an interface at a distance has an abstract member of a shape. -/
def Asks (host : Host) (dispatch : TypeRef) (n : Nat) (s : MemberShape) : Prop :=
  ∃ i m, Ancestor host dispatch n i ∧ Declares host i n m ∧ m.shape = s

section

variable {host : Host} {dispatch i : TypeRef} {depth n k : Nat} {m : MemberSignature}

theorem Declares.depth_eq (declares : Declares host i depth m) : m.depth = depth := by
  cases declares <;> rfl

/-- An interface declares the same members at any distance. -/
theorem Declares.at_depth (declares : Declares host i n m) (k : Nat) :
    Declares host i k { m with depth := k } := by
  cases declares with
  | property denotes mem instanced abstract => exact .property denotes mem instanced abstract
  | method denotes mem instanced abstract => exact .method denotes mem instanced abstract

theorem mem_membersOf : m ∈ membersOf host depth i ↔ Declares host i depth m := by
  rw [membersOf]
  constructor
  · intro mem
    split at mem
    · next d denotes =>
      rcases List.mem_append.mp mem with property | method
      · obtain ⟨p, kept, rfl⟩ := List.mem_map.mp property
        obtain ⟨own, plain⟩ := List.mem_filter.mp kept
        rw [Bool.and_eq_true, Bool.not_eq_true', Bool.not_eq_true'] at plain
        exact .property denotes own plain.1 plain.2
      · obtain ⟨p, kept, rfl⟩ := List.mem_map.mp method
        obtain ⟨own, plain⟩ := List.mem_filter.mp kept
        rw [Bool.and_eq_true, Bool.not_eq_true', List.isEmpty_iff] at plain
        exact .method denotes own plain.1 plain.2
    · cases mem
  · rintro (⟨denotes, own, instanced, abstract⟩ | ⟨denotes, own, instanced, abstract⟩)
    · rw [denotes]
      refine List.mem_append_left _ (List.mem_map_of_mem (List.mem_filter.mpr ⟨own, ?_⟩))
      rw [instanced, abstract]
      rfl
    · rw [denotes]
      refine List.mem_append_right _ (List.mem_map.mpr ⟨_, List.mem_filter.mpr ⟨own, ?_⟩, rfl⟩)
      rw [instanced, abstract]
      rfl

/-- What is asked for anywhere is asked for at the distance of an interface. -/
theorem Asks.exists_nearest {s : MemberShape} (asks : Asks host dispatch n s) :
    ∃ k ≤ n, ∃ i m, Nearest host dispatch k i ∧ Declares host i k m ∧ m.shape = s := by
  obtain ⟨i, m, way, declares, same⟩ := asks
  obtain ⟨k, le, near⟩ := way.exists_nearest
  exact ⟨k, le, i, _, near, declares.at_depth k, same⟩

end

/-! ### New members and interfaces -/

theorem newShapes_sublist (found : List MemberShape) (ms : List MemberSignature) :
    (newShapes found ms).Sublist ms := by
  induction ms generalizing found with
  | nil => exact .slnil
  | cons m ms ih =>
    rw [newShapes]
    split
    · exact (ih found).cons m
    · exact (ih _).cons_cons m

theorem mem_shapes_newShapes {found : List MemberShape} {ms : List MemberSignature}
    {s : MemberShape} :
    s ∈ (newShapes found ms).map (·.shape) ↔ s ∈ ms.map (·.shape) ∧ s ∉ found := by
  induction ms generalizing found with
  | nil => simp [newShapes]
  | cons m ms ih =>
    rw [newShapes, List.map_cons, List.mem_cons]
    split
    · next known =>
      rw [ih]
      constructor
      · rintro ⟨mem, new⟩
        exact ⟨.inr mem, new⟩
      · rintro ⟨rfl | mem, new⟩
        · exact absurd known new
        · exact ⟨mem, new⟩
    · next unknown =>
      rw [List.map_cons, List.mem_cons, ih, List.mem_cons, not_or]
      by_cases same : s = m.shape
      · simp [same, unknown]
      · simp [same]

theorem nodup_shapes_newShapes (found : List MemberShape) (ms : List MemberSignature) :
    ((newShapes found ms).map (·.shape)).Nodup := by
  induction ms generalizing found with
  | nil => exact List.nodup_nil
  | cons m ms ih =>
    rw [newShapes]
    split
    · exact ih found
    · refine List.nodup_cons.mpr ⟨fun again => ?_, ih _⟩
      exact (mem_shapes_newShapes.mp again).2 List.mem_cons_self

section

variable {host : Host} {depth : Nat} {seen level : List TypeRef} {found : List MemberShape}

/-- The members that the interfaces of a level add. -/
def membersAt (host : Host) (depth : Nat) (found : List MemberShape) (level : List TypeRef) :
    List MemberSignature :=
  newShapes found ((level.mergeSort textNotAfter).flatMap (membersOf host depth))

/-- The interfaces behind a level. -/
def nextLevel (host : Host) (seen level : List TypeRef) : List TypeRef :=
  newTypes seen ((level.mergeSort textNotAfter).flatMap host.declaredInterfaces)

theorem mem_membersAt {m : MemberSignature} (mem : m ∈ membersAt host depth found level) :
    ∃ i ∈ level, Declares host i depth m := by
  obtain ⟨i, here, own⟩ := List.mem_flatMap.mp ((newShapes_sublist _ _).subset mem)
  exact ⟨i, List.mem_mergeSort.mp here, mem_membersOf.mp own⟩

theorem mem_shapes_membersAt {s : MemberShape} :
    s ∈ (membersAt host depth found level).map (·.shape) ↔
      (∃ i ∈ level, ∃ m, Declares host i depth m ∧ m.shape = s) ∧ s ∉ found := by
  rw [membersAt, mem_shapes_newShapes]
  simp only [List.mem_map, List.mem_flatMap, List.mem_mergeSort, mem_membersOf]
  refine and_congr_left' ⟨?_, ?_⟩
  · rintro ⟨m, ⟨i, here, declares⟩, same⟩
    exact ⟨i, here, m, declares, same⟩
  · rintro ⟨i, here, m, declares, same⟩
    exact ⟨m, ⟨i, here, declares⟩, same⟩

theorem mem_nextLevel {j : TypeRef} :
    j ∈ nextLevel host seen level ↔ (∃ i ∈ level, j ∈ host.declaredInterfaces i) ∧ j ∉ seen := by
  rw [nextLevel, Host.newTypes_eq_unseen, Host.mem_unseen]
  simp only [List.mem_flatMap, List.mem_mergeSort]

theorem nodup_nextLevel : (nextLevel host seen level).Nodup := by
  rw [nextLevel, Host.newTypes_eq_unseen]
  exact Host.nodup_unseen _ _

theorem signaturesWithin?_nil (levels : Nat) :
    signaturesWithin? host levels depth seen found [] = some [] := by
  cases levels <;> rfl

theorem signaturesWithin?_succ (levels : Nat) (more : level ≠ []) :
    signaturesWithin? host (levels + 1) depth seen found level =
      (signaturesWithin? host levels (depth + 1) (nextLevel host seen level ++ seen)
        ((membersAt host depth found level).map (·.shape) ++ found)
        (nextLevel host seen level)).map (membersAt host depth found level ++ ·) := by
  cases level with
  | nil => exact absurd rfl more
  | cons i is => rfl

/-- A level that is sorted already. -/
theorem signaturesWithin?_sorted {levels : Nat} {next : List TypeRef}
    {ms further : List MemberSignature} (more : level ≠ [])
    (sorted : level.Pairwise fun a b => textNotAfter a b)
    (later : newTypes seen (level.flatMap host.declaredInterfaces) = next)
    (added : newShapes found (level.flatMap (membersOf host depth)) = ms)
    (walk : signaturesWithin? host levels (depth + 1) (next ++ seen)
      (ms.map (·.shape) ++ found) next = some further) :
    signaturesWithin? host (levels + 1) depth seen found level = some (ms ++ further) := by
  rw [signaturesWithin?_succ levels more, nextLevel, membersAt, List.mergeSort_of_pairwise sorted,
    later, added, walk, Option.map_some]

end

/-! ### The walk -/

/-- What the walk has met when it comes to a level: the interfaces up to it, and the shapes before
it. -/
structure Front (host : Host) (dispatch : TypeRef) (depth : Nat) (seen : List TypeRef)
    (found : List MemberShape) (level : List TypeRef) : Prop where
  level : ∀ i, i ∈ level ↔ Nearest host dispatch depth i
  seen : ∀ i, i ∈ seen ↔ ∃ n ≤ depth, Ancestor host dispatch n i
  found : ∀ s, s ∈ found ↔ ∃ n < depth, Asks host dispatch n s

namespace Front

variable {host : Host} {dispatch : TypeRef} {depth : Nat} {seen level : List TypeRef}
  {found : List MemberShape}

theorem start : Front host dispatch 0 [dispatch] [] [dispatch] where
  level i := by
    rw [List.mem_singleton]
    constructor
    · rintro rfl
      exact ⟨.self, fun m less => absurd less (Nat.not_lt_zero m)⟩
    · exact Nearest.zero
  seen i := by
    rw [List.mem_singleton]
    constructor
    · rintro rfl
      exact ⟨0, Nat.le_refl 0, .self⟩
    · rintro ⟨n, none, way⟩
      cases Nat.le_zero.mp none
      cases way
      rfl
  found s := by
    refine iff_of_false List.not_mem_nil ?_
    rintro ⟨n, less, -⟩
    exact absurd less (Nat.not_lt_zero n)

variable (front : Front host dispatch depth seen found level)

include front

theorem mem_nextLevel_iff (j : TypeRef) :
    j ∈ nextLevel host seen level ↔ Nearest host dispatch (depth + 1) j := by
  rw [mem_nextLevel, front.seen]
  constructor
  · rintro ⟨⟨i, here, lists⟩, new⟩
    refine ⟨.step ((front.level i).mp here).1 lists, fun m less earlier => ?_⟩
    exact new ⟨m, Nat.le_of_lt_succ less, earlier⟩
  · intro near
    obtain ⟨i, here, lists⟩ := near.lister
    refine ⟨⟨i, (front.level i).mpr here, lists⟩, ?_⟩
    rintro ⟨m, le, earlier⟩
    exact near.2 m (Nat.lt_succ_of_le le) earlier

/-- How the walk gets from one level to the next. -/
theorem step : Front host dispatch (depth + 1) (nextLevel host seen level ++ seen)
    ((membersAt host depth found level).map (·.shape) ++ found) (nextLevel host seen level) where
  level := front.mem_nextLevel_iff
  seen i := by
    rw [List.mem_append, front.mem_nextLevel_iff, front.seen]
    constructor
    · rintro (⟨way, -⟩ | ⟨n, le, way⟩)
      · exact ⟨depth + 1, Nat.le_refl _, way⟩
      · exact ⟨n, Nat.le_succ_of_le le, way⟩
    · rintro ⟨n, le, way⟩
      obtain ⟨m, less, near⟩ := way.exists_nearest
      rcases Nat.le_succ_iff.mp (Nat.le_trans less le) with before | rfl
      · exact .inr ⟨m, before, near.1⟩
      · exact .inl near
  found s := by
    rw [List.mem_append, mem_shapes_membersAt]
    constructor
    · rintro (⟨⟨i, here, m, declares, same⟩, -⟩ | known)
      · exact ⟨depth, Nat.lt_succ_self _, i, m, ((front.level i).mp here).1, declares, same⟩
      · obtain ⟨n, less, asks⟩ := (front.found s).mp known
        exact ⟨n, Nat.lt_succ_of_lt less, asks⟩
    · rintro ⟨n, less, asks⟩
      by_cases known : s ∈ found
      · exact .inr known
      · refine .inl ⟨?_, known⟩
        -- An interface that is nearer would have shown the shape before.
        obtain ⟨k, le, i, m, near, declares, same⟩ := asks.exists_nearest
        rcases Nat.lt_or_eq_of_le (Nat.le_trans le (Nat.le_of_lt_succ less)) with before | rfl
        · exact absurd ((front.found s).mpr ⟨k, before, i, m, near.1, declares, same⟩) known
        · exact ⟨i, (front.level i).mpr near, m, declares, same⟩

/-- A walk ends if no interface is further away than the levels that it may take. -/
theorem isSome_iff (levels : Nat) :
    (signaturesWithin? host levels depth seen found level).isSome ↔
      ∀ i, ¬Nearest host dispatch (depth + levels) i := by
  induction levels generalizing depth seen found level with
  | zero =>
    cases level with
    | nil =>
      refine iff_of_true rfl fun i near => ?_
      exact List.not_mem_nil ((front.level i).mpr near)
    | cons i is =>
      refine iff_of_false (fun ends => nomatch ends) fun none => ?_
      exact none i ((front.level i).mp List.mem_cons_self)
  | succ levels ih =>
    by_cases done : level = []
    · subst done
      rw [signaturesWithin?_nil]
      refine iff_of_true rfl fun i near => ?_
      obtain ⟨j, here⟩ := near.exists_of_le (Nat.le_add_right depth _)
      exact List.not_mem_nil ((front.level j).mpr here)
    · rw [signaturesWithin?_succ levels done, Option.isSome_map, ih front.step,
        Nat.add_right_comm, Nat.add_assoc]

end Front

/-! ### What it finds -/

/-- What the walk finds from a level on. -/
structure Gathered (host : Host) (dispatch : TypeRef) (found : List MemberShape)
    (ms : List MemberSignature) : Prop where
  declared : ∀ m ∈ ms, ∃ i, Ancestor host dispatch m.depth i ∧ Declares host i m.depth m
  complete : ∀ n s, Asks host dispatch n s → s ∈ found ∨ s ∈ ms.map (·.shape)
  distinct : (ms.map (·.shape)).Nodup
  fresh : ∀ s ∈ found, s ∉ ms.map (·.shape)
  nearest : ∀ m ∈ ms, ∀ n, Asks host dispatch n m.shape → m.depth ≤ n

section

variable {host : Host} {dispatch : TypeRef} {depth : Nat} {seen level : List TypeRef}
  {found : List MemberShape} {ms : List MemberSignature}

/-- Nothing is asked for behind an empty level. -/
theorem Front.gathered_nil (front : Front host dispatch depth seen found []) :
    Gathered host dispatch found [] where
  declared _ mem := absurd mem List.not_mem_nil
  complete n s asks := by
    left
    obtain ⟨k, -, i, m, near, declares, same⟩ := asks.exists_nearest
    rcases Nat.lt_or_ge k depth with before | after
    · exact (front.found s).mpr ⟨k, before, i, m, near.1, declares, same⟩
    · -- A way to something further away passes through this level.
      obtain ⟨j, here⟩ := near.exists_of_le after
      exact absurd ((front.level j).mpr here) List.not_mem_nil
  distinct := List.nodup_nil
  fresh _ _ := List.not_mem_nil
  nearest _ mem := absurd mem List.not_mem_nil

/-- What a level adds and what is found behind it. -/
theorem Front.gathered_append (front : Front host dispatch depth seen found level)
    (later : Gathered host dispatch
      ((membersAt host depth found level).map (·.shape) ++ found) ms) :
    Gathered host dispatch found (membersAt host depth found level ++ ms) where
  declared m mem := by
    rcases List.mem_append.mp mem with here | behind
    · obtain ⟨i, inside, declares⟩ := mem_membersAt here
      rw [declares.depth_eq]
      exact ⟨i, ((front.level i).mp inside).1, declares⟩
    · exact later.declared m behind
  complete n s asks := by
    rw [List.map_append, List.mem_append]
    rcases later.complete n s asks with known | behind
    · rcases List.mem_append.mp known with here | before
      · exact .inr (.inl here)
      · exact .inl before
    · exact .inr (.inr behind)
  distinct := by
    rw [List.map_append]
    refine (nodup_shapes_newShapes _ _).append later.distinct ?_
    intro s here behind
    exact later.fresh s (List.mem_append_left _ here) behind
  fresh s known := by
    rw [List.map_append, List.mem_append]
    rintro (here | behind)
    · exact (mem_shapes_membersAt.mp here).2 known
    · exact later.fresh s (List.mem_append_right _ known) behind
  nearest m mem n asks := by
    rcases List.mem_append.mp mem with here | behind
    · obtain ⟨i, -, declares⟩ := mem_membersAt here
      have new := (mem_shapes_membersAt.mp (List.mem_map_of_mem here)).2
      rw [declares.depth_eq]
      refine Nat.le_of_not_lt fun before => ?_
      exact new ((front.found _).mpr ⟨n, before, asks⟩)
    · exact later.nearest m behind n asks

theorem Front.gathered {levels : Nat} (front : Front host dispatch depth seen found level)
    (walk : signaturesWithin? host levels depth seen found level = some ms) :
    Gathered host dispatch found ms := by
  induction levels generalizing depth seen found level ms with
  | zero =>
    cases level with
    | nil =>
      cases walk
      exact front.gathered_nil
    | cons i is => cases walk
  | succ levels ih =>
    by_cases done : level = []
    · subst done
      rw [signaturesWithin?_nil] at walk
      cases walk
      exact front.gathered_nil
    · rw [signaturesWithin?_succ levels done] at walk
      obtain ⟨further, later, rfl⟩ := Option.map_eq_some_iff.mp walk
      exact front.gathered_append (ih front.step later)

end

/-! ### Signatures -/

theorem isLE_compare {a b : String} : (Ord.compare a b).isLE ↔ a ≤ b :=
  isLE_compareOfLessAndEq String.le_antisymm String.not_le String.le_total

namespace MemberSignature

theorem notAfter_eq (a b : MemberSignature) :
    notAfter a b = (compareLex (compareOn depth) (compareOn name) a b).isLE := rfl

theorem notAfter_iff {a b : MemberSignature} :
    notAfter a b ↔ a.depth < b.depth ∨ a.depth = b.depth ∧ a.name ≤ b.name := by
  rw [notAfter, Ordering.isLE_then_iff_or, Nat.compare_eq_lt, Nat.compare_eq_eq, isLE_compare]

theorem notAfter_trans (a b c : MemberSignature) (first : notAfter a b) (second : notAfter b c) :
    notAfter a c := by
  rw [notAfter_eq] at first second ⊢
  exact Std.TransCmp.isLE_trans first second

theorem notAfter_total (a b : MemberSignature) : (notAfter a b || notAfter b a) = true := by
  have swap : compareLex (compareOn depth) (compareOn name) b a =
      (compareLex (compareOn depth) (compareOn name) a b).swap := Std.OrientedCmp.eq_swap
  rw [notAfter_eq, notAfter_eq, swap]
  cases compareLex (compareOn depth) (compareOn name) a b <;> rfl

end MemberSignature

section

variable {host : Host} {dispatch : TypeRef} {ms : List MemberSignature}

/-- One member of every shape that is asked for, declared as near as possible, by distance and
name. -/
structure Collected (host : Host) (dispatch : TypeRef) (ms : List MemberSignature) : Prop where
  declared : ∀ m ∈ ms, ∃ i, Ancestor host dispatch m.depth i ∧ Declares host i m.depth m
  complete : ∀ n s, Asks host dispatch n s → s ∈ ms.map (·.shape)
  distinct : (ms.map (·.shape)).Nodup
  nearest : ∀ m ∈ ms, ∀ n, Asks host dispatch n m.shape → m.depth ≤ n
  sorted : ms.Pairwise fun a b => a.depth < b.depth ∨ a.depth = b.depth ∧ a.name ≤ b.name

namespace Collected

variable (collected : Collected host dispatch ms)

include collected

/-- The shapes stand at the least distances at which they are asked for. -/
theorem mem_iff {n : Nat} {s : MemberShape} :
    (n, s) ∈ ms.map (fun m => (m.depth, m.shape)) ↔
      Asks host dispatch n s ∧ ∀ k, Asks host dispatch k s → n ≤ k := by
  constructor
  · intro mem
    obtain ⟨m, here, same⟩ := List.mem_map.mp mem
    cases same
    obtain ⟨i, way, declares⟩ := collected.declared m here
    exact ⟨⟨i, m, way, declares, rfl⟩, collected.nearest m here⟩
  · rintro ⟨asks, least⟩
    obtain ⟨m, here, rfl⟩ := List.mem_map.mp (collected.complete n s asks)
    obtain ⟨i, way, declares⟩ := collected.declared m here
    have le := collected.nearest m here n asks
    have ge := least m.depth ⟨i, m, way, declares, rfl⟩
    rw [Nat.le_antisymm ge le]
    exact List.mem_map_of_mem here

theorem nodup : (ms.map fun m => (m.depth, m.shape)).Nodup := by
  refine List.Nodup.of_map Prod.snd ?_
  rw [List.map_map]
  exact collected.distinct

end Collected

/-- A walk that ends has found every shape that is asked for. -/
theorem collected_signatures
    (ends : (signaturesWithin? host host.stepLimit 0 [dispatch] [] [dispatch]).isSome) :
    Collected host dispatch (signatures host dispatch) := by
  obtain ⟨ms, walk⟩ := Option.isSome_iff_exists.mp ends
  have gathered := Front.start.gathered walk
  have perm : (signatures host dispatch).Perm ms := by
    rw [signatures, walk]
    exact List.mergeSort_perm ms _
  exact {
    declared := fun m mem => gathered.declared m (perm.mem_iff.mp mem)
    complete := fun n s asks => by
      have found := (gathered.complete n s asks).resolve_left List.not_mem_nil
      exact (perm.map _).mem_iff.mpr found
    distinct := (perm.map _).nodup_iff.mpr gathered.distinct
    nearest := fun m mem => gathered.nearest m (perm.mem_iff.mp mem)
    sorted := by
      have sorted := List.pairwise_mergeSort MemberSignature.notAfter_trans
        MemberSignature.notAfter_total
        ((signaturesWithin? host host.stepLimit 0 [dispatch] [] [dispatch]).getD [])
      exact sorted.imp MemberSignature.notAfter_iff.mp }

/-- A walk that does not end gives nothing. -/
theorem signatures_eq_nil
    (endless : ¬(signaturesWithin? host host.stepLimit 0 [dispatch] [] [dispatch]).isSome) :
    signatures host dispatch = [] := by
  rw [signatures, Option.not_isSome_iff_eq_none.mp endless, Option.getD_none, List.mergeSort_nil]

theorem nodup_shapes_signatures (host : Host) (dispatch : TypeRef) :
    ((signatures host dispatch).map (·.shape)).Nodup := by
  by_cases ends : (signaturesWithin? host host.stepLimit 0 [dispatch] [] [dispatch]).isSome
  · exact (collected_signatures ends).distinct
  · rw [signatures_eq_nil ends]
    exact List.nodup_nil

theorem declared_of_mem_signatures {m : MemberSignature} (mem : m ∈ signatures host dispatch) :
    ∃ i, Ancestor host dispatch m.depth i ∧ Declares host i m.depth m := by
  by_cases ends : (signaturesWithin? host host.stepLimit 0 [dispatch] [] [dispatch]).isSome
  · exact (collected_signatures ends).declared m mem
  · rw [signatures_eq_nil ends] at mem
    cases mem

end

end Union

end Marksmith

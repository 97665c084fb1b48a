import Marksmith.Host.Resolve
import Mathlib.Data.Set.Finite.List
import Mathlib.Data.Set.Finite.Lattice
import Mathlib.Data.Finite.Prod
import Mathlib.Data.Finset.Order

/-!
Types as trees of type arguments.

* `inductionOnArgs`: induction over the arguments of a type;
* `parts`, `height`: the types inside of a type, and how deeply its arguments are nested;
* `part_substitute`: what is inside of a type with arguments in place is inside of an argument, or
  is something inside of the type with arguments in place;
* `height_substitute_le`: arguments in place add to the height what the ones that occur are high;
* `finite_height_lt`: only finitely many types of bounded height are made of given definitions.
-/

namespace Marksmith.Syntax.TypeRef

/-- What holds of a type whenever it holds of its arguments holds of all types. -/
@[elab_as_elim]
theorem inductionOnArgs {motive : TypeRef → Prop}
    (node : ∀ t, (∀ a ∈ t.args, motive a) → motive t) (t : TypeRef) : motive t :=
  node t fun a arg =>
    have inside : sizeOf t.args < sizeOf t := by
      cases t
      simp only [mk.sizeOf_spec]
      omega
    have : sizeOf a < sizeOf t := (List.sizeOf_lt_of_mem arg).trans inside
    inductionOnArgs node a
termination_by sizeOf t

/-! ### Parts and heights -/

mutual

/-- A type with everything inside of it. -/
def parts : TypeRef → List TypeRef
  | ⟨name, args, nullable, rank⟩ => ⟨name, args, nullable, rank⟩ :: partsAll args

/-- Several types with everything inside of them. -/
def partsAll : List TypeRef → List TypeRef
  | [] => []
  | t :: ts => parts t ++ partsAll ts

end

mutual

/-- How deeply type arguments are nested. -/
def height : TypeRef → Nat
  | ⟨_, args, _, _⟩ => heightAll args

/-- The height of a type with these arguments. -/
def heightAll : List TypeRef → Nat
  | [] => 0
  | t :: ts => max (height t + 1) (heightAll ts)

end

theorem mem_partsAll {ts : List TypeRef} {s : TypeRef} :
    s ∈ partsAll ts ↔ ∃ t ∈ ts, s ∈ parts t := by
  induction ts with
  | nil => simp [partsAll]
  | cons t ts ih => simp [partsAll, ih]

theorem mem_parts {s t : TypeRef} : s ∈ parts t ↔ s = t ∨ ∃ a ∈ t.args, s ∈ parts a := by
  obtain ⟨name, args, nullable, rank⟩ := t
  rw [parts, List.mem_cons, mem_partsAll]

theorem self_mem_parts (t : TypeRef) : t ∈ parts t := mem_parts.mpr (.inl rfl)

theorem heightAll_le_iff {ts : List TypeRef} {h : Nat} :
    heightAll ts ≤ h ↔ ∀ t ∈ ts, height t < h := by
  induction ts with
  | nil => simp [heightAll]
  | cons t ts ih =>
    rw [heightAll, Nat.max_le, ih, List.forall_mem_cons]
    rfl

theorem height_le_iff {t : TypeRef} {h : Nat} : height t ≤ h ↔ ∀ a ∈ t.args, height a < h := by
  obtain ⟨name, args, nullable, rank⟩ := t
  rw [height, heightAll_le_iff]

theorem height_lt_of_mem_args {a t : TypeRef} (mem : a ∈ t.args) : height a < height t :=
  height_le_iff.mp (Nat.le_refl _) a mem

theorem height_le_of_mem_parts {s t : TypeRef} (mem : s ∈ parts t) : height s ≤ height t := by
  induction t using inductionOnArgs with
  | node t ih =>
    rcases mem_parts.mp mem with rfl | ⟨a, arg, inside⟩
    · exact Nat.le_refl _
    · have below := height_lt_of_mem_args arg
      have within := ih a arg inside
      omega

/-! ### Arguments in place of parameters -/

/-- Without parameters or arguments nothing is replaced. -/
theorem substitute_eq_self {params : List String} {args : List TypeRef}
    (nothing : (params.isEmpty || args.isEmpty) = true) (t : TypeRef) :
    substitute params args t = t := by
  obtain ⟨name, targs, nullable, rank⟩ := t
  rw [substitute, if_pos nothing]

/-- The argument for a parameter stands where the parameter does. -/
theorem argumentFor?_eq_some {params : List String} {args : List TypeRef} {name : String}
    {a : TypeRef} (found : argumentFor? params args name = some a) :
    ∃ j, params.findIdx? (· == name) = some j ∧ args[j]? = some a :=
  Option.bind_eq_some_iff.mp found

theorem mem_of_argumentFor? {params : List String} {args : List TypeRef} {name : String}
    {a : TypeRef} (found : argumentFor? params args name = some a) : a ∈ args := by
  obtain ⟨_, _, place⟩ := argumentFor?_eq_some found
  exact List.mem_of_getElem? place

/-- A name that is no parameter has no argument. -/
theorem argumentFor?_of_not_mem {params : List String} {args : List TypeRef} {name : String}
    (other : name ∉ params) : argumentFor? params args name = none := by
  have nowhere : params.findIdx? (· == name) = none := by
    rw [List.findIdx?_eq_none_iff]
    intro p mem
    exact beq_eq_false_iff_ne.mpr fun same => other (same ▸ mem)
  rw [argumentFor?, nowhere]
  rfl

/-- Without parameters or arguments no name has an argument. -/
theorem argumentFor?_of_nothing {params : List String} {args : List TypeRef}
    (nothing : (params.isEmpty || args.isEmpty) = true) (name : String) :
    argumentFor? params args name = none := by
  rcases Bool.or_eq_true_iff.mp nothing with none | none
  · rw [List.isEmpty_iff.mp none]
    rfl
  · rw [List.isEmpty_iff.mp none, argumentFor?]
    cases params.findIdx? (· == name) <;> rfl

/-- A parameter that has an argument is replaced by it. -/
theorem substitute_parameter {params : List String} {args : List TypeRef} {t a : TypeRef}
    (plain : t.args = []) (found : argumentFor? params args t.name = some a) :
    substitute params args t = a.applied t.nullable t.rank := by
  obtain ⟨name, targs, nullable, rank⟩ := t
  cases plain
  have some : ¬(params.isEmpty || args.isEmpty) = true := by
    intro nothing
    cases (argumentFor?_of_nothing nothing name).symm.trans found
  rw [substitute, if_neg some, if_pos List.isEmpty_nil, found]

/-- Anything else keeps its name, and its arguments get arguments in place. -/
theorem substitute_other {params : List String} {args : List TypeRef} {t : TypeRef}
    (kept : t.args = [] → argumentFor? params args t.name = none) :
    substitute params args t = { t with args := t.args.map (substitute params args) } := by
  obtain ⟨name, targs, nullable, rank⟩ := t
  by_cases nothing : (params.isEmpty || args.isEmpty) = true
  · have same : substitute params args = id := funext (substitute_eq_self nothing)
    rw [same, List.map_id]
    rfl
  · rw [substitute, if_neg nothing]
    cases targs with
    | nil =>
      rw [if_pos List.isEmpty_nil, kept rfl]
      rfl
    | cons t ts =>
      rw [if_neg (Bool.not_eq_true _ ▸ rfl), substituteAll_eq]

/-- A type with arguments in place is an argument with a nullable mark and a rank, or it has the
same name and its own arguments with arguments in place. -/
theorem substitute_cases (params : List String) (args : List TypeRef) (t : TypeRef) :
    (t.args = [] ∧ ∃ a nullable rank, argumentFor? params args t.name = some a ∧
      substitute params args t = a.applied nullable rank) ∨
    (substitute params args t).name = t.name ∧
      (substitute params args t).args = t.args.map (substitute params args) := by
  by_cases kept : t.args = [] → argumentFor? params args t.name = none
  · right
    rw [substitute_other kept]
    exact ⟨rfl, rfl⟩
  · left
    obtain ⟨plain, some⟩ := Classical.not_imp.mp kept
    obtain ⟨a, found⟩ := Option.ne_none_iff_exists'.mp some
    exact ⟨plain, a, t.nullable, t.rank, found, substitute_parameter plain found⟩

/-- What is inside of a type with arguments in place looks like something inside of an argument, or
like something inside of the type, with arguments in place. -/
theorem part_substitute {params : List String} {args : List TypeRef} {s t : TypeRef}
    (mem : s ∈ parts (substitute params args t)) :
    (∃ a ∈ args, ∃ r ∈ parts a, r.name = s.name ∧ r.args = s.args) ∨
    ∃ r ∈ parts t, r.name = s.name ∧ s.args = r.args.map (substitute params args) := by
  induction t using inductionOnArgs with
  | node t ih =>
    rcases substitute_cases params args t with ⟨-, a, nullable, rank, found, value⟩ | ⟨name, targs⟩
    · left
      obtain ⟨j, _, place⟩ := argumentFor?_eq_some found
      refine ⟨a, List.mem_of_getElem? place, ?_⟩
      rw [value, mem_parts] at mem
      rcases mem with rfl | ⟨b, arg, inside⟩
      · exact ⟨a, self_mem_parts a, rfl, rfl⟩
      · exact ⟨s, mem_parts.mpr (.inr ⟨b, arg, inside⟩), rfl, rfl⟩
    · rcases mem_parts.mp mem with rfl | ⟨b, arg, inside⟩
      · exact .inr ⟨t, self_mem_parts t, name.symm, targs⟩
      · rw [targs] at arg
        obtain ⟨c, own, rfl⟩ := List.mem_map.mp arg
        rcases ih c own inside with outside | ⟨r, part, same⟩
        · exact .inl outside
        · exact .inr ⟨r, mem_parts.mpr (.inr ⟨c, own, part⟩), same⟩

theorem height_applied (t : TypeRef) (nullable : Bool) (rank : UInt8) :
    height (t.applied nullable rank) = height t := by
  obtain ⟨name, args, mark, suffixes⟩ := t
  rfl

/-- Arguments in place add at most the heights of those whose parameters occur. -/
theorem height_substitute_le {params : List String} {args : List TypeRef} {h : Nat} {t : TypeRef}
    (low : ∀ s ∈ parts t, s.args = [] → ∀ a, argumentFor? params args s.name = some a →
      height a ≤ h) :
    height (substitute params args t) ≤ height t + h := by
  induction t using inductionOnArgs with
  | node t ih =>
    rcases substitute_cases params args t with ⟨plain, a, nullable, rank, found, value⟩ | ⟨_, targs⟩
    · rw [value, height_applied]
      exact Nat.le_add_left_of_le (low t (self_mem_parts t) plain a found)
    · rw [height_le_iff, targs, List.forall_mem_map]
      intro b arg
      have within := ih b arg fun s part => low s (mem_parts.mpr (.inr ⟨b, arg, part⟩))
      have below := height_lt_of_mem_args arg
      omega

/-! ### Finitely many types -/

theorem finite_lists {α : Type} {s : Set α} (finite : s.Finite) (n : Nat) :
    {l : List α | l.length ≤ n ∧ ∀ a ∈ l, a ∈ s}.Finite := by
  have : Finite s := finite
  refine ((List.finite_length_le s n).image (List.map Subtype.val)).subset ?_
  rintro l ⟨short, inside⟩
  refine ⟨l.attach.map fun a => ⟨a.1, inside a.1 a.2⟩, ?_, ?_⟩
  · simpa using short
  · simp

/-- Only finitely many types of bounded height are made of given definitions. -/
theorem finite_height_lt (symbols : List Symbol) (h : Nat) :
    {t : TypeRef | height t < h ∧ ∀ s ∈ parts t, Symbol.ofType s ∈ symbols}.Finite := by
  induction h with
  | zero => exact Set.finite_empty.subset fun t low => absurd low.1 (Nat.not_lt_zero _)
  | succ h ih =>
    -- The arguments are lower, and no more of them than some definition has.
    obtain ⟨width, widest⟩ := (symbols.toFinset.image (·.arity)).exists_le
    have : Finite UInt8 := Finite.of_injective UInt8.toFin fun _ _ => UInt8.toFin_inj.mp
    have pieces := (symbols.toFinset.finite_toSet.prod (finite_lists ih width)).prod
      ((Set.finite_univ (α := Bool)).prod (Set.finite_univ (α := UInt8)))
    refine (pieces.image fun p => ⟨p.1.1.name, p.1.2, p.2.1, p.2.2⟩).subset ?_
    rintro t ⟨low, known⟩
    have own := known t (self_mem_parts t)
    refine ⟨((.ofType t, t.args), (t.nullable, t.rank)), ⟨⟨?_, ?_, ?_⟩, trivial, trivial⟩, ?_⟩
    · exact List.mem_toFinset.mpr own
    · exact widest _ (Finset.mem_image_of_mem _ (List.mem_toFinset.mpr own))
    · intro a arg
      have below := height_lt_of_mem_args arg
      exact ⟨by omega, fun s part => known s (mem_parts.mpr (.inr ⟨a, arg, part⟩))⟩
    · obtain ⟨name, args, nullable, rank⟩ := t
      rfl

end Marksmith.Syntax.TypeRef

import Marksmith.Marking.Options
import Marksmith.Proofs.Lists
import Mathlib.Data.List.Nodup

/-!
Arguments by place and arguments by name.

* `OptionArgs.assignments`: the options that arguments are for, with their values;
  `get?_eq_find?`: nothing else of the arguments is looked at where an option is read;
* `Passes`: arguments that pass values for the first options of a marker and values for others by
  name, whatever is written with a name and whatever without one;
* `Marker.read_eq_of_passes`: arguments that pass the same are read with the same outcome.
-/

namespace Marksmith

/-! ### Names up to the case of their letters -/

/-- A text with its letters a to z in lower case. -/
def lowered (s : String) : List Char := s.toList.map Char.toLower

theorem sameLetters_iff {a b : String} : sameLetters a b = true ↔ lowered a = lowered b := by
  simp [sameLetters, lowered]

/-- An option with a value for it. -/
abbrev Assignment := String × AttributeValue

/-- Whether an assignment is for an option. -/
def Assignment.isFor (option : String) (p : Assignment) : Bool := sameLetters p.1 option

theorem Assignment.isFor_iff {option : String} {p : Assignment} :
    isFor option p = true ↔ lowered p.1 = lowered option := sameLetters_iff

/-- Whether two assignments are the same up to the case of letters. -/
def Assignment.Alike (p q : Assignment) : Prop := sameLetters p.1 q.1 = true ∧ p.2 = q.2

/-- Options that cannot be mistaken for one another. -/
def Apart (options : List String) : Prop := (options.map lowered).Nodup

namespace OptionArgs

/-! ### What arguments are for -/

/-- The arguments with a name. -/
def named (args : List AttributeArg) : List Assignment :=
  args.filterMap fun a => a.name.map fun name => (name, a.value)

/-- The values without a name. -/
def unnamed (args : List AttributeArg) : List AttributeValue := (positional args).map (·.value)

/-- The options that arguments are for: their names, and the options in the places of the others. -/
def assignments (order : List String) (args : List AttributeArg) : List Assignment :=
  named args ++ order.zip (unnamed args)

theorem find?_named (args : List AttributeArg) (option : String) :
    (args.find? fun a => a.name.any (sameLetters · option)).map (·.value)
      = ((named args).find? (Assignment.isFor option)).map (·.2) := by
  induction args with
  | nil => rfl
  | cons a args ih =>
    obtain ⟨name, value⟩ := a
    cases name with
    | none => simpa [named] using ih
    | some name =>
      cases same : sameLetters name option with
      | true => simp [named, Assignment.isFor, same]
      | false => simpa [named, Assignment.isFor, same] using ih

/-- The value in the place of an option is the one that is assigned to it. -/
theorem find?_zip {order : List String} (apart : Apart order) {option : String}
    (mem : option ∈ order) (values : List AttributeValue) :
    ((order.findIdx? (· == option)).bind fun place => values[place]?)
      = ((order.zip values).find? (Assignment.isFor option)).map (·.2) := by
  induction order generalizing values with
  | nil => cases mem
  | cons o order ih =>
    rw [Apart, List.map_cons, List.nodup_cons] at apart
    by_cases here : o = option
    · subst here
      cases values <;> simp [List.findIdx?_cons, Assignment.isFor, sameLetters]
    · have later : option ∈ order := by simpa [Ne.symm here] using mem
      have other : sameLetters o option = false := by
        rw [Bool.eq_false_iff, Ne, sameLetters_iff]
        intro same
        apply apart.1
        rw [same]
        exact List.mem_map_of_mem later
      cases values with
      | nil => simp
      | cons v values =>
        have ih := ih apart.2 later values
        simp [List.findIdx?_cons, here, Assignment.isFor, other, ← ih]
        cases order.findIdx? (· == option) <;> rfl

/-- An option is read off the assignments alone. -/
theorem get?_eq_find? {order : List String} (apart : Apart order) {option : String}
    (mem : option ∈ order) (args : List AttributeArg) :
    get? ⟨order, args⟩ option
      = ((assignments order args).find? (Assignment.isFor option)).map (·.2) := by
  have byName := find?_named args option
  have byPlace := find?_zip apart mem (unnamed args)
  rw [assignments, List.find?_append, get?]
  cases found : args.find? fun a => a.name.any (sameLetters · option) with
  | some a =>
    rw [found] at byName
    cases first : (named args).find? (Assignment.isFor option) with
    | none => simp [first] at byName
    | some p => simpa [first] using byName
  | none =>
    rw [found] at byName
    have none : (named args).find? (Assignment.isFor option) = none := by simpa using byName.symm
    rw [none, Option.none_or, ← byPlace]
    cases order.findIdx? (· == option) with
    | none => rfl
    | some place =>
      show ((positional args)[place]?.bind fun a => some a.value) = (unnamed args)[place]?
      rw [unnamed, List.getElem?_map, Option.map_eq_bind]
      rfl

end OptionArgs

/-! ### Arguments that pass the same -/

namespace OptionArgs

variable {order : List String} {values : List AttributeValue} {others : List Assignment}

/-- Whether values for the first options of a marker and assignments by name can be given together:
there is an option for every value, and every name is one of the remaining options, named once. -/
structure Givable (order : List String) (values : List AttributeValue) (others : List Assignment) :
    Prop where
  room : values.length ≤ order.length
  known : ∀ p ∈ others, ∃ option ∈ order, p.isFor option = true
  behind : ∀ p ∈ others, ∀ option ∈ order.take values.length, ¬p.isFor option = true
  once : others.Pairwise fun p q => ¬sameLetters p.1 q.1 = true

/-- Whether arguments pass values for the first options of a marker and assignments by name. The
first of the values stand without a name, in order. The others have the names of their options. What
has a name stands anywhere, and its name is written in any case. -/
def Passes (order : List String) (values : List AttributeValue) (others : List Assignment)
    (args : List AttributeArg) : Prop :=
  ∃ k given, unnamed args = values.take k ∧
    given.Perm ((order.zip values).drop k ++ others) ∧
      List.Forall₂ Assignment.Alike (named args) given

theorem zip_take (order : List String) (values : List AttributeValue) (k : Nat) :
    order.zip (values.take k) = (order.zip values).take k := by
  induction order generalizing values k with
  | nil => simp
  | cons o order ih => cases values <;> cases k <;> simp [ih]

theorem map_fst_zip (order : List String) (values : List AttributeValue) :
    (order.zip values).map Prod.fst = order.take values.length := by
  induction order generalizing values with
  | nil => simp
  | cons o order ih => cases values <;> simp [ih]

/-- No option is given twice. -/
theorem Givable.apart_all (givable : Givable order values others) (apart : Apart order) :
    Apart ((order.zip values ++ others).map Prod.fst) := by
  rw [List.map_append, map_fst_zip, Apart, List.map_append, List.nodup_append']
  refine ⟨apart.sublist ((List.take_sublist _ _).map _), ?_, ?_⟩
  · rw [List.map_map, List.Nodup, List.pairwise_map]
    exact givable.once.imp fun other same => other (sameLetters_iff.mpr same)
  · intro s first later
    simp only [List.mem_map, exists_exists_and_eq_and] at first later
    obtain ⟨option, early, rfl⟩ := first
    obtain ⟨p, mem, same⟩ := later
    exact givable.behind p mem option early (Assignment.isFor_iff.mpr same)

/-- Whatever is passed is passed for an option of the marker. -/
theorem Givable.exists_isFor (givable : Givable order values others) {p : Assignment}
    (mem : p ∈ order.zip values ++ others) : ∃ option ∈ order, p.isFor option = true := by
  rcases List.mem_append.mp mem with early | late
  · exact ⟨p.1, (List.of_mem_zip early).1, sameLetters_iff.mpr rfl⟩
  · exact givable.known p late

/-- What is assigned to an option is found wherever it stands among all assignments. -/
theorem find?_isFor_perm {ps qs : List Assignment} (apart : Apart (qs.map Prod.fst))
    (perm : ps.Perm qs) (option : String) :
    ps.find? (Assignment.isFor option) = qs.find? (Assignment.isFor option) := by
  apply find?_perm _ perm
  intro p pMem q qMem here there
  rw [Apart, List.map_map] at apart
  apply List.inj_on_of_nodup_map apart pMem qMem
  exact (Assignment.isFor_iff.mp here).trans (Assignment.isFor_iff.mp there).symm

/-- Assignments that are alike are found alike. -/
theorem find?_isFor_alike {ps qs : List Assignment} (alike : List.Forall₂ Assignment.Alike ps qs)
    (option : String) :
    (ps.find? (Assignment.isFor option)).map Prod.snd
      = (qs.find? (Assignment.isFor option)).map Prod.snd := by
  have found := find?_of_forall₂ (p := Assignment.isFor option) alike ?_
  · generalize ps.find? (Assignment.isFor option) = p,
      qs.find? (Assignment.isFor option) = q at found
    cases found with
    | none => rfl
    | some same => exact congrArg some same.2
  · intro p q same
    rw [Bool.eq_iff_iff, Assignment.isFor_iff, Assignment.isFor_iff, sameLetters_iff.mp same.1]

/-- What is assigned by arguments is what they pass, up to order and the case of letters. -/
theorem Passes.exists_perm {args : List AttributeArg} (passes : Passes order values others args) :
    ∃ ps, ps.Perm (order.zip values ++ others) ∧
      List.Forall₂ Assignment.Alike (assignments order args) ps := by
  obtain ⟨k, given, front, perm, alike⟩ := passes
  refine ⟨given ++ (order.zip values).take k, ?_, ?_⟩
  · calc
      List.Perm (given ++ (order.zip values).take k) ((order.zip values).take k ++ given) :=
        List.perm_append_comm
      List.Perm _ ((order.zip values).take k ++ ((order.zip values).drop k ++ others)) :=
        perm.append_left _
      _ = order.zip values ++ others := by rw [← List.append_assoc, List.take_append_drop]
  · rw [assignments, front, zip_take]
    apply List.rel_append alike
    exact List.forall₂_same.mpr fun p _ => ⟨beq_self_eq_true _, rfl⟩

/-- An option has the value that is passed for it, in its place or by name. -/
theorem Passes.get?_eq {args : List AttributeArg} (passes : Passes order values others args)
    (apart : Apart order) (givable : Givable order values others) {option : String}
    (mem : option ∈ order) :
    get? ⟨order, args⟩ option
      = ((order.zip values ++ others).find? (Assignment.isFor option)).map Prod.snd := by
  obtain ⟨ps, perm, alike⟩ := passes.exists_perm
  rw [get?_eq_find? apart mem, ← find?_isFor_perm (givable.apart_all apart) perm]
  exact find?_isFor_alike alike option

/-- Arguments that pass what can be given are arguments of the marker. -/
theorem Passes.ofAttribute_eq {a : Attribute} (passes : Passes order values others a.args)
    (givable : Givable order values others) (marker : Marker) :
    ofAttribute marker order a = pure ⟨order, a.args⟩ := by
  have room : ¬order.length < (positional a.args).length := by
    obtain ⟨k, _, front, _⟩ := passes
    have count := congrArg List.length front
    rw [unnamed, List.length_map, List.length_take] at count
    have := givable.room
    omega
  have known : firstUnknown? order a.args = none := by
    rw [firstUnknown?, List.find?_eq_none]
    intro name mem
    obtain ⟨arg, listed, here⟩ := List.mem_filterMap.mp mem
    have assigned : (name, arg.value) ∈ assignments order a.args :=
      List.mem_append_left _ (List.mem_filterMap.mpr ⟨arg, listed, by simp [here]⟩)
    obtain ⟨ps, perm, alike⟩ := passes.exists_perm
    obtain ⟨q, passed, same⟩ := exists_of_forall₂ alike.flip assigned
    obtain ⟨option, there, isFor⟩ := givable.exists_isFor (perm.mem_iff.mp passed)
    have found : sameLetters option name = true := by
      rw [sameLetters_iff, ← Assignment.isFor_iff.mp isFor, ← sameLetters_iff.mp same.1]
    simp only [Bool.not_eq_true, Bool.not_eq_false', List.any_eq_true]
    exact ⟨option, there, found⟩
  rw [ofAttribute, if_neg room, known]
  rfl

/-! ### Readers of options -/

section Readers

variable {args args' : OptionArgs} {option : String} (same : args.get? option = args'.get? option)

include same

theorem bool_congr (default : Bool) : args.bool option default = args'.bool option default := by
  rw [bool, bool, same]

theorem int?_congr : args.int? option = args'.int? option := by
  rw [int?, int?, same]

theorem intWithin_congr (low high default : Int) :
    args.intWithin option low high default = args'.intWithin option low high default := by
  rw [intWithin, intWithin, int?_congr same]

theorem text?_congr : args.text? option = args'.text? option := by
  rw [text?, text?, same]

theorem type?_congr : args.type? option = args'.type? option := by
  rw [type?, type?, text?_congr same]

end Readers

end OptionArgs

/-! ### Markers -/

namespace Marker

open OptionArgs

/-- The options of a marker in their order. -/
def options : Marker → List String
  | track => TrackOptions.order
  | singleton => SingletonOptions.order
  | inject => InjectOptions.order
  | union => UnionOptions.order
  | unionHeader => UnionHeaderOptions.order
  | unmanagedAccess => UnmanagedAccessOptions.order
  | generateUnityConstants => ConstantsOptions.order

/-- What the arguments of a marker are read as. -/
def Reading : Marker → Type
  | track => TrackOptions
  | singleton => SingletonOptions
  | inject => InjectOptions
  | union => UnionOptions
  | unionHeader => UnionHeaderOptions
  | unmanagedAccess => UnmanagedAccessOptions
  | generateUnityConstants => ConstantsOptions

/-- Reads the arguments of a marker. -/
def read : (marker : Marker) → Attribute → Except OptionError marker.Reading
  | track => TrackOptions.read
  | singleton => SingletonOptions.read
  | inject => InjectOptions.read
  | union => UnionOptions.read
  | unionHeader => UnionHeaderOptions.read
  | unmanagedAccess => UnmanagedAccessOptions.read
  | generateUnityConstants => ConstantsOptions.read

theorem apart_options (marker : Marker) : Apart marker.options := by
  unfold Apart
  cases marker <;> decide

/-- Arguments of a marker that give every option the same value are read with the same outcome. -/
theorem read_congr {marker : Marker} {a b : Attribute}
    (first : ofAttribute marker marker.options a = pure ⟨marker.options, a.args⟩)
    (second : ofAttribute marker marker.options b = pure ⟨marker.options, b.args⟩)
    (agree : ∀ option ∈ marker.options,
      get? ⟨marker.options, a.args⟩ option = get? ⟨marker.options, b.args⟩ option) :
    marker.read a = marker.read b := by
  have bools := fun option mem => bool_congr (agree option mem)
  have ints := fun option mem => int?_congr (agree option mem)
  have bounded := fun option mem => intWithin_congr (agree option mem)
  have texts := fun option mem => text?_congr (agree option mem)
  have types := fun option mem => type?_congr (agree option mem)
  cases marker with
  | track =>
    rw [options] at first second bools bounded
    show TrackOptions.read a = TrackOptions.read b
    simp (disch := decide) only [TrackOptions.read, first, second, pure_bind, bools, bounded]
  | singleton =>
    rw [options] at first second bools texts
    show SingletonOptions.read a = SingletonOptions.read b
    simp (disch := decide) only [SingletonOptions.read, first, second, pure_bind, bools, texts]
  | inject =>
    rw [options] at first second bools
    show InjectOptions.read a = InjectOptions.read b
    simp (disch := decide) only [InjectOptions.read, first, second, pure_bind, bools]
  | union =>
    rw [options] at first second ints
    show UnionOptions.read a = UnionOptions.read b
    simp (disch := decide) only [UnionOptions.read, first, second, pure_bind, ints]
  | unionHeader =>
    rw [options] at first second types
    show UnionHeaderOptions.read a = UnionHeaderOptions.read b
    simp (disch := decide) only [UnionHeaderOptions.read, first, second, pure_bind, types]
  | unmanagedAccess =>
    rw [options] at first second bools
    show UnmanagedAccessOptions.read a = UnmanagedAccessOptions.read b
    simp (disch := decide) only [UnmanagedAccessOptions.read, first, second, pure_bind, bools]
  | generateUnityConstants =>
    rw [options] at first second texts
    show ConstantsOptions.read a = ConstantsOptions.read b
    simp (disch := decide) only [ConstantsOptions.read, first, second, pure_bind, texts]

/-- Arguments that pass the same values are read with the same outcome, be it options or an error:
it does not matter which of the first values are written by name, in which order arguments with a
name stand and where, and in which case their names are written. -/
theorem read_eq_of_passes (marker : Marker) {values : List AttributeValue}
    {others : List Assignment} (givable : Givable marker.options values others) {a b : Attribute}
    (first : Passes marker.options values others a.args)
    (second : Passes marker.options values others b.args) : marker.read a = marker.read b := by
  have apart := marker.apart_options
  apply read_congr (first.ofAttribute_eq givable marker) (second.ofAttribute_eq givable marker)
  intro option mem
  rw [first.get?_eq apart givable mem, second.get?_eq apart givable mem]

/-- Two flags in their places, among arguments with a name. -/
def placed : Attribute :=
  ⟨"Track", [⟨some "TransformInitialCapacity", .int (-1)⟩, ⟨none, .bool true⟩,
    ⟨some "CACHEENABLEDSTATE", .bool true⟩, ⟨none, .bool false⟩]⟩

/-- The same arguments, all of them with a name. -/
def spelled : Attribute :=
  ⟨"Track", [⟨some "cacheEnabledState", .bool true⟩, ⟨some "transforminitialcapacity", .int (-1)⟩,
    ⟨some "manual", .bool true⟩, ⟨some "INSTANCEIDARRAY", .bool false⟩]⟩

/-- Both fail in the same way, since the capacity is negative. -/
theorem read_eq_of_passes_capacity :
    ∃ values others, Givable track.options values others ∧
      Passes track.options values others placed.args ∧
      Passes track.options values others spelled.args ∧ track.read placed = track.read spelled ∧
      track.read placed = .error (.outOfRange "transformInitialCapacity" (-1)) := by
  let others : List Assignment :=
    [("cacheEnabledState", .bool true), ("transformInitialCapacity", .int (-1))]
  have givable : Givable track.options [.bool true, .bool false] others := by
    constructor
    · decide
    · simp only [others, List.forall_mem_cons]
      decide
    · simp only [others, List.forall_mem_cons]
      decide
    · simp only [others, List.pairwise_cons, List.forall_mem_cons]
      decide
  have first : Passes track.options [.bool true, .bool false] others placed.args := by
    refine ⟨2, _, rfl, .swap _ _ _, .cons ⟨?_, rfl⟩ (.cons ⟨?_, rfl⟩ .nil)⟩ <;> decide
  have second : Passes track.options [.bool true, .bool false] others spelled.args := by
    refine ⟨0, others ++ _, rfl, List.perm_append_comm, ?_⟩
    refine .cons ⟨?_, rfl⟩ (.cons ⟨?_, rfl⟩ (.cons ⟨?_, rfl⟩ (.cons ⟨?_, rfl⟩ .nil))) <;> decide
  exact ⟨_, others, givable, first, second, read_eq_of_passes track givable first second, rfl⟩

end Marker

end Marksmith

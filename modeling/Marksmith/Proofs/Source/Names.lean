import Marksmith.Source.File
import Marksmith.Source.FreshNames
import Mathlib.Data.List.Nodup
import Mathlib.Data.List.Perm.Subperm
import Mathlib.Order.Bounds.Basic

/-!
Names with numbers behind them, and what they keep apart.

* `numbered_inj`: a numbered name can be read in one way only;
* `isLeast_leastNumber`, `searchEnds_iff`: the number behind a name that is taken is the least one
  that makes it new, and a search that tries number after number ends there;
* `next_notMem`, `nodup_answers`: names that a scope gives are new in it, whatever has been asked of
  it before;
* `isFresh_allocate`: which name a scope gives;
* `nameFor_inj`: the name of a generated file tells its kind and the stem that stands for the
  definition, whose arity is a number behind its name;
* `stem_eq_iff`: stems tell definitions apart, unless one without type parameters is spelled like
  the stem of one with type parameters.
-/

namespace Marksmith

namespace Source.FreshNames

/-! ### Numbered names -/

/-- A list is split at the last occurrence of an element in one way only. -/
theorem append_cons_inj {α : Type} {a : α} {front front' back back' : List α} (last : a ∉ back)
    (last' : a ∉ back') (same : front ++ a :: back = front' ++ a :: back') :
    front = front' ∧ back = back' := by
  rcases List.append_eq_append_iff.mp same with ⟨middle, front', rest⟩ | ⟨middle, front, rest⟩
  · cases middle with
    | nil =>
      rw [List.append_nil] at front'
      exact ⟨front'.symm, (List.cons.inj rest).2⟩
    | cons b middle =>
      have inner : back = middle ++ a :: back' := (List.cons.inj rest).2
      exact absurd (inner ▸ List.mem_append_right _ List.mem_cons_self) last
  · cases middle with
    | nil =>
      rw [List.append_nil] at front
      exact ⟨front, (List.cons.inj rest).2.symm⟩
    | cons b middle =>
      have inner : back' = middle ++ a :: back := (List.cons.inj rest).2
      exact absurd (inner ▸ List.mem_append_right _ List.mem_cons_self) last'

theorem underscore_notMem_toString (n : Nat) : '_' ∉ (toString n).toList := by
  intro mem
  rw [Nat.toString_eq_repr, Nat.toList_repr] at mem
  exact absurd (Nat.isDigit_of_mem_toDigits (by decide) (by decide) mem) (by decide)

theorem eq_of_digits {n n' : Nat} (same : (toString n).toList = (toString n').toList) : n = n' := by
  have number := congrArg (fun digits => Nat.ofDigitChars 10 digits 0) same
  simpa [Nat.toString_eq_ofList_toDigits] using number

/-- A numbered name can be read in one way only. -/
theorem numbered_inj {base base' : String} {n n' : Nat} :
    numbered base n = numbered base' n' ↔ base = base' ∧ n = n' := by
  refine ⟨fun same => ?_, fun ⟨same, number⟩ => by rw [same, number]⟩
  have chars : base.toList ++ '_' :: (toString n).toList
      = base'.toList ++ '_' :: (toString n').toList := by
    simpa [numbered] using congrArg String.toList same
  obtain ⟨front, back⟩ :=
    append_cons_inj (underscore_notMem_toString n) (underscore_notMem_toString n') chars
  exact ⟨String.toList_injective front, eq_of_digits back⟩

/-! ### New names -/

variable (names : FreshNames) (base : String)

/-- One of the numbers that are tried makes a name new, as there are more of them than names that
are taken. -/
theorem numbered_leastNumber_notMem (taken : List String) :
    numbered base (leastNumber taken base) ∉ taken := by
  cases found : (List.range' 2 (taken.length + 1)).find?
      fun n => !taken.contains (numbered base n) with
  | some n =>
    rw [leastNumber, found]
    have new := List.find?_some found
    rwa [Bool.not_eq_true', ← Bool.not_eq_true, List.contains_iff_mem] at new
  | none =>
    have within : (List.range' 2 (taken.length + 1)).map (numbered base) ⊆ taken := by
      intro name mem
      obtain ⟨n, tried, rfl⟩ := List.mem_map.mp mem
      have there := List.find?_eq_none.mp found n tried
      rwa [Bool.not_eq_true', Bool.not_eq_false, List.contains_iff_mem] at there
    have distinct : ((List.range' 2 (taken.length + 1)).map (numbered base)).Nodup :=
      List.Nodup.map (fun _ _ same => (numbered_inj.mp same).2) (List.nodup_range' 1)
    have short := (distinct.subperm within).length_le
    rw [List.length_map, List.length_range'] at short
    omega

theorem next_notMem : names.next base ∉ names.taken := by
  rw [next]
  split
  · exact numbered_leastNumber_notMem base names.taken
  · next new => rwa [List.contains_iff_mem] at new

@[simp] theorem length_allocateAll (bases : List String) :
    (names.allocateAll bases).length = bases.length := by
  induction bases generalizing names with
  | nil => rfl
  | cons base bases ih => rw [allocateAll, List.length_cons, ih, List.length_cons]

/-- A search that tries the numbers from `n` on one after the other, until one makes a name new,
ends at `m`. -/
inductive SearchEnds (taken : List String) (base : String) : Nat → Nat → Prop
  | found {n : Nat} (free : numbered base n ∉ taken) : SearchEnds taken base n n
  | next {n m : Nat} (tried : numbered base n ∈ taken) (later : SearchEnds taken base (n + 1) m) :
      SearchEnds taken base n m

theorem searchEnds_iff {taken : List String} {base : String} {n m : Nat} :
    SearchEnds taken base n m ↔ IsLeast {i | n ≤ i ∧ numbered base i ∉ taken} m := by
  constructor
  · intro ends
    induction ends with
    | found free => exact ⟨⟨Nat.le_refl _, free⟩, fun i here => here.1⟩
    | @next n m tried later ih =>
      refine ⟨⟨Nat.le_of_succ_le ih.1.1, ih.1.2⟩, fun i ⟨start, free⟩ => ih.2 ⟨?_, free⟩⟩
      exact Nat.lt_of_le_of_ne start fun same => free (same ▸ tried)
  · rintro ⟨⟨start, free⟩, least⟩
    -- On the number of tries that fail.
    obtain ⟨tries, rfl⟩ := Nat.exists_eq_add_of_le start
    clear start
    induction tries generalizing n with
    | zero => exact .found free
    | succ tries ih =>
      have tried : numbered base n ∈ taken := by
        by_contra new
        have := least ⟨Nat.le_refl n, new⟩
        omega
      have shift : n + (tries + 1) = n + 1 + tries := by omega
      rw [shift] at free least ⊢
      exact .next tried (ih (fun i ⟨further, free⟩ => least ⟨Nat.le_of_succ_le further, free⟩) free)

/-- The number behind a name that is taken is the least one that makes it new. -/
theorem isLeast_leastNumber (taken : List String) (base : String) :
    IsLeast {i | 2 ≤ i ∧ numbered base i ∉ taken} (leastNumber taken base) := by
  have new := numbered_leastNumber_notMem base taken
  rw [leastNumber] at new ⊢
  cases found : (List.range' 2 (taken.length + 1)).find?
      fun n => !taken.contains (numbered base n) with
  | none =>
    rw [found, Option.getD_none] at new
    exact ⟨⟨Nat.le_refl 2, new⟩, fun i here => here.1⟩
  | some n =>
    rw [found, Option.getD_some] at new
    obtain ⟨-, tried, earlier⟩ := List.find?_range'_eq_some.mp found
    refine ⟨⟨(List.mem_range'_1.mp tried).1, new⟩, fun i ⟨two, free⟩ => ?_⟩
    by_contra less
    exact free (by simpa using earlier i two (Nat.not_le.mp less))

/-! ### Histories -/

/-- What is asked of a scope. -/
inductive Request where
  | reserve (name : String)
  | allocate (base : String)
deriving DecidableEq, Repr

/-- The scope after some requests. -/
def after (names : FreshNames) : List Request → FreshNames
  | [] => names
  | .reserve name :: requests => (names.reserve name).after requests
  | .allocate base :: requests => (names.allocate base).2.after requests

/-- The names that a scope gives at some requests. -/
def answers (names : FreshNames) : List Request → List String
  | [] => []
  | .reserve name :: requests => (names.reserve name).answers requests
  | .allocate base :: requests =>
    (names.allocate base).1 :: (names.allocate base).2.answers requests

/-- The names that some requests reserve. -/
def reserved : List Request → List String
  | [] => []
  | .reserve name :: requests => name :: reserved requests
  | .allocate _ :: requests => reserved requests

/-- What is taken after some requests: what was taken before, and the names that have been reserved
or given since. -/
theorem mem_taken_after {names : FreshNames} {requests : List Request} {name : String} :
    name ∈ (names.after requests).taken ↔
      name ∈ names.taken ∨ name ∈ reserved requests ∨ name ∈ names.answers requests := by
  induction requests generalizing names with
  | nil => simp [after, reserved, answers]
  | cons request requests ih =>
    cases request with
    | reserve other =>
      rw [after, ih, reserved, answers, reserve, List.mem_cons, List.mem_cons]
      tauto
    | allocate base =>
      rw [after, ih, reserved, answers, allocate, reserve, List.mem_cons, List.mem_cons]
      tauto

theorem notMem_taken_of_mem_answers {names : FreshNames} {requests : List Request} {name : String}
    (mem : name ∈ names.answers requests) : name ∉ names.taken := by
  induction requests generalizing names with
  | nil => cases mem
  | cons request requests ih =>
    cases request with
    | reserve other => exact fun taken => ih mem (List.mem_cons_of_mem _ taken)
    | allocate base =>
      rcases List.mem_cons.mp mem with rfl | later
      · exact names.next_notMem base
      · exact fun taken => ih later (List.mem_cons_of_mem _ taken)

theorem nodup_answers (names : FreshNames) (requests : List Request) :
    (names.answers requests).Nodup := by
  induction requests generalizing names with
  | nil => exact .nil
  | cons request requests ih =>
    cases request with
    | reserve other => exact ih _
    | allocate base =>
      rw [answers, List.nodup_cons]
      exact ⟨fun later => notMem_taken_of_mem_answers later List.mem_cons_self, ih _⟩

/-- The names that are allocated one after the other. -/
theorem answers_allocate (names : FreshNames) (bases : List String) :
    names.answers (bases.map .allocate) = names.allocateAll bases := by
  induction bases generalizing names with
  | nil => rfl
  | cons base bases ih => rw [List.map_cons, answers, ih, allocateAll, allocate]

theorem notMem_taken_of_mem_allocateAll (names : FreshNames) {bases : List String} {name : String}
    (mem : name ∈ names.allocateAll bases) : name ∉ names.taken :=
  notMem_taken_of_mem_answers (answers_allocate names bases ▸ mem)

theorem nodup_allocateAll (names : FreshNames) (bases : List String) :
    (names.allocateAll bases).Nodup :=
  answers_allocate names bases ▸ nodup_answers names _

theorem numbered_ne (base : String) (n : Nat) : numbered base n ≠ base := by
  intro same
  have length := congrArg String.length same
  rw [numbered, String.length_append, String.length_append] at length
  have mark : "_".length = 1 := rfl
  omega

/-- A name for a base where some names are known: a new one, the base itself exactly if that is new,
and else the base with the least number from two on that makes it new, at which a search ends. -/
structure IsFresh (known : List String) (base name : String) : Prop where
  new : name ∉ known
  bare : name = base ↔ base ∉ known
  numbered : name = base ∨ ∃ n, SearchEnds known base 2 n ∧
    IsLeast {i | 2 ≤ i ∧ FreshNames.numbered base i ∉ known} n ∧ name = FreshNames.numbered base n

theorem isFresh_next (names : FreshNames) (base : String) :
    IsFresh names.taken base (names.next base) := by
  have least := isLeast_leastNumber names.taken base
  refine ⟨names.next_notMem base, ?_, ?_⟩ <;> rw [next]
  · split
    · next known =>
      rw [List.contains_iff_mem] at known
      exact iff_of_false (numbered_ne base _) (not_not_intro known)
    · next new =>
      rw [List.contains_iff_mem] at new
      exact iff_of_true rfl new
  · split
    · exact .inr ⟨_, searchEnds_iff.mpr least, least, rfl⟩
    · exact .inl rfl

/-- What is fresh depends on which names are known, not on their order. -/
theorem IsFresh.congr {known known' : List String} {base name : String}
    (fresh : IsFresh known base name) (same : ∀ other, other ∈ known ↔ other ∈ known') :
    IsFresh known' base name := by
  obtain ⟨new, bare, numbered⟩ := fresh
  simp only [searchEnds_iff, same] at new bare numbered
  exact ⟨new, bare, by simpa only [searchEnds_iff] using numbered⟩

/-- After any requests to a scope, the names that it has given differ, and the next one that it
gives is fresh among those that have been reserved or given. -/
theorem isFresh_allocate (requests : List Request) (base : String) :
    (answers {} requests).Nodup ∧
      IsFresh (reserved requests ++ answers {} requests) base
        ((after {} requests).allocate base).1 := by
  refine ⟨nodup_answers _ _, (isFresh_next (after {} requests) base).congr fun name => ?_⟩
  rw [mem_taken_after, List.mem_append]
  exact or_iff_right List.not_mem_nil

example : answers {} [.reserve "Water_2", .allocate "Water", .reserve "None", .allocate "Water",
    .allocate "None", .allocate "Water"] = ["Water", "Water_3", "None_2", "Water_4"] := by
  decide

end Source.FreshNames

/-! ### Names of files -/

namespace SourceFile

open Source.FreshNames

/-- What the name of a file begins with: the definition. -/
def stem (s : Symbol) : String := if s.arity = 0 then s.name else numbered s.name s.arity

theorem nameFor_eq (s : Symbol) (kind : SourceKind) :
    nameFor s kind = stem s ++ "." ++ kind.text ++ ending := rfl

/-- A name that ends in a word without points can be read in one way only. -/
theorem dotted_inj {front front' word word' : String} (last : '.' ∉ word.toList)
    (last' : '.' ∉ word'.toList) :
    front ++ "." ++ word ++ ending = front' ++ "." ++ word' ++ ending ↔
      front = front' ∧ word = word' := by
  refine ⟨fun same => ?_, fun ⟨same, words⟩ => by rw [same, words]⟩
  have chars : front.toList ++ '.' :: word.toList = front'.toList ++ '.' :: word'.toList := by
    have both := congrArg String.toList same
    simp only [String.toList_append] at both
    simpa using List.append_cancel_right both
  obtain ⟨fronts, words⟩ := append_cons_inj last last' chars
  exact ⟨String.toList_injective fronts, String.toList_injective words⟩

theorem point_notMem_text (kind : SourceKind) : '.' ∉ kind.text.toList := by
  cases kind <;> decide

theorem text_injective {kind other : SourceKind} (same : kind.text = other.text) :
    kind = other := by
  revert same
  cases kind <;> cases other <;> decide

/-- The name of a file tells its kind and the stem of its definition. -/
theorem nameFor_inj {s t : Symbol} {kind other : SourceKind} :
    nameFor s kind = nameFor t other ↔ stem s = stem t ∧ kind = other := by
  rw [nameFor_eq, nameFor_eq, dotted_inj (point_notMem_text kind) (point_notMem_text other)]
  exact and_congr_right fun _ => ⟨text_injective, congrArg SourceKind.text⟩

/-- A definition without type parameters that is spelled like the stem of one with type parameters,
such as `Pool_1` beside `Pool<T>`. -/
def Mimics (s t : Symbol) : Prop :=
  s.arity = 0 ∧ t.arity ≠ 0 ∧ s.name = numbered t.name t.arity

/-- Stems tell definitions apart, unless one mimics the other. -/
theorem stem_eq_iff {s t : Symbol} : stem s = stem t ↔ s = t ∨ Mimics s t ∨ Mimics t s := by
  obtain ⟨name, arity⟩ := s
  obtain ⟨name', arity'⟩ := t
  rw [stem, stem, Mimics, Mimics, Symbol.mk.injEq]
  by_cases plain : arity = 0
  · by_cases plain' : arity' = 0
    · simp [plain, plain']
    · simp [plain, plain', Ne.symm plain']
  · by_cases plain' : arity' = 0
    · simp [plain, plain', eq_comm]
    · simp [plain, plain', numbered_inj]

end SourceFile

end Marksmith

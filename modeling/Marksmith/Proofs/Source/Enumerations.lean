import Marksmith.Constants.Source
import Marksmith.Proofs.Source.Names
import Marksmith.Proofs.Union.Sources

/-!
Members of the generated enumerations as identifiers of the target language. There, `@x` and `x` are
the same identifier, while `@x` and `x` are different names for a scope.

* `leastNumber_eq`: the number behind a name that is taken;
* `mem_allocateAll_iff`, `numbered_mem_allocateAll_iff`: which names a scope gives;
* `Identifier.isSanitized_of_sanitize`: an identifier that is made from a text is an escaped keyword
  or begins with no `@`;
* `Identifier.distinct_allocateAll_iff`: the names that a scope gives are different identifiers
  unless they clash, as the second name that is made `@class` and one that is made `class_2` do;
* `distinct_members_iff`: so are the members of the enumerations of tags, layers, layer masks and
  type tags.
-/

namespace Marksmith

/-! ### Names that a scope gives -/

namespace Source.FreshNames

variable {names : FreshNames} {base name : String} {bases : List String}

theorem leastNumber_eq {taken : List String} {n : Nat} (two : 2 ≤ n)
    (free : numbered base n ∉ taken) (below : ∀ i, 2 ≤ i → i < n → numbered base i ∈ taken) :
    leastNumber taken base = n := by
  refine (isLeast_leastNumber taken base).unique ⟨⟨two, free⟩, fun i ⟨two, new⟩ => ?_⟩
  exact Nat.not_lt.mp fun less => new (below i two less)

theorem two_le_leastNumber (taken : List String) (base : String) :
    2 ≤ leastNumber taken base :=
  (isLeast_leastNumber taken base).1.1

/-- A name that a scope gives is the one that was asked for, or that one with a number. -/
theorem next_cases (names : FreshNames) (base : String) :
    names.next base = base ∨ ∃ n, 2 ≤ n ∧ names.next base = numbered base n := by
  rw [next]
  split
  · exact .inr ⟨_, two_le_leastNumber _ _, rfl⟩
  · exact .inl rfl

theorem ne_next (names : FreshNames) (ne : name ≠ base) (plain : ∀ n, name ≠ numbered base n) :
    name ≠ names.next base := by
  rcases names.next_cases base with same | ⟨n, -, same⟩
  · rwa [same]
  · rw [same]
    exact plain n

theorem next_of_notMem (free : base ∉ names.taken) : names.next base = base := by
  rw [next, if_neg (by simpa using free)]

theorem mem_allocateAll_cases (mem : name ∈ names.allocateAll bases) :
    name ∈ bases ∨ ∃ base ∈ bases, ∃ n, 2 ≤ n ∧ name = numbered base n := by
  induction bases generalizing names with
  | nil => cases mem
  | cons base bases ih =>
    rcases List.mem_cons.mp mem with here | later
    · rcases names.next_cases base with same | ⟨n, two, same⟩
      · exact .inl (List.mem_cons.mpr (.inl (here.trans same)))
      · exact .inr ⟨base, List.mem_cons_self, n, two, here.trans same⟩
    · rcases ih later with asked | ⟨base, asked, numbered⟩
      · exact .inl (List.mem_cons_of_mem _ asked)
      · exact .inr ⟨base, List.mem_cons_of_mem _ asked, numbered⟩

/-- A free name that is none of the others with a number is given exactly if it is asked for. -/
theorem mem_allocateAll_iff (free : name ∉ names.taken)
    (plain : ∀ base ∈ bases, ∀ n, name ≠ numbered base n) :
    name ∈ names.allocateAll bases ↔ name ∈ bases := by
  constructor
  · intro mem
    rcases mem_allocateAll_cases mem with asked | ⟨base, asked, n, -, same⟩
    · exact asked
    · exact absurd same (plain base asked n)
  · intro asked
    induction bases generalizing names with
    | nil => cases asked
    | cons base bases ih =>
      rw [allocateAll, List.mem_cons]
      by_cases here : name = names.next base
      · exact .inl here
      · have later : name ∈ bases := by
          rcases List.mem_cons.mp asked with rfl | later
          · exact absurd (next_of_notMem free).symm here
          · exact later
        refine .inr (ih ?_ (fun base mem => plain base (List.mem_cons_of_mem _ mem)) later)
        exact List.mem_cons.not.mpr (not_or.mpr ⟨here, free⟩)

/-- The scope has given a name so many times, the first time as it is and then with numbers. -/
structure Given (names : FreshNames) (base : String) (times : Nat) : Prop where
  bare : base ∈ names.taken ↔ 0 < times
  numbered : ∀ n, 2 ≤ n → (numbered base n ∈ names.taken ↔ n ≤ times)

theorem Given.next {times : Nat} (given : names.Given base times) :
    names.next base = if times = 0 then base else FreshNames.numbered base (times + 1) := by
  by_cases first : times = 0
  · rw [if_pos first, next_of_notMem fun taken => ?_]
    have := given.bare.mp taken
    omega
  · have least : leastNumber names.taken base = times + 1 := by
      refine leastNumber_eq (by omega) (fun taken => ?_) fun i two below => ?_
      · have := (given.numbered (times + 1) (by omega)).mp taken
        omega
      · exact (given.numbered i two).mpr (by omega)
    have taken := given.bare.mpr (Nat.pos_of_ne_zero first)
    rw [if_neg first, FreshNames.next, if_pos (List.contains_iff_mem.mpr taken), least]

/-- Asking once more. -/
theorem Given.reserve {times : Nat} (given : names.Given base times)
    (apart : ∀ n, base ≠ FreshNames.numbered base n) :
    (names.reserve (names.next base)).Given base (times + 1) := by
  rw [given.next]
  refine ⟨?_, fun n two => ?_⟩
  · by_cases first : times = 0
    · simp [FreshNames.reserve, first]
    · have := given.bare.mpr (by omega)
      simp [FreshNames.reserve, this]
  · have := given.numbered n two
    by_cases first : times = 0
    · simp only [FreshNames.reserve, first, if_pos, List.mem_cons, Ne.symm (apart n), false_or,
        this]
      omega
    · simp only [FreshNames.reserve, first, if_neg, List.mem_cons, numbered_inj, true_and, this,
        not_false_eq_true]
      omega

/-- Asking for another name. -/
theorem Given.reserve_other {times : Nat} {other : String} (given : names.Given base times)
    (ne : other ≠ base) (apart : ∀ n, base ≠ FreshNames.numbered other n)
    (apart' : ∀ n, other ≠ FreshNames.numbered base n) :
    (names.reserve (names.next other)).Given base times := by
  refine ⟨?_, fun n two => ?_⟩
  · rw [FreshNames.reserve, List.mem_cons, or_iff_right (names.ne_next ne.symm apart)]
    exact given.bare
  · have numbered : FreshNames.numbered base n ≠ names.next other :=
      names.ne_next (apart' n).symm fun m same => ne (numbered_inj.mp same).1.symm
    rw [FreshNames.reserve, List.mem_cons, or_iff_right numbered]
    exact given.numbered n two

/-- A name is given with a number exactly if it is asked for as many times. -/
theorem Given.numbered_mem_allocateAll_iff {times : Nat} (given : names.Given base times)
    (bare : ∀ other n, base ≠ FreshNames.numbered other n)
    (apart : ∀ other ∈ bases, ∀ n, other ≠ FreshNames.numbered base n) {n : Nat} (two : 2 ≤ n) :
    FreshNames.numbered base n ∈ names.allocateAll bases ↔
      times < n ∧ n ≤ times + bases.count base := by
  induction bases generalizing names times with
  | nil =>
    rw [allocateAll, List.count_nil]
    simp only [List.not_mem_nil, false_iff, not_and]
    omega
  | cons other bases ih =>
    obtain ⟨here, later⟩ := List.forall_mem_cons.mp apart
    rw [allocateAll, List.mem_cons]
    by_cases same : other = base
    · subst same
      rw [ih (given.reserve (bare other)) later, List.count_cons_self, given.next]
      by_cases first : times = 0
      · rw [if_pos first, or_iff_right (Ne.symm (bare other n))]
        omega
      · rw [if_neg first, numbered_inj, and_iff_right rfl]
        omega
    · have kept := given.reserve_other same (bare other) here
      have numbered : FreshNames.numbered base n ≠ names.next other :=
        names.ne_next (here n).symm fun m equal => same (numbered_inj.mp equal).1.symm
      rw [ih kept later, List.count_cons_of_ne same, or_iff_right numbered]

/-- If no name is asked for twice, only those that begin like the names taken at first get
numbers. -/
theorem mem_allocateAll_iff_of_nodup {front : List Char} (nodup : bases.Nodup)
    (reserved : ∀ base ∈ bases, base ∈ names.taken → front <+: base.toList)
    (other : ¬front <+: name.toList) : name ∈ names.allocateAll bases ↔ name ∈ bases := by
  induction bases generalizing names with
  | nil => rfl
  | cons base bases ih =>
    obtain ⟨once, nodup⟩ := List.nodup_cons.mp nodup
    obtain ⟨here, later⟩ := List.forall_mem_cons.mp reserved
    rw [allocateAll, List.mem_cons, List.mem_cons]
    by_cases taken : base ∈ names.taken
    · have begins : front <+: (names.next base).toList := by
        rcases names.next_cases base with same | ⟨n, -, same⟩
        · rw [same]
          exact here taken
        · rw [same, numbered, String.toList_append, String.toList_append, List.append_assoc]
          exact (here taken).trans (List.prefix_append _ _)
      have ne : name ≠ names.next base := fun same => other (same ▸ begins)
      have ne' : name ≠ base := fun same => other (same ▸ here taken)
      rw [or_iff_right ne, or_iff_right ne']
      refine ih nodup fun later_base mem taken => ?_
      rcases List.mem_cons.mp taken with rfl | taken
      · exact begins
      · exact later _ mem taken
    · rw [next_of_notMem taken]
      refine or_congr_right (ih nodup fun later_base mem taken => ?_)
      rcases List.mem_cons.mp taken with rfl | taken
      · exact absurd mem once
      · exact later _ mem taken

end Source.FreshNames

/-! ### Identifiers -/

namespace Identifier

open Source (FreshNames)
open Source.FreshNames (numbered)

variable {name : String} {names bases reserved : List String}

/-- The identifier that a name stands for. An `@` in front does not belong to it. -/
def denoted (name : String) : List Char :=
  match name.toList with
  | '@' :: rest => rest
  | s => s

/-- The names stand for different identifiers. -/
def Distinct (names : List String) : Prop := (names.map denoted).Nodup

instance (names : List String) : Decidable (Distinct names) :=
  inferInstanceAs (Decidable (List.Nodup _))

/-- The name has an `@` in front. -/
def IsEscaped (name : String) : Prop := name.toList.head? = some '@'

instance (name : String) : Decidable (IsEscaped name) :=
  inferInstanceAs (Decidable (_ = _))

theorem denoted_of_not_isEscaped (bare : ¬IsEscaped name) : denoted name = name.toList := by
  unfold denoted
  split
  · next rest split => exact absurd (by rw [IsEscaped, split]; rfl) bare
  · rfl

theorem toList_escaped (name : String) : ("@" ++ name).toList = '@' :: name.toList :=
  String.toList_append

theorem denoted_escaped (name : String) : denoted ("@" ++ name) = name.toList := by
  rw [denoted, toList_escaped]
  rfl

theorem isEscaped_escaped (name : String) : IsEscaped ("@" ++ name) := by
  rw [IsEscaped, toList_escaped, List.head?_cons]

theorem exists_escaped (escaped : IsEscaped name) : ∃ bare, name = "@" ++ bare := by
  rw [IsEscaped, List.head?_eq_some_iff] at escaped
  obtain ⟨rest, split⟩ := escaped
  refine ⟨String.ofList rest, String.toList_injective ?_⟩
  rw [split, toList_escaped, String.toList_ofList]

/-- Different names stand for different identifiers unless one is the other with an `@` in front. -/
theorem distinct_iff_of_nodup (nodup : names.Nodup) :
    Distinct names ↔ ∀ bare, ¬IsEscaped bare → "@" ++ bare ∈ names → bare ∉ names := by
  rw [Distinct, List.nodup_map_iff_inj_on nodup]
  constructor
  · intro inj bare plain mem mem'
    have same := inj _ mem _ mem' (by rw [denoted_escaped, denoted_of_not_isEscaped plain])
    rw [← same] at plain
    exact plain (isEscaped_escaped bare)
  · intro apart x memX y memY same
    by_cases escX : IsEscaped x
    · obtain ⟨x, rfl⟩ := exists_escaped escX
      by_cases escY : IsEscaped y
      · obtain ⟨y, rfl⟩ := exists_escaped escY
        rw [denoted_escaped, denoted_escaped] at same
        rw [String.toList_injective same]
      · rw [denoted_escaped, denoted_of_not_isEscaped escY] at same
        rw [String.toList_injective same] at memX
        exact absurd memY (apart y escY memX)
    · by_cases escY : IsEscaped y
      · obtain ⟨y, rfl⟩ := exists_escaped escY
        rw [denoted_escaped, denoted_of_not_isEscaped escX] at same
        rw [← String.toList_injective same] at memY
        exact absurd memX (apart x escX memY)
      · rw [denoted_of_not_isEscaped escX, denoted_of_not_isEscaped escY] at same
        exact String.toList_injective same

/-! ### Names that are made from texts -/

/-- The name is an escaped keyword, or it is no keyword and begins with no `@`. -/
def IsSanitized (name : String) : Prop :=
  (∃ k ∈ keywords, name = "@" ++ k) ∨ name ∉ keywords ∧ ¬IsEscaped name

/-- The first character that is kept is part of an identifier. -/
theorem head_keptChars {s kept : List Char} {c : Char}
    (made : keptChars false false s = c :: kept) :
    (Text.isAlphanumeric c || c == '_') = true := by
  induction s with
  | nil => cases made
  | cons d s ih =>
    rw [keptChars] at made
    split at made
    · next part =>
      obtain ⟨rfl, -⟩ := List.cons.inj made
      exact part
    · exact ih made

theorem isSanitized_of_sanitize {text : String} (made : sanitize text = some name) :
    IsSanitized name := by
  rw [sanitize] at made
  split at made
  · cases made
  · next kept nonempty =>
    cases made
    obtain ⟨c, rest, split⟩ := List.exists_cons_of_ne_nil nonempty
    have part := head_keptChars split
    have bare : (guardDigit (keptChars false false text.toList)).head? ≠ some '@' := by
      rw [guardDigit]
      split
      · simp
      · rw [split, List.head?_cons]
        rintro same
        cases same
        exact absurd part (by decide)
    rw [guardKeyword]
    split
    · next keyword =>
      refine .inl ⟨_, List.contains_iff_mem.mp keyword, String.toList_injective ?_⟩
      rw [toList_escaped, String.toList_ofList, String.toList_ofList]
    · next other =>
      refine .inr ⟨fun mem => other (List.contains_iff_mem.mpr mem), ?_⟩
      rwa [IsEscaped, String.toList_ofList]

/-- A keyword begins with a small letter and has no underscore. -/
theorem keyword_letters :
    ∀ k ∈ keywords, '_' ∉ k.toList ∧ k.toList.head?.any Char.isLower = true := by
  decide +kernel

theorem not_isEscaped_keyword {k : String} (mem : k ∈ keywords) : ¬IsEscaped k := by
  intro escaped
  have small := (keyword_letters k mem).2
  rw [IsEscaped] at escaped
  rw [escaped] at small
  exact absurd small (by decide)

theorem underscore_mem_numbered (base : String) (n : Nat) : '_' ∈ (numbered base n).toList := by
  rw [numbered, String.toList_append, String.toList_append]
  exact List.mem_append_left _ (List.mem_append_right _ (List.mem_singleton_self _))

theorem keyword_ne_numbered {k : String} (mem : k ∈ keywords) (base : String) (n : Nat) :
    k ≠ numbered base n := by
  rintro rfl
  exact (keyword_letters _ mem).1 (underscore_mem_numbered base n)

theorem escaped_ne_numbered {k : String} (mem : k ∈ keywords) (base : String) (n : Nat) :
    "@" ++ k ≠ numbered base n := by
  intro same
  have inside := underscore_mem_numbered base n
  rw [← same, toList_escaped, List.mem_cons] at inside
  exact (keyword_letters _ mem).1 (inside.resolve_left (by decide))

theorem numbered_escaped (base : String) (n : Nat) :
    numbered ("@" ++ base) n = "@" ++ numbered base n := by
  rw [numbered, numbered, String.append_assoc, String.append_assoc, String.append_assoc]

/-- With a number, a name that is escaped still is, and no other one becomes so. -/
theorem isEscaped_numbered_iff {base : String} {n : Nat} :
    IsEscaped (numbered base n) ↔ IsEscaped base := by
  rw [IsEscaped, IsEscaped, numbered, String.toList_append, String.toList_append]
  cases base.toList with
  | nil => simp
  | cons c rest => simp

theorem IsSanitized.not_mem_keywords (made : IsSanitized name) : name ∉ keywords := by
  rcases made with ⟨k, mem, rfl⟩ | ⟨other, -⟩
  · exact fun mem' => not_isEscaped_keyword mem' (isEscaped_escaped k)
  · exact other

theorem IsSanitized.exists_keyword (made : IsSanitized name) (escaped : IsEscaped name) :
    ∃ k ∈ keywords, name = "@" ++ k :=
  made.resolve_right fun other => other.2 escaped

/-- An escaped name that a scope gives is a keyword, or a keyword with a number. -/
theorem exists_keyword_of_mem_allocateAll {scope : FreshNames} {bare : String}
    (made : ∀ base ∈ bases, IsSanitized base) (mem : "@" ++ bare ∈ scope.allocateAll bases) :
    ∃ k ∈ keywords, bare = k ∨ ∃ n, 2 ≤ n ∧ bare = numbered k n := by
  rcases FreshNames.mem_allocateAll_cases mem with asked | ⟨base, asked, n, two, same⟩
  · obtain ⟨k, keyword, same⟩ := (made _ asked).exists_keyword (isEscaped_escaped bare)
    refine ⟨k, keyword, .inl (String.toList_injective ?_)⟩
    have chars := congrArg String.toList same
    rw [toList_escaped, toList_escaped] at chars
    exact (List.cons.inj chars).2
  · have escaped : IsEscaped base :=
      isEscaped_numbered_iff.mp (same ▸ isEscaped_escaped bare)
    obtain ⟨k, keyword, rfl⟩ := (made _ asked).exists_keyword escaped
    refine ⟨k, keyword, .inr ⟨n, two, String.toList_injective ?_⟩⟩
    have chars := congrArg String.toList same
    rw [numbered_escaped, toList_escaped, toList_escaped] at chars
    exact (List.cons.inj chars).2

theorem isLower_head_of_mem_allocateAll {scope : FreshNames} {bare : String}
    (made : ∀ base ∈ bases, IsSanitized base) (mem : "@" ++ bare ∈ scope.allocateAll bases) :
    bare.toList.head?.any Char.isLower = true := by
  obtain ⟨k, keyword, rfl | ⟨n, -, rfl⟩⟩ := exists_keyword_of_mem_allocateAll made mem
  · exact (keyword_letters _ keyword).2
  · have small := (keyword_letters k keyword).2
    rw [numbered, String.toList_append, String.toList_append]
    cases letters : k.toList with
    | nil =>
      rw [letters] at small
      cases small
    | cons c rest =>
      rw [letters] at small
      exact small

/-! ### Clashes -/

/-- Among the names that are asked for, a keyword is escaped so many times that it gets a number
which another name has behind the same keyword. -/
def Clash (bases : List String) : Prop :=
  ∃ k ∈ keywords, ∃ n, 2 ≤ n ∧ n ≤ bases.count ("@" ++ k) ∧ numbered k n ∈ bases

/-- The name cannot be taken for a keyword, escaped or with a number. -/
def IsReserved (name : String) : Prop := '_' ∉ name.toList ∧ ¬IsEscaped name ∧ name ∉ keywords

instance (name : String) : Decidable (IsReserved name) :=
  inferInstanceAs (Decidable (_ ∧ _))

section

variable (plain : ∀ r ∈ reserved, IsReserved r) (made : ∀ base ∈ bases, IsSanitized base)

include plain

theorem escaped_notMem_reserved (bare : String) : "@" ++ bare ∉ reserved := fun mem =>
  (plain _ mem).2.1 (isEscaped_escaped bare)

include made

/-- A keyword with a number is given as it is: nothing that is asked for gets there by a number. -/
theorem numbered_mem_iff {k : String} (keyword : k ∈ keywords) (n : Nat) :
    numbered k n ∈ reserved ++ FreshNames.allocateAll ⟨reserved⟩ bases ↔
      numbered k n ∈ bases := by
  have free : numbered k n ∉ reserved := fun mem => (plain _ mem).1 (underscore_mem_numbered k n)
  rw [List.mem_append, or_iff_right free]
  refine FreshNames.mem_allocateAll_iff free fun base mem m same => ?_
  rw [(FreshNames.numbered_inj.mp same).1] at keyword
  exact (made base mem).not_mem_keywords keyword

/-- An escaped keyword gets the numbers up to how often it is asked for. -/
theorem escaped_numbered_mem_iff {k : String} (keyword : k ∈ keywords) {n : Nat} (two : 2 ≤ n) :
    "@" ++ numbered k n ∈ reserved ++ FreshNames.allocateAll ⟨reserved⟩ bases ↔
      n ≤ bases.count ("@" ++ k) := by
  have unescaped := escaped_notMem_reserved plain
  have given : FreshNames.Given ⟨reserved⟩ ("@" ++ k) 0 := by
    refine ⟨⟨fun mem => absurd mem (unescaped k), fun less => absurd less (by omega)⟩, ?_⟩
    intro m two
    rw [numbered_escaped]
    exact ⟨fun mem => absurd mem (unescaped _), fun less => absurd less (by omega)⟩
  rw [List.mem_append, or_iff_right (unescaped _), ← numbered_escaped,
    given.numbered_mem_allocateAll_iff (escaped_ne_numbered keyword) ?_ two]
  · omega
  · rintro base mem m rfl
    have escaped : IsEscaped (numbered ("@" ++ k) m) :=
      isEscaped_numbered_iff.mpr (isEscaped_escaped k)
    obtain ⟨k', keyword', same⟩ := (made _ mem).exists_keyword escaped
    exact escaped_ne_numbered keyword' _ _ same.symm

/-- A keyword itself is not given. -/
theorem keyword_notMem {k : String} (keyword : k ∈ keywords) :
    k ∉ reserved ++ FreshNames.allocateAll ⟨reserved⟩ bases := by
  intro mem
  rcases List.mem_append.mp mem with mem | mem
  · exact (plain _ mem).2.2 keyword
  · rcases FreshNames.mem_allocateAll_cases mem with asked | ⟨base, asked, n, -, same⟩
    · exact (made _ asked).not_mem_keywords keyword
    · exact keyword_ne_numbered keyword base n same

/-- The names that a scope gives for names made from texts are different identifiers, together with
those it reserves, unless they clash. -/
theorem distinct_allocateAll_iff (nodup : reserved.Nodup) :
    Distinct (reserved ++ FreshNames.allocateAll ⟨reserved⟩ bases) ↔ ¬Clash bases := by
  have apart : (reserved ++ FreshNames.allocateAll ⟨reserved⟩ bases).Nodup := by
    refine nodup.append (FreshNames.nodup_allocateAll _ _) fun r mem allocated => ?_
    exact FreshNames.notMem_taken_of_mem_allocateAll _ allocated mem
  rw [distinct_iff_of_nodup apart]
  constructor
  · rintro distinct ⟨k, keyword, n, two, often, asked⟩
    have bare : ¬IsEscaped (numbered k n) := fun escaped =>
      not_isEscaped_keyword keyword (isEscaped_numbered_iff.mp escaped)
    exact distinct _ bare ((escaped_numbered_mem_iff plain made keyword two).mpr often)
      ((numbered_mem_iff plain made keyword n).mpr asked)
  · intro none bare _ escaped mem
    have allocated := (List.mem_append.mp escaped).resolve_left (escaped_notMem_reserved plain bare)
    obtain ⟨k, keyword, rfl | ⟨n, two, rfl⟩⟩ := exists_keyword_of_mem_allocateAll made allocated
    · exact keyword_notMem plain made keyword mem
    · exact none ⟨k, keyword, n, two, (escaped_numbered_mem_iff plain made keyword two).mp escaped,
        (numbered_mem_iff plain made keyword n).mp mem⟩

end

end Identifier

/-! ### Enumerations -/

open Source (FreshNames)
open Identifier (Distinct Clash IsSanitized IsReserved IsEscaped)

namespace Constants

variable (manager : TagManager)

/-- The identifiers that are made from the tags. -/
def tagNames : List String := (allTags manager).filterMap Identifier.sanitize

/-- The identifiers that are made from the names of the layers. -/
def layerNames : List String := (namedLayers manager).map (·.2)

theorem isSanitized_tagNames : ∀ name ∈ tagNames manager, IsSanitized name := by
  intro name mem
  obtain ⟨tag, -, made⟩ := List.mem_filterMap.mp mem
  exact Identifier.isSanitized_of_sanitize made

theorem isSanitized_layerNames : ∀ name ∈ layerNames manager, IsSanitized name := by
  intro name mem
  obtain ⟨named, listed, rfl⟩ := List.mem_map.mp mem
  obtain ⟨layer, -, found⟩ := List.mem_filterMap.mp listed
  obtain ⟨ident, made, rfl⟩ := Option.map_eq_some_iff.mp found
  exact Identifier.isSanitized_of_sanitize made

theorem map_names_layerMembers :
    (layerMembers manager).map (·.2) = FreshNames.allocateAll {} (layerNames manager) :=
  List.map_snd_zip (Nat.le_of_eq (by
    rw [FreshNames.length_allocateAll, List.length_map, List.length_map]))

theorem map_names_maskMembers :
    (maskMembers manager).map (·.2)
      = FreshNames.allocateAll ⟨[noLayer]⟩ ((layerMembers manager).map (·.2)) :=
  List.map_snd_zip (Nat.le_of_eq (by
    rw [FreshNames.length_allocateAll, List.length_map, List.length_map]))

theorem distinct_tagMembers_iff :
    Distinct (tagMembers manager) ↔ ¬Clash (tagNames manager) :=
  Identifier.distinct_allocateAll_iff (List.forall_mem_nil _) (isSanitized_tagNames manager)
    List.nodup_nil

theorem distinct_layerMembers_iff :
    Distinct ((layerMembers manager).map (·.2)) ↔ ¬Clash (layerNames manager) := by
  rw [map_names_layerMembers]
  exact Identifier.distinct_allocateAll_iff (List.forall_mem_nil _)
    (isSanitized_layerNames manager) List.nodup_nil

/-- The member for no layer takes no other name than those that begin like it, so masks are told
apart as layers are. -/
theorem distinct_maskMembers_iff :
    Distinct (noLayer :: (maskMembers manager).map (·.2)) ↔
      Distinct ((layerMembers manager).map (·.2)) := by
  have once : ((layerMembers manager).map (·.2)).Nodup := by
    rw [map_names_layerMembers]
    exact FreshNames.nodup_allocateAll _ _
  have apart : (noLayer :: (maskMembers manager).map (·.2)).Nodup := by
    rw [map_names_maskMembers, List.nodup_cons]
    exact ⟨fun mem => FreshNames.notMem_taken_of_mem_allocateAll _ mem List.mem_cons_self,
      FreshNames.nodup_allocateAll _ _⟩
  have kept {name : String} (other : ¬noLayer.toList <+: name.toList) :
      name ∈ noLayer :: (maskMembers manager).map (·.2) ↔
        name ∈ (layerMembers manager).map (·.2) := by
    have ne : name ≠ noLayer := by
      rintro rfl
      exact other (List.prefix_refl _)
    rw [map_names_maskMembers, List.mem_cons, or_iff_right ne]
    refine FreshNames.mem_allocateAll_iff_of_nodup once (fun base _ taken => ?_) other
    exact List.mem_singleton.mp taken ▸ List.prefix_refl _
  have escaped (bare : String) : ¬noLayer.toList <+: ("@" ++ bare).toList := by
    rw [Identifier.toList_escaped]
    rintro ⟨rest, split⟩
    cases split
  rw [Identifier.distinct_iff_of_nodup apart, Identifier.distinct_iff_of_nodup once]
  refine forall_congr' fun bare => imp_congr_right fun _ => ?_
  rw [kept (escaped bare)]
  refine imp_congr_right fun mem => not_congr (kept ?_)
  -- What is escaped is a keyword, and no keyword begins like the member for no layer.
  rw [map_names_layerMembers] at mem
  have small := Identifier.isLower_head_of_mem_allocateAll (isSanitized_layerNames manager) mem
  rintro ⟨rest, split⟩
  rw [← split] at small
  exact absurd (show Char.isLower 'N' = true from small) (by decide)

end Constants

namespace UnionFamily

/-- The names that the variants of a family ask for, in the order of the ids. -/
def variantNames (family : UnionFamily) (ids : List Nat) : List String :=
  (byId ids family.variants).map fun numbered => baseName numbered.2

theorem isSanitized_baseName (v : UnionVariant) : IsSanitized (baseName v) := by
  rw [baseName]
  cases made : Identifier.sanitize v.symbol.simpleName with
  | none => exact .inr (by decide +kernel)
  | some name => exact Identifier.isSanitized_of_sanitize made

theorem distinct_caseNames_iff (family : UnionFamily) (ids : List Nat) :
    Distinct (unsetName :: (family.cases ids).map (·.name)) ↔
      ¬Clash (family.variantNames ids) := by
  rw [map_names_cases]
  refine Identifier.distinct_allocateAll_iff ?_ ?_ (List.nodup_singleton unsetName)
  · exact List.forall_mem_singleton.mpr (by decide +kernel)
  · exact List.forall_mem_map.mpr fun numbered _ => isSanitized_baseName numbered.2

end UnionFamily

/-- The members of every generated enumeration are different identifiers exactly if the names that
they are made from do not clash. -/
theorem distinct_members_iff (manager : TagManager) (family : UnionFamily) (ids : List Nat) :
    (Distinct (Constants.tagMembers manager) ↔ ¬Clash (Constants.tagNames manager)) ∧
      (Distinct ((Constants.layerMembers manager).map (·.2)) ↔
        ¬Clash (Constants.layerNames manager)) ∧
      (Distinct (Constants.noLayer :: (Constants.maskMembers manager).map (·.2)) ↔
        ¬Clash (Constants.layerNames manager)) ∧
      (Distinct (UnionFamily.unsetName :: (family.cases ids).map (·.name)) ↔
        ¬Clash (family.variantNames ids)) :=
  have layers := Constants.distinct_layerMembers_iff manager
  ⟨Constants.distinct_tagMembers_iff manager, layers,
    (Constants.distinct_maskMembers_iff manager).trans layers, family.distinct_caseNames_iff ids⟩

/-- Two tags that are made `@class` and one that is made `class_2` give two members that are the
same identifier. -/
theorem not_distinct_tagMembers_keyword :
    ¬∀ text, Distinct (Constants.tagMembers (TagManager.ofText text)) := by
  intro always
  exact absurd (always "tags:\n- class\n- class!\n- class_2") (by decide +kernel)

end Marksmith

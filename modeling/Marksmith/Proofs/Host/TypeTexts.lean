import Marksmith.Proofs.Analysis.Unambiguous
import Marksmith.Proofs.Host.Makeup
import Marksmith.Proofs.Lists
import Marksmith.Proofs.Syntax.Reparsing
import Marksmith.Proofs.Text.Bytes
import Marksmith.Source.File

/-!
Types are told apart by their texts, if no name has the punctuation that stands around names in the
text of a type. A type has two texts, its canonical one and the one in generated text, which differ
in how names are spelled.

* `spelled_append_inj`: equal texts with different types in front of them spell names alike;
* `text_inj`, `Host.typeText_inj`: so types that are made of unpunctuated names differ in both
  texts;
* `Host.parseType_typeText_iff`: a type is read again from its generated text exactly if the
  segments of its names are identifiers;
* `Host.Unpunctuated.covers`: the types that a host gives are made of such names if its declarations
  and type parameters have such names.
-/

namespace Marksmith

open Syntax (TypeRef)

namespace Syntax.TypeRef

/-! ### Spelling -/

mutual

theorem qualifiedType_eq_spelled (host : Host) :
    ∀ t : TypeRef, host.qualifiedType t = t.spelled host.qualifiedName
  | ⟨name, args, nullable, rank⟩ => by
    rw [Host.qualifiedType, spelled, qualifiedArgs_eq_spelled]

theorem qualifiedArgs_eq_spelled (host : Host) :
    ∀ ts : List TypeRef, host.qualifiedArgs ts = spelledArgs host.qualifiedName ts
  | [] => rfl
  | t :: ts => by
    rw [Host.qualifiedArgs, spelledArgs, qualifiedType_eq_spelled, qualifiedMore_eq_spelled]

theorem qualifiedMore_eq_spelled (host : Host) :
    ∀ ts : List TypeRef, host.qualifiedMore ts = spelledMore host.qualifiedName ts
  | [] => rfl
  | t :: ts => by
    rw [Host.qualifiedMore, spelledMore, qualifiedType_eq_spelled, qualifiedMore_eq_spelled]

end

/-! ### Reading a text in one way only -/

/-- The characters that may stand behind a name in the text of a type. -/
def isMark (c : Char) : Bool := c == '<' || c == ',' || c == '>' || c == '?' || c == '['

/-- Whether a text goes on where a type ends. -/
def Ends (rest : List Char) : Prop := ∀ c ∈ rest.head?, c = ',' ∨ c = '>'

/-- A spelling of names with a property that has no marks in it and tells the names apart. -/
structure Separates (spell : String → Nat → List Char) (Q : Symbol → Prop) : Prop where
  free : ∀ s, Q s → ∀ c ∈ spell s.name s.arity, ¬isMark c
  injective : ∀ s u, Q s → Q u → spell s.name s.arity = spell u.name u.arity → s.name = u.name

theorem brackets_append_inj {rank rank' : UInt8} {rest rest' : List Char} (ends : Ends rest)
    (ends' : Ends rest') (same : brackets rank ++ rest = brackets rank' ++ rest') :
    rank = rank' ∧ rest = rest' := by
  have inside : ∀ rank : UInt8, ∀ c ∈ brackets rank, (c == '[' || c == ']') = true := by
    intro rank c mem
    obtain ⟨pair, copied, here⟩ := List.mem_flatten.mp mem
    rw [List.eq_of_mem_replicate copied] at here
    rcases List.mem_pair.mp here with rfl | rfl
    · decide
    · decide
  have outside : ∀ {rest : List Char}, Ends rest → ∀ c ∈ rest.head?,
      ¬(c == '[' || c == ']') = true := by
    intro rest ends c first
    rcases ends c first with rfl | rfl
    · decide
    · decide
  obtain ⟨marks, rests⟩ := run_inj (inside rank) (inside rank') (outside ends) (outside ends') same
  refine ⟨UInt8.toNat_inj.mp ?_, rests⟩
  have lengths := congrArg List.length marks
  simp only [brackets, List.length_flatten, List.map_replicate, List.sum_replicate] at lengths
  exact Nat.eq_of_mul_eq_mul_right (by decide) lengths

/-- What may stand behind the arguments of a type. -/
theorem head_brackets {rank : UInt8} {rest : List Char} (ends : Ends rest) :
    ∀ c ∈ (brackets rank ++ rest).head?, c = '[' ∨ c = ',' ∨ c = '>' := by
  intro c first
  rw [brackets] at first
  cases count : rank.toNat with
  | zero =>
    rw [count] at first
    exact .inr (ends c first)
  | succ n =>
    rw [count, List.replicate_succ, List.flatten_cons] at first
    cases first
    exact .inl rfl

theorem suffix_append_inj {nullable nullable' : Bool} {rank rank' : UInt8} {rest rest' : List Char}
    (ends : Ends rest) (ends' : Ends rest')
    (same : (if nullable then ['?'] else []) ++ (brackets rank ++ rest)
      = (if nullable' then ['?'] else []) ++ (brackets rank' ++ rest')) :
    nullable = nullable' ∧ rank = rank' ∧ rest = rest' := by
  have question : ∀ {rank : UInt8} {rest more : List Char}, Ends rest →
      brackets rank ++ rest ≠ '?' :: more := by
    intro rank rest more ends same
    have first : (brackets rank ++ rest).head? = some '?' := congrArg List.head? same
    have none : ¬('?' = '[' ∨ '?' = ',' ∨ '?' = '>') := by decide
    exact none (head_brackets ends '?' first)
  cases nullable with
  | false =>
    cases nullable' with
    | false => exact ⟨rfl, brackets_append_inj ends ends' same⟩
    | true => exact absurd same (question ends)
  | true =>
    cases nullable' with
    | false => exact absurd same.symm (question ends')
    | true => exact ⟨rfl, brackets_append_inj ends ends' (List.cons.inj same).2⟩

/-- Type arguments are followed by a nullable mark, brackets, or the end of the type. -/
theorem head_suffix {nullable : Bool} {rank : UInt8} {rest : List Char} (ends : Ends rest) :
    ∀ c ∈ ((if nullable then ['?'] else []) ++ (brackets rank ++ rest)).head?,
      isMark c ∧ c ≠ '<' := by
  intro c first
  cases nullable with
  | true =>
    cases first
    decide
  | false =>
    rcases head_brackets ends c first with rfl | rfl | rfl
    · decide
    · decide
    · decide

theorem ends_more {spell : String → Nat → List Char} (ts : List TypeRef) (rest : List Char) :
    Ends (spelledMore spell ts ++ '>' :: rest) := by
  intro c first
  cases ts with
  | nil =>
    cases first
    exact .inr rfl
  | cons t ts =>
    cases first
    exact .inl rfl

section

variable {spell : String → Nat → List Char} {Q : Symbol → Prop}

mutual

/-- Equal texts in front of which types stand begin with the same type. -/
theorem spelled_append_inj (separates : Separates spell Q) :
    ∀ {t u : TypeRef} {rest rest' : List Char}, t.MadeOf Q → u.MadeOf Q → Ends rest → Ends rest' →
      t.spelled spell ++ rest = u.spelled spell ++ rest' → t = u ∧ rest = rest'
  | ⟨name, args, nullable, rank⟩, ⟨name', args', nullable', rank'⟩, rest, rest', made, made', ends,
      ends', same => by
    obtain ⟨own, inner⟩ := madeOf_iff.mp made
    obtain ⟨own', inner'⟩ := madeOf_iff.mp made'
    rw [spelled, spelled] at same
    simp only [List.append_assoc] at same
    have front : ∀ {ts : List TypeRef} {nullable : Bool} {rank : UInt8} {rest : List Char},
        Ends rest → ∀ c ∈ (spelledArgs spell ts ++ ((if nullable then ['?'] else []) ++
          (brackets rank ++ rest))).head?, ¬(!isMark c) = true := by
      intro ts nullable rank rest ends c first
      cases ts with
      | nil =>
        rw [(head_suffix ends c first).1]
        decide
      | cons t ts =>
        cases first
        decide
    have unmarked : ∀ s, Q s → ∀ c ∈ spell s.name s.arity, (!isMark c) = true := by
      intro s own c mem
      exact (Bool.not_eq_true' _).mpr (Bool.not_eq_true _ ▸ separates.free s own c mem)
    -- Both names end where the first mark stands.
    obtain ⟨names, behind⟩ := run_inj (unmarked _ own) (unmarked _ own') (front ends) (front ends')
      same
    obtain ⟨rfl, suffixes⟩ := spelledArgs_append_inj separates inner inner'
      (fun c first => (head_suffix ends c first).2) (fun c first => (head_suffix ends' c first).2)
      behind
    obtain ⟨marks, ranks, rests⟩ := suffix_append_inj ends ends' suffixes
    have spelling : name = name' := separates.injective _ _ own own' names
    rw [spelling, marks, ranks]
    exact ⟨rfl, rests⟩

theorem spelledArgs_append_inj (separates : Separates spell Q) :
    ∀ {ts us : List TypeRef} {rest rest' : List Char}, (∀ t ∈ ts, t.MadeOf Q) →
      (∀ u ∈ us, u.MadeOf Q) → (∀ c ∈ rest.head?, c ≠ '<') → (∀ c ∈ rest'.head?, c ≠ '<') →
      spelledArgs spell ts ++ rest = spelledArgs spell us ++ rest' → ts = us ∧ rest = rest'
  | [], [], _, _, _, _, _, _, same => ⟨rfl, same⟩
  | [], u :: us, rest, rest', _, _, stop, _, same => by
    have open' : rest.head? = some '<' := by
      rw [show rest = _ from same]
      rfl
    exact absurd rfl (stop '<' open')
  | t :: ts, [], rest, rest', _, _, _, stop', same => by
    have open' : rest'.head? = some '<' := by
      rw [show rest' = _ from same.symm]
      rfl
    have closed := stop' '<' open'
    exact absurd rfl closed
  | t :: ts, u :: us, rest, rest', made, made', _, _, same => by
    obtain ⟨first, others⟩ := List.forall_mem_cons.mp made
    obtain ⟨first', others'⟩ := List.forall_mem_cons.mp made'
    rw [spelledArgs, spelledArgs] at same
    simp only [List.cons_append, List.append_assoc, List.nil_append, List.cons.injEq,
      true_and] at same
    obtain ⟨rfl, behind⟩ :=
      spelled_append_inj separates first first' (ends_more _ _) (ends_more _ _) same
    obtain ⟨rfl, rests⟩ := spelledMore_append_inj separates others others' behind
    exact ⟨rfl, rests⟩

theorem spelledMore_append_inj (separates : Separates spell Q) :
    ∀ {ts us : List TypeRef} {rest rest' : List Char}, (∀ t ∈ ts, t.MadeOf Q) →
      (∀ u ∈ us, u.MadeOf Q) →
      spelledMore spell ts ++ '>' :: rest = spelledMore spell us ++ '>' :: rest' →
      ts = us ∧ rest = rest'
  | [], [], _, _, _, _, same => ⟨rfl, (List.cons.inj same).2⟩
  | [], u :: us, _, _, _, _, same => nomatch (List.cons.inj same).1
  | t :: ts, [], _, _, _, _, same => nomatch (List.cons.inj same).1
  | t :: ts, u :: us, rest, rest', made, made', same => by
    obtain ⟨first, others⟩ := List.forall_mem_cons.mp made
    obtain ⟨first', others'⟩ := List.forall_mem_cons.mp made'
    rw [spelledMore, spelledMore] at same
    simp only [List.cons_append, List.append_assoc, List.cons.injEq, true_and] at same
    obtain ⟨rfl, behind⟩ :=
      spelled_append_inj separates first first' (ends_more _ _) (ends_more _ _) same
    obtain ⟨rfl, rests⟩ := spelledMore_append_inj separates others others' behind
    exact ⟨rfl, rests⟩

end

theorem spelled_inj (separates : Separates spell Q) {t u : TypeRef} (made : t.MadeOf Q)
    (made' : u.MadeOf Q) (same : t.spelled spell = u.spelled spell) : t = u := by
  have ends : Ends [] := fun c first => nomatch first
  refine (spelled_append_inj separates made made' ends ends ?_).1
  rw [same]

end

end Syntax.TypeRef

/-! ### Unpunctuated names -/

/-- Whether a name has none of the punctuation that stands around names in the text of a type. -/
def Text.Unpunctuated (name : String) : Prop :=
  ∀ c ∈ name.toList, ¬TypeRef.isMark c ∧ c ≠ ':'

instance (name : String) : Decidable (Text.Unpunctuated name) :=
  List.decidableBAll (fun c => ¬TypeRef.isMark c ∧ c ≠ ':') name.toList

/-- Whether the name of a definition is unpunctuated. -/
def Symbol.Unpunctuated (s : Symbol) : Prop := Text.Unpunctuated s.name

theorem Text.unpunctuated_of_isPredefinedType {name : String}
    (known : Engine.isPredefinedType name = true) : Unpunctuated name := by
  rw [Engine.isPredefinedType, Bool.or_eq_true, Bool.or_eq_true, beq_iff_eq,
    List.contains_iff_mem] at known
  rcases known with (rfl | primitive) | managed
  · decide
  · obtain ⟨size, found⟩ := Option.isSome_iff_exists.mp primitive
    obtain ⟨front, back, sizes, -⟩ := List.lookup_eq_some_iff.mp found
    have all : ∀ p ∈ Engine.primitiveSizes, Unpunctuated p.1 := by decide +kernel
    exact all (name, size) (sizes ▸ List.mem_append_right _ List.mem_cons_self)
  · have all : ∀ n ∈ Engine.managedPrimitives, Unpunctuated n := by decide +kernel
    exact all name managed

namespace Syntax.TypeRef

theorem separates_toList : Separates (fun name _ => name.toList) Symbol.Unpunctuated where
  free _ own c mem := (own c mem).1
  injective _ _ _ _ same := String.toList_injective same

/-- Types that are made of unpunctuated names have different canonical texts. -/
theorem text_inj {t u : TypeRef} (made : t.MadeOf Symbol.Unpunctuated)
    (made' : u.MadeOf Symbol.Unpunctuated) (same : t.text = u.text) : t = u := by
  have letters := String.ofList_injective same
  rw [written_eq_spelled, written_eq_spelled] at letters
  exact spelled_inj separates_toList made made' letters

end Syntax.TypeRef

namespace Host

variable {host : Host}

theorem qualifiedName_cases (name : String) (arity : Nat) :
    host.qualifiedName name arity = name.toList ∨
      host.qualifiedName name arity = globalAlias ++ name.toList := by
  rw [qualifiedName]
  split
  · exact .inl rfl
  · split
    · exact .inr rfl
    · exact .inl rfl

theorem separates_qualifiedName :
    TypeRef.Separates host.qualifiedName Symbol.Unpunctuated where
  free s own c mem := by
    rcases qualifiedName_cases s.name s.arity with bare | qualified
    · rw [bare] at mem
      exact (own c mem).1
    · rw [qualified, List.mem_append] at mem
      rcases mem with front | inside
      · have none : globalAlias.all fun c => !TypeRef.isMark c := by decide
        rw [(Bool.not_eq_true' _).mp (List.all_eq_true.mp none c front)]
        decide
      · exact (own c inside).1
  injective s u own own' same := by
    have colon : ∀ {name other : String}, Text.Unpunctuated name →
        name.toList ≠ globalAlias ++ other.toList := by
      intro name other plain same
      refine (plain ':' ?_).2 rfl
      rw [same]
      exact List.mem_append_left _ (by decide)
    rcases qualifiedName_cases s.name s.arity with bare | qualified
    · rcases qualifiedName_cases u.name u.arity with bare' | qualified'
      · exact String.toList_injective (by rw [← bare, same, bare'])
      · exact absurd (bare.symm.trans (same.trans qualified')) (colon own)
    · rcases qualifiedName_cases u.name u.arity with bare' | qualified'
      · exact absurd (bare'.symm.trans (same.symm.trans qualified)) (colon own')
      · rw [qualified, qualified'] at same
        exact String.toList_injective (List.append_cancel_left same)

/-- Types that are made of unpunctuated names differ in generated text. -/
theorem typeText_inj {t u : TypeRef} (made : t.MadeOf Symbol.Unpunctuated)
    (made' : u.MadeOf Symbol.Unpunctuated) (same : host.typeText t = host.typeText u) : t = u := by
  have letters := String.ofList_injective same
  rw [TypeRef.qualifiedType_eq_spelled, TypeRef.qualifiedType_eq_spelled] at letters
  exact TypeRef.spelled_inj separates_qualifiedName made made' letters

end Host

/-! ### Reading a text again -/

/-- Whether the segments of a dotted name are identifiers that are not reserved. -/
def Text.Dotted (name : String) : Prop :=
  ∀ segment ∈ name.toList.splitOn '.', Syntax.IsName (String.ofList segment)

/-- Whether the name of a definition is dotted. -/
def Symbol.Dotted (s : Symbol) : Prop := Text.Dotted s.name

namespace Syntax.TypeRef

theorem writable_nameLexemes_iff {name : String} :
    (∀ l ∈ nameLexemes name, l.Writable) ↔ Text.Dotted name := by
  have listed : Text.Dotted name ↔
      ∀ x ∈ (name.toList.splitOn '.').map String.ofList, IsName x := List.forall_mem_map.symm
  rw [listed, nameLexemes]
  split
  · next none =>
    rw [List.map_eq_nil_iff] at none
    exact absurd none (List.splitOn_ne_nil _ _)
  · next x more split =>
    rw [split, List.forall_mem_cons, List.forall_mem_cons, tail, List.forall_mem_flatMap]
    refine and_congr Iff.rfl (forall₂_congr fun s _ => ?_)
    rw [List.forall_mem_cons, List.forall_mem_singleton]
    exact and_iff_right trivial

theorem writable_pairs (n : Nat) : ∀ l ∈ pairs n, l.Writable := by
  induction n with
  | zero => exact List.forall_mem_nil _
  | succ n ih =>
    rw [pairs_succ]
    exact List.forall_mem_cons.mpr ⟨trivial, List.forall_mem_cons.mpr ⟨trivial, ih⟩⟩

theorem writable_moreLexemes_iff {ts : List TypeRef} :
    (∀ l ∈ moreLexemes ts, l.Writable) ↔ ∀ t ∈ ts, t.Plain := by
  induction ts with
  | nil => simp [moreLexemes]
  | cons t ts ih =>
    rw [moreLexemes, List.forall_mem_cons, List.forall_mem_append, List.forall_mem_cons, ih]
    exact and_iff_right trivial

theorem writable_argLexemes_iff {ts : List TypeRef} :
    (∀ l ∈ argLexemes ts, l.Writable) ↔ ∀ t ∈ ts, t.Plain := by
  cases ts with
  | nil => simp [argLexemes]
  | cons t ts =>
    have opening : (Lexeme.punct .lt).Writable := trivial
    have closing : ∀ l ∈ [Lexeme.punct .gt], l.Writable := List.forall_mem_singleton.mpr trivial
    rw [argLexemes, List.forall_mem_cons, and_iff_right opening, List.forall_mem_append,
      and_iff_left closing, List.forall_mem_append, writable_moreLexemes_iff, List.forall_mem_cons]
    exact Iff.rfl

/-- A type is plain exactly if all names in it are dotted. -/
theorem plain_iff_madeOf {t : TypeRef} : t.Plain ↔ t.MadeOf Symbol.Dotted := by
  induction t using inductionOnArgs with
  | node t ih =>
    obtain ⟨name, args, nullable, rank⟩ := t
    have question : ∀ l ∈ if nullable then [Lexeme.punct .question] else [], l.Writable := by
      cases nullable
      · exact List.forall_mem_nil _
      · exact List.forall_mem_singleton.mpr trivial
    rw [Plain, lexemes, List.forall_mem_append, List.forall_mem_append, List.forall_mem_append,
      writable_nameLexemes_iff, writable_argLexemes_iff, and_iff_left (writable_pairs _),
      and_iff_left question, madeOf_iff]
    exact and_congr Iff.rfl (forall₂_congr ih)

end Syntax.TypeRef

/-- A type in generated text is read as that type exactly if all names in it are dotted, whichever
of them have the alias of the global namespace in front. -/
theorem Host.parseType_typeText_iff (host : Host) (t : TypeRef) :
    Syntax.parseType (host.typeText t) = .ok t ↔ t.MadeOf Symbol.Dotted := by
  rw [typeText, TypeRef.qualifiedType_eq_spelled, TypeRef.parseType_spelled_iff qualifiedName_cases,
    TypeRef.plain_iff_madeOf]

/-! ### Projects with unpunctuated names -/

/-- Whether the declarations of a model and their type parameters have unpunctuated names. -/
def Model.Unpunctuated (m : Model) : Prop :=
  ∀ d ∈ m.types, ∀ name ∈ d.name :: d.typeParams, Text.Unpunctuated name

instance (m : Model) : Decidable m.Unpunctuated := inferInstanceAs (Decidable (∀ d ∈ _, _))

namespace Host

/-- Whether the declarations of a project and their type parameters have unpunctuated names. -/
def Unpunctuated (host : Host) : Prop := host.model.Unpunctuated

variable {host : Host}

theorem unpunctuated_prelude :
    ∀ d ∈ Prelude.types, ∀ name ∈ d.name :: d.typeParams, Text.Unpunctuated name := by
  have each : ∀ d ∈ Prelude.types, ∀ name ∈ d.name :: d.typeParams, (Text.bytes name).all fun b =>
      b < 128 ∧ ¬TypeRef.isMark (Char.ofUInt8 b) ∧ Char.ofUInt8 b ≠ ':' := by
    decide +kernel
  exact fun d mem name written => Text.forall_mem_toList_of_bytes (each d mem name written)

theorem unpunctuated_of_ofModel {limit : Nat} {model : Model}
    (accepted : ofModel limit model = .ok host) (names : model.Unpunctuated) :
    host.Unpunctuated := by
  obtain ⟨-, -, rfl⟩ := ofModel_eq_ok_iff.mp accepted
  intro d mem
  rcases List.mem_append.mp mem with own | visible
  · exact names d own
  · exact unpunctuated_prelude d (List.mem_filter.mp visible).1

namespace Unpunctuated

variable (names : host.Unpunctuated)

include names

theorem typeParam {d : TypeDecl} (there : d ∈ host.declarations) {p : String}
    (own : p ∈ d.typeParams) : Text.Unpunctuated p :=
  names d there p (List.mem_cons_of_mem _ own)

/-- The types that the host gives are made of unpunctuated names. -/
theorem covers : host.Covers Symbol.Unpunctuated where
  declared d there := names d there d.name List.mem_cons_self
  predefined name known := Text.unpunctuated_of_isPredefinedType known
  around d there p mem _ := by
    obtain ⟨e, declared, own⟩ := exists_of_mem_visibleTypeParams mem
    exact names.typeParam declared own
  extending c mem p own := by
    obtain ⟨d, there, listed⟩ := List.mem_flatMap.mp mem
    obtain ⟨m, -, rfl⟩ := List.mem_map.mp listed
    exact names.typeParam there own

/-- A declared type over its own type parameters. -/
theorem madeOf_selfType {d : TypeDecl} (there : d ∈ host.declarations) :
    d.selfType.MadeOf Symbol.Unpunctuated := by
  refine TypeRef.madeOf_iff.mpr ⟨?_, ?_⟩
  · rw [TypeDecl.ofType_selfType]
    exact names.covers.declared d there
  · exact List.forall_mem_map.mpr fun p own => TypeRef.madeOf_named (names.typeParam there own)

end Unpunctuated

end Host

end Marksmith

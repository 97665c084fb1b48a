import Marksmith.Cache.Fingerprint
import Marksmith.Proofs.Host.Declarations
import Marksmith.Proofs.Json.Writing
import Marksmith.Proofs.Model.Writer

/-!
What equal fingerprints say. A stream has no marks of length either: a tag ends at the first zero
byte, which only the character NUL writes, and a value ends at the first byte that no character
writes.

* `flatMap_partBytes_inj`: streams whose tags are free of NUL are equal only part by part;
* `ofDeclarations_ok`: the parts of the stream for some roots, one entry for each dependency;
* `entries_inj`, `bytes_eq_iff`: equal streams have the same dependencies, entry by entry. Entries
  without a declaration are told apart by the text of their symbol alone, and a name with a backtick
  may read like an arity (`Symbol.eq_of_text_eq`).
-/

namespace Marksmith

open Json (toDigits_injective isDigit_of_mem)

/-! ### Texts of symbols -/

namespace Symbol

theorem backtick_notMem_arity (n : Nat) : '`' ∉ Nat.toDigits 10 n :=
  fun mem => absurd (isDigit_of_mem mem) (by decide)

theorem toList_text {s : Symbol} (generic : s.arity ≠ 0) :
    s.text.toList = s.name.toList ++ '`' :: Nat.toDigits 10 s.arity := by
  have digits : (toString s.arity).toList = Nat.toDigits 10 s.arity := String.toList_ofList
  rw [text, if_neg generic, String.toList_append, String.toList_append, digits,
    List.append_assoc]
  rfl

theorem backtick_mem_text {s : Symbol} (generic : s.arity ≠ 0) : '`' ∈ s.text.toList := by
  rw [toList_text generic]
  exact List.mem_append_right _ List.mem_cons_self

/-- The text of a generic symbol can be read in one way only, from its last backtick. -/
theorem eq_of_generic_text_eq {s t : Symbol} (generic : s.arity ≠ 0) (generic' : t.arity ≠ 0)
    (same : s.text = t.text) : s = t := by
  have letters : (s.name.toList ++ '`' :: Nat.toDigits 10 s.arity).reverse
      = (t.name.toList ++ '`' :: Nat.toDigits 10 t.arity).reverse := by
    rw [← toList_text generic, ← toList_text generic', same]
  simp only [List.reverse_append, List.reverse_cons, List.append_assoc,
    List.singleton_append] at letters
  have reversed : ∀ n, '`' ∉ (Nat.toDigits 10 n).reverse := by
    intro n mem
    exact backtick_notMem_arity n (List.mem_reverse.mp mem)
  obtain ⟨arities, names⟩ := before_inj (reversed _) (reversed _) letters
  have name : s.name = t.name := String.toList_injective (List.reverse_injective names)
  have arity : s.arity = t.arity := toDigits_injective (List.reverse_injective arities)
  cases s
  cases t
  cases name
  cases arity
  rfl

/-- Symbols are told apart by their texts, unless the name of one of them has a backtick. -/
theorem eq_of_text_eq {s t : Symbol} (same : s.text = t.text) :
    s = t ∨ '`' ∈ s.name.toList ∨ '`' ∈ t.name.toList := by
  by_cases plain : s.arity = 0
  · have name : s.text = s.name := if_pos plain
    by_cases plain' : t.arity = 0
    · have name' : t.text = t.name := if_pos plain'
      left
      cases s
      cases t
      simp_all
    · right
      left
      rw [← name, same]
      exact backtick_mem_text plain'
  · by_cases plain' : t.arity = 0
    · have name' : t.text = t.name := if_pos plain'
      right
      right
      rw [← name', ← same]
      exact backtick_mem_text plain
    · exact .inl (eq_of_generic_text_eq plain plain' same)

end Symbol

namespace Fingerprint

/-! ### Bytes of texts -/

theorem textBytes_injective {x y : List Char} (same : textBytes x = textBytes y) : x = y := by
  have texts : String.ofList x = String.ofList y := by
    apply String.toByteArray_inj.mp
    rw [String.toByteArray_ofList, String.toByteArray_ofList]
    exact congrArg List.toByteArray same
  exact String.ofList_injective texts

/-- A byte of a character is the character itself or one of the bytes of larger characters. -/
theorem byte_of_mem {c : Char} {b : UInt8} (mem : b ∈ String.utf8EncodeChar c) :
    b.toNat = c.toNat ∧ c.toNat < 128 ∨ 128 ≤ b.toNat ∧ b.toNat < 255 := by
  have code : c.toNat = c.val.toNat := rfl
  rw [String.utf8EncodeChar.eq_1] at mem
  split at mem
  · simp only [List.mem_cons, List.not_mem_nil, or_false] at mem
    subst mem
    left
    rw [UInt8.toNat_ofNat']
    omega
  · right
    split at mem
    · simp only [List.mem_cons, List.not_mem_nil, or_false] at mem
      rcases mem with rfl | rfl <;> (rw [UInt8.toNat_ofNat']; omega)
    · split at mem
      · simp only [List.mem_cons, List.not_mem_nil, or_false] at mem
        rcases mem with rfl | rfl | rfl <;> (rw [UInt8.toNat_ofNat']; omega)
      · simp only [List.mem_cons, List.not_mem_nil, or_false] at mem
        rcases mem with rfl | rfl | rfl | rfl <;> (rw [UInt8.toNat_ofNat']; omega)

/-- No character writes the byte that ends values. -/
theorem valueEnd_notMem (s : List Char) : valueEnd ∉ textBytes s := by
  intro mem
  obtain ⟨c, _, here⟩ := List.mem_flatMap.mp mem
  have value : valueEnd.toNat = 255 := rfl
  have byte := byte_of_mem here
  omega

/-- Only the character NUL writes the byte that ends tags. -/
theorem tagEnd_notMem {s : List Char} (free : '\x00' ∉ s) : tagEnd ∉ textBytes s := by
  intro mem
  obtain ⟨c, there, here⟩ := List.mem_flatMap.mp mem
  have value : tagEnd.toNat = 0 := rfl
  have byte := byte_of_mem here
  have code : c.toNat = 0 := by omega
  have nul : c = '\x00' := Char.toNat_inj.mp code
  exact free (nul ▸ there)

/-! ### Parts -/

/-- The tags of some parts are free of NUL. -/
def Tagged (parts : List (String × Json)) : Prop := ∀ part ∈ parts, '\x00' ∉ part.1.toList

theorem partBytes_append_inj {p q : String × Json} {s t : List UInt8}
    (free : '\x00' ∉ p.1.toList) (free' : '\x00' ∉ q.1.toList)
    (same : partBytes p ++ s = partBytes q ++ t) : p = q ∧ s = t := by
  simp only [partBytes, List.append_assoc, List.cons_append, List.nil_append] at same
  obtain ⟨tags, values⟩ := before_inj (tagEnd_notMem free) (tagEnd_notMem free') same
  obtain ⟨value, behind⟩ := before_inj (valueEnd_notMem _) (valueEnd_notMem _) values
  have tag : p.1 = q.1 := String.toList_injective (textBytes_injective tags)
  exact ⟨Prod.ext tag (Json.written_injective (textBytes_injective value)), behind⟩

/-- A part is never empty. -/
theorem partBytes_ne_nil (p : String × Json) : partBytes p ≠ [] :=
  List.append_ne_nil_of_right_ne_nil _ (List.cons_ne_nil _ _)

theorem flatMap_partBytes_inj {ps qs : List (String × Json)} (free : Tagged ps)
    (free' : Tagged qs) (same : ps.flatMap partBytes = qs.flatMap partBytes) : ps = qs := by
  induction ps generalizing qs with
  | nil =>
    cases qs with
    | nil => rfl
    | cons q qs =>
      rw [List.flatMap_cons] at same
      exact absurd (List.append_eq_nil_iff.mp same.symm).1 (partBytes_ne_nil q)
  | cons p ps ih =>
    cases qs with
    | nil =>
      rw [List.flatMap_cons] at same
      exact absurd (List.append_eq_nil_iff.mp same).1 (partBytes_ne_nil p)
    | cons q qs =>
      rw [List.flatMap_cons, List.flatMap_cons] at same
      obtain ⟨here, later⟩ := partBytes_append_inj (free p List.mem_cons_self)
        (free' q List.mem_cons_self) same
      have rest := ih (fun part mem => free part (List.mem_cons_of_mem _ mem))
        (fun part mem => free' part (List.mem_cons_of_mem _ mem)) later
      rw [here, rest]

/-! ### Dependencies -/

/-- The parts of the stream for some roots. -/
def declarationParts (host : Host) (roots : List Symbol) (extras : Json) : List (String × Json) :=
  (host.dependencyClosure roots).flatMap (dependencyParts host) ++ [("extras", extras)]

/-- Unless it is cancelled before the search, a fingerprint is made of the dependencies that the
search finds. -/
theorem ofDeclarations_eq (host : Host) (token : Token) (roots : List Symbol) (extras : Json) :
    ofDeclarations host token roots extras
      = if token.cancelled ∧ host.closureStart roots ≠ [] then .error .cancelled
        else .ok (ofParts (declarationParts host roots extras)) := by
  rw [ofDeclarations, Host.dependencyClosureUnless, declarationParts]
  by_cases nothing : host.closureStart roots = []
  · have none : host.dependencyClosure roots = [] := by
      rw [Host.dependencyClosure, nothing]
      rfl
    rw [if_pos (List.isEmpty_iff.mpr nothing), none, if_neg (fun both => both.2 nothing)]
    rfl
  · have filled : ¬(host.closureStart roots).isEmpty = true :=
      fun empty => nothing (List.isEmpty_iff.mp empty)
    rw [if_neg filled, Token.checkpoint]
    by_cases given : token.cancelled
    · rw [if_pos given, if_pos ⟨given, nothing⟩]
      rfl
    · rw [if_neg given, if_neg (fun both => given both.1)]
      rfl

theorem ofDeclarations_ok {host : Host} {token : Token} {roots : List Symbol} {extras : Json}
    {f : Fingerprint} (made : ofDeclarations host token roots extras = .ok f) :
    f = ofParts (declarationParts host roots extras) := by
  rw [ofDeclarations_eq] at made
  split at made
  · cases made
  · exact (Except.ok.inj made).symm

theorem ofDeclarations_live (host : Host) (roots : List Symbol) (extras : Json) :
    ofDeclarations host .live roots extras = .ok (ofParts (declarationParts host roots extras)) := by
  rw [ofDeclarations_eq, if_neg]
  rintro ⟨given, _⟩
  cases given

theorem tagged_declarationParts (host : Host) (roots : List Symbol) (extras : Json) :
    Tagged (declarationParts host roots extras) := by
  intro part mem
  rcases List.mem_append.mp mem with entry | last
  · obtain ⟨s, _, here⟩ := List.mem_flatMap.mp entry
    rw [dependencyParts] at here
    split at here
    · simp only [List.mem_cons, List.not_mem_nil, or_false] at here
      rcases here with rfl | rfl
      · exact (by decide : '\x00' ∉ "key".toList)
      · exact (by decide : '\x00' ∉ "decl".toList)
    · simp only [List.mem_cons, List.not_mem_nil, or_false] at here
      rcases here with rfl | rfl
      · exact (by decide : '\x00' ∉ "key".toList)
      · exact (by decide : '\x00' ∉ "missing".toList)
  · rw [List.mem_singleton.mp last]
    exact (by decide : '\x00' ∉ "extras".toList)

/-- Entries of two closures that no stream tells apart: the same symbol with the same serialized
declaration, the same symbol without a declaration, or two symbols without a declaration one of
whose names reads like a name with an arity. -/
inductive SameEntry (host host' : Host) : Symbol → Symbol → Prop
  | declared {s : Symbol} {d d' : TypeDecl} (here : host.declaration? s = some d)
    (there : host'.declaration? s = some d') (same : d.toJson = d'.toJson) :
    SameEntry host host' s s
  | missing {s : Symbol} (here : host.declaration? s = none) (there : host'.declaration? s = none) :
    SameEntry host host' s s
  | backtick {s t : Symbol} (here : host.declaration? s = none)
    (there : host'.declaration? t = none) (same : s.text = t.text)
    (name : '`' ∈ s.name.toList ∨ '`' ∈ t.name.toList) : SameEntry host host' s t

variable {host host' : Host}

theorem dependencyParts_eq_iff {s t : Symbol} :
    dependencyParts host s = dependencyParts host' t ↔ SameEntry host host' s t := by
  constructor
  · intro same
    rw [dependencyParts, dependencyParts] at same
    have texts : s.text = t.text := Json.string.inj (Prod.mk.inj (List.cons.inj same).1).2
    cases here : host.declaration? s with
    | some d =>
      cases there : host'.declaration? t with
      | some d' =>
        simp only [here, there, List.cons.injEq, Prod.mk.injEq, true_and, and_true] at same
        have symbols : s = t := by
          rw [← (Host.symbol_of_declaration? here).2, ← (Host.symbol_of_declaration? there).2]
          exact (TypeDecl.alike_of_toJson_eq same.2).symbol
        subst symbols
        exact .declared here there same.2
      | none =>
        simp only [here, there, List.cons.injEq, Prod.mk.injEq] at same
        exact absurd same.2.1.1 (by decide)
    | none =>
      cases there : host'.declaration? t with
      | some d' =>
        simp only [here, there, List.cons.injEq, Prod.mk.injEq] at same
        exact absurd same.2.1.1 (by decide)
      | none =>
        rcases Symbol.eq_of_text_eq texts with symbols | name
        · subst symbols
          exact .missing here there
        · exact .backtick here there texts name
  · intro entry
    cases entry with
    | declared here there same =>
      rw [dependencyParts, dependencyParts, here, there]
      simp only [same]
    | missing here there => rw [dependencyParts, dependencyParts, here, there]
    | backtick here there same name => rw [dependencyParts, dependencyParts, here, there, same]

/-- Equal parts come from closures that agree entry by entry. -/
theorem entries_inj {closure closure' : List Symbol} {extras extras' : Json} :
    closure.flatMap (dependencyParts host) ++ [("extras", extras)]
        = closure'.flatMap (dependencyParts host') ++ [("extras", extras')] ↔
      List.Forall₂ (SameEntry host host') closure closure' ∧ extras = extras' := by
  have apart : ∀ (host : Host) (s : Symbol) (extras : Json) (r q : List (String × Json)),
      dependencyParts host s ++ r ≠ ("extras", extras) :: q := by
    intro host s extras r q same
    have tags : "key" = "extras" := congrArg Prod.fst (List.cons.inj same).1
    exact absurd tags (by decide)
  induction closure generalizing closure' with
  | nil =>
    cases closure' with
    | nil => simp
    | cons t closure' =>
      rw [List.flatMap_cons, List.append_assoc]
      constructor
      · intro same
        exact absurd same.symm (apart host' t extras _ _)
      · rintro ⟨entries, _⟩
        cases entries
  | cons s closure ih =>
    rw [List.flatMap_cons, List.append_assoc]
    cases closure' with
    | nil =>
      constructor
      · intro same
        exact absurd same (apart host s extras' _ _)
      · rintro ⟨entries, _⟩
        cases entries
    | cons t closure' =>
      rw [List.flatMap_cons, List.append_assoc]
      constructor
      · intro same
        have lengths : (dependencyParts host s).length = (dependencyParts host' t).length := rfl
        obtain ⟨here, later⟩ := List.append_inj same lengths
        obtain ⟨entries, besides⟩ := ih.mp later
        exact ⟨.cons (dependencyParts_eq_iff.mp here) entries, besides⟩
      · rintro ⟨entries, besides⟩
        cases entries with
        | cons entry entries =>
          rw [dependencyParts_eq_iff.mpr entry, ih.mpr ⟨entries, besides⟩]

/-- Streams for roots are equal exactly if their closures agree entry by entry and what is read
besides is equal. -/
theorem bytes_eq_iff {token token' : Token} {roots roots' : List Symbol} {extras extras' : Json}
    {f f' : Fingerprint} (made : ofDeclarations host token roots extras = .ok f)
    (made' : ofDeclarations host' token' roots' extras' = .ok f') :
    f.bytes = f'.bytes ↔
      List.Forall₂ (SameEntry host host') (host.dependencyClosure roots)
        (host'.dependencyClosure roots') ∧ extras = extras' := by
  rw [ofDeclarations_ok made, ofDeclarations_ok made', ← entries_inj]
  constructor
  · exact flatMap_partBytes_inj (tagged_declarationParts host roots extras)
      (tagged_declarationParts host' roots' extras')
  · exact congrArg (List.flatMap partBytes)

/-! ### Streams and what they stand for -/

/-- Streams determine their parts, and through them the dependencies that they were made from: the
symbols with their serialized declarations, up to texts of symbols without a declaration, and what
is read besides. -/
theorem stream_determines_inputs :
    (∀ ps qs : List (String × Json), Tagged ps → Tagged qs →
      ((ofParts ps).bytes = (ofParts qs).bytes ↔ ps = qs)) ∧
    ∀ (host host' : Host) (token token' : Token) (roots roots' : List Symbol)
      (extras extras' : Json) (f f' : Fingerprint),
      ofDeclarations host token roots extras = .ok f →
      ofDeclarations host' token' roots' extras' = .ok f' →
      (f.bytes = f'.bytes ↔
        List.Forall₂ (SameEntry host host') (host.dependencyClosure roots)
          (host'.dependencyClosure roots') ∧ extras = extras') := by
  constructor
  · intro ps qs free free'
    constructor
    · exact flatMap_partBytes_inj free free'
    · rintro rfl
      rfl
  · intro host host' token token' roots roots' extras extras' f f' made made'
    exact bytes_eq_iff made made'

/-- A project with a class and the project without it. -/
def playerHost (types : List TypeDecl) : Host := .withPrelude { types }

/-- Streams of different lengths, and the streams for a class in a project that declares it and in
one that does not. -/
theorem stream_determines_inputs_player :
    (Tagged [("a", .null), ("b", .null)] ∧ Tagged [("a", .null)] ∧
      (ofParts [("a", .null), ("b", .null)]).bytes ≠ (ofParts [("a", .null)]).bytes) ∧
    ∃ f f',
      ofDeclarations (playerHost [{ name := "Game.Player", kind := .class }]) .live
        [⟨"Game.Player", 0⟩] .null = .ok f ∧
      ofDeclarations (playerHost []) .live [⟨"Game.Player", 0⟩] .null = .ok f' ∧
      f.bytes ≠ f'.bytes := by
  obtain ⟨parts, inputs⟩ := stream_determines_inputs
  have free : Tagged [("a", .null), ("b", .null)] := by
    intro part mem
    rcases List.mem_cons.mp mem with rfl | last
    · exact (by decide : '\x00' ∉ "a".toList)
    · rw [List.mem_singleton.mp last]
      exact (by decide : '\x00' ∉ "b".toList)
  have free' : Tagged [("a", .null)] := fun part mem => free part (List.mem_of_mem_head? (by
    rw [List.mem_singleton.mp mem]
    rfl))
  refine ⟨⟨free, free', ?_⟩, _, _, ofDeclarations_live _ _ _, ofDeclarations_live _ _ _, ?_⟩
  · intro same
    cases (parts _ _ free free').mp same
  · intro same
    have here : (playerHost [{ name := "Game.Player", kind := .class }]).dependencyClosure
        [⟨"Game.Player", 0⟩] = [⟨"Game.Player", 0⟩] := by decide +kernel
    have there : (playerHost []).dependencyClosure [⟨"Game.Player", 0⟩]
        = [⟨"Game.Player", 0⟩] := by decide +kernel
    obtain ⟨entries, _⟩ := (inputs _ _ _ _ _ _ _ _ _ _ (ofDeclarations_live _ _ _)
      (ofDeclarations_live _ _ _)).mp same
    rw [here, there] at entries
    cases entries with
    | cons entry _ =>
      cases entry with
      | declared _ missing _ => cases missing
      | missing declared _ => cases declared
      | backtick declared _ _ _ => cases declared

/-- The texts of symbols do not determine them: a name with a backtick reads like a name and an
arity. -/
theorem not_stream_determines_symbols :
    ¬∀ limit model host, Host.ofModel limit model = .ok host →
      ∀ (roots roots' : List Symbol) (f f' : Fingerprint),
      ofDeclarations host .live roots .null = .ok f →
      ofDeclarations host .live roots' .null = .ok f' → f.bytes = f'.bytes →
      host.dependencyClosure roots = host.dependencyClosure roots' := by
  intro always
  have accepted : Host.ofModel Host.usualStepLimit { types := [] } = .ok (playerHost []) :=
    Host.ofModel_withPrelude rfl rfl
  have generic : (playerHost []).dependencyClosure [⟨"A", 1⟩] = [⟨"A", 1⟩] := by decide +kernel
  have plain : (playerHost []).dependencyClosure [⟨"A`1", 0⟩] = [⟨"A`1", 0⟩] := by decide +kernel
  have same := always _ _ _ accepted [⟨"A", 1⟩] [⟨"A`1", 0⟩] _ _ (ofDeclarations_live _ _ _)
    (ofDeclarations_live _ _ _) ?_
  · rw [generic, plain] at same
    exact absurd same (by decide)
  · rw [declarationParts, declarationParts, generic, plain]
    decide +kernel

end Fingerprint

end Marksmith

import Marksmith.Json.Draft
import Marksmith.Proofs.Json.Decoding

/-!
How deeply drafts are nested. A container that stands within too many others is read as no container,
so what is read from a text has at most `Draft.maxDepth` levels.

* `shallow_readValue`: what is read with `level` containers around it has at most as many levels as
  there is room for;
* `shallow_read`: so a whole text has at most `maxDepth`;
* `Ensures`: what decoders ensure of the values that they decode from drafts of bounded depth;
* `Ensures.list`, `Ensures.record`: a list has in each item what the decoder of the items ensures, and
  a record has what each of its fields keeps true of partial records.
-/

namespace Marksmith.Json

namespace Draft

mutual

/-- At most so many containers stand within one another. -/
def Shallow : (levels : Nat) → Draft → Prop
  | levels, .array items _ => 0 < levels ∧ ShallowItems (levels - 1) items
  | levels, .object entries _ => 0 < levels ∧ ShallowEntries (levels - 1) entries
  | _, _ => True

def ShallowItems : (levels : Nat) → List Draft → Prop
  | _, [] => True
  | levels, item :: items => Shallow levels item ∧ ShallowItems levels items

def ShallowEntries : (levels : Nat) → List (Option String × Draft) → Prop
  | _, [] => True
  | levels, (_, value) :: entries => Shallow levels value ∧ ShallowEntries levels entries

end

/-- A draft is kept as it is only where there is room for it. -/
theorem shallow_atLevel {level : Nat} {d : Draft}
    (room : level < maxDepth → Shallow (maxDepth - level) d) :
    Shallow (maxDepth - level) (d.atLevel level) := by
  rw [atLevel]
  split
  · next low => exact room low
  · split <;> trivial

end Draft

open Draft

theorem shallow_word {levels : Nat} {s : List Char} (letters : String) {value : Draft}
    (shallow : Shallow levels value) (behind : List Char) (bound : behind.length < s.length) :
    Shallow levels (readValue.word letters value behind bound).draft := by
  rw [readValue.word]
  split
  · trivial
  · exact shallow

mutual

/-- What is read with `level` containers around it has at most as many levels as there is room
for. -/
theorem shallow_readValue (level : Nat) (s : List Char) :
    Shallow (maxDepth - level) (readValue level s).draft := by
  rw [readValue]
  dsimp only
  split
  · trivial
  · next behind front =>
    have shorter := (skipBlank s).behind_lt front
    refine shallow_atLevel fun low => ?_
    rw [Shallow]
    exact ⟨by omega, shallow_readArray (level + 1) behind⟩
  · next behind front =>
    have shorter := (skipBlank s).behind_lt front
    refine shallow_atLevel fun low => ?_
    rw [Shallow]
    exact ⟨by omega, shallow_readObject (level + 1) behind⟩
  · split
    · trivial
    · next body? _ _ => cases body? <;> trivial
  · refine shallow_word _ ?_ _ _
    trivial
  · refine shallow_word _ ?_ _ _
    trivial
  · refine shallow_word _ ?_ _ _
    trivial
  · split
    · split
      · trivial
      · next number _ _ => cases number.value? <;> trivial
    · trivial
termination_by 3 * s.length + 1

theorem shallow_readArray (level : Nat) (s : List Char) :
    ShallowItems (maxDepth - level) (readArray level s).items := by
  rw [readArray]
  split
  · trivial
  · trivial
  · exact shallow_readItems level s
termination_by 3 * s.length + 3

theorem shallow_readItems (level : Nat) (s : List Char) :
    ShallowItems (maxDepth - level) (readItems level s).items := by
  have value := shallow_readValue level s
  rw [readItems]
  dsimp only
  split
  · exact ⟨value, trivial⟩
  · next behind _ =>
    split
    · next rest front =>
      have shorter := (skipBlank behind.rest).behind_lt front
      have := behind.bound
      exact ⟨value, shallow_readItems level rest⟩
    · exact ⟨value, trivial⟩
    · exact ⟨value, trivial⟩
    · exact ⟨value, trivial⟩
termination_by 3 * s.length + 2

theorem shallow_readObject (level : Nat) (s : List Char) :
    ShallowEntries (maxDepth - level) (readObject level s).entries := by
  rw [readObject]
  split
  · trivial
  · trivial
  · exact shallow_readEntries level s
termination_by 3 * s.length + 3

theorem shallow_readEntries (level : Nat) (s : List Char) :
    ShallowEntries (maxDepth - level) (readEntries level s).entries := by
  rw [readEntries]
  dsimp only
  split
  · trivial
  · next key _ =>
    split
    · exact ⟨trivial, trivial⟩
    · next colon _ =>
      have := (skipBlank s).bound
      have := colon.bound
      have value := shallow_readValue level colon.rest
      split
      · exact ⟨value, trivial⟩
      · next behind _ =>
        split
        · next rest front =>
          have shorter := (skipBlank behind.rest).behind_lt front
          have := behind.bound
          exact ⟨value, shallow_readEntries level rest⟩
        · exact ⟨value, trivial⟩
        · exact ⟨value, trivial⟩
        · exact ⟨value, trivial⟩
termination_by 3 * s.length + 2

end

/-- A whole text has at most `maxDepth` levels. -/
theorem shallow_read (text : String) : Shallow maxDepth (Document.read text).draft :=
  shallow_readValue 0 text.toList

/-! ### What decoders ensure -/

namespace Decoder

variable {ε α σ : Type}

/-- Values that are decoded from drafts of at most so many levels have the property. -/
def Ensures (levels : Nat) (Q : α → Prop) (decode : Decoder ε α) : Prop :=
  ∀ ⦃d a⦄, Shallow levels d → decode d = .ok a → Q a

variable {levels : Nat} {Q : α → Prop} {decode : Decoder ε α}

theorem Ensures.items (ensures : Ensures levels Q decode) {stop : Option Cut} {ds : List Draft}
    (shallow : ShallowItems levels ds) {as : List α} (decoded : items decode stop ds = .ok as) :
    ∀ a ∈ as, Q a := by
  induction ds generalizing as with
  | nil =>
    cases stop with
    | none =>
      cases decoded
      exact List.forall_mem_nil _
    | some cut => cases decoded
  | cons d ds ih =>
    rw [Decoder.items, bind_eq_ok_iff] at decoded
    obtain ⟨a, first, decoded⟩ := decoded
    obtain ⟨rest, later, made⟩ := bind_eq_ok_iff.mp decoded
    cases made
    exact List.forall_mem_cons.mpr ⟨ensures shallow.1 first, ih shallow.2 later⟩

/-- A list has in each item what the decoder of the items ensures. -/
theorem Ensures.list (ensures : Ensures levels Q decode) :
    Ensures (levels + 1) (fun as => ∀ a ∈ as, Q a) (list decode) := by
  intro d as shallow decoded
  cases d with
  | array ds stop => exact ensures.items shallow.2 decoded
  | _ => cases decoded

/-! ### Records -/

/-- A field that keeps a property of partial records, as long as the drafts for it have at most so
many levels. -/
def Field.Keeps (levels : Nat) (I : σ → Prop) (f : Field ε σ) : Prop :=
  ∀ ⦃s d t⦄, I s → Shallow levels d → f.read s d = .ok t → I t

variable {I : σ → Prop}

namespace Field.Keeps

variable {key : String} {get : σ → Option α} {set : α → σ → σ}

/-- A field whose values matter to the property. -/
theorem ensured (ensures : Ensures levels Q decode) (place : ∀ {a s}, Q a → I s → I (set a s)) :
    (field key get set decode).Keeps levels I := by
  intro s d t holds shallow read
  obtain ⟨-, a, decoded, rfl⟩ := field_eq_ok_iff.mp read
  exact place (ensures shallow decoded) holds

/-- A field whose values do not matter to the property. -/
theorem plain (place : ∀ {a s}, I s → I (set a s)) :
    (field key get set decode).Keeps levels I := by
  intro s d t holds shallow read
  obtain ⟨-, a, decoded, rfl⟩ := field_eq_ok_iff.mp read
  exact place holds

end Field.Keeps

variable {fields : List (Field ε σ)}

theorem Field.Keeps.entries (each : ∀ f ∈ fields, f.Keeps levels I) {stop : Option Cut}
    {es : List (Option String × Draft)} (shallow : ShallowEntries levels es) {s t : σ} (holds : I s)
    (read : entries fields stop s es = .ok t) : I t := by
  induction es generalizing s with
  | nil =>
    cases stop with
    | none =>
      cases read
      exact holds
    | some cut => cases read
  | cons e es ih =>
    obtain ⟨key?, d⟩ := e
    cases key? with
    | none => cases read
    | some key =>
      rw [Decoder.entries] at read
      cases found : fields.find? (·.key == key) with
      | some f =>
        rw [found] at read
        obtain ⟨u, first, rest⟩ := bind_eq_ok_iff.mp read
        exact ih shallow.2 (each f (List.mem_of_find?_eq_some found) holds shallow.1 first) rest
      | none =>
        rw [found] at read
        dsimp only at read
        split at read
        · cases read
        · exact ih shallow.2 holds read

theorem Field.Keeps.slots (each : ∀ f ∈ fields, f.Keeps levels I) {stop : Option Cut}
    {ds : List Draft} (shallow : ShallowItems levels ds) {s t : σ} (holds : I s)
    (read : slots stop fields s ds = .ok t) : I t := by
  induction fields generalizing ds s with
  | nil =>
    cases ds with
    | nil =>
      cases stop with
      | none =>
        cases read
        exact holds
      | some cut => cases read
    | cons d ds => cases read
  | cons f fields ih =>
    cases ds with
    | nil =>
      cases stop with
      | none =>
        cases read
        exact holds
      | some cut => cases read
    | cons d ds =>
      rw [Decoder.slots, bind_eq_ok_iff] at read
      obtain ⟨u, first, rest⟩ := read
      have later : ∀ f ∈ fields, f.Keeps levels I :=
        fun f mem => each f (List.mem_cons_of_mem _ mem)
      exact ih later shallow.2 (each f List.mem_cons_self holds shallow.1 first) rest

/-- A record has what each of its fields keeps true of partial records. -/
theorem Ensures.record {empty : σ} {finish : σ → Option α}
    (each : ∀ f ∈ fields, f.Keeps levels I) (start : I empty)
    (finished : ∀ {s a}, I s → finish s = some a → Q a) :
    Ensures (levels + 1) Q (record fields empty finish) := by
  intro d a shallow decoded
  obtain ⟨s, close, read⟩ := record_eq_ok_iff.mp decoded
  refine finished ?_ close
  rcases read with ⟨es, stop, rfl, read⟩ | ⟨ds, stop, rfl, read⟩
  · exact Field.Keeps.entries each shallow.2 start read
  · exact Field.Keeps.slots each shallow.2 start read

end Decoder

end Marksmith.Json

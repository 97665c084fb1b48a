import Marksmith.Json.Decode
import Marksmith.Proofs.Lists

/-!
Decoders of related drafts. A decoder respects relations between drafts and between values if
related drafts, as far as it decodes them, are decoded as related values.

* `Decoder.Respects.list`: arrays of related items are decoded as related lists;
* `Decoder.Respects.record`: records of related fields are decoded as related values, if putting
  related values in the place of a field keeps partial records related.
-/

namespace Marksmith.Json

namespace Draft

/-- Arrays of related items. -/
inductive ItemsRelated (R : Draft → Draft → Prop) : Draft → Draft → Prop
  | array {ds ds' : List Draft} (stop : Option Cut) (items : List.Forall₂ R ds ds') :
    ItemsRelated R (.array ds stop) (.array ds' stop)

/-- How the values of a key are related: as it is said for the key, or else they are equal. -/
def relationAt (special : List (String × (Draft → Draft → Prop))) (key : String) :
    Draft → Draft → Prop :=
  (special.lookup key).getD Eq

/-- Entries with the same key and related values. -/
structure EntryRelated (special : List (String × (Draft → Draft → Prop)))
    (e e' : Option String × Draft) : Prop where
  key : e.1 = e'.1
  value : ∀ key ∈ e.1, relationAt special key e.2 e'.2

theorem EntryRelated.special {special : List (String × (Draft → Draft → Prop))} {key : String}
    {R : Draft → Draft → Prop} (said : special.lookup key = some R) {d d' : Draft}
    (related : R d d') : EntryRelated special (some key, d) (some key, d') := by
  refine ⟨rfl, fun _ same => ?_⟩
  cases same
  rw [relationAt, said]
  exact related

theorem EntryRelated.plain {special : List (String × (Draft → Draft → Prop))} {key : String}
    (unsaid : special.lookup key = none) (d : Draft) :
    EntryRelated special (some key, d) (some key, d) := by
  refine ⟨rfl, fun _ same => ?_⟩
  cases same
  rw [relationAt, unsaid]
  rfl

/-- Values for keys in order that are related one by one; there may be fewer values than keys. -/
inductive SlotsRelated (special : List (String × (Draft → Draft → Prop))) :
    List String → List Draft → List Draft → Prop
  | nil (keys : List String) : SlotsRelated special keys [] []
  | cons {key : String} {keys : List String} {d d' : Draft} {ds ds' : List Draft}
    (first : relationAt special key d d') (rest : SlotsRelated special keys ds ds') :
    SlotsRelated special (key :: keys) (d :: ds) (d' :: ds')

/-- Records, written as objects or as arrays of their fields in order, whose fields are related as
it is said for some keys, and equal at all others. -/
inductive RecordRelated (keys : List String)
    (special : List (String × (Draft → Draft → Prop))) : Draft → Draft → Prop
  | object {es es' : List (Option String × Draft)} (stop : Option Cut)
    (entries : List.Forall₂ (EntryRelated special) es es') :
    RecordRelated keys special (.object es stop) (.object es' stop)
  | array {ds ds' : List Draft} (stop : Option Cut) (items : SlotsRelated special keys ds ds') :
    RecordRelated keys special (.array ds stop) (.array ds' stop)

end Draft

namespace Decoder

open Draft

variable {ε α β σ : Type}

/-- Related drafts, as far as they are decoded, are decoded as related values. -/
def Respects (R : Draft → Draft → Prop) (S : α → α → Prop) (decode : Decoder ε α) : Prop :=
  ∀ ⦃d d' : Draft⦄ ⦃a a' : α⦄, R d d' → decode d = .ok a → decode d' = .ok a' → S a a'

variable {R : Draft → Draft → Prop} {S : α → α → Prop} {decode : Decoder ε α}

theorem refine_eq_ok_iff {read : α → Except ε β} {d : Draft} {b : β} :
    refine decode read d = .ok b ↔ ∃ a, decode d = .ok a ∧ read a = .ok b := by
  rw [refine, bind_eq_ok_iff]
  refine exists_congr fun a => and_congr_right fun _ => ?_
  cases read a <;> simp [Except.mapError]

theorem Respects.refine {S' : β → β → Prop} {read : α → Except ε β} (respects : Respects R S decode)
    (reads : ∀ ⦃a a' b b'⦄, S a a' → read a = .ok b → read a' = .ok b' → S' b b') :
    Respects R S' (refine decode read) := by
  intro d d' b b' related here there
  obtain ⟨a, decoded, here⟩ := refine_eq_ok_iff.mp here
  obtain ⟨a', decoded', there⟩ := refine_eq_ok_iff.mp there
  exact reads (respects related decoded decoded') here there

theorem whole_eq_ok_iff {read : Json → Option α} {d : Draft} {a : α} :
    whole (ε := ε) read d = .ok a ↔ ∃ j, any (ε := ε) d = .ok j ∧ read j = some a := by
  rw [whole, bind_eq_ok_iff]
  refine exists_congr fun j => and_congr_right fun _ => ?_
  cases read j with
  | none => exact iff_of_false (fun h => nomatch h) (fun h => nomatch h)
  | some b => exact ⟨fun h => congrArg some (Except.ok.inj h), fun h => congrArg Except.ok (Option.some.inj h)⟩

theorem document_eq_ok_iff {text : String} {a : α} :
    document decode text = .ok a ↔
      decode (Document.read text).draft = .ok a ∧ (Document.read text).trailing = false := by
  rw [document, bind_eq_ok_iff]
  constructor
  · rintro ⟨b, decoded, made⟩
    split at made
    · cases made
    · next closed =>
      cases made
      exact ⟨decoded, Bool.eq_false_iff.mpr closed⟩
  · rintro ⟨decoded, closed⟩
    refine ⟨a, decoded, ?_⟩
    rw [closed]
    rfl

/-! ### Arrays -/

theorem Respects.items (respects : Respects R S decode) {stop : Option Cut} {ds ds' : List Draft}
    (related : List.Forall₂ R ds ds') {as as' : List α} (here : items decode stop ds = .ok as)
    (there : items decode stop ds' = .ok as') : List.Forall₂ S as as' := by
  induction related generalizing as as' with
  | nil =>
    cases stop with
    | none =>
      cases here
      cases there
      exact .nil
    | some cut => cases here
  | cons first _ ih =>
    rw [Decoder.items, bind_eq_ok_iff] at here there
    obtain ⟨a, read, here⟩ := here
    obtain ⟨a', read', there⟩ := there
    rw [bind_eq_ok_iff] at here there
    obtain ⟨as, rest, here⟩ := here
    obtain ⟨as', rest', there⟩ := there
    cases here
    cases there
    exact .cons (respects first read read') (ih rest rest')

theorem Respects.list (respects : Respects R S decode) :
    Respects (ItemsRelated R) (List.Forall₂ S) (list decode) := by
  rintro d d' as as' ⟨stop, related⟩ here there
  exact respects.items related here there

/-! ### Records -/

variable {special : List (String × (Draft → Draft → Prop))} {T : σ → σ → Prop}

/-- A field that keeps partial records related. -/
def Field.Respects (special : List (String × (Draft → Draft → Prop))) (T : σ → σ → Prop)
    (f : Field ε σ) : Prop :=
  ∀ ⦃s s' : σ⦄ ⦃d d' : Draft⦄ ⦃t t' : σ⦄, T s s' → relationAt special f.key d d' →
    f.read s d = .ok t → f.read s' d' = .ok t' → T t t'

theorem field_eq_ok_iff {key : String} {get : σ → Option α} {set : α → σ → σ}
    {decode : Decoder ε α} {s t : σ} {d : Draft} :
    (field key get set decode).read s d = .ok t ↔
      get s = none ∧ ∃ a, decode d = .ok a ∧ set a s = t := by
  dsimp only [field]
  cases taken : get s with
  | some a => simp
  | none =>
    rw [Option.isSome_none, if_neg Bool.false_ne_true, bind_eq_ok_iff]
    simp only [true_and]
    refine exists_congr fun a => and_congr_right fun _ => ?_
    exact ⟨Except.ok.inj, congrArg Except.ok⟩

namespace Field.Respects

variable {key : String} {get : σ → Option α} {set : α → σ → σ}

/-- A field keeps partial records related if related values do in its place. -/
theorem related (said : special.lookup key = some R) (respects : Decoder.Respects R S decode)
    (place : ∀ {a a' s s'}, S a a' → T s s' → T (set a s) (set a' s')) :
    (field key get set decode).Respects special T := by
  intro s s' d d' t t' partials values here there
  obtain ⟨-, a, read, rfl⟩ := field_eq_ok_iff.mp here
  obtain ⟨-, a', read', rfl⟩ := field_eq_ok_iff.mp there
  have at_ : relationAt special key = R := by rw [relationAt, said, Option.getD_some]
  refine place (respects ?_ read read') partials
  rw [← at_]
  exact values

/-- A field about whose key nothing is said keeps partial records related if equal values do. -/
theorem plain (unsaid : special.lookup key = none)
    (place : ∀ {a s s'}, T s s' → T (set a s) (set a s')) :
    (field key get set decode).Respects special T := by
  intro s s' d d' t t' partials values here there
  obtain ⟨-, a, read, rfl⟩ := field_eq_ok_iff.mp here
  obtain ⟨-, a', read', rfl⟩ := field_eq_ok_iff.mp there
  have equal : d = d' := by
    have values : relationAt special key d d' := values
    rw [relationAt, unsaid, Option.getD_none] at values
    exact values
  subst equal
  rw [read] at read'
  cases read'
  exact place partials

theorem related_eq (said : special.lookup key = some R)
    (respects : Decoder.Respects R Eq decode) :
    (field key get set decode).Respects special Eq :=
  related said respects fun values partials => by rw [values, partials]

theorem plain_eq (unsaid : special.lookup key = none) :
    (field key get set decode).Respects special Eq :=
  plain unsaid fun partials => by rw [partials]

end Field.Respects

variable {fields : List (Field ε σ)}

theorem Field.Respects.entries (each : ∀ f ∈ fields, f.Respects special T) {stop : Option Cut}
    {es es' : List (Option String × Draft)} (related : List.Forall₂ (EntryRelated special) es es')
    {s s' t t' : σ} (partials : T s s') (here : entries fields stop s es = .ok t)
    (there : Decoder.entries fields stop s' es' = .ok t') : T t t' := by
  induction related generalizing s s' with
  | nil =>
    cases stop with
    | none =>
      cases here
      cases there
      exact partials
    | some cut => cases here
  | @cons e e' es es' first _ ih =>
    obtain ⟨key?, d⟩ := e
    obtain ⟨key?', d'⟩ := e'
    obtain ⟨key, value⟩ := first
    dsimp only at key value
    subst key
    cases key? with
    | none => cases here
    | some key =>
      rw [Decoder.entries] at here there
      cases found : fields.find? (·.key == key) with
      | some f =>
        rw [found] at here there
        dsimp only at here there
        rw [bind_eq_ok_iff] at here there
        obtain ⟨u, read, here⟩ := here
        obtain ⟨u', read', there⟩ := there
        have suits := List.find?_some found
        have named : f.key = key := eq_of_beq suits
        refine ih ?_ here there
        refine each f (List.mem_of_find?_eq_some found) partials ?_ read read'
        rw [named]
        exact value key rfl
      | none =>
        rw [found] at here there
        dsimp only at here there
        split at here
        · cases here
        · split at there
          · cases there
          · exact ih partials here there

theorem Field.Respects.slots (each : ∀ f ∈ fields, f.Respects special T) {stop : Option Cut}
    {ds ds' : List Draft} (related : SlotsRelated special (fields.map (·.key)) ds ds')
    {s s' t t' : σ} (partials : T s s') (here : slots stop fields s ds = .ok t)
    (there : Decoder.slots stop fields s' ds' = .ok t') : T t t' := by
  induction fields generalizing ds ds' s s' with
  | nil =>
    cases related
    cases stop with
    | none =>
      cases here
      cases there
      exact partials
    | some cut => cases here
  | cons f fields ih =>
    cases related with
    | nil =>
      cases stop with
      | none =>
        cases here
        cases there
        exact partials
      | some cut => cases here
    | cons first rest =>
      rw [Decoder.slots, bind_eq_ok_iff] at here there
      obtain ⟨u, read, here⟩ := here
      obtain ⟨u', read', there⟩ := there
      have later : ∀ f ∈ fields, f.Respects special T :=
        fun f mem => each f (List.mem_cons_of_mem _ mem)
      exact ih later rest (each f List.mem_cons_self partials first read read') here there

theorem record_eq_ok_iff {empty : σ} {finish : σ → Option α} {d : Draft} {a : α} :
    record fields empty finish d = .ok a ↔
      ∃ s, finish s = some a ∧
        ((∃ es stop, d = .object es stop ∧ entries fields stop empty es = .ok s) ∨
          ∃ ds stop, d = .array ds stop ∧ slots stop fields empty ds = .ok s) := by
  have closed (s : σ) : record.close (ε := ε) finish s = .ok a ↔ finish s = some a := by
    rw [record.close]
    cases finish s <;> simp
  cases d with
  | object es stop => simp [record, bind_eq_ok_iff, closed, and_comm]
  | array ds stop => simp [record, bind_eq_ok_iff, closed, and_comm]
  | _ => simp [record]

/-- Records of related fields are decoded as related values. -/
theorem Respects.record {empty : σ} {finish : σ → Option α}
    (each : ∀ f ∈ fields, f.Respects special T) (start : T empty empty)
    (finished : ∀ {s s' a a'}, T s s' → finish s = some a → finish s' = some a' → S a a') :
    Respects (RecordRelated (fields.map (·.key)) special) S (record fields empty finish) := by
  intro d d' a a' related here there
  obtain ⟨s, close, here⟩ := record_eq_ok_iff.mp here
  obtain ⟨s', close', there⟩ := record_eq_ok_iff.mp there
  refine finished ?_ close close'
  cases related with
  | object stop entries =>
    rcases here with ⟨_, _, same, here⟩ | ⟨_, _, other, _⟩
    · rcases there with ⟨_, _, same', there⟩ | ⟨_, _, other, _⟩
      · cases same
        cases same'
        exact Field.Respects.entries each entries start here there
      · cases other
    · cases other
  | array stop items =>
    rcases here with ⟨_, _, other, _⟩ | ⟨_, _, same, here⟩
    · cases other
    · rcases there with ⟨_, _, other, _⟩ | ⟨_, _, same', there⟩
      · cases other
      · cases same
        cases same'
        exact Field.Respects.slots each items start here there

/-- Records of related fields are decoded as equal values, if no field tells related values
apart. -/
theorem respects_record_eq {empty : σ} {finish : σ → Option α}
    (each : ∀ f ∈ fields, f.Respects special Eq) :
    Respects (RecordRelated (fields.map (·.key)) special) Eq (record fields empty finish) := by
  refine .record each rfl ?_
  rintro s _ a a' rfl close close'
  rw [close] at close'
  exact Option.some.inj close'

end Decoder

end Marksmith.Json

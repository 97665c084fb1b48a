import Marksmith.Proofs.Json.Decoding

/-!
Decoders that give back what was written.

* `list_ofJson_iff`: a list is given back exactly if each of its items is;
* `any_ofJson`: any value is decoded from its own draft;
* `record_ofJson_iff`: a record written with all its fields in their order is decoded field by field.
-/

namespace Marksmith.Json.Decoder

open Draft

variable {ε α β σ : Type} {decode : Decoder ε α}

/-! ### Arrays -/

theorem ofItems_eq_map (js : List Json) : Draft.ofItems js = js.map Draft.ofJson := by
  induction js with
  | nil => rfl
  | cons j js ih => rw [Draft.ofItems, ih, List.map_cons]

theorem items_eq_ok_iff {ds : List Draft} {as : List α} :
    items decode none ds = .ok as ↔ List.Forall₂ (fun d a => decode d = .ok a) ds as := by
  have steps : items decode none ds = ds.mapM decode := by
    induction ds with
    | nil => rfl
    | cons d ds ih => rw [items, ih, List.mapM_cons]
  rw [steps, mapM_eq_ok_iff]

theorem list_ofJson_eq_ok_iff {write : β → Json} {bs : List β} {as : List α} :
    list decode (Draft.ofJson (.array (bs.map write))) = .ok as ↔
      List.Forall₂ (fun b a => decode (Draft.ofJson (write b)) = .ok a) bs as := by
  rw [Draft.ofJson, list, items_eq_ok_iff, ofItems_eq_map, List.map_map, List.forall₂_map_left_iff]
  rfl

/-- A list is given back exactly if each of its items is. -/
theorem list_ofJson_iff {write : α → Json} {as : List α} :
    list decode (Draft.ofJson (.array (as.map write))) = .ok as ↔
      ∀ a ∈ as, decode (Draft.ofJson (write a)) = .ok a :=
  list_ofJson_eq_ok_iff.trans List.forall₂_same

/-! ### Any value -/

mutual

/-- Any value is decoded from its own draft. -/
theorem any_ofJson : ∀ j : Json, any (ε := ε) (Draft.ofJson j) = .ok j
  | .null => rfl
  | .bool _ => rfl
  | .int _ => rfl
  | .real _ => rfl
  | .string _ => rfl
  | .array items => by
    rw [Draft.ofJson, any, anyItems_ofItems items]
    rfl
  | .object entries => by
    rw [Draft.ofJson, any, anyEntries_ofEntries entries]
    rfl

theorem anyItems_ofItems : ∀ js : List Json, anyItems (ε := ε) none (Draft.ofItems js) = .ok js
  | [] => rfl
  | j :: js => by
    rw [Draft.ofItems, anyItems, any_ofJson j, anyItems_ofItems js]
    rfl

theorem anyEntries_ofEntries :
    ∀ es : List (String × Json), anyEntries (ε := ε) none (Draft.ofEntries es) = .ok es
  | [] => rfl
  | (key, j) :: es => by
    rw [Draft.ofEntries, anyEntries, any_ofJson j, anyEntries_ofEntries es]
    rfl

end

theorem whole_ofJson_iff {read : Json → Option α} {j : Json} {a : α} :
    whole (ε := ε) read (Draft.ofJson j) = .ok a ↔ read j = some a := by
  rw [whole_eq_ok_iff, any_ofJson]
  simp

/-! ### Records -/

theorem find?_key {fields before : List (Field ε σ)} {f : Field ε σ}
    (distinct : ((before ++ f :: fields).map (·.key)).Nodup) :
    (before ++ f :: fields).find? (·.key == f.key) = some f := by
  rw [List.map_append, List.map_cons, List.nodup_append] at distinct
  have apart : before.find? (·.key == f.key) = none := by
    rw [List.find?_eq_none]
    intro g mem same
    exact distinct.2.2 g.key (List.mem_map_of_mem mem) f.key List.mem_cons_self (eq_of_beq same)
  rw [List.find?_append, apart, Option.none_or]
  exact List.find?_cons_of_pos (beq_self_eq_true f.key)

/-- Entries with the keys of some fields, in the order of the fields, are read like an array. -/
theorem entries_eq_slots {stop : Option Cut} {fields before : List (Field ε σ)}
    (distinct : ((before ++ fields).map (·.key)).Nodup) {es : List (String × Json)}
    (keys : es.map (·.1) = fields.map (·.key)) (s : σ) :
    entries (before ++ fields) stop s (Draft.ofEntries es)
      = slots stop fields s (es.map fun e => Draft.ofJson e.2) := by
  induction fields generalizing before es s with
  | nil =>
    rw [List.map_nil, List.map_eq_nil_iff] at keys
    subst keys
    rfl
  | cons f fields ih =>
    cases es with
    | nil => cases keys
    | cons e es =>
      obtain ⟨key, j⟩ := e
      obtain ⟨here, later⟩ := List.cons.inj keys
      dsimp only at here
      subst here
      have split : before ++ f :: fields = (before ++ [f]) ++ fields := by simp
      rw [Draft.ofEntries, entries, find?_key distinct, List.map_cons, slots]
      dsimp only
      congr 1
      funext t
      rw [split] at distinct ⊢
      exact ih distinct later t

theorem slots_nil_eq_ok_iff {fields : List (Field ε σ)} {s t : σ} :
    slots none fields s [] = .ok t ↔ s = t := by
  cases fields <;> exact ⟨Except.ok.inj, congrArg _⟩

theorem slots_cons_eq_ok_iff {stop : Option Cut} {key : String} {get : σ → Option α}
    {set : α → σ → σ} {fields : List (Field ε σ)} {s t : σ} {d : Draft} {ds : List Draft}
    (free : get s = none) :
    slots stop (field key get set decode :: fields) s (d :: ds) = .ok t ↔
      ∃ a, decode d = .ok a ∧ slots stop fields (set a s) ds = .ok t := by
  rw [slots, bind_eq_ok_iff]
  constructor
  · rintro ⟨_, read, rest⟩
    obtain ⟨-, a, decoded, rfl⟩ := field_eq_ok_iff.mp read
    exact ⟨a, decoded, rest⟩
  · rintro ⟨a, read, rest⟩
    exact ⟨_, field_eq_ok_iff.mpr ⟨free, a, read, rfl⟩, rest⟩

/-- A record written with all its fields in their order is decoded field by field. -/
theorem record_ofJson_iff {fields : List (Field ε σ)} {empty : σ} {finish : σ → Option α}
    {es : List (String × Json)} {a : α} (distinct : (fields.map (·.key)).Nodup)
    (keys : es.map (·.1) = fields.map (·.key)) :
    record fields empty finish (Draft.ofJson (.object es)) = .ok a ↔
      ∃ s, slots none fields empty (es.map fun e => Draft.ofJson e.2) = .ok s ∧
        finish s = some a := by
  have same : entries ([] ++ fields) none empty (Draft.ofEntries es)
      = slots none fields empty (es.map fun e => Draft.ofJson e.2) :=
    entries_eq_slots distinct keys empty
  rw [List.nil_append] at same
  rw [record_eq_ok_iff, Draft.ofJson]
  constructor
  · rintro ⟨s, done, ⟨_, _, same', read⟩ | ⟨_, _, other, _⟩⟩
    · cases same'
      exact ⟨s, same ▸ read, done⟩
    · cases other
  · rintro ⟨s, read, done⟩
    exact ⟨s, done, .inl ⟨_, _, rfl, same ▸ read⟩⟩

end Marksmith.Json.Decoder

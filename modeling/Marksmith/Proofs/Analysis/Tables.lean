import Marksmith.Analysis.Facts
import Marksmith.Proofs.Host.Declarations
import Marksmith.Proofs.Host.Tables

/-!
What the marker index says about a declaration. The tables are filled in one sweep over all
declarations; as no two of them define the same symbol, what a table gives for a symbol is what is
read off its own declaration.

* `get?_tracked`, `get?_singletons`: the entries for tracked types and singletons;
* `readable_of_clean`: if the index reports no error, the markers on a declaration of the project
  that may stand there can all be read.
-/

namespace Marksmith

namespace MarkerIndex

variable {host : Host} {limit : Nat} {model : Model}

/-! ### Tables of declarations -/

section

variable {α : Type} {read : TypeDecl → Option α}

theorem get?_foldl_read {ds : List TypeDecl} (nodup : (ds.map TypeDecl.symbol).Nodup)
    (table : SymbolTable α) (s : Symbol) :
    (ds.foldl (fun table d =>
      match read d with
      | some value => table.insert d.symbol value
      | none => table) table).get? s
      = ((ds.find? fun d => d.name == s.name && d.typeParams.length == s.arity).bind read).or
          (table.get? s) := by
  induction ds generalizing table with
  | nil => rfl
  | cons d ds ih =>
    obtain ⟨fresh, rest⟩ := List.nodup_cons.mp nodup
    rw [List.foldl_cons, ih rest, List.find?_cons]
    by_cases here : d.symbol = s
    · have later : ds.find? (fun d => d.name == s.name && d.typeParams.length == s.arity)
          = none := by
        refine List.find?_eq_none.mpr fun e mem suits => fresh ?_
        rw [here, ← Host.symbol_eq_iff.mp suits]
        exact List.mem_map_of_mem mem
      rw [later, Host.symbol_eq_iff.mpr here]
      cases found : read d with
      | none => simp [found]
      | some value => simp [found, here]
    · rw [Bool.eq_false_iff.mpr fun suits => here (Host.symbol_eq_iff.mp suits)]
      have unchanged : (match read d with
          | some value => table.insert d.symbol value
          | none => table).get? s = table.get? s := by
        split
        · rw [SymbolTable.get?_insert, if_neg fun same => here same.symm]
        · rfl
      rw [unchanged]

/-- A table gives for a symbol what is read off its declaration. -/
theorem get?_tableOf (accepted : Host.ofModel limit model = .ok host) (s : Symbol) :
    (tableOf read host.declarations).get? s = (host.declaration? s).bind read := by
  refine (get?_foldl_read (Host.nodup_symbols accepted) {} s).trans ?_
  rw [SymbolTable.get?_empty, Option.or_none]
  rfl

end

theorem get?_tracked (accepted : Host.ofModel limit model = .ok host) (s : Symbol) :
    (ofHost host).tracked.get? s = (host.declaration? s).bind fun d =>
      (optionsOf? .track TrackOptions.read d).map fun o => ⟨o, d.kind == .interface⟩ :=
  get?_tableOf accepted s

theorem get?_singletons (accepted : Host.ofModel limit model = .ok host) (s : Symbol) :
    (ofHost host).singletons.get? s
      = (host.declaration? s).bind (optionsOf? .singleton SingletonOptions.read) :=
  get?_tableOf accepted s

/-! ### Markers that cannot be read -/

theorem mem_firstMarkers {marker : Marker} {a : Attribute} {attributes : List Attribute}
    {seen : List Marker} (fresh : marker ∉ seen)
    (found : Attribute.find? marker attributes = some a) :
    (marker, a) ∈ firstMarkers seen attributes := by
  induction attributes generalizing seen with
  | nil => cases found
  | cons b attributes ih =>
    rw [Attribute.find?, List.find?_cons] at found
    simp only [firstMarkers]
    cases kind : b.marker? with
    | none =>
      rw [kind] at found
      exact ih fresh found
    | some other =>
      rw [kind] at found
      dsimp only
      by_cases same : other = marker
      · subst same
        simp only [beq_self_eq_true, Option.some.injEq] at found
        subst found
        rw [if_neg fresh]
        exact List.mem_cons_self
      · simp only [Option.some_beq_some, beq_eq_false_iff_ne.mpr same] at found
        split
        · exact ih fresh found
        · refine List.mem_cons_of_mem _ (ih ?_ found)
          rw [List.mem_cons, not_or]
          exact ⟨fun h => same h.symm, fresh⟩

/-- A marker whose arguments cannot be read is reported, if it may stand where it stands. -/
theorem malformed_reported {d : TypeDecl} (mem : d ∈ host.declarations)
    (own : d.external = false) {marker : Marker} (accepts : marker.accepts d.kind)
    {a : Attribute} (found : Attribute.find? marker d.attributes = some a) {e : OptionError}
    (unreadable : optionError? marker a = some e) :
    .malformedMarker d.location marker e ∈ (ofHost host).diagnostics := by
  have onType : .malformedMarker d.location marker e ∈ typeProblems d := by
    refine List.mem_filterMap.mpr ⟨_, mem_firstMarkers List.not_mem_nil found, ?_⟩
    have target : marker ≠ .inject := by
      rintro rfl
      cases unreadable
    simp only [if_neg target, accepts, unreadable, Bool.not_true, Option.map_some]
    rfl
  have within : .malformedMarker d.location marker e ∈ host.declarations.flatMap problems := by
    refine List.mem_flatMap.mpr ⟨d, mem, ?_⟩
    rw [problems, own]
    exact List.mem_append_left _ onType
  exact List.mem_append_left _ within

/-- The index reports no error. -/
def Clean (index : MarkerIndex) : Prop := ∀ d ∈ index.diagnostics, ¬d.isError

theorem readable_of_clean (clean : (ofHost host).Clean) {d : TypeDecl}
    (mem : d ∈ host.declarations) (own : d.external = false) {marker : Marker}
    (accepts : marker.accepts d.kind) {a : Attribute}
    (found : Attribute.find? marker d.attributes = some a) : optionError? marker a = none := by
  cases unreadable : optionError? marker a with
  | none => rfl
  | some e => exact absurd rfl (clean _ (malformed_reported mem own accepts found unreadable))

end MarkerIndex

end Marksmith

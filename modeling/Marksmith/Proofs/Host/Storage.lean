import Marksmith.Proofs.Host.Counterparts
import Marksmith.Proofs.Host.Walks

/-!
What the queries about storage answer. They look into structs with the structs around them in mind,
so that a struct that contains itself does not stop them; what they should answer is said without
that.

* `Storage`: what a value consists of, with its plain size;
* `Expands`: a type whose values consist of finitely many pieces, so that no struct in it contains
  itself (`exists_expands_iff`);
* `Unmanaged`: the least set of types that has all primitive types, enumerations, and structs of such
  types;
* `isUnmanagedWithin?_of_unmanaged`, `sizeWithin?_of_expands`: whatever way led to a type, its answer
  does not depend on it;
* `layout_exact`: both queries.
-/

namespace Marksmith.Host

open Syntax (TypeRef)

/-! ### Pieces of storage -/

/-- What a value consists of, down to the pieces that have a size of their own. -/
inductive Storage where
  /-- An array, or a value of a class, an interface or an unknown type. -/
  | reference
  | primitive (size : Nat) (nullable : Bool)
  | enum
  | struct (fields : List Storage)

namespace Storage

mutual

/-- The plain sum of the sizes of all pieces, without padding. -/
def size : Storage → Nat
  | reference => pointerSize
  | primitive size nullable => if nullable then size + 1 else size
  | enum => 4
  | struct fields => max (sizeAll fields) 1

/-- The sum of the sizes of several values. -/
def sizeAll : List Storage → Nat
  | [] => 0
  | s :: ss => size s + sizeAll ss

end

mutual

/-- How deeply structs are nested. -/
def height : Storage → Nat
  | struct fields => heightAll fields
  | _ => 0

/-- The height of a struct with these fields. -/
def heightAll : List Storage → Nat
  | [] => 0
  | s :: ss => max (height s + 1) (heightAll ss)

end

theorem height_lt_heightAll {s : Storage} {ss : List Storage} (mem : s ∈ ss) :
    height s < heightAll ss := by
  induction ss with
  | nil => cases mem
  | cons first ss ih =>
    rw [heightAll]
    rcases List.mem_cons.mp mem with rfl | later
    · omega
    · have below := ih later
      omega

end Storage

variable {host : Host}

/-- What the values of a type consist of, if it is known and they consist of finitely many pieces.
A field whose type does not resolve is a reference. -/
inductive Expands (host : Host) : Option TypeRef → Storage → Prop where
  | unknown : Expands host none .reference
  | array {t : TypeRef} : t.rank > 0 → Expands host (some t) .reference
  | primitive {t : TypeRef} {size : Nat} : t.rank = 0 → Engine.primitiveSize? t.name = some size →
      Expands host (some t) (.primitive size t.nullable)
  | enum {t : TypeRef} : t.rank = 0 → Engine.primitiveSize? t.name = none →
      host.kindOf? t = some .enum → Expands host (some t) .enum
  | struct {t : TypeRef} {fields : List Storage} : LooksInto host t →
      List.Forall₂ (Expands host) ((host.instanceFields t).map (·.2)) fields →
      Expands host (some t) (.struct fields)
  | reference {t : TypeRef} : t.rank = 0 → Engine.primitiveSize? t.name = none →
      (∀ kind, host.kindOf? t = some kind → kind.isValue = false) → Expands host (some t) .reference

/-! ### Finite expansions -/

/-- No endless way leads into the values of a type. -/
def FinitelyNested (host : Host) (t : TypeRef) : Prop := Acc (fun u v => Holds host v u) t

/-- A type that is held is a piece of what the type expands to. -/
theorem Expands.held {t u : TypeRef} {s : Storage} (expands : Expands host (some t) s)
    (holds : Holds host t u) : ∃ piece, Expands host (some u) piece ∧ piece.height < s.height := by
  obtain ⟨⟨flat, other, isStruct⟩, field, mem, stored⟩ := holds
  cases expands with
  | array ranked =>
    rw [flat] at ranked
    cases ranked
  | primitive _ found => cases other.symm.trans found
  | enum _ _ isEnum => cases isStruct.symm.trans isEnum
  | reference _ _ others => cases others .struct isStruct
  | @struct _ fields _ each =>
    have listed : some u ∈ (host.instanceFields t).map (·.2) := List.mem_map.mpr ⟨field, mem, stored⟩
    obtain ⟨piece, inside, here⟩ := exists_of_forall₂ each.flip listed
    exact ⟨piece, here, Storage.height_lt_heightAll inside⟩

theorem Expands.finitelyNested {t : TypeRef} {s : Storage} (expands : Expands host (some t) s) :
    FinitelyNested host t := by
  induction size : s.height using Nat.strong_induction_on generalizing t s with
  | h n lower =>
    refine ⟨t, fun u holds => ?_⟩
    obtain ⟨piece, here, below⟩ := expands.held holds
    exact lower _ (size ▸ below) here rfl

/-- The values of a type consist of finitely many pieces exactly if there is no endless way into
them. -/
theorem exists_expands_iff {t : TypeRef} :
    (∃ s, Expands host (some t) s) ↔ FinitelyNested host t := by
  refine ⟨fun ⟨s, expands⟩ => expands.finitelyNested, fun finite => ?_⟩
  induction finite with
  | intro t _ ih =>
    by_cases ranked : t.rank > 0
    · exact ⟨_, .array ranked⟩
    · have flat : t.rank = 0 := UInt8.le_zero_iff.mp (UInt8.not_lt.mp ranked)
      cases found : Engine.primitiveSize? t.name with
      | some size => exact ⟨_, .primitive flat found⟩
      | none =>
        by_cases isEnum : host.kindOf? t = some .enum
        · exact ⟨_, .enum flat found isEnum⟩
        · by_cases isStruct : host.kindOf? t = some .struct
          · have looks : LooksInto host t := ⟨flat, found, isStruct⟩
            obtain ⟨fields, each⟩ : ∃ fields,
                List.Forall₂ (Expands host) ((host.instanceFields t).map (·.2)) fields := by
              refine exists_forall₂ (List.forall_mem_map.mpr fun field mem => ?_)
              cases stored : field.2 with
              | none => exact ⟨_, .unknown⟩
              | some u => exact ih u ⟨looks, field, mem, stored⟩
            exact ⟨_, .struct looks each⟩
          · refine ⟨_, .reference flat found fun kind isKind => ?_⟩
            cases kind with
            | enum => exact absurd isKind isEnum
            | struct => exact absurd isKind isStruct
            | «class» => rfl
            | interface => rfl

/-- No way into the values of such a type leads back to it. -/
theorem FinitelyNested.not_holds_self {t : TypeRef} (finite : FinitelyNested host t) :
    ¬Relation.TransGen (Holds host) t t := by
  induction finite with
  | intro t _ ih =>
    intro around
    obtain ⟨u, first, rest⟩ := Relation.TransGen.head'_iff.mp around
    exact ih u first (Relation.TransGen.tail' rest first)

/-- Structs on a way to a type: from each of them it is met inside of values. -/
def LedTo (host : Host) (around : List TypeRef) (t : TypeRef) : Prop :=
  ∀ a ∈ around, Relation.TransGen (Holds host) a t

theorem LedTo.nil (t : TypeRef) : LedTo host [] t := fun _ none => absurd none List.not_mem_nil

theorem LedTo.next {around : List TypeRef} {t u : TypeRef} (led : LedTo host around t)
    (holds : Holds host t u) : LedTo host (t :: around) u :=
  List.forall_mem_cons.mpr ⟨.single holds, fun a mem => (led a mem).tail holds⟩

theorem LedTo.fresh {around : List TypeRef} {t : TypeRef} (led : LedTo host around t)
    (finite : FinitelyNested host t) : t ∉ around :=
  fun mem => finite.not_holds_self (led t mem)

/-! ### Sizes -/

theorem sumWithin?_eq {α : Type} {size : α → Option Nat} {as : List α} {pieces : List Storage}
    (each : List.Forall₂ (fun a piece => size a = some piece.size) as pieces) :
    sumWithin? size as = some (Storage.sizeAll pieces) := by
  induction each with
  | nil => rfl
  | cons here _ ih =>
    rw [sumWithin?, here, ih]
    rfl

/-- The size of a type is the plain sum of its pieces, whatever way led to it. -/
theorem sizeWithin?_of_expands {depth : Nat} {around : List TypeRef} {t : TypeRef} {s : Storage}
    (expands : Expands host (some t) s) (led : LedTo host around t) (deep : s.height < depth) :
    host.sizeWithin? depth around t = some s.size := by
  induction depth generalizing around t s with
  | zero => exact absurd deep (Nat.not_lt_zero _)
  | succ depth ih =>
    have fresh := led.fresh expands.finitelyNested
    have single : t.rank = 0 → ¬t.rank > 0 := fun flat ranked => by
      rw [flat] at ranked
      cases ranked
    cases expands with
    | array ranked =>
      rw [sizeWithin?, if_pos ranked]
      rfl
    | primitive flat found =>
      simp only [sizeWithin?, if_neg (single flat), found]
      rfl
    | enum flat other isEnum =>
      simp only [sizeWithin?, if_neg (single flat), other, isEnum]
      rfl
    | reference flat other others =>
      simp only [sizeWithin?, if_neg (single flat), other]
      split
      · next isEnum => cases others _ isEnum
      · next isStruct => cases others _ isStruct
      · rfl
    | @struct _ fields looks each =>
      obtain ⟨flat, other, isStruct⟩ := id looks
      simp only [sizeWithin?, if_neg (single flat), other, isStruct, if_neg fresh]
      refine Option.bind_eq_some_iff.mpr ⟨_, sumWithin?_eq ?_, rfl⟩
      refine (forall₂_and_mems (List.forall₂_map_left_iff.mp each)).imp ?_
      rintro field piece ⟨mem, inside, here⟩
      have below : piece.height < depth := by
        have lower := Storage.height_lt_heightAll inside
        rw [Storage.height] at deep
        omega
      split
      · next u stored => exact ih (stored ▸ here) (led.next ⟨looks, field, mem, stored⟩) below
      · next missing =>
        rw [missing] at here
        cases here
        rfl

/-! ### Unmanaged types -/

/-- The least set of types that has the primitive types, the enumerations, and the structs all of
whose instance fields have a type in it. Types in it are neither arrays nor marked nullable. -/
inductive Unmanaged (host : Host) : TypeRef → Prop where
  | primitive {t : TypeRef} : t.nullable = false → t.rank = 0 →
      (Engine.primitiveSize? t.name).isSome → Unmanaged host t
  | enum {t : TypeRef} : t.nullable = false → t.rank = 0 → host.kindOf? t = some .enum →
      Unmanaged host t
  | struct {t : TypeRef} : t.nullable = false → t.rank = 0 → host.kindOf? t = some .struct →
      (∀ field ∈ host.instanceFields t, field.2.isSome) →
      (∀ field ∈ host.instanceFields t, ∀ u, field.2 = some u → Unmanaged host u) →
      Unmanaged host t

/-- Unmanaged types do not contain themselves. -/
theorem Unmanaged.finitelyNested {t : TypeRef} (unmanaged : Unmanaged host t) :
    FinitelyNested host t := by
  induction unmanaged with
  | primitive _ _ found =>
    refine ⟨_, fun u holds => ?_⟩
    rw [holds.1.2.1] at found
    cases found
  | enum _ _ isEnum => exact ⟨_, fun u holds => nomatch isEnum.symm.trans holds.1.2.2⟩
  | struct _ _ _ _ _ ih =>
    refine ⟨_, fun u holds => ?_⟩
    obtain ⟨-, field, mem, stored⟩ := holds
    exact ih field mem u stored

theorem allWithin?_eq_true_iff {α : Type} {p : α → Option Bool} {as : List α} :
    allWithin? p as = some true ↔ ∀ a ∈ as, p a = some true := by
  induction as with
  | nil => exact iff_of_true rfl (List.forall_mem_nil _)
  | cons a as ih =>
    rw [List.forall_mem_cons, ← ih, allWithin?]
    cases p a with
    | none => simp
    | some answer => cases answer <;> simp

/-- A type that is found to be unmanaged is so. -/
theorem unmanaged_of_isUnmanagedWithin? {depth : Nat} {around : List TypeRef} {t : TypeRef}
    (yes : host.isUnmanagedWithin? depth around t = some true) : Unmanaged host t := by
  induction depth generalizing around t with
  | zero => cases yes
  | succ depth ih =>
    rw [isUnmanagedWithin?] at yes
    split at yes
    · cases yes
    · next bare =>
      simp only [Bool.or_eq_true, decide_eq_true_eq, not_or, Bool.not_eq_true] at bare
      have flat : t.rank = 0 := UInt8.le_zero_iff.mp (UInt8.not_lt.mp bare.2)
      split at yes
      · next found => exact .primitive bare.1 flat found
      · split at yes
        · next isEnum => exact .enum bare.1 flat isEnum
        · next isStruct =>
          split at yes
          · cases yes
          · have each := allWithin?_eq_true_iff.mp yes
            refine .struct bare.1 flat isStruct (fun field mem => ?_) fun field mem u stored => ?_
            · have here := each field mem
              split at here
              · next stored => rw [stored, Option.isSome_some]
              · cases here
            · have here := each field mem
              rw [stored] at here
              exact ih here
        · cases yes

/-- An unmanaged type is found to be so, whatever way led to it. -/
theorem isUnmanagedWithin?_of_unmanaged {depth : Nat} {around : List TypeRef} {t : TypeRef}
    {s : Storage} (unmanaged : Unmanaged host t) (expands : Expands host (some t) s)
    (led : LedTo host around t) (deep : s.height < depth) :
    host.isUnmanagedWithin? depth around t = some true := by
  induction depth generalizing around t s with
  | zero => exact absurd deep (Nat.not_lt_zero _)
  | succ depth ih =>
    have bare : t.nullable = false → t.rank = 0 → ¬(t.nullable || decide (t.rank > 0)) = true := by
      intro unmarked flat
      rw [unmarked, flat]
      decide
    have fresh := led.fresh expands.finitelyNested
    cases unmanaged with
    | primitive unmarked flat found =>
      rw [isUnmanagedWithin?, if_neg (bare unmarked flat), if_pos found]
    | enum unmarked flat isEnum =>
      rw [isUnmanagedWithin?, if_neg (bare unmarked flat)]
      simp only [isEnum, ite_self]
    | struct unmarked flat isStruct known each =>
      rw [isUnmanagedWithin?, if_neg (bare unmarked flat)]
      by_cases found : (Engine.primitiveSize? t.name).isSome = true
      · rw [if_pos found]
      · have looks : LooksInto host t := ⟨flat, Option.not_isSome_iff_eq_none.mp found, isStruct⟩
        simp only [if_neg found, isStruct, if_neg fresh]
        refine allWithin?_eq_true_iff.mpr fun field mem => ?_
        split
        · next u stored =>
          have holds : Holds host t u := ⟨looks, field, mem, stored⟩
          obtain ⟨piece, here, below⟩ := expands.held holds
          exact ih (each field mem u stored) here (led.next holds) (by omega)
        · next missing =>
          have some := known field mem
          rw [missing] at some
          cases some

/-! ### Both queries -/

/-- A host whose queries may look so deep into values. -/
def withLimit (host : Host) (limit : Nat) : Host := { host with stepLimit := limit }

theorem counterparts_withLimit (limit : Nat) : Counterparts Eq host (host.withLimit limit) where
  declarations := List.forall₂_same.mpr fun _ _ => rfl
  names := by
    rintro d _ rfl
    exact ⟨rfl, rfl, rfl⟩

theorem instanceFields_withLimit (limit : Nat) :
    (host.withLimit limit).instanceFields = host.instanceFields := by
  funext t
  rw [instanceFields, instanceFields, (counterparts_withLimit limit).resolve?_eq]
  rfl

theorem isUnmanagedWithin?_withLimit (limit : Nat) :
    (host.withLimit limit).isUnmanagedWithin? = host.isUnmanagedWithin? := by
  have kinds : (host.withLimit limit).kindOf? = host.kindOf? := rfl
  funext depth
  induction depth with
  | zero => rfl
  | succ depth ih =>
    funext around t
    simp only [isUnmanagedWithin?, kinds, instanceFields_withLimit, ih]

theorem sizeWithin?_withLimit (limit : Nat) :
    (host.withLimit limit).sizeWithin? = host.sizeWithin? :=
  Reorders.sizeWithin?_of rfl (instanceFields_withLimit limit)

theorem isUnmanaged_withLimit {limit : Nat} {t : TypeRef} :
    (host.withLimit limit).isUnmanaged t = true ↔
      host.isUnmanagedWithin? limit [] t = some true := by
  have answers : (host.withLimit limit).isUnmanaged t =
      (host.isUnmanagedWithin? limit [] t).getD false := by
    rw [isUnmanaged, isUnmanagedWithin?_withLimit]
    rfl
  rw [answers]
  cases host.isUnmanagedWithin? limit [] t <;> simp

theorem estimateSize_withLimit (limit : Nat) (t : TypeRef) :
    (host.withLimit limit).estimateSize t = (host.sizeWithin? limit [] t).getD 0 := by
  rw [estimateSize, sizeWithin?_withLimit]
  rfl

/-- The size of a type is that of its pieces, if the query may look so deep. -/
theorem estimateSize_of_expands {t : TypeRef} {s : Storage} (expands : Expands host (some t) s)
    {limit : Nat} (deep : s.height < limit) : (host.withLimit limit).estimateSize t = s.size := by
  rw [estimateSize_withLimit, sizeWithin?_of_expands expands (.nil t) deep, Option.getD_some]

/-- A type has one size. -/
theorem Expands.size_eq {t : TypeRef} {s s' : Storage} (expands : Expands host (some t) s)
    (expands' : Expands host (some t) s') : s.size = s'.size := by
  have deep : s.height < s.height + s'.height + 1 := by omega
  have deep' : s'.height < s.height + s'.height + 1 := by omega
  rw [← estimateSize_of_expands expands deep, estimateSize_of_expands expands' deep']

/-- What the queries answer about a type if they may look so deep. -/
structure LayoutExact (host : Host) (t : TypeRef) (limit : Nat) : Prop where
  unmanaged : (host.withLimit limit).isUnmanaged t = true ↔ Unmanaged host t
  /-- The query comes to an end on cycles: only types that store endlessly many others have none. -/
  answered : {u | Stores host t u}.Finite → (host.isUnmanagedWithin? limit [] t).isSome
  expands : FinitelyNested host t → ∃ s, Expands host (some t) s
  size : ∀ s, Expands host (some t) s → (host.withLimit limit).estimateSize t = s.size
  /-- The type has the same size in whatever structs it is met. -/
  reached : ∀ s, Expands host (some t) s → ∀ around, LedTo host around t →
    host.sizeWithin? limit around t = some s.size

/-- On types that store finitely many others, the query comes to an end. -/
theorem exists_answer_limit (host : Host) (t : TypeRef) :
    ∃ far, {u | Stores host t u}.Finite → ∀ limit, far ≤ limit →
      (host.isUnmanagedWithin? limit [] t).isSome := by
  by_cases finite : {u | Stores host t u}.Finite
  · obtain ⟨all, inside, closed⟩ := exists_closedDown finite
    exact ⟨unmet all [] + 1, fun _ limit enough => isUnmanaged_ends closed inside enough⟩
  · exact ⟨0, fun finite' => absurd finite' finite⟩

/-- If the values of a type consist of finitely many pieces, some limit lets its size be found. -/
theorem exists_size_limit (host : Host) (t : TypeRef) :
    ∃ deep, ∀ s, Expands host (some t) s →
      ∃ s', Expands host (some t) s' ∧ s'.height < deep ∧ s'.size = s.size := by
  by_cases expansion : ∃ s, Expands host (some t) s
  · obtain ⟨s', expands'⟩ := expansion
    exact ⟨s'.height + 1, fun s expands =>
      ⟨s', expands', Nat.lt_succ_self _, expands'.size_eq expands⟩⟩
  · exact ⟨0, fun s expands => absurd ⟨s, expands⟩ expansion⟩

/-- The guards of both queries cut off cycles and nothing else. -/
theorem layout_exact (host : Host) (t : TypeRef) :
    ∃ enough, ∀ limit, enough ≤ limit → LayoutExact host t limit := by
  obtain ⟨far, answers⟩ := exists_answer_limit host t
  obtain ⟨deep, found⟩ := exists_size_limit host t
  refine ⟨max far deep, fun limit enough => ?_⟩
  have reached : ∀ s, Expands host (some t) s → ∀ around, LedTo host around t →
      host.sizeWithin? limit around t = some s.size := by
    intro s expands around led
    obtain ⟨s', expands', low, same⟩ := found s expands
    rw [sizeWithin?_of_expands expands' led (by omega), same]
  refine ⟨isUnmanaged_withLimit.trans ⟨unmanaged_of_isUnmanagedWithin?, ?_⟩,
    fun finite => answers finite limit (by omega), exists_expands_iff.mpr, ?_, reached⟩
  · intro unmanaged
    obtain ⟨s, expands⟩ := exists_expands_iff.mpr unmanaged.finitelyNested
    obtain ⟨s', expands', low, -⟩ := found s expands
    exact isUnmanagedWithin?_of_unmanaged unmanaged expands' (.nil t) (by omega)
  · intro s expands
    rw [estimateSize_withLimit, reached s expands [] (.nil t), Option.getD_some]

/-! ### Nullable marks -/

/-- A type with a nullable mark. -/
def markNullable (t : TypeRef) : TypeRef := { t with nullable := true }

/-- Whether a type is primitive. -/
def isPrimitive (t : TypeRef) : Bool := (Engine.primitiveSize? t.name).isSome

/-- A type whose values are copied, without a nullable mark or a rank. -/
structure PlainValue (host : Host) (t : TypeRef) : Prop where
  unmarked : t.nullable = false
  flat : t.rank = 0
  value : isPrimitive t = true ∨ ∃ kind, host.kindOf? t = some kind ∧ kind.isValue = true

/-- A nullable mark adds a byte to primitive types, and nothing to enumerations and structs. -/
theorem Expands.mark {t : TypeRef} {s : Storage} (plain : PlainValue host t)
    (expands : Expands host (some t) s) :
    ∃ s', Expands host (some (markNullable t)) s' ∧ s'.height = s.height ∧
      s'.size = s.size + if isPrimitive t then 1 else 0 := by
  obtain ⟨unmarked, flat, value⟩ := plain
  cases expands with
  | array ranked =>
    rw [flat] at ranked
    cases ranked
  | @primitive _ size _ found =>
    refine ⟨_, .primitive flat found, rfl, ?_⟩
    rw [isPrimitive, found, unmarked]
    rfl
  | enum _ other isEnum =>
    refine ⟨_, .enum flat other isEnum, rfl, ?_⟩
    rw [isPrimitive, other]
    rfl
  | struct looks each =>
    refine ⟨_, .struct looks each, rfl, ?_⟩
    rw [isPrimitive, looks.2.1]
    rfl
  | reference _ other others =>
    rw [isPrimitive, other] at value
    obtain ⟨kind, isKind, copied⟩ := value.resolve_left Bool.false_ne_true
    cases copied.symm.trans (others kind isKind)

/-- Field types of which these ones have got a nullable mark. -/
inductive Marks (host : Host) :
    (before after : List (Option TypeRef)) → (marked : List TypeRef) → Prop where
  | nil : Marks host [] [] []
  | keep {before after : List (Option TypeRef)} {marked : List TypeRef} (type : Option TypeRef) :
      Marks host before after marked → Marks host (type :: before) (type :: after) marked
  | mark {before after : List (Option TypeRef)} {marked : List TypeRef} {t : TypeRef} :
      PlainValue host t → Marks host before after marked →
      Marks host (some t :: before) (some (markNullable t) :: after) (t :: marked)

theorem primitiveSize?_pos {name : String} {size : Nat}
    (found : Engine.primitiveSize? name = some size) : 0 < size := by
  have positive : ∀ p ∈ Engine.primitiveSizes, 0 < p.2 := by decide
  obtain ⟨front, behind, split, -⟩ := List.lookup_eq_some_iff.mp found
  exact positive (name, size) (split ▸ List.mem_append_right _ List.mem_cons_self)

/-- Everything takes some room. -/
theorem Expands.size_pos {type : Option TypeRef} {s : Storage} (expands : Expands host type s) :
    0 < s.size := by
  cases expands with
  | primitive _ found =>
    have positive := primitiveSize?_pos found
    rw [Storage.size]
    split <;> omega
  | struct => exact Nat.lt_of_lt_of_le Nat.one_pos (Nat.le_max_right _ _)
  | _ => decide

/-- The fields of a struct grow by a byte for each primitive type among those that are marked. -/
theorem Marks.sizeAll {before after : List (Option TypeRef)} {marked : List TypeRef}
    (marks : Marks host before after marked) {pieces : List Storage}
    (each : List.Forall₂ (Expands host) before pieces) :
    ∃ pieces', List.Forall₂ (Expands host) after pieces' ∧
      Storage.heightAll pieces' = Storage.heightAll pieces ∧
      Storage.sizeAll pieces' = Storage.sizeAll pieces + marked.countP isPrimitive ∧
      (marked = [] ∨ 0 < Storage.sizeAll pieces) := by
  induction marks generalizing pieces with
  | nil =>
    cases each
    exact ⟨[], .nil, rfl, rfl, .inl rfl⟩
  | keep type _ ih =>
    cases each with
    | @cons _ piece _ pieces here rest =>
      obtain ⟨pieces', rest', heights, sizes, -⟩ := ih rest
      have room := here.size_pos
      refine ⟨piece :: pieces', .cons here rest', ?_, ?_, .inr ?_⟩
      · rw [Storage.heightAll, Storage.heightAll, heights]
      · rw [Storage.sizeAll, Storage.sizeAll, sizes, Nat.add_assoc]
      · rw [Storage.sizeAll]
        omega
  | @mark _ _ marked t plain _ ih =>
    cases each with
    | @cons _ piece _ pieces here rest =>
      obtain ⟨pieces', rest', heights, sizes, -⟩ := ih rest
      obtain ⟨piece', here', height, size⟩ := here.mark plain
      have room := here.size_pos
      refine ⟨piece' :: pieces', .cons here' rest', ?_, ?_, .inr ?_⟩
      · rw [Storage.heightAll, Storage.heightAll, heights, height]
      · rw [Storage.sizeAll, Storage.sizeAll, sizes, size, List.countP_cons]
        omega
      · rw [Storage.sizeAll]
        omega

/-- The types of the fields that the values of a type store. -/
def fieldTypes (host : Host) (t : TypeRef) : List (Option TypeRef) :=
  (host.instanceFields t).map (·.2)

/-- So a struct grows by a byte for each field of a primitive type that is marked. -/
theorem Expands.marks {u v : TypeRef} {s : Storage} (expands : Expands host (some u) s)
    (looks : LooksInto host u) (looks' : LooksInto host v) {marked : List TypeRef}
    (marks : Marks host (fieldTypes host u) (fieldTypes host v) marked) :
    ∃ s', Expands host (some v) s' ∧ s'.height = s.height ∧
      s'.size = s.size + marked.countP isPrimitive := by
  obtain ⟨flat, other, isStruct⟩ := id looks
  cases expands with
  | array ranked =>
    rw [flat] at ranked
    cases ranked
  | primitive _ found => cases other.symm.trans found
  | enum _ _ isEnum => cases isStruct.symm.trans isEnum
  | reference _ _ others => cases others .struct isStruct
  | struct _ each =>
    obtain ⟨pieces', each', heights, sizes, room⟩ := marks.sizeAll each
    refine ⟨.struct pieces', .struct looks' each', heights, ?_⟩
    rw [Storage.size, Storage.size, sizes]
    rcases room with rfl | room
    · rfl
    · omega

/-- A nullable mark makes the values of a type one byte larger exactly if the type is primitive. A
struct grows by a byte for each field that is marked exactly if all of these have primitive types. -/
theorem nullable_larger_iff (host : Host) (limit : Nat) :
    (∀ t s, PlainValue host t → Expands host (some t) s → s.height < limit →
      ((host.withLimit limit).estimateSize (markNullable t) =
          (host.withLimit limit).estimateSize t + 1 ↔ isPrimitive t = true)) ∧
    ∀ u v s marked, LooksInto host u → LooksInto host v →
      Marks host (fieldTypes host u) (fieldTypes host v) marked → Expands host (some u) s →
      s.height < limit →
      ((host.withLimit limit).estimateSize v =
          (host.withLimit limit).estimateSize u + marked.length ↔
        ∀ t ∈ marked, isPrimitive t = true) := by
  constructor
  · intro t s plain expands deep
    obtain ⟨s', expands', height, size⟩ := expands.mark plain
    rw [estimateSize_of_expands expands deep, estimateSize_of_expands expands' (height ▸ deep), size]
    cases isPrimitive t <;> simp
  · intro u v s marked looks looks' marks expands deep
    obtain ⟨s', expands', height, size⟩ := expands.marks looks looks' marks
    rw [estimateSize_of_expands expands deep, estimateSize_of_expands expands' (height ▸ deep), size,
      Nat.add_left_cancel_iff, List.countP_eq_length]

/-- Statistics with a mode, and statistics whose points may be missing. -/
def statistics : Model where
  types :=
    [ { name := "Game.Mode", kind := .enum },
      { name := "Game.Stats", kind := .struct,
        fields := [{ name := "Points", type := .named "int" }, { name := "Mode", type := .named "Mode" }] },
      { name := "Game.SpareStats", kind := .struct,
        fields := [{ name := "Points", type := ⟨"int", [], true, 0⟩ },
          { name := "Mode", type := .named "Mode" }] } ]

theorem expands_stats : Expands (.withPrelude statistics) (some (.named "Game.Stats"))
    (.struct [.primitive 4 false, .enum]) := by
  have fields : (Host.withPrelude statistics).instanceFields (.named "Game.Stats") =
      [("Points", some (.named "int")), ("Mode", some (.named "Game.Mode"))] := by decide +kernel
  refine .struct ⟨rfl, by decide, rfl⟩ ?_
  rw [fields]
  exact .cons (.primitive rfl rfl) (.cons (.enum rfl (by decide) rfl) .nil)

/-- Points that may be missing take a byte more, and so do statistics with them. -/
theorem nullable_larger_points :
    ((Host.withPrelude statistics).withLimit 2).estimateSize ⟨"int", [], true, 0⟩ =
        ((Host.withPrelude statistics).withLimit 2).estimateSize (.named "int") + 1 ∧
      ((Host.withPrelude statistics).withLimit 2).estimateSize (.named "Game.SpareStats") =
        ((Host.withPrelude statistics).withLimit 2).estimateSize (.named "Game.Stats") + 1 := by
  have plain : PlainValue (.withPrelude statistics) (.named "int") := ⟨rfl, rfl, .inl (by decide)⟩
  have marks : Marks (.withPrelude statistics)
      (fieldTypes (.withPrelude statistics) (.named "Game.Stats"))
      (fieldTypes (.withPrelude statistics) (.named "Game.SpareStats")) [.named "int"] := by
    have before : fieldTypes (.withPrelude statistics) (.named "Game.Stats") =
        [some (.named "int"), some (.named "Game.Mode")] := by decide +kernel
    have after : fieldTypes (.withPrelude statistics) (.named "Game.SpareStats") =
        [some ⟨"int", [], true, 0⟩, some (.named "Game.Mode")] := by decide +kernel
    rw [before, after]
    exact .mark plain (.keep _ .nil)
  obtain ⟨types, structs⟩ := nullable_larger_iff (.withPrelude statistics) 2
  exact ⟨(types _ _ plain (.primitive rfl rfl) (by decide)).mpr (by decide),
    (structs _ _ _ _ ⟨rfl, by decide, rfl⟩ ⟨rfl, by decide, rfl⟩ marks expands_stats (by decide)).mpr
      (by decide)⟩

/-- A mode that may be missing takes no more room than a mode. -/
theorem not_nullable_larger_mode :
    ¬∀ limit model host, ofModel limit model = .ok host → ∀ t s, PlainValue host t →
      Expands host (some t) s → s.height < limit →
        host.estimateSize (markNullable t) = host.estimateSize t + 1 := by
  intro always
  have larger := always _ statistics _ (ofModel_withPrelude rfl rfl) (.named "Game.Mode") .enum
    ⟨rfl, rfl, .inr ⟨.enum, rfl, rfl⟩⟩ (.enum rfl (by decide) rfl) (by decide)
  exact absurd larger (by decide +kernel)

end Marksmith.Host

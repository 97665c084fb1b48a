import Marksmith.Proofs.Binding.Signatures
import Marksmith.Proofs.Host.Expansion
import Marksmith.Proofs.Host.TypeTexts

/-!
Array ranks under substitution. A rank is kept in eight bits: suffixes that are read beyond the
greatest rank are dropped, but where a type argument comes in place of a parameter that is written
with suffixes of its own, the sum of both ranks wraps around.

* `TypeRef.substituteCapped`: substitution in which ranks stop at the greatest one, as they do where
  types are read;
* `substitute_eq_substituteCapped_iff`: arguments come in place with these ranks exactly if each of
  them leaves room for the suffixes behind its parameter;
* `Binding.Obtained`: the types that lookups of bases, interfaces, fields, members and calls lead
  to; `Binding.Placed`: those that such a lookup gives itself; `keptByLookups_obtained`: lookups do
  not lead out of them;
* `lookup_kept_iff`: which lookups keep ranks, in any model that is accepted;
  `Descends.kept`: lookups in a row do as long as the suffixes that are written on the way add up to
  a rank;
* `not_ranksKept_grids`: a rank that is lost between a type and its base type.
-/

namespace Marksmith

open Syntax (TypeRef)

namespace Syntax.TypeRef

/-! ### Ranks that stop at the greatest one -/

/-- A type argument in place of a parameter, with as many suffixes as are read of all of them: those
beyond the greatest rank are dropped. -/
def capped (arg : TypeRef) (nullable : Bool) (rank : UInt8) : TypeRef :=
  { arg with
    nullable := arg.nullable || nullable
    rank := saturated (arg.rank.toNat + rank.toNat) }

mutual

/-- A type with arguments in place of type parameters, in which ranks stop at the greatest one. -/
def substituteCapped (params : List String) (args : List TypeRef) : TypeRef → TypeRef
  | ⟨name, targs, nullable, rank⟩ =>
    match if targs.isEmpty then argumentFor? params args name else none with
    | some arg => arg.capped nullable rank
    | none => ⟨name, substituteAllCapped params args targs, nullable, rank⟩

/-- Several types with arguments in place of type parameters. -/
def substituteAllCapped (params : List String) (args : List TypeRef) : List TypeRef → List TypeRef
  | [] => []
  | t :: ts => substituteCapped params args t :: substituteAllCapped params args ts

end

variable {params : List String} {args : List TypeRef}

theorem substituteAllCapped_eq (ts : List TypeRef) :
    substituteAllCapped params args ts = ts.map (substituteCapped params args) := by
  induction ts with
  | nil => rfl
  | cons t ts ih => rw [substituteAllCapped, ih, List.map_cons]

theorem substituteCapped_parameter {t a : TypeRef} (plain : t.args = [])
    (found : argumentFor? params args t.name = some a) :
    substituteCapped params args t = a.capped t.nullable t.rank := by
  obtain ⟨name, targs, nullable, rank⟩ := t
  cases plain
  rw [substituteCapped, if_pos List.isEmpty_nil, found]

theorem substituteCapped_other {t : TypeRef}
    (kept : t.args = [] → argumentFor? params args t.name = none) :
    substituteCapped params args t
      = { t with args := t.args.map (substituteCapped params args) } := by
  obtain ⟨name, targs, nullable, rank⟩ := t
  cases targs with
  | nil =>
    rw [substituteCapped, if_pos List.isEmpty_nil, kept rfl]
    rfl
  | cons t ts =>
    rw [substituteCapped, if_neg (Bool.not_eq_true _ ▸ rfl), substituteAllCapped_eq]

/-- Each argument leaves room for the suffixes behind the parameters that it comes in place of. -/
def LeavesRoom (params : List String) (args : List TypeRef) (t : TypeRef) : Prop :=
  ∀ s ∈ t.parts, s.args = [] → ∀ a, argumentFor? params args s.name = some a →
    a.rank.toNat + s.rank.toNat ≤ 255

theorem applied_eq_capped_iff {a : TypeRef} {nullable : Bool} {rank : UInt8} :
    a.applied nullable rank = a.capped nullable rank ↔ a.rank.toNat + rank.toNat ≤ 255 := by
  have own := a.rank.toNat_lt
  have more := rank.toNat_lt
  rw [applied, capped, mk.injEq, and_iff_right rfl, and_iff_right rfl, and_iff_right rfl,
    ← UInt8.toNat_inj, UInt8.toNat_add, toNat_saturated]
  omega

theorem leavesRoom_of_other {t : TypeRef}
    (kept : t.args = [] → argumentFor? params args t.name = none) :
    LeavesRoom params args t ↔ ∀ a ∈ t.args, LeavesRoom params args a := by
  constructor
  · intro room a arg s part
    exact room s (mem_parts.mpr (.inr ⟨a, arg, part⟩))
  · intro each s part plain a found
    rcases mem_parts.mp part with rfl | ⟨b, arg, inside⟩
    · cases (kept plain).symm.trans found
    · exact each b arg s inside plain a found

theorem leavesRoom_of_parameter {t a : TypeRef} (plain : t.args = [])
    (found : argumentFor? params args t.name = some a) :
    LeavesRoom params args t ↔ a.rank.toNat + t.rank.toNat ≤ 255 := by
  constructor
  · exact fun room => room t (self_mem_parts t) plain a found
  · intro room s part _ b found'
    rcases mem_parts.mp part with rfl | ⟨b, arg, -⟩
    · cases found.symm.trans found'
      exact room
    · rw [plain] at arg
      cases arg

/-- Ranks in a type with arguments in place come out as they should exactly if all arguments leave
room. Nothing else in the type can make up for a rank that does not. -/
theorem substitute_eq_substituteCapped_iff {t : TypeRef} :
    substitute params args t = substituteCapped params args t ↔ LeavesRoom params args t := by
  induction t using inductionOnArgs with
  | node t ih =>
    by_cases kept : t.args = [] → argumentFor? params args t.name = none
    · rw [substitute_other kept, substituteCapped_other kept, leavesRoom_of_other kept, mk.injEq,
        and_iff_right rfl, and_iff_left ⟨rfl, rfl⟩, List.map_inj_left]
      exact forall₂_congr ih
    · obtain ⟨plain, some⟩ := Classical.not_imp.mp kept
      obtain ⟨a, found⟩ := Option.ne_none_iff_exists'.mp some
      rw [substitute_parameter plain found, substituteCapped_parameter plain found,
        leavesRoom_of_parameter plain found, applied_eq_capped_iff]

/-! ### Bounds for ranks -/

/-- All ranks in a type are below a bound, or equal to it. -/
def RanksLe (n : Nat) (t : TypeRef) : Prop := ∀ s ∈ t.parts, s.rank.toNat ≤ n

theorem ranksLe_iff {n : Nat} {t : TypeRef} :
    RanksLe n t ↔ t.rank.toNat ≤ n ∧ ∀ a ∈ t.args, RanksLe n a := by
  constructor
  · exact fun ranks => ⟨ranks t (self_mem_parts t),
      fun a arg s inside => ranks s (mem_parts.mpr (.inr ⟨a, arg, inside⟩))⟩
  · rintro ⟨own, each⟩ s part
    rcases mem_parts.mp part with rfl | ⟨a, arg, inside⟩
    · exact own
    · exact each a arg s inside

theorem RanksLe.mono {m n : Nat} {t : TypeRef} (ranks : RanksLe m t) (le : m ≤ n) : RanksLe n t :=
  fun s part => Nat.le_trans (ranks s part) le

/-- A sum of ranks that wraps around is smaller still. -/
theorem RanksLe.substitute {m n : Nat} (placed : ∀ a ∈ args, RanksLe m a) {t : TypeRef}
    (ranks : RanksLe n t) : RanksLe (m + n) (substitute params args t) := by
  induction t using inductionOnArgs with
  | node t ih =>
    obtain ⟨own, each⟩ := ranksLe_iff.mp ranks
    by_cases kept : t.args = [] → argumentFor? params args t.name = none
    · rw [substitute_other kept]
      refine ranksLe_iff.mpr ⟨Nat.le_trans own (Nat.le_add_left n m), ?_⟩
      exact List.forall_mem_map.mpr fun a arg => ih a arg (each a arg)
    · obtain ⟨plain, some⟩ := Classical.not_imp.mp kept
      obtain ⟨a, found⟩ := Option.ne_none_iff_exists'.mp some
      obtain ⟨before, inside⟩ := ranksLe_iff.mp (placed a (mem_of_argumentFor? found))
      rw [substitute_parameter plain found]
      refine ranksLe_iff.mpr ⟨?_, fun b arg => (inside b arg).mono (Nat.le_add_right m n)⟩
      have sum : (a.applied t.nullable t.rank).rank.toNat ≤ a.rank.toNat + t.rank.toNat := by
        rw [applied, UInt8.toNat_add]
        exact Nat.mod_le _ _
      omega

theorem leavesRoom_of_ranksLe {m n : Nat} (placed : ∀ a ∈ args, RanksLe m a) {t : TypeRef}
    (ranks : RanksLe n t) (room : m + n ≤ 255) : LeavesRoom params args t := by
  intro s part _ a found
  have before := placed a (mem_of_argumentFor? found) a (self_mem_parts a)
  have own := ranks s part
  omega

end Syntax.TypeRef

/-- A type that a declaration writes, and the further type parameters that are visible in it. -/
inductive TypeDecl.WritesType (d : TypeDecl) : List String → TypeRef → Prop
  | mention {t : TypeRef} (mem : t ∈ d.base.toList ++ d.interfaces ++ d.fields.map (·.type)) :
      d.WritesType [] t
  | property {p : PropertyDecl} (mem : p ∈ d.properties) : d.WritesType [] p.type
  | signature {m : MethodDecl} {t : TypeRef} (mem : m ∈ d.methods) (type : t ∈ m.signatureTypes) :
      d.WritesType m.typeParams t

namespace Binding

open Syntax.TypeRef

variable {host : Host}

/-! ### Lookups -/

/-- Arguments that come in place of the type parameters in a type. -/
structure Placing where
  written : TypeRef
  params : List String
  args : List TypeRef

namespace Placing

variable (p : Placing)

def outcome : TypeRef := p.written.substitute p.params p.args

/-- What the outcome should be: ranks stop at the greatest one. -/
def capped : TypeRef := p.written.substituteCapped p.params p.args

def LeavesRoom : Prop := p.written.LeavesRoom p.params p.args

variable {p}

theorem kept_iff : p.outcome = p.capped ↔ p.LeavesRoom := substitute_eq_substituteCapped_iff

end Placing

/-- A type's arguments in what its declaration writes for a base, an interface, a field, a property
or a method. Further type parameters may be visible in it. -/
inductive MemberPlacing (host : Host) (t : TypeRef) : List String → Placing → Prop
  | intro {d : TypeDecl} {extra : List String} {written resolved : TypeRef}
      (denotes : host.declaration? (.ofType t) = some d) (writes : d.WritesType extra written)
      (means : host.resolveWith? d.symbol extra written = some resolved) :
      MemberPlacing host t extra ⟨resolved, d.typeParams, t.args⟩

/-- The arguments that a lookup brings, and the types that it takes them from. -/
inductive LookupPlacing (host : Host) : List TypeRef → Placing → Prop
  | member {t : TypeRef} {extra : List String} {p : Placing}
      (looked : MemberPlacing host t extra p) : LookupPlacing host [t] p
  /-- A call puts what it has inferred for a method's own type parameters into the types of its
  signature. -/
  | call {t : TypeRef} {extra params : List String} {args : List TypeRef} {p : Placing}
      (looked : MemberPlacing host t extra p) (own : params ⊆ extra) :
      LookupPlacing host (t :: args) ⟨p.outcome, params, args⟩

/-- Types that lookups lead to from types that have been parsed, and from declared types over their
own type parameters. -/
inductive Obtained (host : Host) : TypeRef → Prop
  | parsed {text : String} {t : TypeRef} (parsed : Syntax.parseType text = .ok t) : Obtained host t
  | own {d : TypeDecl} (mem : d ∈ host.declarations) : Obtained host d.selfType
  | resolved {t u : TypeRef} {context : Symbol} {extra : List String} (obtained : Obtained host t)
      (means : host.resolveWith? context extra t = some u) : Obtained host u
  | lookup {uses : List TypeRef} {p : Placing} (lookup : LookupPlacing host uses p)
      (obtained : ∀ t ∈ uses, Obtained host t) : Obtained host p.outcome
  | argument {t a : TypeRef} (obtained : Obtained host t) (mem : a ∈ t.args) : Obtained host a
  /-- An element of an array, or a type with or without a nullable mark. -/
  | lowered {t : TypeRef} {nullable : Bool} {rank : UInt8} (obtained : Obtained host t)
      (le : rank ≤ t.rank) : Obtained host ⟨t.name, t.args, nullable, rank⟩

/-- A type that a lookup gives. -/
def Placed (host : Host) (u : TypeRef) : Prop :=
  ∃ uses p, LookupPlacing host uses p ∧ (∀ t ∈ uses, Obtained host t) ∧ p.outcome = u

/-- No rank is lost: every lookup on types that have been obtained gives the type in which ranks
stop at the greatest one. -/
def RanksKept (host : Host) : Prop :=
  ∀ uses p, LookupPlacing host uses p → (∀ t ∈ uses, Obtained host t) → p.outcome = p.capped

/-- A candidate of a call whose declaring type is of a given kind. -/
structure Candidate.On (host : Host) (P : TypeRef → Prop) (c : Candidate) : Prop where
  declaring : P c.declaring
  denotes : host.declaration? (.ofType c.declaring) = some c.decl
  method : c.method ∈ c.decl.methods

/-- Lookups on types of one kind give types of the same kind, and those that put arguments in place
give types of another kind, which is part of it. -/
structure KeptByLookups (host : Host) (P R : TypeRef → Prop) : Prop where
  part : ∀ {u}, R u → P u
  base : ∀ {t u}, P t → host.baseType? t = some u → R u
  interface : ∀ {t u}, P t → u ∈ host.declaredInterfaces t → R u
  field : ∀ {t name u}, P t → (name, some u) ∈ host.instanceFields t → R u
  owner : ∀ {site u}, ownerType? host site = some u → P u
  /-- An array has a length, which is no lookup. -/
  member : ∀ {t name referent u}, P t → member? host t name = some (referent, u) →
    if 0 < t.rank then P u else R u
  element : ∀ {t u}, P t → elementType? host t = some u → P u
  method : ∀ {t name}, P t → ∀ c ∈ methodsOf host t name, c.On host P
  extension : ∀ {name}, ∀ c ∈ extensionsOf host name, c.On host P
  inference : ∀ {params inferred t v found}, P v → (∀ entry ∈ inferred, P entry.2) →
    host.unify? params inferred t v = some found → ∀ entry ∈ found, P entry.2
  signature : ∀ {site c written receiver count σ}, c.On host P →
    signature? host site c written receiver count = some σ → ∀ u ∈ σ.returns :: σ.params, R u
  call : ∀ {site c written receiver count σ inferred}, c.On host P →
    signature? host site c written receiver count = some σ → (∀ entry ∈ inferred, P entry.2) →
    ∀ u ∈ σ.returns :: σ.params, R (u.withInferred c.method.typeParams inferred)

theorem Placed.obtained {u : TypeRef} (placed : Placed host u) : Obtained host u := by
  obtain ⟨uses, p, looked, obtained, rfl⟩ := placed
  exact .lookup looked obtained

theorem MemberPlacing.placed {t : TypeRef} {extra : List String} {p : Placing}
    (looked : MemberPlacing host t extra p) (obtained : Obtained host t) :
    Placed host p.outcome :=
  ⟨[t], p, .member looked, List.forall_mem_singleton.mpr obtained, rfl⟩

theorem memberPlacing_of_mention {t : TypeRef} {d : TypeDecl}
    (denotes : host.declaration? (.ofType t) = some d) {m : TypeRef}
    (mention : m ∈ host.mentions d) : MemberPlacing host t [] ⟨m, d.typeParams, t.args⟩ := by
  obtain ⟨written, mem, means⟩ := List.mem_filterMap.mp mention
  exact .intro denotes (.mention mem) means

theorem writesType_of_declaredMember? {d : TypeDecl} {name : String} {t : TypeRef}
    (declares : (declaredMember? d name).map (·.1) = some t) : d.WritesType [] t := by
  rw [declaredMember?, Option.map_or, Option.map_map, Option.map_map, Option.or_eq_some_iff]
    at declares
  rcases declares with field | ⟨-, property⟩
  · obtain ⟨f, there, rfl⟩ := Option.map_eq_some_iff.mp field
    have listed := List.mem_map_of_mem (f := FieldDecl.type) (List.mem_of_find?_eq_some there)
    exact .mention (List.mem_append_right _ listed)
  · obtain ⟨p, there, rfl⟩ := Option.map_eq_some_iff.mp property
    exact .property (List.mem_of_find?_eq_some there)

namespace Obtained

variable {t u : TypeRef} (obtained : Obtained host t)

include obtained

theorem above (above : Host.Above host t u) : Placed host u := by
  obtain ⟨d, denotes, m, mention, rfl⟩ := Host.exists_mention_of_above above
  exact (memberPlacing_of_mention denotes mention).placed obtained

theorem field {name : String} (stored : (name, some u) ∈ host.instanceFields t) :
    Placed host u := by
  obtain ⟨d, denotes, m, mention, rfl⟩ := Host.exists_mention_of_instanceFields stored
  exact (memberPlacing_of_mention denotes mention).placed obtained

theorem supertype (mem : u ∈ host.supertypes t) : Obtained host u := by
  have up := Host.reaches_of_mem_supertypes mem
  clear mem
  induction up with
  | refl => exact obtained.lowered (UInt8.le_refl _)
  | tail _ step ih => exact (ih.above step).obtained

theorem member {name : String} {referent : Referent}
    (found : member? host t name = some (referent, u)) :
    if 0 < t.rank then Obtained host u else Placed host u := by
  rcases member?_cases found with
    ⟨array, rfl⟩ | ⟨plain, current, mem, d, _, _, denotes, declares, means, rfl⟩
  · have read : Syntax.parseType "int" = .ok (.named "int") := by decide +kernel
    rw [if_pos array]
    exact .parsed read
  · have writes := writesType_of_declaredMember? declares
    rw [if_neg plain]
    exact (MemberPlacing.intro denotes writes means).placed (obtained.supertype mem)

theorem element (found : elementType? host t = some u) : Obtained host u := by
  rw [elementType?] at found
  split at found
  · next array =>
    cases found
    have one : 1 ≤ t.rank := UInt8.le_iff_toNat_le.mpr (UInt8.lt_iff_toNat_lt.mp array)
    exact obtained.lowered (UInt8.sub_le one)
  · next plain =>
    obtain ⟨⟨referent, v⟩, item, rfl⟩ := Option.map_eq_some_iff.mp found
    have placed := obtained.member item
    rw [if_neg plain] at placed
    exact placed.obtained

theorem method {name : String} {c : Candidate} (candidate : c ∈ methodsOf host t name) :
    c.On host (Obtained host) := by
  obtain ⟨current, above, here⟩ := List.mem_flatMap.mp candidate
  split at here
  · cases here
  · next d denotes =>
    obtain ⟨m, suits, rfl⟩ := List.mem_map.mp here
    exact ⟨obtained.supertype above, denotes, List.mem_of_mem_filter suits⟩

end Obtained

theorem obtained_ownerType? {site : Site} {u : TypeRef} (found : ownerType? host site = some u) :
    Obtained host u := by
  obtain ⟨d, denotes, rfl⟩ := Option.map_eq_some_iff.mp found
  exact .own (Host.symbol_of_declaration? denotes).1

/-! ### Calls -/

theorem on_of_mem_extensionsOf {limit : Nat} {model : Model}
    (accepted : Host.ofModel limit model = .ok host) {name : String} {c : Candidate}
    (candidate : c ∈ extensionsOf host name) : c.On host (Obtained host) := by
  obtain ⟨⟨d, m⟩, suits, rfl⟩ := List.mem_map.mp candidate
  obtain ⟨_, mem, here⟩ := List.mem_flatMap.mp (List.mem_of_mem_filter suits)
  obtain ⟨_, method, same⟩ := List.mem_map.mp here
  cases same
  refine ⟨.own mem, ?_, List.mem_of_mem_filter method⟩
  rw [TypeDecl.ofType_selfType]
  exact Host.declaration?_symbol accepted mem

section Inference

variable {P : TypeRef → Prop} {params : List String}

theorem inferParam?_forall {i j : Host.Inferred} {name : String} {v : TypeRef} (value : P v)
    (each : ∀ entry ∈ i, P entry.2) (found : host.inferParam? i name v = some j) :
    ∀ entry ∈ j, P entry.2 := by
  rw [Host.inferParam?] at found
  split at found
  · split at found
    · cases found
      exact each
    · cases found
  · cases found
    exact List.forall_mem_cons.mpr ⟨value, each⟩

mutual

/-- What is inferred are types that the argument's type leads to. -/
theorem unify?_forall (element : ∀ {v}, P v → P { v with rank := 0 })
    (supertype : ∀ {v u}, P v → u ∈ host.supertypes v → P u)
    (argument : ∀ {v u}, P v → u ∈ v.args → P u) :
    ∀ {t v : TypeRef} {i j : Host.Inferred}, P v → (∀ entry ∈ i, P entry.2) →
      host.unify? params i t v = some j → ∀ entry ∈ j, P entry.2
  | ⟨name, args, nullable, rank⟩, v, i, j, value, each, found => by
    by_cases own : args = [] ∧ name ∈ params
    · obtain ⟨rfl, mem⟩ := own
      rw [unify?_parameter mem] at found
      split at found
      · exact inferParam?_forall value each found
      · split at found
        · exact inferParam?_forall (element value) each found
        · cases found
    · rw [unify?_other own] at found
      split at found
      · split at found
        · cases found
          exact each
        · cases found
      · split at found
        · cases found
          exact each
        · cases above : (host.supertypes { v with rank := 0 }).find? fun u =>
              Symbol.ofType u = ⟨name, args.length⟩ with
          | none =>
            rw [above, Option.elim_none] at found
            split at found
            · cases found
              exact each
            · cases found
          | some u =>
            rw [above, Option.elim_some] at found
            have up := supertype (element value) (List.mem_of_find?_eq_some above)
            exact unifyAll?_forall element supertype argument (fun a => argument up) each found

theorem unifyAll?_forall (element : ∀ {v}, P v → P { v with rank := 0 })
    (supertype : ∀ {v u}, P v → u ∈ host.supertypes v → P u)
    (argument : ∀ {v u}, P v → u ∈ v.args → P u) :
    ∀ {ts vs : List TypeRef} {i j : Host.Inferred}, (∀ v ∈ vs, P v) → (∀ entry ∈ i, P entry.2) →
      host.unifyAll? params i ts vs = some j → ∀ entry ∈ j, P entry.2
  | [], vs, i, j, _, each, found => by
    cases vs <;> cases found <;> exact each
  | t :: ts, [], i, j, _, each, found => by
    cases found
    exact each
  | t :: ts, v :: vs, i, j, values, each, found => by
    obtain ⟨here, others⟩ := List.forall_mem_cons.mp values
    obtain ⟨k, first, rest⟩ := Option.bind_eq_some_iff.mp found
    have between := unify?_forall element supertype argument here each first
    exact unifyAll?_forall element supertype argument others between rest

end

end Inference

theorem Obtained.inferred {params : List String} {i j : Host.Inferred} {t v : TypeRef}
    (value : Obtained host v) (each : ∀ entry ∈ i, Obtained host entry.2)
    (found : host.unify? params i t v = some j) : ∀ entry ∈ j, Obtained host entry.2 :=
  unify?_forall (fun obtained => obtained.lowered (UInt8.zero_le ..))
    (fun obtained => obtained.supertype) (fun obtained => obtained.argument) value each found

section Candidates

variable {P : TypeRef → Prop} {c : Candidate} {site : Site} {written : List TypeRef}
  {receiver : Option TypeRef} {count : Nat} {σ : Signature} {inferred : Host.Inferred}

theorem Candidate.On.placing (on : c.On host P) {t u : TypeRef} (type : t ∈ c.method.signatureTypes)
    (found : c.typeOf? host t = some u) :
    ∃ p, MemberPlacing host c.declaring c.method.typeParams p ∧ p.outcome = u := by
  obtain ⟨resolved, means, rfl⟩ := Option.map_eq_some_iff.mp found
  exact ⟨_, .intro on.denotes (.signature on.method type) means, rfl⟩

/-- The types of a signature are what the method writes, with the arguments of the type that
declares it. -/
theorem Candidate.On.signature (on : c.On host P)
    (signed : signature? host site c written receiver count = some σ) :
    ∀ u ∈ σ.returns :: σ.params,
      ∃ p, MemberPlacing host c.declaring c.method.typeParams p ∧ p.outcome = u := by
  obtain ⟨params, types, signed⟩ := Option.bind_eq_some_iff.mp signed
  obtain ⟨returns, result, signed⟩ := Option.bind_eq_some_iff.mp signed
  obtain ⟨inferred, -, signed⟩ := Option.bind_eq_some_iff.mp signed
  have returned := on.placing List.mem_cons_self result
  have taken := forall_mem_of_mapM
    (fun p mem u => on.placing (List.mem_cons_of_mem _ (List.mem_map_of_mem mem))) types
  cases receiver with
  | none =>
    dsimp only at signed
    split at signed
    · cases signed
      exact List.forall_mem_cons.mpr ⟨returned, taken⟩
    · cases signed
  | some t =>
    cases params with
    | nil => cases signed
    | cons first params =>
      obtain ⟨unified, -, signed⟩ := Option.bind_eq_some_iff.mp signed
      split at signed
      · cases signed
        exact List.forall_mem_cons.mpr ⟨returned, (List.forall_mem_cons.mp taken).2⟩
      · cases signed

theorem Candidate.On.placed (on : c.On host (Obtained host))
    (signed : signature? host site c written receiver count = some σ) :
    ∀ u ∈ σ.returns :: σ.params, Placed host u := by
  intro u mem
  obtain ⟨p, looked, rfl⟩ := on.signature signed u mem
  exact looked.placed on.declaring

theorem Candidate.On.placed_withInferred (on : c.On host (Obtained host))
    (signed : signature? host site c written receiver count = some σ)
    (each : ∀ entry ∈ inferred, Obtained host entry.2) :
    ∀ u ∈ σ.returns :: σ.params, Placed host (u.withInferred c.method.typeParams inferred) := by
  intro u mem
  obtain ⟨p, looked, rfl⟩ := on.signature signed u mem
  refine ⟨_, _, .call looked (List.filter_subset_self _),
    List.forall_mem_cons.mpr ⟨on.declaring, ?_⟩, rfl⟩
  intro a arg
  obtain ⟨name, -, found⟩ := List.mem_filterMap.mp arg
  obtain ⟨before, after, rfl, -⟩ := List.lookup_eq_some_iff.mp found
  exact each (name, a) (List.mem_append_right _ List.mem_cons_self)

end Candidates

theorem keptByLookups_obtained {limit : Nat} {model : Model}
    (accepted : Host.ofModel limit model = .ok host) :
    KeptByLookups host (Obtained host) (Placed host) where
  part := Placed.obtained
  base obtained up := obtained.above (.inl up)
  interface obtained up := obtained.above (.inr up)
  field := fun obtained => obtained.field
  owner := obtained_ownerType?
  member := fun obtained => obtained.member
  element := Obtained.element
  method obtained _ := obtained.method
  extension _ := on_of_mem_extensionsOf accepted
  inference := Obtained.inferred
  signature := Candidate.On.placed
  call := Candidate.On.placed_withInferred

/-! ### Which lookups keep ranks -/

theorem toNat_rank_elementType? {t u : TypeRef} (array : 0 < t.rank)
    (found : elementType? host t = some u) : u.rank.toNat + 1 = t.rank.toNat := by
  have positive : 0 < t.rank.toNat := UInt8.lt_iff_toNat_lt.mp array
  have one : 1 ≤ t.rank := UInt8.le_iff_toNat_le.mpr positive
  rw [elementType?, if_pos array] at found
  cases found
  rw [UInt8.toNat_sub_of_le _ _ one]
  exact Nat.sub_add_cancel positive

/-- In a model that is accepted, no sequence of lookups leads out of the types that are obtained;
indexing takes one suffix away; and a lookup puts arguments in place with ranks that stop at the
greatest one exactly if each argument leaves room for the suffixes behind its parameter. -/
theorem lookup_kept_iff {limit : Nat} {model : Model}
    (accepted : Host.ofModel limit model = .ok host) :
    KeptByLookups host (Obtained host) (Placed host) ∧
      (∀ t u, Obtained host t → 0 < t.rank → elementType? host t = some u →
        u.rank.toNat + 1 = t.rank.toNat) ∧
      ∀ uses p, LookupPlacing host uses p → (∀ t ∈ uses, Obtained host t) →
        Placed host p.outcome ∧ (p.outcome = p.capped ↔ p.LeavesRoom) := by
  refine ⟨keptByLookups_obtained accepted, ?_, ?_⟩
  · exact fun t u _ => toNat_rank_elementType?
  · exact fun uses p looked obtained => ⟨⟨uses, p, looked, obtained, rfl⟩, Placing.kept_iff⟩

/-- A type that a number of lookups of members lead to, one after the other, through declarations
that write at most `w` suffixes behind a type. -/
inductive Descends (host : Host) (w : Nat) (t : TypeRef) : Nat → TypeRef → Prop
  | refl : Descends host w t 0 t
  | step {n : Nat} {u : TypeRef} {extra : List String} {p : Placing} (way : Descends host w t n u)
      (looked : MemberPlacing host u extra p) (ranks : p.written.RanksLe w) :
      Descends host w t (n + 1) p.outcome

namespace Descends

variable {w n r : Nat} {t u : TypeRef} (way : Descends host w t n u) (start : t.RanksLe r)

include way start

theorem ranksLe : u.RanksLe (r + n * w) := by
  induction way with
  | refl => rwa [Nat.zero_mul]
  | @step n u _ _ way looked ranks ih =>
    obtain ⟨-, args⟩ := ranksLe_iff.mp ih
    cases looked with
    | intro denotes writes means =>
      rw [Nat.succ_mul, ← Nat.add_assoc]
      exact RanksLe.substitute args ranks

/-- The next lookup keeps ranks as long as the suffixes that all lookups may add are a rank together
with those at the start. -/
theorem kept {extra : List String} {p : Placing} (looked : MemberPlacing host u extra p)
    (ranks : p.written.RanksLe w) (room : r + (n + 1) * w ≤ 255) : p.outcome = p.capped := by
  obtain ⟨-, args⟩ := ranksLe_iff.mp (way.ranksLe start)
  cases looked with
  | intro denotes writes means =>
    refine Placing.kept_iff.mpr (leavesRoom_of_ranksLe args ranks ?_)
    rwa [Nat.add_assoc, ← Nat.succ_mul]

end Descends

/-! ### A rank that is lost -/

/-- An array of values of a type that goes by a name. -/
def arrayOf (name : String) (rank : UInt8) : TypeRef := ⟨name, [], false, rank⟩

/-- A row and a grid of cells of a type. -/
def rowOf (cell : TypeRef) : TypeRef := .generic "Game.Row" [cell]

def gridOf (cell : TypeRef) : TypeRef := .generic "Game.Grid" [cell]

/-- A grid derives from a row of arrays of its cells. -/
def gridDecl : TypeDecl where
  name := "Game.Grid"
  kind := .class
  typeParams := ["T"]
  base := some (.generic "Row" [arrayOf "T" 1])

def grids : Model where
  types := [{ name := "Game.Row", kind := .class, typeParams := ["T"] }, gridDecl]

/-- What is looked up for the base type of a grid. -/
def gridBase (cell : TypeRef) : Placing := ⟨rowOf (arrayOf "T" 1), ["T"], [cell]⟩

theorem accepted_grids : Host.ofModel Host.usualStepLimit grids = .ok (.withPrelude grids) :=
  Host.ofModel_withPrelude rfl rfl

theorem obtained_grid (rank : UInt8) :
    Obtained (.withPrelude grids) (gridOf (arrayOf "int" rank)) := by
  -- Suffixes add nothing to the names in a text.
  have bare : (gridOf (.named "int")).MadeOf Symbol.Dotted :=
    plain_iff_madeOf.mp (by decide +kernel)
  have cell : (arrayOf "int" rank).MadeOf Symbol.Dotted :=
    (bare.arg List.mem_cons_self).marked false rank
  have made : (gridOf (arrayOf "int" rank)).MadeOf Symbol.Dotted :=
    madeOf_iff.mpr ⟨(madeOf_iff.mp bare).1, List.forall_mem_singleton.mpr cell⟩
  exact .parsed (reparses_iff_plain.mpr (plain_iff_madeOf.mpr made))

theorem resolve?_gridDecl :
    (Host.withPrelude grids).resolve? gridDecl.symbol (.generic "Row" [arrayOf "T" 1])
      = some (rowOf (arrayOf "T" 1)) := by
  decide +kernel

theorem declaration?_grid (cell : TypeRef) :
    (Host.withPrelude grids).declaration? (.ofType (gridOf cell)) = some gridDecl :=
  Host.declaration?_symbol accepted_grids (List.mem_cons_of_mem _ List.mem_cons_self)

theorem lookupPlacing_grid (cell : TypeRef) :
    LookupPlacing (.withPrelude grids) [gridOf cell] (gridBase cell) :=
  .member (.intro (declaration?_grid cell) (.mention List.mem_cons_self) resolve?_gridDecl)

theorem outcome_gridBase (rank : UInt8) :
    (gridBase (arrayOf "int" rank)).outcome = rowOf (arrayOf "int" (rank + 1)) := rfl

theorem capped_gridBase (rank : UInt8) :
    (gridBase (arrayOf "int" rank)).capped
      = rowOf (arrayOf "int" (saturated (rank.toNat + 1))) := rfl

theorem baseType?_grid (rank : UInt8) :
    (Host.withPrelude grids).baseType? (gridOf (arrayOf "int" rank))
      = some (rowOf (arrayOf "int" (rank + 1))) := by
  rw [Host.baseType?]
  refine Option.bind_eq_some_iff.mpr ⟨gridDecl, declaration?_grid _, ?_⟩
  refine Option.bind_eq_some_iff.mpr ⟨_, rfl, ?_⟩
  exact Option.bind_eq_some_iff.mpr ⟨_, resolve?_gridDecl, congrArg some (outcome_gridBase rank)⟩

/-- The greatest rank is reached from the one below it. -/
theorem lookup_kept_grid :
    Placed (.withPrelude grids) (rowOf (arrayOf "int" 255)) ∧
      (gridBase (arrayOf "int" 254)).LeavesRoom := by
  obtain ⟨-, -, each⟩ := lookup_kept_iff accepted_grids
  obtain ⟨placed, kept⟩ := each _ _ (lookupPlacing_grid (arrayOf "int" 254))
    (List.forall_mem_singleton.mpr (obtained_grid 254))
  exact ⟨placed, kept.mp rfl⟩

/-- A grid of the greatest rank derives from a row of plain numbers. -/
theorem not_ranksKept_grids :
    Host.ofModel Host.usualStepLimit grids = .ok (.withPrelude grids) ∧
      (Host.withPrelude grids).baseType? (gridOf (arrayOf "int" 255))
        = some (rowOf (.named "int")) ∧
      ¬RanksKept (.withPrelude grids) := by
  refine ⟨accepted_grids, baseType?_grid 255, fun keeps => ?_⟩
  have same := keeps _ _ (lookupPlacing_grid (arrayOf "int" 255))
    (List.forall_mem_singleton.mpr (obtained_grid 255))
  rw [outcome_gridBase, capped_gridBase] at same
  exact absurd same (by decide)

end Binding

end Marksmith

import Marksmith.Proofs.Host.Counterparts
import Marksmith.Proofs.Host.TypeTexts
import Marksmith.Proofs.Union.Signatures

/-!
The order in which declarations list their interfaces.

* `TypeDecl.Relists`: the same declaration with its interfaces in another order;
* `Host.Relists`: interfaces have the same members then, and list the same interfaces;
* `TextsApart`: interfaces at one distance from a dispatch interface differ in their texts, by which
  a level of the walk is sorted; they do if names are unpunctuated;
* `signatures_collected`: the members of a dispatch interface are collected whatever the order is,
  and they are the same in any order if texts are apart.

`not_signatures_relisted` is a project with names that are no identifiers, in which two interfaces
at one distance have the same text.
-/

namespace Marksmith

open Syntax (TypeRef)

/-! ### Declarations -/

/-- The declaration with its interfaces in another order. -/
inductive TypeDecl.Relists (d : TypeDecl) : TypeDecl → Prop
  | interfaces {interfaces : List TypeRef} (perm : interfaces.Perm d.interfaces) :
      Relists d { d with interfaces }

namespace TypeDecl.Relists

theorem refl (d : TypeDecl) : d.Relists d := .interfaces (.refl d.interfaces)

theorem sameNames {d d' : TypeDecl} (relists : d.Relists d') : d.SameNames d' := by
  obtain ⟨perm⟩ := relists
  exact ⟨rfl, rfl, rfl⟩

end TypeDecl.Relists

namespace Host

/-- The same declarations place by place, apart from the order of their interfaces. -/
structure Relists (host host' : Host) : Prop where
  stepLimit : host'.stepLimit = host.stepLimit
  declarations : List.Forall₂ TypeDecl.Relists host.declarations host'.declarations

/-- A model is accepted in any order of its interfaces. -/
theorem exists_relisted {limit : Nat} {model : Model} {host : Host} {types : List TypeDecl}
    (accepted : ofModel limit model = .ok host)
    (relisted : List.Forall₂ TypeDecl.Relists model.types types) :
    ∃ host', ofModel limit { model with types } = .ok host' ∧ host.Relists host' := by
  refine ⟨_, ofModel_counterparts accepted .refl (fun _ _ => TypeDecl.Relists.sameNames) relisted,
    ?_⟩
  obtain ⟨-, -, rfl⟩ := ofModel_eq_ok_iff.mp accepted
  exact ⟨rfl, List.rel_append relisted (List.forall₂_same.mpr fun d _ => .refl d)⟩

namespace Relists

variable {host host' : Host} (relisted : host.Relists host')

include relisted

theorem counterparts : Counterparts TypeDecl.Relists host host' :=
  ⟨relisted.declarations, fun _ _ => TypeDecl.Relists.sameNames⟩

theorem declaredInterfaces_perm (t : TypeRef) :
    (host'.declaredInterfaces t).Perm (host.declaredInterfaces t) := by
  rw [declaredInterfaces, declaredInterfaces, relisted.counterparts.resolve?_eq]
  have found := relisted.counterparts.declaration?_rel (.ofType t)
  generalize host.declaration? (.ofType t) = d, host'.declaration? (.ofType t) = d' at found
  cases found with
  | none => exact .refl _
  | some same =>
    obtain ⟨perm⟩ := same
    exact (perm.filterMap _).map _

theorem mem_declaredInterfaces_iff {t i : TypeRef} :
    i ∈ host'.declaredInterfaces t ↔ i ∈ host.declaredInterfaces t :=
  (relisted.declaredInterfaces_perm t).mem_iff

theorem membersOf_eq (depth : Nat) (i : TypeRef) :
    Union.membersOf host' depth i = Union.membersOf host depth i := by
  rw [Union.membersOf, Union.membersOf]
  have found := relisted.counterparts.declaration?_rel (.ofType i)
  generalize host.declaration? (.ofType i) = d, host'.declaration? (.ofType i) = d' at found
  cases found with
  | none => rfl
  | some same =>
    obtain ⟨perm⟩ := same
    simp only [Union.declaredMembers, Union.memberType, relisted.counterparts.resolve?_eq]
    rfl

end Relists

end Host

namespace Union

/-! ### What does not notice -/

section

variable {host host' : Host} {dispatch i : TypeRef} {n : Nat}

theorem Ancestor.of_mem_declaredInterfaces
    (lists : ∀ t, ∀ u ∈ host.declaredInterfaces t, u ∈ host'.declaredInterfaces t)
    (way : Ancestor host dispatch n i) : Ancestor host' dispatch n i := by
  induction way with
  | self => exact .self
  | step _ next ih => exact .step ih (lists _ _ next)

variable (relisted : host.Relists host')

include relisted

theorem ancestor_relisted : Ancestor host' dispatch n i ↔ Ancestor host dispatch n i := by
  constructor
  · exact Ancestor.of_mem_declaredInterfaces fun t u => relisted.mem_declaredInterfaces_iff.mp
  · exact Ancestor.of_mem_declaredInterfaces fun t u => relisted.mem_declaredInterfaces_iff.mpr

theorem nearest_relisted : Nearest host' dispatch n i ↔ Nearest host dispatch n i := by
  simp only [Nearest, ancestor_relisted relisted]

theorem declares_relisted {m : MemberSignature} : Declares host' i n m ↔ Declares host i n m := by
  rw [← mem_membersOf, ← mem_membersOf, relisted.membersOf_eq]

theorem asks_relisted {s : MemberShape} : Asks host' dispatch n s ↔ Asks host dispatch n s := by
  simp only [Asks, ancestor_relisted relisted, declares_relisted relisted]

/-- The walk ends with the interfaces in any order. -/
theorem ends_relisted {levels : Nat} :
    (signaturesWithin? host' levels 0 [dispatch] [] [dispatch]).isSome =
      (signaturesWithin? host levels 0 [dispatch] [] [dispatch]).isSome := by
  rw [Bool.eq_iff_iff, Front.start.isSome_iff, Front.start.isSome_iff]
  simp only [nearest_relisted relisted]

end

/-! ### Levels in order -/

/-- Whether interfaces at one distance from the dispatch interface differ in their texts. -/
def TextsApart (host : Host) (dispatch : TypeRef) : Prop :=
  ∀ n i j, Nearest host dispatch n i → Nearest host dispatch n j → i.text = j.text → i = j

theorem textNotAfter_trans (a b c : TypeRef) (first : textNotAfter a b)
    (second : textNotAfter b c) : textNotAfter a c :=
  Std.TransCmp.isLE_trans first second

theorem textNotAfter_total (a b : TypeRef) : (textNotAfter a b || textNotAfter b a) = true := by
  have swap : Ord.compare b.text a.text = (Ord.compare a.text b.text).swap :=
    Std.OrientedCmp.eq_swap
  rw [textNotAfter, textNotAfter, swap]
  cases Ord.compare a.text b.text <;> rfl

theorem text_eq_of_textNotAfter {a b : TypeRef} (first : textNotAfter a b)
    (second : textNotAfter b a) : a.text = b.text :=
  String.le_antisymm (isLE_compare.mp first) (isLE_compare.mp second)

section

variable {host host' : Host} {dispatch : TypeRef} {depth : Nat}
  {seen seen' level level' : List TypeRef} {found : List MemberShape}

/-- With unpunctuated names, all texts are apart. -/
theorem textsApart_of_unpunctuated (names : host.Unpunctuated)
    (made : dispatch.MadeOf Symbol.Unpunctuated) : TextsApart host dispatch := by
  intro n i j near near' same
  exact TypeRef.text_inj (near.1.madeOf names.covers made) (near'.1.madeOf names.covers made) same

/-- A level is sorted into one order. -/
theorem Front.sorted_eq (front : Front host dispatch depth seen found level)
    (apart : TextsApart host dispatch) (perm : level'.Perm level) :
    level'.mergeSort textNotAfter = level.mergeSort textNotAfter := by
  refine mergeSort_perm_eq textNotAfter_trans textNotAfter_total ?_ perm
  intro a b mem mem' first second
  exact apart depth a b ((front.level a).mp mem) ((front.level b).mp mem')
    (text_eq_of_textNotAfter first second)

/-- The walk gives the same whatever order a level comes in. -/
theorem Front.relisted {levels : Nat} (front : Front host dispatch depth seen found level)
    (apart : TextsApart host dispatch) (relisted : host.Relists host') (perm : level'.Perm level)
    (met : ∀ i, i ∈ seen' ↔ i ∈ seen) :
    signaturesWithin? host' levels depth seen' found level' =
      signaturesWithin? host levels depth seen found level := by
  induction levels generalizing depth seen seen' found level level' with
  | zero =>
    cases level with
    | nil =>
      rw [List.perm_nil.mp perm]
      rfl
    | cons i is =>
      cases level' with
      | nil => exact absurd (List.nil_perm.mp perm) (List.cons_ne_nil i is)
      | cons j js => rfl
  | succ levels ih =>
    by_cases done : level = []
    · subst done
      rw [List.perm_nil.mp perm, signaturesWithin?_nil, signaturesWithin?_nil]
    · have more : level' ≠ [] := fun done' => done (List.nil_perm.mp (done' ▸ perm))
      have members : membersAt host' depth found level' = membersAt host depth found level := by
        have own : membersOf host' depth = membersOf host depth :=
          funext (relisted.membersOf_eq depth)
        rw [membersAt, membersAt, front.sorted_eq apart perm, own]
      -- The next level has the same interfaces, but perhaps in another order.
      have same (j : TypeRef) :
          j ∈ nextLevel host' seen' level' ↔ j ∈ nextLevel host seen level := by
        simp only [mem_nextLevel, relisted.mem_declaredInterfaces_iff, perm.mem_iff, met]
      have next : (nextLevel host' seen' level').Perm (nextLevel host seen level) :=
        (List.perm_ext_iff_of_nodup nodup_nextLevel nodup_nextLevel).mpr same
      rw [signaturesWithin?_succ levels done, signaturesWithin?_succ levels more, members]
      refine congrArg _ (ih front.step next fun i => ?_)
      rw [List.mem_append, List.mem_append, same, met]

end

/-! ### Models -/

/-- The members that a dispatch interface asks for are collected from all interfaces that it
extends. Which shapes there are, and at which distances, does not depend on the order in which
declarations list their interfaces; nor does anything else of the members if texts are apart. -/
theorem signatures_collected {limit : Nat} {model : Model} {host : Host} {dispatch : TypeRef}
    (accepted : Host.ofModel limit model = .ok host)
    (ends : (signaturesWithin? host limit 0 [dispatch] [] [dispatch]).isSome) :
    Collected host dispatch (signatures host dispatch) ∧
      (∀ types, List.Forall₂ TypeDecl.Relists model.types types →
        ∃ host', Host.ofModel limit { model with types } = .ok host' ∧
          Collected host' dispatch (signatures host' dispatch) ∧
          ((signatures host' dispatch).map fun m => (m.depth, m.shape)).Perm
            ((signatures host dispatch).map fun m => (m.depth, m.shape)) ∧
          (TextsApart host dispatch → signatures host' dispatch = signatures host dispatch)) ∧
      (model.Unpunctuated → dispatch.MadeOf Symbol.Unpunctuated → TextsApart host dispatch) := by
  have steps : host.stepLimit = limit := by
    obtain ⟨-, -, rfl⟩ := Host.ofModel_eq_ok_iff.mp accepted
    rfl
  subst steps
  have collected := collected_signatures ends
  refine ⟨collected, fun types each => ?_, fun names made => ?_⟩
  · obtain ⟨host', accepted', relisted⟩ := Host.exists_relisted accepted each
    have ends' : (signaturesWithin? host' host'.stepLimit 0 [dispatch] [] [dispatch]).isSome := by
      rwa [relisted.stepLimit, ends_relisted relisted]
    have collected' := collected_signatures ends'
    refine ⟨host', accepted', collected', ?_, fun apart => ?_⟩
    · refine (List.perm_ext_iff_of_nodup collected'.nodup collected.nodup).mpr ?_
      rintro ⟨n, s⟩
      rw [collected'.mem_iff, collected.mem_iff]
      simp only [asks_relisted relisted]
    · rw [signatures, signatures, relisted.stepLimit,
        Front.start.relisted apart relisted (.refl _) fun i => Iff.rfl]
  · exact textsApart_of_unpunctuated (Host.unpunctuated_of_ofModel accepted names) made

/-! ### An example -/

/-- Interfaces that are extended in two ways, with members of the same shape. -/
def heroes (interfaces : List TypeRef) : Model where
  types :=
    [ { name := "Game.IHero", kind := .interface, interfaces,
        properties := [{ name := "Title", type := .named "string" }] },
      { name := "Game.IFighter", kind := .interface,
        interfaces := [.generic "IUnit" [.named "int"]],
        methods := [{ name := "Move", params := [{ name := "range", type := .named "int" }] }] },
      { name := "Game.IMover", kind := .interface, interfaces := [.generic "IUnit" [.named "int"]],
        methods := [{ name := "Move", params := [{ name := "steps", type := .named "int" }] }] },
      { name := "Game.IUnit", kind := .interface, typeParams := ["T"],
        methods := [{ name := "Move", params := [{ name := "value", type := .named "T" }] },
          { name := "Stop" }] } ]

/-- The host with `IFighter` in front of `IMover`. -/
def heroesHost : Host := .withPrelude (heroes [.named "IFighter", .named "IMover"])

/-- Of the methods `Move(int)`, the one of the first interface at distance 1 is kept. -/
theorem walk_heroes :
    signaturesWithin? heroesHost 10000 0 [.named "Game.IHero"] [] [.named "Game.IHero"] = some
      [ ⟨"Title", .property, [], [], .named "string", 0⟩,
        ⟨"Move", .method, [], [⟨"range", .named "int", .value⟩], .named "void", 1⟩,
        ⟨"Stop", .method, [], [], .named "void", 2⟩ ] := by
  have near : newTypes [.named "Game.IHero"]
      ([.named "Game.IHero"].flatMap heroesHost.declaredInterfaces)
      = [.named "Game.IFighter", .named "Game.IMover"] := by
    decide +kernel
  have far : newTypes [.named "Game.IFighter", .named "Game.IMover", .named "Game.IHero"]
      ([.named "Game.IFighter", .named "Game.IMover"].flatMap heroesHost.declaredInterfaces)
      = [.generic "Game.IUnit" [.named "int"]] := by
    decide +kernel
  have last : newTypes [.generic "Game.IUnit" [.named "int"], .named "Game.IFighter",
      .named "Game.IMover", .named "Game.IHero"]
      ([.generic "Game.IUnit" [.named "int"]].flatMap heroesHost.declaredInterfaces) = [] := by
    decide +kernel
  change _ = some ([_] ++ ([_] ++ ([_] ++ [])))
  refine signaturesWithin?_sorted (List.cons_ne_nil _ _) (List.pairwise_singleton _ _) near ?_ ?_
  · decide +kernel
  · refine signaturesWithin?_sorted (List.cons_ne_nil _ _) ?_ far ?_ ?_
    · decide +kernel
    · decide +kernel
    · refine signaturesWithin?_sorted (List.cons_ne_nil _ _) (List.pairwise_singleton _ _) last ?_
        (signaturesWithin?_nil _)
      decide +kernel

/-- The members are the same with `IMover` in front of `IFighter`. -/
theorem signatures_collected_heroes :
    ((signatures heroesHost (.named "Game.IHero")).map fun m => (m.depth, m.name))
      = [(0, "Title"), (1, "Move"), (2, "Stop")] ∧
      Collected heroesHost (.named "Game.IHero") (signatures heroesHost (.named "Game.IHero")) ∧
      signatures (.withPrelude (heroes [.named "IMover", .named "IFighter"])) (.named "Game.IHero")
        = signatures heroesHost (.named "Game.IHero") := by
  have ends : (signaturesWithin? heroesHost Host.usualStepLimit 0 [.named "Game.IHero"] []
      [.named "Game.IHero"]).isSome := by
    rw [Host.usualStepLimit, walk_heroes]
    rfl
  obtain ⟨collected, reordered, plain⟩ :=
    signatures_collected (Host.ofModel_withPrelude rfl rfl) ends
  have name : Text.Unpunctuated "Game.IHero" := by decide
  have apart := plain (by decide +kernel) (TypeRef.madeOf_named name)
  have swapped : List.Forall₂ TypeDecl.Relists (heroes [.named "IFighter", .named "IMover"]).types
      (heroes [.named "IMover", .named "IFighter"]).types :=
    .cons (.interfaces (.swap _ _ [])) (List.forall₂_same.mpr fun d _ => .refl d)
  obtain ⟨host', accepted', -, -, same⟩ := reordered _ swapped
  cases accepted'.symm.trans (Host.ofModel_withPrelude rfl rfl)
  refine ⟨?_, collected, same apart⟩
  have steps : heroesHost.stepLimit = 10000 := rfl
  rw [signatures, steps, walk_heroes, Option.getD_some, List.mergeSort_of_pairwise (by decide)]
  rfl

/-! ### Interfaces of the same text -/

/-- Interfaces whose names are no identifiers. Both types that `IBridge` extends have the text
`Wrap<Game.Slot<Arena.Item>`. -/
def slots (swapped : Bool) : Model where
  types :=
    [ { name := "Game.IHero", kind := .interface, interfaces := [.named "IBridge"] },
      { name := "Game.Slot<Arena.IBridge", kind := .interface,
        interfaces :=
          if swapped then [.generic "Slot" [.named "Arena.Item"], .generic "Wrap" [.named "Item"]]
          else [.generic "Wrap" [.named "Item"], .generic "Slot" [.named "Arena.Item"]] },
      { name := "Wrap", kind := .interface, typeParams := ["T"],
        methods := [{ name := "Move", params := [{ name := "left", type := .named "int" }] }] },
      { name := "Wrap<Game.Slot", kind := .interface, typeParams := ["T"],
        methods := [{ name := "Move", params := [{ name := "right", type := .named "int" }] }] },
      { name := "Game.Slot<Arena.Item", kind := .struct },
      { name := "Arena.Item", kind := .struct } ]

/-- The interfaces that `IBridge` extends, in order. -/
def bridged (swapped : Bool) : List TypeRef :=
  let wrap : TypeRef := .generic "Wrap" [.named "Game.Slot<Arena.Item"]
  let slot : TypeRef := .generic "Wrap<Game.Slot" [.named "Arena.Item"]
  if swapped then [slot, wrap] else [wrap, slot]

/-- The member of the interface that is listed first is kept. -/
theorem walk_slots (swapped : Bool) :
    signaturesWithin? (.withPrelude (slots swapped)) 10000 0 [.named "Game.IHero"] []
      [.named "Game.IHero"] = some [⟨"Move", .method, [],
        [⟨if swapped then "right" else "left", .named "int", .value⟩], .named "void", 2⟩] := by
  have near : newTypes [.named "Game.IHero"]
      ([.named "Game.IHero"].flatMap (Host.withPrelude (slots swapped)).declaredInterfaces)
      = [.named "Game.Slot<Arena.IBridge"] := by
    cases swapped <;> decide +kernel
  have far : newTypes [.named "Game.Slot<Arena.IBridge", .named "Game.IHero"]
      ([.named "Game.Slot<Arena.IBridge"].flatMap
        (Host.withPrelude (slots swapped)).declaredInterfaces) = bridged swapped := by
    cases swapped <;> decide +kernel
  have last : newTypes (bridged swapped ++ [.named "Game.Slot<Arena.IBridge", .named "Game.IHero"])
      ((bridged swapped).flatMap (Host.withPrelude (slots swapped)).declaredInterfaces) = [] := by
    cases swapped <;> decide +kernel
  change _ = some ([] ++ ([] ++ ([_] ++ [])))
  refine signaturesWithin?_sorted (List.cons_ne_nil _ _) (List.pairwise_singleton _ _) near ?_ ?_
  · cases swapped <;> decide +kernel
  · refine signaturesWithin?_sorted (List.cons_ne_nil _ _) (List.pairwise_singleton _ _) far ?_ ?_
    · cases swapped <;> decide +kernel
    · refine signaturesWithin?_sorted ?_ ?_ last ?_ (signaturesWithin?_nil _)
      · cases swapped <;> decide +kernel
      · cases swapped <;> decide +kernel
      · cases swapped <;> decide +kernel

theorem not_signatures_relisted :
    ¬∀ (limit : Nat) (model : Model) (types : List TypeDecl) (host host' : Host)
      (dispatch : TypeRef), Host.ofModel limit model = .ok host →
      (signaturesWithin? host limit 0 [dispatch] [] [dispatch]).isSome →
      List.Forall₂ TypeDecl.Relists model.types types →
      Host.ofModel limit { model with types } = .ok host' →
      signatures host' dispatch = signatures host dispatch := by
  intro always
  have given (swapped : Bool) : signatures (.withPrelude (slots swapped)) (.named "Game.IHero")
      = [⟨"Move", .method, [], [⟨if swapped then "right" else "left", .named "int", .value⟩],
        .named "void", 2⟩] := by
    have steps : (Host.withPrelude (slots swapped)).stepLimit = 10000 := rfl
    rw [signatures, steps, walk_slots, Option.getD_some, List.mergeSort_singleton]
  have ends : (signaturesWithin? (.withPrelude (slots false)) Host.usualStepLimit 0
      [.named "Game.IHero"] [] [.named "Game.IHero"]).isSome := by
    rw [Host.usualStepLimit, walk_slots]
    rfl
  have swapped : List.Forall₂ TypeDecl.Relists (slots false).types (slots true).types :=
    .cons (.refl _) (.cons (.interfaces (.swap _ _ [])) (List.forall₂_same.mpr fun d _ => .refl d))
  have same := always Host.usualStepLimit (slots false) (slots true).types _ _ _
    (Host.ofModel_withPrelude rfl rfl) ends swapped (Host.ofModel_withPrelude rfl rfl)
  have both := (given true).symm.trans (same.trans (given false))
  exact absurd both (by decide)

end Union

end Marksmith

import Marksmith.Proofs.Binding.Expressions
import Marksmith.Proofs.Host.Declarations
import Marksmith.Proofs.Syntax.Surroundings

/-!
Binding and the names of lambda parameters.

* `Twinned`: scopes in which one parameter has two names; a renamed body binds in one of them as the
  body does in the other (`ExprAgrees.renameUses`);
* `AgreesInPlace.fill`: expressions that bind alike do so in all surroundings;
* `Clear`: no dotted name that begins with the parameter is taken for the name of a type. A member
  access that cannot be bound is tried as the name of a type, whatever its first name refers to;
* `speculativeType?_renameParam`: the names of parameters do not matter as long as this is so.
-/

namespace Marksmith.Binding

open Syntax Syntax.Expr

/-! ### Scopes -/

/-- Scopes that give the same type to every name but one. -/
def AgreeOff (fresh : String) (L L' : List (String × TypeRef)) : Prop :=
  ∀ n, n ≠ fresh → L'.lookup n = L.lookup n

/-- Scopes in which one parameter has two names. -/
structure Twinned (old fresh : String) (L L' : List (String × TypeRef)) : Prop where
  param : ∃ t, L.lookup old = some t ∧ L'.lookup fresh = some t
  other : ∀ n, n ≠ old → n ≠ fresh → L'.lookup n = L.lookup n

variable {old fresh : String} {L L' : List (String × TypeRef)}

theorem lookup_eq_none {params : List (String × TypeRef)} {n : String} :
    params.lookup n = none ↔ n ∉ params.map (·.1) := by
  rw [List.lookup_eq_none_iff, List.mem_map]
  constructor
  · rintro other ⟨p, mem, rfl⟩
    exact absurd (other p mem) (by rw [bne_self_eq_false]; exact Bool.false_ne_true)
  · intro other p mem
    exact bne_iff_ne.mpr fun same => other ⟨p, mem, same.symm⟩

theorem extends_agreeOff (Q : Symbol → Prop) (fresh : String) : Extends (AgreeOff fresh) Q := by
  intro L L' params agree _ n other
  rw [List.lookup_append, List.lookup_append, agree n other]

/-- Further parameters of other names leave the two names to the parameter. -/
theorem Twinned.extend (twinned : Twinned old fresh L L') {params : List (String × TypeRef)}
    (noOld : old ∉ params.map (·.1)) (noFresh : fresh ∉ params.map (·.1)) :
    Twinned old fresh (params ++ L) (params ++ L') where
  param := by
    obtain ⟨t, found, found'⟩ := twinned.param
    refine ⟨t, ?_, ?_⟩
    · rw [List.lookup_append, lookup_eq_none.mpr noOld, Option.none_or, found]
    · rw [List.lookup_append, lookup_eq_none.mpr noFresh, Option.none_or, found']
  other n notOld notFresh := by
    rw [List.lookup_append, List.lookup_append, twinned.other n notOld notFresh]

/-- Behind a further parameter of the old name, the new name makes the only difference. -/
theorem Twinned.hidden (twinned : Twinned old fresh L L') {params : List (String × TypeRef)}
    (own : old ∈ params.map (·.1)) : AgreeOff fresh (params ++ L) (params ++ L') := by
  intro n other
  rw [List.lookup_append, List.lookup_append]
  by_cases same : n = old
  · obtain ⟨t, found⟩ := Option.ne_none_iff_exists'.mp
      fun missing => lookup_eq_none.mp missing (same ▸ own)
    rw [found, Option.some_or, Option.some_or]
  · rw [twinned.other n same other]

/-- A parameter gets another name. -/
theorem twinned_cons (t : TypeRef) (L : List (String × TypeRef)) :
    Twinned old fresh ((old, t) :: L) ((fresh, t) :: L) where
  param := ⟨t, List.lookup_cons_self, List.lookup_cons_self⟩
  other n notOld notFresh := by
    rw [List.lookup_cons, List.lookup_cons, beq_false_of_ne notOld, beq_false_of_ne notFresh]

/-! ### Names -/

theorem namesAgree_agreeOff {n : SimpleName} (other : n.ident ≠ fresh) :
    NamesAgree (AgreeOff fresh) (fun _ => True) n n := by
  intro L L' agree
  have same : paramType? L' n = paramType? L n := by rw [paramType?, paramType?, agree _ other]
  cases found : paramType? L n with
  | none => exact .inr ⟨rfl, same.trans found, rfl⟩
  | some t => exact .inl ⟨t, rfl, same.trans found, fun _ _ => trivial⟩

theorem namesAgree_twinned {n : SimpleName} (other : n.ident ≠ fresh) :
    NamesAgree (Twinned old fresh) (fun _ => True) n
      (if n.ident = old ∧ n.typeArgs = [] then { n with ident := fresh } else n) := by
  intro L L' twinned
  split
  · next use =>
    obtain ⟨t, found, found'⟩ := twinned.param
    refine .inl ⟨t, ?_, ?_, fun _ _ => trivial⟩
    · rw [paramType?, use.2, use.1, found]
      rfl
    · rw [paramType?, use.2, found']
      rfl
  · next noUse =>
    have same : paramType? L' n = paramType? L n := by
      rw [paramType?, paramType?]
      split
      · next plain =>
        exact twinned.other _ (fun own => noUse ⟨own, List.isEmpty_iff.mp plain⟩) other
      · rfl
    cases found : paramType? L n with
    | none => exact .inr ⟨rfl, same.trans found, rfl⟩
    | some t => exact .inl ⟨t, rfl, same.trans found, fun _ _ => trivial⟩

/-! ### Dotted names -/

/-- A dotted name of three segments or more. -/
def deepPath? : Expr → Option TypeRef
  | .member s (.member t target m) n => typePath? (.member s (.member t target m) n)
  | _ => none

variable {host : Host} {site : Site}

/-- Wherever a parameter is visible, dotted names denote the same types, or none, with the other name
for the parameter. In particular, no dotted name that begins with the parameter denotes a type. -/
def Clear (host : Host) (site : Site) (old fresh : String) (e : Expr) : Prop :=
  ∀ n, Sees old e n → (deepPath? (n.renameUses old fresh)).bind (host.resolve? site.owner)
    = (deepPath? n).bind (host.resolve? site.owner)

theorem Clear.part {e c : Expr} (clear : Clear host site old fresh e) (inside : c ∈ e.children)
    (visible : ∀ s ps b, e = .lambda s ps b → binds ps old = false) : Clear host site old fresh c :=
  fun n sees => clear n (.part inside visible sees)

/-- Values are made of whatever there is. -/
abbrev Any : Symbol → Prop := fun _ => True

theorem reissues_self (host : Host) (site : Site) : Reissues Any site host host :=
  .refl ⟨fun _ _ => trivial, fun _ _ => trivial, fun _ _ _ _ _ => trivial, fun _ _ _ _ => trivial⟩
    (fun _ _ => trivial) trivial

/-- A member access that is tried as the name of a type denotes the same one. -/
theorem path_renameUses {span : Span} {target : Expr} {n : Located SimpleName}
    (clear : Clear host site old fresh (.member span target n))
    (fails : ∃ s s' : Scope, Twinned old fresh s.locals s'.locals ∧ s.depth = s'.depth ∧
      ((meaning host site target).qualifier.run s).1 = none) :
    Option.Rel (SameType Any)
      ((typePath? (.member span target n)).bind (host.resolve? site.owner))
      ((typePath? (.member span (target.renameUses old fresh) n)).bind
        (host.resolve? site.owner)) := by
  have same := path_rel (reissues_self host site) (typePath? (.member span target n))
  cases target with
  | member t inner m =>
    have resolved := clear _ (.whole _)
    rw [renameUses, renameUses, deepPath?, deepPath?] at resolved
    rw [renameUses, resolved]
    exact same
  | name t m =>
    rw [renameUses]
    split
    · next use =>
      -- The parameter binds, so the access is not tried as a type.
      obtain ⟨s, s', twinned, -, missing⟩ := fails
      obtain ⟨type, found, -⟩ := twinned.param
      have param : paramType? s.locals m = some type := by
        rw [paramType?, use.2, use.1, found]
        rfl
      rw [meaning] at missing
      rw [Meaning.ofQualifier] at missing
      dsimp only at missing
      rw [run_bindName_param t param] at missing
      cases missing
    · exact same
  | invoke _ callee _ => cases callee <;> exact .none
  | _ => exact .none

/-! ### Renamed bodies -/

theorem map_zip_reverse {names : List String} {inputs : List TypeRef}
    (lengths : inputs.length = names.length) :
    (names.zip inputs).reverse.map (·.1) = names.reverse := by
  rw [List.map_reverse, List.map_fst_zip (le_of_eq lengths.symm)]

/-- A body in which the new name does not occur binds alike if that name makes the only
difference. -/
theorem agreeOff_body {e : Expr} (unused : fresh ∉ e.idents) :
    ExprAgrees (AgreeOff fresh) Any site host host e e := by
  refine .same (reissues_self host site) (extends_agreeOff Any fresh) e fun s n mem => ?_
  exact namesAgree_agreeOff fun same =>
    unused (mem_idents_of_mem_nodes mem (List.mem_singleton.mpr same.symm))

/-- An expression in which the new name does not occur and dotted names are no obstacle. -/
structure Renamable (host : Host) (site : Site) (old fresh : String) (e : Expr) : Prop where
  unused : fresh ∉ e.idents
  clear : Clear host site old fresh e

theorem Renamable.part {e c : Expr} (renamable : Renamable host site old fresh e)
    (inside : c ∈ e.children) (visible : ∀ s ps b, e = .lambda s ps b → binds ps old = false) :
    Renamable host site old fresh c where
  unused mem := renamable.unused (mem_idents_of_mem_children inside mem)
  clear := renamable.clear.part inside visible

mutual

/-- A renamed body binds in one scope as the body does in the other. -/
theorem ExprAgrees.renameUses : ∀ e : Expr, Renamable host site old fresh e →
    ExprAgrees (Twinned old fresh) Any site host host e (e.renameUses old fresh)
  | .name s n, renamable => by
    have other : n.ident ≠ fresh := fun same =>
      renamable.unused (mem_idents_of_mem_nodes (mem_nodes_self _)
        (List.mem_singleton.mpr same.symm))
    exact .name (reissues_self host site) (namesAgree_twinned other)
  | .literal _ v, _ => .literal (reissues_self host site) v
  | .this _, _ => .this (reissues_self host site)
  | .member _ target n, renamable =>
    .member (reissues_self host site)
      (renameUses target (renamable.part List.mem_cons_self nofun)) n
      (path_renameUses renamable.clear)
  | .invoke _ callee args, renamable => by
    have each := renameUsesAll args fun e mem => renamable.part (List.mem_cons_of_mem _ mem) nofun
    have called := renamable.part (c := callee) List.mem_cons_self nofun
    cases callee with
    | name _ n =>
      rw [Expr.renameUses]
      exact .invokeName (reissues_self host site) n each
    | member _ target n =>
      rw [Expr.renameUses, Expr.renameUses]
      · have agrees := renameUses target (called.part List.mem_cons_self nofun)
        exact .invokeMember (reissues_self host site) agrees n each
      · nofun
    | invoke _ inner _ =>
      rw [Expr.renameUses]
      · refine .invokeOther id ?_ _ _
        cases inner <;> exact id
      · nofun
    | _ =>
      rw [Expr.renameUses]
      · exact .invokeOther id id _ _
      · nofun
  | .index _ target args, renamable => by
    have each := renameUsesAll args fun e mem => renamable.part (List.mem_cons_of_mem _ mem) nofun
    have agrees := renameUses target (renamable.part List.mem_cons_self nofun)
    exact .index (reissues_self host site) agrees each
  | .cast _ type operand, renamable =>
    .cast (reissues_self host site) type
      (renameUses operand (renamable.part List.mem_cons_self nofun))
  | .new _ type args, renamable =>
    .new (reissues_self host site) type (renameUsesAll args fun _ mem => renamable.part mem nofun)
  | .lambda s params body, renamable => by
    have noFresh : fresh ∉ params.map (·.node) := fun mem =>
      renamable.unused (mem_idents_of_mem_nodes (mem_nodes_self _) mem)
    refine .lambda rfl fun inputs lengths _ => ?_
    have named : (params.map (·.node)).length = params.length := List.length_map _
    rw [← named] at lengths
    have keys := map_zip_reverse lengths
    split
    · next hides =>
      -- The body does not see the parameter, and stays as it is.
      have own := List.contains_iff_mem.mp hides
      have unused : fresh ∉ body.idents := fun mem =>
        renamable.unused (mem_idents_of_mem_children List.mem_cons_self mem)
      refine (agreeOff_body unused).meaning.value.withLocals fun L L' twinned => ?_
      exact twinned.hidden (by rw [keys, List.mem_reverse]; exact own)
    · next visible =>
      have noOld : old ∉ params.map (·.node) := fun mem =>
        visible (List.contains_iff_mem.mpr mem)
      have seen : ∀ s' ps b, Expr.lambda s params body = .lambda s' ps b →
          binds ps old = false := by
        rintro _ _ _ ⟨⟩
        exact Bool.eq_false_iff.mpr visible
      have agrees := renameUses body (renamable.part List.mem_cons_self seen)
      refine agrees.meaning.value.withLocals fun L L' twinned => ?_
      refine twinned.extend ?_ ?_
      · rw [keys, List.mem_reverse]
        exact noOld
      · rw [keys, List.mem_reverse]
        exact noFresh
  | .unary _ op operand, renamable =>
    .unary (reissues_self host site) op
      (renameUses operand (renamable.part List.mem_cons_self nofun))
  | .binary _ l op r, renamable =>
    .binary (reissues_self host site) op (renameUses l (renamable.part List.mem_cons_self nofun))
      (renameUses r (renamable.part (List.mem_cons_of_mem _ List.mem_cons_self) nofun))
  | .paren _ inner, renamable =>
    .paren (renameUses inner (renamable.part List.mem_cons_self nofun))

theorem ExprAgrees.renameUsesAll : ∀ es : List Expr,
    (∀ e ∈ es, Renamable host site old fresh e) →
    List.Forall₂ (ExprAgrees (Twinned old fresh) Any site host host) es
      (Expr.renameUsesAll old fresh es)
  | [], _ => .nil
  | e :: es, renamable => by
    obtain ⟨first, rest⟩ := List.forall_mem_cons.mp renamable
    exact .cons (renameUses e first) (renameUsesAll es rest)

end

/-! ### Lambdas in their surroundings -/

theorem zip_reverse_append {before after : List String} {first rest : List TypeRef}
    (lengths : before.length = first.length) (p : String) (t : TypeRef)
    (L : List (String × TypeRef)) :
    ((before ++ p :: after).zip (first ++ t :: rest)).reverse ++ L
      = (after.zip rest).reverse ++ (p, t) :: ((before.zip first).reverse ++ L) := by
  rw [List.zip_append lengths, List.zip_cons_cons, List.reverse_append, List.reverse_cons,
    List.append_assoc, List.append_assoc, List.singleton_append]

/-- A lambda binds alike with another name for one of its parameters. -/
theorem ExprAgrees.renameParam {span : Span} {before after : List (Located String)}
    {p : Located String} {body : Expr}
    (unused : fresh ∉ (Expr.lambda span (before ++ p :: after) body).idents)
    (clear : binds after p.node = false → Clear host site p.node fresh body) :
    ExprAgrees (SameParams Any) Any site host host (.lambda span (before ++ p :: after) body)
      (.renameParam span before p after body fresh) := by
  have unusedInside : fresh ∉ body.idents := fun mem =>
    unused (mem_idents_of_mem_children List.mem_cons_self mem)
  have noFresh : fresh ∉ after.map (·.node) := by
    intro mem
    refine unused (mem_idents_of_mem_nodes (mem_nodes_self _) ?_)
    rw [ownIdents, List.map_append, List.map_cons]
    exact List.mem_append_right _ (List.mem_cons_of_mem _ mem)
  refine .lambda ?_ fun inputs lengths _ => ?_
  · rw [List.length_append, List.length_append, List.length_cons, List.length_cons]
  · -- The types of the parameters, place by place.
    rw [List.length_append, List.length_cons] at lengths
    obtain ⟨first, others, rfl, firstLength⟩ :
        ∃ first others, inputs = first ++ others ∧ first.length = before.length :=
      ⟨_, _, (List.take_append_drop before.length inputs).symm,
        List.length_take_of_le (by omega)⟩
    cases others with
    | nil =>
      rw [List.append_nil] at lengths
      omega
    | cons t rest =>
      have restLength : rest.length = (after.map (·.node)).length := by
        rw [List.length_map]
        rw [List.length_append, List.length_cons] at lengths
        omega
      have places : (before.map (·.node)).length = first.length := by
        rw [List.length_map, firstLength]
      have keys := map_zip_reverse restLength
      rw [List.map_append, List.map_append, List.map_cons, List.map_cons]
      split
      · next hides =>
        have own := List.contains_iff_mem.mp hides
        refine (agreeOff_body unusedInside).meaning.value.withLocals ?_
        rintro _ L ⟨rfl, -⟩
        rw [zip_reverse_append places, zip_reverse_append places]
        refine (twinned_cons t _).hidden ?_
        rw [keys, List.mem_reverse]
        exact own
      · next visible =>
        have clear := clear (Bool.eq_false_iff.mpr visible)
        have noOld : p.node ∉ after.map (·.node) := fun mem =>
          visible (List.contains_iff_mem.mpr mem)
        refine (renameUses body ⟨unusedInside, clear⟩).meaning.value.withLocals ?_
        rintro _ L ⟨rfl, -⟩
        rw [zip_reverse_append places, zip_reverse_append places]
        refine (twinned_cons t _).extend ?_ ?_
        · rw [keys, List.mem_reverse]
          exact noOld
        · rw [keys, List.mem_reverse]
          exact noFresh

/-- Expressions that bind alike, in front of arguments as well, and that are no dotted names. -/
structure AgreesInPlace (host : Host) (site : Site) (e e' : Expr) : Prop where
  own : ExprAgrees (SameParams Any) Any site host host e e'
  called : ∀ span args, ExprAgrees (SameParams Any) Any site host host (.invoke span e args)
    (.invoke span e' args)
  noPath : typePath? e = none
  noPath' : typePath? e' = none

theorem typePath?_member {e : Expr} (noPath : typePath? e = none) (span : Span)
    (n : Located SimpleName) : typePath? (.member span e n) = none := by
  rw [typePath?, noPath]
  rfl

/-- A node binds alike if one of its parts does. -/
theorem AgreesInPlace.frame {e e' : Expr} (agrees : AgreesInPlace host site e e') (f : Frame) :
    AgreesInPlace host site (f.fill e) (f.fill e') := by
  have reissues := reissues_self host site
  have selfAll := ExprAgrees.selfAll reissues
  have among (before after : List Expr) :
      List.Forall₂ (ExprAgrees (SameParams Any) Any site host host) (before ++ e :: after)
        (before ++ e' :: after) :=
    List.rel_append (selfAll before) (.cons agrees.own (selfAll after))
  cases f with
  | member span n =>
    refine ⟨.member reissues agrees.own n fun _ => ?_, fun s args => ?_,
      typePath?_member agrees.noPath span n, typePath?_member agrees.noPath' span n⟩
    · rw [typePath?_member agrees.noPath, typePath?_member agrees.noPath']
      exact .none
    · exact .invokeMember reissues agrees.own n (selfAll args)
  | callee span args => exact ⟨agrees.called span args, fun _ _ => .invokeOther id id _ _, rfl, rfl⟩
  | argument span callee before after =>
    refine ⟨?_, fun _ _ => .invokeOther id id _ _, rfl, rfl⟩
    cases callee with
    | name s n => exact .invokeName reissues n (among before after)
    | member s target n =>
      exact .invokeMember reissues (.self reissues target) n (among before after)
    | _ => exact .invokeOther id id _ _
  | indexed span args =>
    exact ⟨.index reissues agrees.own (selfAll args), fun _ _ => .invokeOther id id _ _,
      rfl, rfl⟩
  | index span target before after =>
    exact ⟨.index reissues (.self reissues target) (among before after),
      fun _ _ => .invokeOther id id _ _, rfl, rfl⟩
  | cast span type =>
    exact ⟨.cast reissues type agrees.own, fun _ _ => .invokeOther id id _ _, rfl, rfl⟩
  | new span type before after =>
    exact ⟨.new reissues type (among before after), fun _ _ => .invokeOther id id _ _, rfl, rfl⟩
  | body span params =>
    refine ⟨.lambda rfl fun _ _ made => ?_, fun _ _ => .invokeOther id id _ _, rfl, rfl⟩
    exact (extends_sameParams Any).withLocals made agrees.own.meaning.value
  | unary span op =>
    exact ⟨.unary reissues op agrees.own, fun _ _ => .invokeOther id id _ _, rfl, rfl⟩
  | left span op r =>
    exact ⟨.binary reissues op agrees.own (.self reissues r), fun _ _ => .invokeOther id id _ _,
      rfl, rfl⟩
  | right span l op =>
    exact ⟨.binary reissues op (.self reissues l) agrees.own, fun _ _ => .invokeOther id id _ _,
      rfl, rfl⟩
  | paren span => exact ⟨.paren agrees.own, fun _ _ => .invokeOther id id _ _, rfl, rfl⟩

/-- Expressions that bind alike do so in all surroundings. -/
theorem AgreesInPlace.fill {e e' : Expr} (agrees : AgreesInPlace host site e e')
    (frames : List Frame) : AgreesInPlace host site (fill frames e) (fill frames e') := by
  induction frames with
  | nil => exact agrees
  | cons f _ ih => exact ih.frame f

/-- The type of an expression does not depend on the name of a lambda's parameter, as long as no
dotted name that begins with it is taken for the name of a type. -/
theorem speculativeType?_renameParam (host : Host) (site : Site) (frames : List Frame) {span : Span}
    {before after : List (Located String)} {p : Located String} {body : Expr}
    (unused : fresh ∉ (fill frames (.lambda span (before ++ p :: after) body)).idents)
    (clear : binds after p.node = false → Clear host site p.node fresh body) :
    host.speculativeType? site (fill frames (.renameParam span before p after body fresh))
      = host.speculativeType? site (fill frames (.lambda span (before ++ p :: after) body)) := by
  have own := ExprAgrees.renameParam (fun mem => unused (mem_idents_fill frames mem)) clear
  have place : AgreesInPlace host site (.lambda span (before ++ p :: after) body)
      (.renameParam span before p after body fresh) :=
    ⟨own, fun _ _ => .invokeOther id id _ _, rfl, rfl⟩
  exact (place.fill frames).own.speculativeType?_eq

/-! ### Two lambdas -/

/-- A method that takes a function of a player, and a type nested in another one. -/
def pickers : Model where
  types := [
    { name := "Game.Player", kind := .class,
      fields := [{ name := "Health", type := .named "int" }],
      methods := [{
        name := "Pick"
        typeParams := ["R"]
        params := [{ name := "f", type := .generic "System.Func" [.named "Player", .named "R"] }]
        returns := .named "R" }] },
    { name := "Game.Enemy", kind := .class },
    { name := "Game.Enemy.Stats", kind := .class, containing := some "Game.Enemy",
      fields := [{ name := "Max", type := .named "int", isStatic := true }] }]

def inPlayer : Site where
  owner := ⟨"Game.Player", 0⟩

/-- The place of the argument in `Pick(…)`. -/
def pickCall : Frame := .argument ⟨0, 0⟩ (.name ⟨0, 4⟩ ⟨"Pick", []⟩) [] []

/-- The body `p.Health`. -/
def healthBody : Expr := .member ⟨10, 18⟩ (.name ⟨10, 11⟩ ⟨"p", []⟩) ⟨⟨"Health", []⟩, ⟨12, 18⟩⟩

/-- The call `Pick(p => p.Health)` has the same type as `Pick(player => player.Health)`. -/
theorem speculativeType?_pickHealth :
    (Host.withPrelude pickers).speculativeType? inPlayer
      (fill [pickCall] (.renameParam ⟨5, 18⟩ [] ⟨"p", ⟨5, 6⟩⟩ [] healthBody "player"))
    = (Host.withPrelude pickers).speculativeType? inPlayer
      (fill [pickCall] (.lambda ⟨5, 18⟩ ([] ++ ⟨"p", ⟨5, 6⟩⟩ :: []) healthBody)) := by
  refine speculativeType?_renameParam _ _ _ (by decide) fun _ n sees => ?_
  have mem := sees.mem_nodes
  have nodes : healthBody.nodes = [healthBody, .name ⟨10, 11⟩ ⟨"p", []⟩] := rfl
  rw [nodes, List.mem_pair] at mem
  rcases mem with rfl | rfl <;> rfl

/-- The body `Game.Enemy.Stats.Max`. -/
def statsBody : Expr :=
  .member ⟨13, 33⟩
    (.member ⟨13, 29⟩
      (.member ⟨13, 23⟩ (.name ⟨13, 17⟩ ⟨"Game", []⟩) ⟨⟨"Enemy", []⟩, ⟨18, 23⟩⟩)
      ⟨⟨"Stats", []⟩, ⟨24, 29⟩⟩)
    ⟨⟨"Max", []⟩, ⟨30, 33⟩⟩

/-- In `Pick(Game => Game.Enemy.Stats.Max)`, the access to a member `Enemy` that players do not have
is taken for the name of a type. With another name for the parameter the call does not bind. -/
theorem not_speculativeType?_renameParam :
    ¬∀ (limit : Nat) (model : Model) (host : Host) (site : Site) (frames : List Frame) (span : Span)
      (before after : List (Located String)) (p : Located String) (body : Expr) (fresh : String),
      Host.ofModel limit model = .ok host →
      fresh ∉ (fill frames (.lambda span (before ++ p :: after) body)).idents →
      (∀ t ∈ (fill frames (.lambda span (before ++ p :: after) body)).types, ∀ s ∈ t.parts,
        s.name ≠ fresh) →
      host.speculativeType? site (fill frames (.renameParam span before p after body fresh))
        = host.speculativeType? site (fill frames (.lambda span (before ++ p :: after) body)) := by
  intro always
  have same := always _ pickers _ inPlayer [pickCall] ⟨5, 33⟩ [] [] ⟨"Game", ⟨5, 9⟩⟩ statsBody "g"
    (Host.ofModel_withPrelude rfl rfl) (by decide) (by decide)
  have before : (Host.withPrelude pickers).speculativeType? inPlayer
      (fill [pickCall] (.lambda ⟨5, 33⟩ ([] ++ ⟨"Game", ⟨5, 9⟩⟩ :: []) statsBody))
        = some (.named "int") := by
    simp only [Host.speculativeType?, fill, pickCall, List.foldr, Frame.fill, List.nil_append,
      Binding.meaning, Binding.arguments, statsBody]
    decide +kernel
  have after : (Host.withPrelude pickers).speculativeType? inPlayer
      (fill [pickCall] (.renameParam ⟨5, 33⟩ [] ⟨"Game", ⟨5, 9⟩⟩ [] statsBody "g")) = none := by
    have renamed : statsBody.renameUses "Game" "g" = .member ⟨13, 33⟩
        (.member ⟨13, 29⟩
          (.member ⟨13, 23⟩ (.name ⟨13, 17⟩ ⟨"g", []⟩) ⟨⟨"Enemy", []⟩, ⟨18, 23⟩⟩)
          ⟨⟨"Stats", []⟩, ⟨24, 29⟩⟩)
        ⟨⟨"Max", []⟩, ⟨30, 33⟩⟩ := rfl
    have visible : binds [] "Game" = false := rfl
    simp only [Host.speculativeType?, fill, pickCall, List.foldr, Frame.fill, List.nil_append,
      Expr.renameParam, visible, Bool.false_eq_true, if_false, renamed, Binding.meaning,
      Binding.arguments]
    decide +kernel
  rw [before, after] at same
  cases same

end Marksmith.Binding

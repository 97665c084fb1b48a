import Marksmith.Proofs.Source.Names

/-!
Calls in generated statements. A statement calls a method of a receiver if that is what stands in
front of its last opening parenthesis, behind what the result is assigned to.

* `calls_iff`: the parts of a statement that is a call;
* `calls_eq`: a statement calls one method of one receiver;
* `arguments_eq`: what a call hands over.
-/

namespace Marksmith.Source

/-- What generated statements assign the result of a call to. -/
def targets : List (List Char) := ["int index = ".toList, "instanceIndexINTERNAL = ".toList]

/-- The part of a statement behind what the result is assigned to. -/
def expression (statement : String) : List Char :=
  match targets.find? fun target => decide (target <+: statement.toList) with
  | some target => statement.toList.drop target.length
  | none => statement.toList

/-- A call up to its arguments. -/
def callee (receiver method : String) : List Char := receiver.toList ++ '.' :: method.toList

/-- Whether a statement calls a method of a receiver. -/
def calls (receiver method statement : String) : Bool :=
  decide (callee receiver method ++ ['('] <+: expression statement) &&
    !((expression statement).drop ((callee receiver method).length + 1)).contains '('

/-- What stands behind the last opening parenthesis of a statement. -/
def arguments (statement : String) : List Char :=
  (statement.toList.reverse.takeWhile (· != '(')).reverse

variable {receiver receiver' method statement : String} {args : List Char}

theorem calls_iff : calls receiver method statement ↔
    ∃ args, '(' ∉ args ∧ expression statement = callee receiver method ++ '(' :: args := by
  rw [calls, Bool.and_eq_true, decide_eq_true_iff, Bool.not_eq_true', ← Bool.not_eq_true,
    List.contains_iff_mem]
  have length : (callee receiver method ++ ['(']).length = (callee receiver method).length + 1 := by
    rw [List.length_append, List.length_singleton]
  constructor
  · rintro ⟨⟨args, same⟩, last⟩
    rw [← same, ← length, List.drop_left] at last
    exact ⟨args, last, by rw [← same, List.append_assoc, List.singleton_append]⟩
  · rintro ⟨args, last, same⟩
    have parts : expression statement = callee receiver method ++ ['('] ++ args := by
      rw [same, List.append_assoc, List.singleton_append]
    refine ⟨⟨args, parts.symm⟩, ?_⟩
    rwa [parts, ← length, List.drop_left]

theorem callee_inj : callee receiver method = callee receiver' method ↔ receiver = receiver' := by
  rw [callee, callee, List.append_left_inj, String.toList_inj]

/-- A statement calls a method of one receiver only. -/
theorem calls_eq (last : '(' ∉ args)
    (here : expression statement = callee receiver method ++ '(' :: args) :
    calls receiver' method statement = decide (receiver = receiver') := by
  rw [Bool.eq_iff_iff, calls_iff, decide_eq_true_iff]
  constructor
  · rintro ⟨args', last', there⟩
    exact callee_inj.mp (FreshNames.append_cons_inj last last' (here.symm.trans there)).1
  · rintro rfl
    exact ⟨args, last, here⟩

/-- A statement with something else in front of its last parenthesis does not call a method. -/
theorem calls_eq_false (front : List Char) {args : List Char} (last : '(' ∉ args)
    (here : expression statement = front ++ '(' :: args)
    (other : ¬ '.' :: method.toList <:+ front) : calls receiver method statement = false := by
  rw [← Bool.not_eq_true, calls_iff]
  rintro ⟨args', last', there⟩
  obtain ⟨same, -⟩ := FreshNames.append_cons_inj last last' (here.symm.trans there)
  exact other ⟨receiver.toList, same.symm⟩

theorem calls_eq_false_of_notMem (none : '(' ∉ statement.toList) :
    calls receiver method statement = false := by
  rw [← Bool.not_eq_true, calls_iff]
  rintro ⟨args, -, here⟩
  refine none ?_
  have inside : '(' ∈ expression statement :=
    here ▸ List.mem_append_right _ List.mem_cons_self
  rw [expression] at inside
  split at inside
  · exact List.mem_of_mem_drop inside
  · exact inside

/-- Without a target, the whole statement is the expression. -/
theorem expression_eq {statement : String} (front : statement.toList.head? ≠ some 'i') :
    expression statement = statement.toList := by
  have none : targets.find? (fun target => decide (target <+: statement.toList)) = none := by
    have begin : ∀ target ∈ targets, target.head? = some 'i' := by decide
    refine List.find?_eq_none.mpr fun target mem found => front ?_
    obtain ⟨rest, same⟩ := of_decide_eq_true found
    rw [← same, List.head?_append, begin target mem, Option.some_or]
  rw [expression, none]

/-- The expression stands behind the target. -/
theorem expression_assigned {statement : String} {target rest : List Char} (listed : target ∈ targets)
    (parts : statement.toList = target ++ rest) : expression statement = rest := by
  have apart : ∀ a ∈ targets, ∀ b ∈ targets, a <+: b → a = b := by decide
  have front : target <+: statement.toList := ⟨rest, parts.symm⟩
  have known : (targets.find? fun target => decide (target <+: statement.toList)).isSome :=
    List.find?_isSome.mpr ⟨target, listed, decide_eq_true front⟩
  obtain ⟨other, found⟩ := Option.isSome_iff_exists.mp known
  have other_front : other <+: statement.toList := of_decide_eq_true (List.find?_some found :)
  have other_listed := List.mem_of_find?_eq_some found
  have same : other = target := by
    rcases Nat.le_total other.length target.length with shorter | longer
    · exact apart _ other_listed _ listed (List.prefix_of_prefix_length_le other_front front shorter)
    · exact (apart _ listed _ other_listed
        (List.prefix_of_prefix_length_le front other_front longer)).symm
  rw [expression, found]
  dsimp only
  rw [same, parts, List.drop_left]

theorem arguments_eq {front : List Char} (last : '(' ∉ args)
    (here : statement.toList = front ++ '(' :: args) : arguments statement = args := by
  have stop : ('(' :: front.reverse).takeWhile (fun c => c != '(') = [] :=
    List.takeWhile_cons_of_neg (by decide)
  have inside : ∀ c ∈ args.reverse, (c != '(') = true := by
    intro c mem
    exact bne_iff_ne.mpr fun same => last (same ▸ List.mem_reverse.mp mem)
  rw [arguments, here, List.reverse_append, List.reverse_cons, List.append_assoc,
    List.takeWhile_append_of_pos inside, List.singleton_append, stop, List.append_nil,
    List.reverse_reverse]

end Marksmith.Source

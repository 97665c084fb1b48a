import Marksmith.Proofs.Syntax.TypeGrammar
import Marksmith.Syntax.Printer

/-!
Canonical lexemes of types, names and expressions: what canonical text is made of.

* `TypeRef.lexemes`, `Expr.lexemes`: the lexemes of a tree, which mirror its text;
* `segmentsOf_tail`, `ranksOf_pairs`: what the parser makes of a dotted name and of array suffixes;
* `typeAt_lexemes`: the lexemes of a type read as that type, whatever the type is.
-/

namespace Marksmith.Syntax

namespace TypeRef

/-! ### Dotted names -/

/-- The lexemes of the segments behind the first one. -/
def tail (more : List String) : List Lexeme := more.flatMap fun s => [.punct .dot, .ident s]

/-- A dotted name from its segments. -/
def joined (x : String) (more : List String) : String := more.foldl (fun n s => n ++ "." ++ s) x

/-- The lexemes of a dotted name. -/
def nameLexemes (name : String) : List Lexeme :=
  match (name.toList.splitOn '.').map String.ofList with
  | [] => []
  | x :: more => .ident x :: tail more

theorem toList_joined (x : String) (more : List String) :
    (joined x more).toList = List.intercalate ['.'] ((x :: more).map String.toList) := by
  induction more generalizing x with
  | nil => simp [joined, List.intercalate]
  | cons s more ih =>
    have step : joined x (s :: more) = joined (x ++ "." ++ s) more := rfl
    rw [step, ih]
    cases more with
    | nil => simp [List.intercalate]
    | cons t more => simp [List.intercalate_cons_cons]

/-- Every dotted name is joined from segments, and its lexemes are theirs. -/
theorem exists_segments (name : String) :
    ∃ x more, name = joined x more ∧ nameLexemes name = .ident x :: tail more := by
  unfold nameLexemes
  split
  · next none =>
    rw [List.map_eq_nil_iff] at none
    exact absurd none (List.splitOn_ne_nil _ _)
  · next x more split =>
    refine ⟨x, more, ?_, rfl⟩
    rw [← String.toList_inj, toList_joined, ← split, List.map_map]
    have same : String.toList ∘ String.ofList = id := by
      funext s
      exact String.toList_ofList
    rw [same, List.map_id, List.intercalate_splitOn]

/-- Segments without points are found again in the name that they are joined to. -/
theorem nameLexemes_joined {x : String} {more : List String}
    (dotless : ∀ s ∈ x :: more, '.' ∉ s.toList) :
    nameLexemes (joined x more) = .ident x :: tail more := by
  have split : (joined x more).toList.splitOn '.' = (x :: more).map String.toList := by
    rw [toList_joined]
    refine List.splitOn_intercalate '.' ?_ (by simp)
    intro l mem
    obtain ⟨s, among, rfl⟩ := List.mem_map.mp mem
    exact dotless s among
  have same : String.ofList ∘ String.toList = id := by
    funext s
    exact String.ofList_toList
  rw [nameLexemes, split, List.map_map, same, List.map_id]

theorem segmentsOf_tail (x : String) (more : List String) (rest : List Lexeme) :
    segmentsOf x (tail more ++ rest) = segmentsOf (joined x more) rest := by
  induction more generalizing x with
  | nil => rfl
  | cons s more ih => exact ih (x ++ "." ++ s)

theorem exists_tail {x name : String} {ls rest : List Lexeme}
    (h : segmentsOf x ls = (name, rest)) : ∃ more, ls = tail more ++ rest ∧ name = joined x more := by
  fun_induction segmentsOf x ls with
  | case1 x segment behind ih =>
    obtain ⟨more, rfl, rfl⟩ := ih h
    exact ⟨segment :: more, rfl, rfl⟩
  | case2 => cases h; exact ⟨[], rfl, rfl⟩

/-! ### Array suffixes -/

/-- A number of empty bracket pairs. -/
def pairs (n : Nat) : List Lexeme :=
  (List.replicate n [.punct .lbracket, .punct .rbracket]).flatten

@[simp] theorem pairs_zero : pairs 0 = [] := rfl

theorem pairs_succ (n : Nat) :
    pairs (n + 1) = .punct .lbracket :: .punct .rbracket :: pairs n := by
  simp [pairs, List.replicate_succ]

theorem pairs_add (m n : Nat) : pairs (m + n) = pairs m ++ pairs n := by
  induction m with
  | zero => rw [Nat.zero_add]; rfl
  | succ m ih => rw [Nat.add_right_comm, pairs_succ, pairs_succ, ih]; rfl

/-- The greatest rank at most `n`. -/
def saturated (n : Nat) : UInt8 := UInt8.ofNat (min n 255)

theorem nextRank_saturated (n : Nat) : nextRank (saturated n) = saturated (n + 1) := by
  have value : (saturated n).toNat = min n 255 := by
    simp only [saturated, UInt8.toNat_ofNat']
    omega
  have value' : (saturated (n + 1)).toNat = min (n + 1) 255 := by
    simp only [saturated, UInt8.toNat_ofNat']
    omega
  unfold nextRank
  split
  · next greatest =>
    rw [greatest] at value ⊢
    rw [← UInt8.toNat_inj, value']
    have : (255 : UInt8).toNat = 255 := rfl
    omega
  · next less =>
    have ne : (saturated n).toNat ≠ 255 := fun same => less (UInt8.toNat_inj.mp same)
    rw [← UInt8.toNat_inj, UInt8.toNat_add, value', value]
    have : (1 : UInt8).toNat = 1 := rfl
    omega

theorem saturated_toNat (rank : UInt8) : saturated rank.toNat = rank := by
  have := rank.toNat_lt
  rw [← UInt8.toNat_inj]
  simp only [saturated, UInt8.toNat_ofNat']
  omega

theorem toNat_saturated (n : Nat) : (saturated n).toNat = min n 255 := by
  simp only [saturated, UInt8.toNat_ofNat']
  omega

theorem ranksOf_of_stop {rank : UInt8} {ls : List Lexeme}
    (stop : ∀ behind, ls ≠ .punct .lbracket :: .punct .rbracket :: behind) :
    ranksOf rank ls = (rank, ls) := by
  unfold ranksOf
  split
  · exact absurd rfl (stop _)
  · rfl

theorem ranksOf_pairs (m n : Nat) (rest : List Lexeme) :
    ranksOf (saturated m) (pairs n ++ rest) = ranksOf (saturated (m + n)) rest := by
  induction n generalizing m with
  | zero => rfl
  | succ n ih =>
    rw [pairs_succ, List.cons_append, List.cons_append, ranksOf, nextRank_saturated, ih]
    congr 2
    omega

theorem exists_pairs {rank : UInt8} {ls rest : List Lexeme} {m : Nat}
    (h : ranksOf (saturated m) ls = (rank, rest)) :
    ∃ n, ls = pairs n ++ rest ∧ rank = saturated (m + n) ∧
      ∀ behind, rest ≠ .punct .lbracket :: .punct .rbracket :: behind := by
  generalize start : saturated m = from' at h
  fun_induction ranksOf from' ls generalizing m with
  | case1 from' behind ih =>
    obtain ⟨n, rfl, rfl, stop⟩ := ih (m := m + 1) (by rw [← nextRank_saturated, start]) h
    refine ⟨n + 1, by rw [pairs_succ]; rfl, by congr 1; omega, stop⟩
  | case2 from' ls other =>
    cases h
    exact ⟨0, rfl, start.symm, fun behind eq => other behind eq⟩

/-! ### Types -/

mutual

/-- The lexemes of a type reference. -/
def lexemes : TypeRef → List Lexeme
  | ⟨name, args, nullable, rank⟩ =>
    nameLexemes name ++ argLexemes args ++ (if nullable then [Lexeme.punct .question] else [])
      ++ pairs rank.toNat

/-- Type arguments in angle brackets; nothing without arguments. -/
def argLexemes : List TypeRef → List Lexeme
  | [] => []
  | t :: ts => .punct .lt :: (lexemes t ++ moreLexemes ts ++ [Lexeme.punct .gt])

/-- The arguments behind the first one. -/
def moreLexemes : List TypeRef → List Lexeme
  | [] => []
  | t :: ts => .punct .comma :: (lexemes t ++ moreLexemes ts)

end

/-- What can stand behind a type that has been read to its end. -/
def EndsType (ls : List Lexeme) : Prop :=
  ∀ p ∈ [Punct.dot, .lt, .question, .lbracket, .colonColon], peek ls ≠ .punct p

theorem endsType_punct {p : Punct} {ls : List Lexeme}
    (h : p ∉ [Punct.dot, .lt, .question, .lbracket, .colonColon]) :
    EndsType (.punct p :: ls) := by
  intro q mem eq
  cases eq
  exact h mem

theorem ranksOf_rank (rank : UInt8) {ls : List Lexeme} (h : peek ls ≠ .punct .lbracket) :
    ranksOf 0 (pairs rank.toNat ++ ls) = (rank, ls) := by
  have read := ranksOf_pairs 0 rank.toNat ls
  rw [Nat.zero_add, saturated_toNat, ranksOf_of_peek h] at read
  exact read

theorem suffixOf_lexemes (name : String) (args : List TypeRef) (nullable : Bool) (rank : UInt8)
    {rest : List Lexeme} (ends : EndsType rest) :
    suffixOf name args
        ((if nullable then [Lexeme.punct .question] else []) ++ (pairs rank.toNat ++ rest))
      = (⟨name, args, nullable, rank⟩, rest) := by
  have read := ranksOf_rank rank (ends .lbracket (by simp))
  cases nullable with
  | true => simp only [if_true, List.singleton_append, suffixOf, read]
  | false =>
    have unmarked : peek (pairs rank.toNat ++ rest) ≠ .punct .question := by
      cases rank.toNat with
      | zero => exact ends .question (by simp)
      | succ n => simp [pairs_succ]
    simp only [Bool.false_eq_true, if_false, List.nil_append, suffixOf_of_peek unmarked, read]

theorem aliased_tail (x : String) (more : List String) {ls : List Lexeme}
    (h : peek ls ≠ .punct .colonColon) :
    aliased (.ident x :: (tail more ++ ls)) = .ident x :: (tail more ++ ls) := by
  refine aliased_of_peek ?_
  cases more with
  | nil => exact h
  | cons s more => simp [tail]

theorem peek_marks {p : Punct} (nullable : Bool) (rank : UInt8) {rest : List Lexeme}
    (mark : p ∉ [Punct.question, .lbracket]) (h : peek rest ≠ .punct p) :
    peek ((if nullable then [Lexeme.punct .question] else []) ++ (pairs rank.toNat ++ rest))
      ≠ .punct p := by
  rw [List.mem_cons, List.mem_singleton, not_or] at mark
  cases nullable with
  | true => simpa using Ne.symm mark.1
  | false =>
    cases rank.toNat with
    | zero => exact h
    | succ n =>
      rw [pairs_succ]
      simpa using Ne.symm mark.2

theorem endsType_more (ts : List TypeRef) {rest : List Lexeme} (ends : EndsType rest) :
    EndsType (moreLexemes ts ++ rest) := by
  cases ts with
  | nil => exact ends
  | cons t ts =>
    rw [moreLexemes]
    exact endsType_punct (by decide)

mutual

/-- The lexemes of a type read as that type. -/
theorem typeAt_lexemes : (t : TypeRef) → (rest : List Lexeme) → (ends : EndsType rest) →
    TypeAt (t.lexemes ++ rest) t rest
  | ⟨name, [], nullable, rank⟩, rest, ends => by
    obtain ⟨x, more, named, segments⟩ := exists_segments name
    rw [lexemes, argLexemes, segments, List.append_nil, List.append_assoc, List.append_assoc]
    refine .plain (aliased_tail x more ?_) ?_ ?_ (suffixOf_lexemes name [] nullable rank ends)
    · exact peek_marks nullable rank (by decide) (ends .colonColon (by decide))
    · rw [segmentsOf_tail, ← named]
      exact segmentsOf_of_peek (peek_marks nullable rank (by decide) (ends .dot (by decide)))
    · exact peek_marks nullable rank (by decide) (ends .lt (by decide))
  | ⟨name, u :: us, nullable, rank⟩, rest, ends => by
    obtain ⟨x, more, named, segments⟩ := exists_segments name
    have close : EndsType (.punct .gt :: ((if nullable then [Lexeme.punct .question] else [])
        ++ (pairs rank.toNat ++ rest))) := endsType_punct (by decide)
    have first := typeAt_lexemes u _ (endsType_more us close)
    have listed := typesAt_lexemes us _ _ u first close (by simp)
    rw [lexemes, argLexemes, segments]
    simp only [List.cons_append, List.append_assoc, List.nil_append]
    refine .generic (aliased_tail x more ?_) ?_ listed
      (suffixOf_lexemes name (u :: us) nullable rank ends)
    · simp
    · rw [segmentsOf_tail, ← named]
      exact segmentsOf_of_peek (by simp)

theorem typesAt_lexemes : (ts : List TypeRef) → (ls rest : List Lexeme) → (t : TypeRef) →
    (first : TypeAt ls t (moreLexemes ts ++ rest)) → (ends : EndsType rest) →
    (stop : peek rest ≠ .punct .comma) → TypesAt ls (t :: ts) rest
  | [], _, _, _, first, _, stop => .last first stop
  | u :: us, ls, rest, t, first, ends, stop => by
    rw [moreLexemes, List.cons_append, List.append_assoc] at first
    have next := typeAt_lexemes u _ (endsType_more us ends)
    exact .more first (typesAt_lexemes us _ rest u next ends stop)

end

/-- The lexemes of type arguments read as those arguments. -/
theorem argsAt_lexemes {args : List TypeRef} (nonempty : args ≠ []) {rest : List Lexeme}
    (ends : endsTypeArgs (peek rest) = true) : ArgsAt (argLexemes args ++ rest) args rest := by
  cases args with
  | nil => exact absurd rfl nonempty
  | cons t ts =>
    have close : EndsType (.punct .gt :: rest) := endsType_punct (by decide)
    refine ⟨lexemes t ++ (moreLexemes ts ++ .punct .gt :: rest), ?_, ?_, ends⟩
    · simp only [argLexemes, List.cons_append, List.append_assoc, List.nil_append]
    · exact typesAt_lexemes ts _ _ t (typeAt_lexemes t _ (endsType_more ts close)) close (by simp)

end TypeRef

/-! ### Names and expressions -/

/-- The lexemes of a name with its type arguments. -/
def SimpleName.lexemes (n : SimpleName) : List Lexeme :=
  .ident n.ident :: TypeRef.argLexemes n.typeArgs

/-- The lexeme of a literal. -/
def Literal.lexeme : Literal → Lexeme
  | int value => .int value
  | float text => .float text
  | string value => .string value
  | bool true => .keyword .true
  | bool false => .keyword .false
  | null => .keyword .null

theorem Literal.lexeme_of_ofLexeme? {l : Lexeme} {v : Literal} (h : ofLexeme? l = some v) :
    v.lexeme = l := by
  unfold ofLexeme? at h
  split at h <;> cases h <;> rfl

namespace Expr

/-- An operand's lexemes, in parentheses where they are needed. -/
def operandLexemes (parens : Bool) (ls : List Lexeme) : List Lexeme :=
  if parens then .punct .lparen :: (ls ++ [Lexeme.punct .rparen]) else ls

/-- The parameters of a lambda, separated by commas. -/
def paramLexemes : List String → List Lexeme
  | [] => []
  | [x] => [.ident x]
  | x :: y :: more => .ident x :: .punct .comma :: paramLexemes (y :: more)

/-- The head of a lambda: a single parameter stands without parentheses. -/
def headLexemes : List String → List Lexeme
  | [x] => [.ident x]
  | xs => .punct .lparen :: (paramLexemes xs ++ [Lexeme.punct .rparen])

mutual

/-- The lexemes of an expression. -/
def lexemes : Expr → List Lexeme
  | name _ n => n.lexemes
  | literal _ v => [v.lexeme]
  | this _ => [.keyword .this]
  | member _ target n => lexemes target ++ .punct .dot :: n.node.lexemes
  | invoke _ callee args =>
    lexemes callee ++ .punct .lparen :: (argLexemes args ++ [Lexeme.punct .rparen])
  | index _ target args =>
    lexemes target ++ .punct .lbracket :: (argLexemes args ++ [Lexeme.punct .rbracket])
  | cast _ type operand =>
    .punct .lparen :: (type.node.lexemes ++ .punct .rparen :: lexemes operand)
  | new _ type args =>
    .keyword .new ::
      (type.node.lexemes ++ .punct .lparen :: (argLexemes args ++ [Lexeme.punct .rparen]))
  | lambda _ params body =>
    headLexemes (params.map (·.node)) ++ .punct .arrow :: lexemes body
  | unary _ op operand => .punct op.punct :: lexemes operand
  | binary _ left op right =>
    operandLexemes (left.needsParens op false) (lexemes left) ++
      .punct op.punct :: operandLexemes (right.needsParens op true) (lexemes right)
  | paren _ inner => .punct .lparen :: (lexemes inner ++ [Lexeme.punct .rparen])

/-- The lexemes of arguments, separated by commas. -/
def argLexemes : List Expr → List Lexeme
  | [] => []
  | e :: es => lexemes e ++ moreLexemes es

/-- The lexemes of the arguments behind the first one. -/
def moreLexemes : List Expr → List Lexeme
  | [] => []
  | e :: es => .punct .comma :: (lexemes e ++ moreLexemes es)

end

end Expr

/-- The lexemes of a statement. -/
def Statement.lexemes : Statement → List Lexeme
  | assign _ target value => .ident target.node :: .punct .assign :: value.lexemes
  | expr value => value.lexemes

end Marksmith.Syntax

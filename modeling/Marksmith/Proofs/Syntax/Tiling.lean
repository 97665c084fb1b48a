import Marksmith.Proofs.Syntax.Slices

/-!
Tokens and gaps tile a text, and tokens can be cut out of it and put together again.

* `Skipped`: white space and line comments; `Tiles`: a text is gaps and tokens in turn;
* `ReadsAs`: a text that is read as one token wherever it stands by itself;
* `Tiling`: how the tokens of a text lie in it, and what is read from their slices alone and joined
  by spaces; `exists_tiling`: so do the tokens of every text that the lexer accepts.
-/

namespace Marksmith.Syntax

open Text (isBlank)

/-! ### Gaps -/

/-- White space and line comments. A comment ends in front of a line feed, or with the text. -/
inductive Skipped : List Char → Prop
  | nil : Skipped []
  | blank {c : Char} {s : List Char} (blank : isBlank c = true) (rest : Skipped s) :
    Skipped (c :: s)
  | comment {line s : List Char} (single : '\n' ∉ line) (ends : ∀ c ∈ s.head?, c = '\n')
    (rest : Skipped s) : Skipped ('/' :: '/' :: (line ++ s))

/-- A comment in front of a gap that begins where the comment ends. -/
theorem skipped_comment {c : Char} {s gap : List Char}
    (comment : (c == '/' && s.head? == some '/') = true) (sub : gap <+: s.dropWhile (· != '\n'))
    (skipped : Skipped gap) : Skipped ((c :: s).takeWhile (· != '\n') ++ gap) := by
  rw [takeWhile_comment comment]
  rw [Bool.and_eq_true, beq_iff_eq, beq_iff_eq] at comment
  obtain ⟨rfl, front⟩ := comment
  obtain ⟨line, rfl⟩ := List.head?_eq_some_iff.mp front
  have ends : ∀ c ∈ gap.head?, c = '\n' := by
    intro c here
    obtain ⟨x, split⟩ := sub
    have stop := List.head?_dropWhile_not (· != '\n') ('/' :: line)
    rw [← split, List.head?_append, Option.mem_def.mp here] at stop
    simpa using stop
  have single : '\n' ∉ line.takeWhile (· != '\n') := by
    intro mem
    simpa using List.mem_takeWhile_imp mem
  exact .comment single ends skipped

/-- The ranges between a place and the first token, and between the tokens. -/
def gaps : (place : Nat) → List Token → List Span
  | _, [] => []
  | place, t :: ts => ⟨place, t.span.start⟩ :: gaps t.span.stop ts

/-! ### Tokens that stand by themselves -/

/-- Whether a text is read as one token, wherever it stands, if nothing or white space follows. -/
structure ReadsAs (written : List Char) (l : Lexeme) : Prop where
  some : written ≠ []
  solid : l ≠ .eof
  read : ∀ {pos : Nat} {v : List Char} {ts : List Token}, Detached v →
    lexFrom (pos + byteSize written) v = .ok ts →
      lexFrom pos (written ++ v) = .ok (⟨l, ⟨pos, pos + byteSize written⟩⟩ :: ts)

theorem scan_ne_eof {pos : Nat} {c : Char} {s : List Char} {r : Scan} (h : scan pos c s = .ok r) :
    r.lexeme ≠ .eof := by
  intro last
  rcases scan_cases h with ⟨-, rfl⟩ | ⟨-, rfl⟩ | ⟨-, read⟩ | ⟨-, read⟩ | ⟨p, rfl⟩
  · cases last
  · rw [scanWord, wordLexeme] at last
    split at last <;> cases last
  · unfold scanNumber at read
    dsimp only at read
    split at read
    · cases read
      cases last
    · split at read
      · cases read
        cases last
      · cases read
  · obtain ⟨v, body, made⟩ := bind_eq_ok_iff.mp read
    cases made
    cases last
  · cases last

theorem readsAs_of_scan {pos : Nat} {c : Char} {s : List Char} {r : Scan}
    (solid : ¬isBlank c = true) (noComment : ¬(c == '/' && s.head? == some '/') = true)
    (read : scan pos c s = .ok r) : ReadsAs r.written r.lexeme where
  some := (scan_split read).2
  solid := scan_ne_eof read
  read detached behind := lexFrom_token_again solid noComment read (.inr detached) behind

/-- By itself, a text that reads as a token is that token and the end. -/
theorem ReadsAs.alone {written : List Char} {l : Lexeme} (reads : ReadsAs written l) :
    lex (String.ofList written) = .ok [⟨l, ⟨0, byteSize written⟩⟩,
      ⟨.eof, ⟨byteSize written, byteSize written⟩⟩] := by
  have whole := @reads.read 0 [] _ detached_nil (lexFrom_nil _)
  rw [List.append_nil, Nat.zero_add] at whole
  rw [lex, String.toList_ofList, whole]

/-- Tokens that are joined by spaces read as their lexemes. -/
theorem lexes_intercalate {words : List (List Char)} {ls : List Lexeme}
    (each : List.Forall₂ ReadsAs words ls) {v : List Char} (detached : Detached v)
    {ms : List Lexeme} (behind : Lexes v ms) : Lexes (List.intercalate [' '] words ++ v) (ls ++ ms) := by
  induction each with
  | nil => exact behind
  | @cons word l words ls first rest ih =>
    intro pos
    cases rest with
    | nil =>
      obtain ⟨ts, read, same⟩ := behind (pos + byteSize word)
      rw [List.intercalate_singleton]
      exact ⟨_, first.read detached read, congrArg (l :: ·) same⟩
    | cons second others =>
      obtain ⟨ts, read, same⟩ := ih.blank (pos + byteSize word)
      rw [List.intercalate_cons_cons, List.append_assoc, List.append_assoc, List.singleton_append]
      exact ⟨_, first.read (detached_blank _ (by decide)) read, congrArg (l :: ·) same⟩

/-! ### Gaps and tokens in turn -/

/-- A text, from a place on, is made of gaps and of texts that read as tokens, in turn. -/
inductive Tiles : (pos : Nat) → List Char → List Token → Prop
  | last {pos : Nat} {gap : List Char} (skipped : Skipped gap) :
    Tiles pos gap [⟨.eof, ⟨pos + byteSize gap, pos + byteSize gap⟩⟩]
  | token {pos : Nat} {gap written s : List Char} {l : Lexeme} {ts : List Token}
    (skipped : Skipped gap) (reads : ReadsAs written l)
    (rest : Tiles (pos + byteSize gap + byteSize written) s ts) :
    Tiles pos (gap ++ (written ++ s))
      (⟨l, ⟨pos + byteSize gap, pos + byteSize gap + byteSize written⟩⟩ :: ts)

/-- A text with something in front that belongs to the first gap. -/
theorem Tiles.prepend {pos : Nat} {front s : List Char} {ts : List Token}
    (tiles : Tiles (pos + byteSize front) s ts)
    (skipped : ∀ gap, gap <+: s → Skipped gap → Skipped (front ++ gap)) :
    Tiles pos (front ++ s) ts := by
  cases tiles with
  | last gap =>
    rw [Nat.add_assoc, ← byteSize_append]
    exact .last (skipped _ (List.prefix_refl _) gap)
  | token gap reads rest =>
    rw [Nat.add_assoc pos, ← byteSize_append] at rest ⊢
    rw [← List.append_assoc]
    exact .token (skipped _ (List.prefix_append _ _) gap) reads rest

theorem tiles_of_lexFrom {pos : Nat} {s : List Char} {ts : List Token}
    (h : lexFrom pos s = .ok ts) : Tiles pos s ts := by
  fun_induction lexFrom pos s generalizing ts with
  | case1 pos =>
    cases h
    exact .last .nil
  | case2 pos c tail blank ih =>
    have tiles : Tiles (pos + byteSize [c]) tail ts := ih h
    exact tiles.prepend fun gap _ skipped => .blank blank skipped
  | case3 pos c tail solid comment ih =>
    have tiles := (ih h).prepend fun gap sub skipped => skipped_comment comment sub skipped
    rwa [takeWhile_comment comment, List.cons_append, List.takeWhile_append_dropWhile] at tiles
  | case4 => cases h
  | case5 pos c tail solid noComment r read stop =>
    rename_i ih
    obtain ⟨tokens, others, made⟩ := bind_eq_ok_iff.mp h
    cases made
    rw [← (scan_split read).1]
    exact .token .nil (readsAs_of_scan solid noComment read) (ih others)

/-! ### Tokens in a text -/

/-- A piece of a text that reads as a token. -/
structure Lies (text : String) (t : Token) (before written behind : List Char) : Prop where
  split : text.toList = before ++ (written ++ behind)
  span : t.span = ⟨byteSize before, byteSize before + byteSize written⟩
  reads : ReadsAs written t.lexeme

namespace Tiles

variable {text : String} {pos : Nat} {before s : List Char} {ts : List Token}

/-- The end stands behind all other tokens, and each of them is a piece of the text. -/
theorem exists_body (tiles : Tiles pos s ts) (split : text.toList = before ++ s)
    (place : pos = byteSize before) :
    ∃ body, ts = body ++ [⟨.eof, ⟨byteSize text.toList, byteSize text.toList⟩⟩] ∧
      ∀ t ∈ body, ∃ before written behind, Lies text t before written behind := by
  induction tiles generalizing before with
  | last skipped =>
    refine ⟨[], ?_, List.forall_mem_nil _⟩
    rw [split, byteSize_append, place, List.nil_append]
  | @token pos gap written s l ts skipped reads rest ih =>
    have split' : text.toList = (before ++ gap) ++ (written ++ s) := by simpa using split
    obtain ⟨body, rfl, each⟩ := @ih (before ++ gap ++ written) (by simpa using split)
      (by simp [place, Nat.add_assoc])
    refine ⟨_ :: body, rfl, List.forall_mem_cons.mpr ⟨⟨before ++ gap, written, s, ?_⟩, each⟩⟩
    exact ⟨split', by simp [place, Nat.add_assoc], reads⟩

/-- The gaps are parts of the text, and nothing but white space and comments stands in them. -/
theorem gap_skipped (tiles : Tiles pos s ts) (split : text.toList = before ++ s)
    (place : pos = byteSize before) :
    ∀ gap ∈ gaps pos ts, gap.Fits text ∧ Skipped (gap.slice text).toList := by
  have here : ∀ {before gap behind : List Char}, text.toList = before ++ (gap ++ behind) →
      Skipped gap → Span.Fits text ⟨byteSize before, byteSize before + byteSize gap⟩ ∧
        Skipped (Span.slice ⟨byteSize before, byteSize before + byteSize gap⟩ text).toList := by
    intro before gap behind split skipped
    rw [slice_eq split, String.toList_ofList]
    exact ⟨Span.fits_piece split, skipped⟩
  induction tiles generalizing before with
  | last skipped =>
    subst place
    exact List.forall_mem_singleton.mpr (@here _ _ [] (by simpa using split) skipped)
  | @token pos gap written s l ts skipped reads rest ih =>
    subst place
    refine List.forall_mem_cons.mpr ⟨here split skipped, ?_⟩
    exact @ih (before ++ gap ++ written) (by simpa using split) (by simp [Nat.add_assoc])

end Tiles

namespace Lies

variable {text : String} {t : Token} {before written behind : List Char}

theorem forward (lies : Lies text t before written behind) : t.span.start < t.span.stop := by
  rw [lies.span]
  exact Nat.lt_add_of_pos_right (byteSize_pos lies.reads.some)

theorem fits (lies : Lies text t before written behind) : t.span.Fits text := by
  rw [lies.span]
  exact Span.fits_piece lies.split

theorem slice (lies : Lies text t before written behind) :
    t.span.slice text = String.ofList written := by
  rw [lies.span]
  exact slice_eq lies.split

theorem alone (lies : Lies text t before written behind) : lex (t.span.slice text) =
    .ok [⟨t.lexeme, ⟨0, t.span.stop - t.span.start⟩⟩,
      ⟨.eof, ⟨t.span.stop - t.span.start, t.span.stop - t.span.start⟩⟩] := by
  rw [lies.slice, lies.reads.alone, lies.span, Nat.add_sub_cancel_left]

end Lies

/-- Tokens that are not empty begin one behind the other. -/
theorem pairwise_start_lt {body : List Token} {last : Token}
    (order : (body ++ [last]).Pairwise fun t u => t.span.stop ≤ u.span.start)
    (forward : ∀ t ∈ body, t.span.start < t.span.stop) :
    (body ++ [last]).Pairwise fun t u =>
      t.span.start < u.span.start ∧ t.span.stop ≤ u.span.start := by
  rw [List.pairwise_append] at order ⊢
  obtain ⟨inner, -, behind⟩ := order
  refine ⟨inner.imp_of_mem ?_, List.pairwise_singleton _ _, ?_⟩
  · intro t u mem _ room
    exact ⟨Nat.lt_of_lt_of_le (forward t mem) room, room⟩
  · intro t mem u among
    have room := behind t mem u among
    exact ⟨Nat.lt_of_lt_of_le (forward t mem) room, room⟩

/-! ### Slices that are joined by spaces -/

section Joined

variable {text : String} {body : List Token}
  (each : ∀ t ∈ body, ∃ before written behind, Lies text t before written behind)

include each

/-- Slices of tokens, joined by spaces, with a text behind them. -/
theorem lexes_slices {v : List Char} (detached : Detached v) (behind : Lexes v [.eof]) :
    Lexes ((" ".intercalate (body.map (·.span.slice text))).toList ++ v)
      (lexemes body ++ [.eof]) := by
  rw [String.toList_intercalate, List.map_map]
  apply lexes_intercalate _ detached behind
  rw [lexemes, List.forall₂_map_left_iff, List.forall₂_map_right_iff, List.forall₂_same]
  intro t mem
  obtain ⟨before, written, behind, lies⟩ := each t mem
  rw [Function.comp_apply, lies.slice, String.toList_ofList]
  exact lies.reads

theorem exists_lex_slices : ∃ us, lex (" ".intercalate (body.map (·.span.slice text))) = .ok us ∧
    lexemes us = lexemes body ++ [.eof] := by
  have lexes := lexes_slices each detached_nil Lexes.nil
  rw [List.append_nil] at lexes
  exact lexes 0

/-- The slice of the end is empty, so that with it a space comes last. -/
theorem exists_lex_slices_end :
    ∃ us, lex (" ".intercalate (body.map (·.span.slice text) ++ [""])) = .ok us ∧
      lexemes us = lexemes body ++ [.eof] := by
  cases body with
  | nil => exact Lexes.nil 0
  | cons t body =>
    have lexes := lexes_slices each (detached_blank [] (by decide)) Lexes.nil.blank
    rw [String.intercalate_append_of_ne_nil (by simp) (by simp), String.intercalate_singleton,
      String.append_empty, lex, String.toList_append]
    exact lexes 0

end Joined

theorem slice_end (text : String) :
    Span.slice ⟨byteSize text.toList, byteSize text.toList⟩ text = "" := by
  have split : text.toList = text.toList ++ ([] ++ []) := by simp
  exact slice_eq split

/-! ### The tokens of a text -/

/-- How the tokens of a text lie in it. All but the last one, the end, are the body. -/
structure Tiling (text : String) (ts body : List Token) : Prop where
  ends : ts = body ++ [⟨.eof, ⟨byteSize text.toList, byteSize text.toList⟩⟩]
  solid : ∀ t ∈ body, t.lexeme ≠ .eof ∧ t.span.start < t.span.stop
  fits : ∀ t ∈ body, t.span.Fits text
  apart : ts.Pairwise fun t u => t.span.start < u.span.start ∧ t.span.stop ≤ u.span.start
  gaps : ∀ gap ∈ gaps 0 ts, gap.Fits text ∧ Skipped (gap.slice text).toList
  alone : ∀ t ∈ body, lex (t.span.slice text) =
    .ok [⟨t.lexeme, ⟨0, t.span.stop - t.span.start⟩⟩,
      ⟨.eof, ⟨t.span.stop - t.span.start, t.span.stop - t.span.start⟩⟩]
  joined : ∃ us, lex (" ".intercalate (body.map (·.span.slice text))) = .ok us ∧
    lexemes us = lexemes ts
  joinedAll : ∃ us, lex (" ".intercalate (ts.map (·.span.slice text))) = .ok us ∧
    lexemes us = lexemes ts

/-- The tokens of a text that the lexer accepts tile it: they are parts of the text, one behind the
other, with white space and comments between them. Each is read again from its slice alone, and all
are read again from their slices joined by spaces. -/
theorem exists_tiling {text : String} {ts : List Token} (lexed : lex text = .ok ts) :
    ∃ body, Tiling text ts body := by
  have tiles := tiles_of_lexFrom lexed
  have order := (inOrder_of_lex lexed).apart
  have split : text.toList = [] ++ text.toList := rfl
  obtain ⟨body, rfl, each⟩ := tiles.exists_body split rfl
  have forward : ∀ t ∈ body, t.span.start < t.span.stop := by
    intro t mem
    obtain ⟨before, written, behind, lies⟩ := each t mem
    exact lies.forward
  refine ⟨body, rfl, ?solid, ?fits, ?apart, ?gaps, ?alone, ?joined, ?joinedAll⟩
  case solid =>
    intro t mem
    obtain ⟨before, written, behind, lies⟩ := each t mem
    exact ⟨lies.reads.solid, lies.forward⟩
  case fits =>
    intro t mem
    obtain ⟨before, written, behind, lies⟩ := each t mem
    exact lies.fits
  case apart => exact pairwise_start_lt order forward
  case gaps => exact tiles.gap_skipped split rfl
  case alone =>
    intro t mem
    obtain ⟨before, written, behind, lies⟩ := each t mem
    exact lies.alone
  case joined =>
    rw [lexemes, List.map_append]
    exact exists_lex_slices each
  case joinedAll =>
    rw [lexemes, List.map_append, List.map_append, List.map_singleton, slice_end]
    exact exists_lex_slices_end each

/-- The first point is a token of its own and the second one belongs to a number. Of the two pairs of
slashes, only the first one begins a comment. -/
theorem exists_tiling_mixed : ∃ ts,
    lex "ä<=1.ToString// \"1\"\n@class/-2.5f 7L\"//\"" = .ok ts ∧
    ts.map (·.span.slice "ä<=1.ToString// \"1\"\n@class/-2.5f 7L\"//\"") =
      ["ä", "<=", "1", ".", "ToString", "@class", "/", "-", "2.5f", "7L", "\"//\"", ""] ∧
    ∃ body, Tiling "ä<=1.ToString// \"1\"\n@class/-2.5f 7L\"//\"" ts body := by
  have slices : (lex "ä<=1.ToString// \"1\"\n@class/-2.5f 7L\"//\"").toOption.map
      (·.map (·.span.slice "ä<=1.ToString// \"1\"\n@class/-2.5f 7L\"//\"")) =
      some ["ä", "<=", "1", ".", "ToString", "@class", "/", "-", "2.5f", "7L", "\"//\"", ""] := by
    decide +kernel
  cases lexed : lex "ä<=1.ToString// \"1\"\n@class/-2.5f 7L\"//\"" with
  | error e =>
    rw [lexed] at slices
    cases slices
  | ok ts =>
    rw [lexed] at slices
    exact ⟨ts, rfl, Option.some.inj slices, exists_tiling lexed⟩

end Marksmith.Syntax

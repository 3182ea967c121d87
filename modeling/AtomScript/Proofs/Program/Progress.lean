import Mathlib
import AtomScript.Proofs.Program.Steps

/-!
# The budget of the readers suffices

Every reader calls the others a bounded number of times before it takes a token, so a budget that is
proportional to what is left of a text is never spent.  What is left is weighed: a token weighs one,
and a string weighs one more for each character of its body, because what its markers enclose is
read as a text of its own.

`Finishes n k d x` says of a reader with budget `n` that it does not run out of it on tokens for
which eighteen calls for each unit of weight, and `k` more, are left; and that a success takes
tokens of weight `d` at least.  There is a rule for each primitive reader and one for reading one
thing after another, in which the weight that the first has taken pays for the second.

* `Parser.sufficient` — the readers, by induction on the budget;
* `Parser.statements_finished` — the statements of a text are read or refused.
-/

namespace AtomScript

open Template

namespace Parser

/-! ### Weight -/

/-- A string is as heavy as its body, for the texts that its markers enclose. -/
def tokenWeight (t : Token) : Nat :=
  if t.kind = .string then t.text.length + 1 else 1

/-- What the tokens weigh together. -/
def weight (ts : List Token) : Nat := (ts.map tokenWeight).sum

/-- Every token weighs something, so that taking one pays for calls. -/
theorem tokenWeight_pos (t : Token) : 1 ≤ tokenWeight t := by
  unfold tokenWeight
  split
  · exact Nat.le_add_left 1 _
  · exact Nat.le_refl 1

/-- A token more. -/
theorem weight_cons (t : Token) (ts : List Token) : weight (t :: ts) = tokenWeight t + weight ts :=
  List.sum_cons

/-- What is left of tokens weighs no more than they do. -/
theorem weight_le_of_suffix {ts us : List Token} (h : ts <:+ us) : weight ts ≤ weight us := by
  obtain ⟨taken, rfl⟩ := h
  unfold weight
  rw [List.map_append, List.sum_append]
  exact Nat.le_add_left _ _

variable {α β : Type}

/-- The ending is not for want of budget, and what was taken weighs `d` at least. -/
def Parsed.Finished (before d : Nat) : Parsed α → Prop
  | .done _ rest => weight rest + d ≤ before
  | .refused _ => True
  | .exhausted | .overflowed => False

/-- On tokens whose first satisfies `P`, the budget `n` is not spent. -/
def FinishesAt (P : Token → Prop) (n k d : Nat) (x : Parser α) : Prop :=
  ∀ ts, P (front ts) → 18 * weight ts + k ≤ n → Parsed.Finished (weight ts) d (x ts)

/-- The budget `n` is not spent where `k` more than eighteen for each unit of weight are left, and a
success takes a weight of `d` at least. -/
def Finishes (n k d : Nat) (x : Parser α) : Prop := FinishesAt (fun _ => True) n k d x

variable {P : Token → Prop} {n k d : Nat} {x : Parser α} {f : α → Parser β}

/-- A reader that finishes on all tokens finishes on those with a certain one in front. -/
theorem Finishes.at (h : Finishes n k d x) : FinishesAt P n k d x :=
  fun ts _ hts => h ts trivial hts

/-- A reader that is called has one call less, and is nearer to the next token. -/
theorem Finishes.later {k' : Nat} (h : Finishes n k d x) (hk : k + 1 ≤ k') :
    Finishes (n + 1) k' d x :=
  fun ts _ hts => h ts trivial (by omega)

/-- What is left is what the reader may rely on. -/
theorem finishes_of_le (h : k ≤ n → Finishes n k d x) : Finishes n k d x :=
  fun ts hts hle => h (by omega) ts hts hle

/-! ### Putting readers together -/

/-- A result takes nothing. -/
theorem finishesAt_pure {a : α} : FinishesAt P n k 0 (pure a) :=
  fun ts _ _ => Nat.le_refl (weight ts)

/-- A refusal is an ending, whatever was taken. -/
theorem finishesAt_fail {e : Error} : FinishesAt P n k d (fail e : Parser α) :=
  fun _ _ _ => trivial

/-- Also a refusal that names the token in front. -/
theorem finishesAt_refuse {wanted : Expectation} : FinishesAt P n k d (refuse wanted : Parser α) :=
  fun _ _ _ => trivial

/-- **One after the other.**  What the first reader takes pays for the second. -/
theorem FinishesAt.bind {e : Nat} (hx : FinishesAt P n k d x)
    (hf : ∀ a, Finishes n (k + 18 * d) (e - d) (f a)) : FinishesAt P n k e (x >>= f) := by
  intro ts hP hts
  have hxts := hx ts hP hts
  change Parsed.Finished _ _ (Parser.bind x f ts)
  unfold Parser.bind
  cases h : x ts with
  | done a rest =>
    -- the weight that was taken is the budget for the next reader
    rw [h] at hxts
    have hle : weight rest + d ≤ weight ts := hxts
    have hfts := hf a rest trivial (by omega)
    dsimp only
    cases hfa : f a rest with
    | done b rest' =>
      rw [hfa] at hfts
      have hle' : weight rest' + (e - d) ≤ weight rest := hfts
      change weight rest' + e ≤ weight ts
      omega
    | refused e => trivial
    | exhausted =>
      rw [hfa] at hfts
      exact hfts
    | overflowed =>
      rw [hfa] at hfts
      exact hfts
  | refused e => trivial
  | exhausted =>
    rw [h] at hxts
    exact hxts
  | overflowed =>
    rw [h] at hxts
    exact hxts

/-- A look at the front token: what follows knows which one it is. -/
theorem finishes_peek_bind {g : Token → Parser β} (h : ∀ t, FinishesAt (· = t) n k d (g t)) :
    Finishes n k d (peek >>= g) :=
  fun ts _ hts => h (front ts) ts rfl hts

/-- A look at its kind: what follows knows which token it is. -/
theorem finishes_peekKind_bind {g : TokenKind → Parser β}
    (h : ∀ t, FinishesAt (· = t) n k d (g t.kind)) : Finishes n k d (peekKind >>= g) :=
  fun ts _ hts => h (front ts) ts rfl hts

/-- The front token has been looked at, and is now taken: its weight pays for what follows. -/
theorem finishesAt_take {t : Token} {g : Token → Parser β} (ht : t.kind ≠ .eof)
    (h : Finishes n (k + 18 * tokenWeight t) (d - 1) (g t)) :
    FinishesAt (· = t) n k d (advance >>= g) := by
  intro ts hfront hts
  obtain ⟨us, rfl⟩ := eq_cons_of_front hfront ht
  -- the token weighs at least one unit, which pays for the loss
  have hpos := tokenWeight_pos t
  rw [weight_cons] at hts ⊢
  have hus := h us trivial (by omega)
  rw [advance_bind]
  cases hg : g t us with
  | done b rest =>
    rw [hg] at hus
    have hle : weight rest + (d - 1) ≤ weight us := hus
    change weight rest + d ≤ tokenWeight t + weight us
    omega
  | refused e => trivial
  | exhausted =>
    rw [hg] at hus
    exact hus
  | overflowed =>
    rw [hg] at hus
    exact hus

/-- A token pays for eighteen calls at least. -/
theorem finishesAt_advance_bind {t : Token} {g : Token → Parser β} (ht : t.kind ≠ .eof)
    (h : Finishes n (k + 18) (d - 1) (g t)) : FinishesAt (· = t) n k d (advance >>= g) := by
  have hpos := tokenWeight_pos t
  exact finishesAt_take ht fun us _ hus => h us trivial (by omega)

/-- What follows depends on whether the front token was taken. -/
theorem finishes_accept_bind {kind : TokenKind} {g : Bool → Parser β} (hkind : kind ≠ .eof)
    (htrue : Finishes n (k + 18) (d - 1) (g true)) (hfalse : Finishes n k d (g false)) :
    Finishes n k d (accept kind >>= g) := by
  intro ts _ hts
  -- the token is taken, as if it had been looked at before
  by_cases hfront : (front ts).kind = kind
  · have htake : FinishesAt (· = front ts) n k d (advance >>= fun _ => g true) :=
      finishesAt_advance_bind (hfront ▸ hkind) htrue
    obtain ⟨us, hus⟩ := eq_cons_of_front rfl (hfront ▸ hkind)
    have hdone := htake ts rfl hts
    rw [hus] at hdone ⊢
    rw [accept_bind_of_eq hfront]
    exact hdone
  · rw [accept_bind_of_ne hfront]
    exact hfalse ts trivial hts

/-- No reader asks for the end token. -/
theorem Expectation.kind?_ne_eof (wanted : Expectation) : wanted.kind? ≠ some .eof := by
  cases wanted <;> decide

/-- The token that must be there pays, or the text is refused. -/
theorem finishes_expect_bind {wanted : Expectation} {g : Token → Parser β}
    (h : ∀ t, Finishes n (k + 18) (d - 1) (g t)) : Finishes n k d (expect wanted >>= g) := by
  intro ts _ hts
  -- the expected token is no end token, so it is taken and pays
  by_cases hfront : some (front ts).kind = wanted.kind?
  · have hne : (front ts).kind ≠ .eof := fun heof =>
      Expectation.kind?_ne_eof wanted (by rw [← hfront, heof])
    have hdone := finishesAt_advance_bind hne (h (front ts)) ts rfl hts
    obtain ⟨us, hus⟩ := eq_cons_of_front rfl hne
    rw [hus] at hdone ⊢
    rw [expect_bind_of_eq hfront]
    exact hdone
  · change Parsed.Finished _ _ (Parser.bind (expect wanted) g ts)
    unfold Parser.bind
    rw [expect_of_ne hfront]
    trivial

/-- Passing over separators spends no budget. -/
theorem finishes_skipSeparators : Finishes n k 0 skipSeparators :=
  fun _ _ _ => weight_le_of_suffix (List.dropWhile_suffix _)

/-- Nor does reading the names of parameters, which is a recursion on the tokens. -/
theorem finishes_parameters (close : TokenKind) : Finishes n k 0 (parameters close) := by
  intro ts _ hts
  clear hts
  -- one case for each way through the names
  fun_induction parameters close ts with
  | case1 => trivial
  | case2 t ts _ => exact Nat.le_refl _
  | case3 t _ _ => exact Nat.zero_le _
  | case4 t _ _ comma us _ names rest heq ih =>
    rw [heq] at ih
    have hle : weight rest + 0 ≤ weight us := ih
    change weight rest + 0 ≤ weight (t :: comma :: us)
    rw [weight_cons, weight_cons]
    omega
  | case5 => trivial
  | case6 t _ _ comma us _ heq ih =>
    rw [heq] at ih
    exact ih
  | case7 t _ _ comma us _ heq ih =>
    rw [heq] at ih
    exact ih
  | case8 t _ _ u us _ => exact weight_le_of_suffix (List.suffix_cons t _)
  | case9 => trivial

/-- Nor does telling the operator from its token. -/
theorem finishes_operator (t : Token) : Finishes n k 0 (operator t) := by
  unfold operator
  split
  · exact finishesAt_pure
  · exact finishesAt_fail

/-- The tokens at hand are left alone. -/
theorem finishes_within {own : List Token} (h : Parsed.Finished (weight own) 0 (x own)) :
    Finishes n k 0 (within own x) := by
  intro ts _ _
  -- what is left to parse on the outside is what there was before
  unfold within
  cases hx : x own with
  | done a rest => exact Nat.le_refl (weight ts)
  | refused e => trivial
  | exhausted =>
    rw [hx] at h
    exact h
  | overflowed =>
    rw [hx] at h
    exact h

/-! ### Texts of their own -/

/-- Decoding makes a text no longer: an escape of two characters gives two at most. -/
theorem length_unescapeList_le (cs : List Char) : (unescapeList cs).length ≤ cs.length := by
  -- an escape gives one character, or its own two if it is unknown
  have hescaped : ∀ c, (escaped c).length ≤ 2 := by
    intro c
    unfold escaped
    split <;> simp
  fun_induction unescapeList cs with
  | case1 => exact Nat.le_refl 0
  | case2 => exact Nat.le_refl 1
  | case3 c cs ih =>
    have hc := hescaped c
    simp only [List.length_append, List.length_cons]
    omega
  | case4 c cs _ _ ih =>
    simp only [List.length_cons]
    omega

/-- A token is no heavier than it is long. -/
theorem tokenWeight_le {t : Token} (h : Lexer.Lexeme t.kind t.written) :
    tokenWeight t ≤ t.written.length := by
  -- a literal weighs what stands between its quotes, and every other token one
  unfold tokenWeight
  split
  · next hkind =>
    have hwritten : t.written = '"' :: t.text.toList ++ ['"'] := by
      unfold Token.written
      rw [hkind]
    simp only [hwritten, List.length_append, List.length_cons, String.length_toList,
      List.length_nil]
    omega
  · obtain ⟨c, cs, hwritten, -⟩ := h.head
    rw [hwritten]
    exact Nat.le_add_left 1 _

/-- Tokens weigh no more than the text that they are read from. -/
theorem weight_le_of_laid {before text rest : List Char} {ts : List Token}
    (h : Lexer.Laid before ts text rest) : weight ts ≤ text.length := by
  induction h with
  | nil => exact Nat.zero_le _
  -- the gap in front of the token weighs nothing
  | cons _ hlexeme _ _ ih =>
    have ht := tokenWeight_le hlexeme
    rw [weight_cons, List.length_append, List.length_append]
    omega

/-- The tokens of a text weigh no more than the text, with one for the end. -/
theorem weight_le_of_tokenize {source : String} {ts : List Token} (h : tokenize source = .ok ts) :
    weight ts ≤ source.length + 1 := by
  obtain ⟨read, gap, rfl, hlaid, -⟩ := (tokenize_laid source).1 ts h
  have hread := weight_le_of_laid hlaid
  rw [String.length_toList] at hread
  have hsum : weight (read ++ [.endOfInput (.after source.toList)]) = weight read + 1 := by
    unfold weight
    rw [List.map_append, List.sum_append]
    rfl
  rw [hsum]
  omega

/-- How much the texts in the markers of a string weigh, with the markers around them. -/
def markerWeight (inners : List String) : Nat := (inners.map fun inner => inner.length + 3).sum

/-- A text that is put together is as long as its markers at least. -/
theorem length_assemble (parts : List Char × List (List Char × List Char)) :
    (parts.2.map fun part => part.1.length + 3).sum ≤ (assemble id parts).length := by
  obtain ⟨lit, parts⟩ := parts
  have hparts : (parts.map fun part => part.1.length + 3).sum ≤
      (parts.flatMap fun part => marker part.1 ++ part.2).length := by
    induction parts with
    | nil => exact Nat.le_refl 0
    -- a marker is three characters longer than what it encloses
    | cons part parts ih =>
      rw [List.map_cons, List.sum_cons, List.flatMap_cons, List.length_append, List.length_append]
      have hmarker : (marker part.1).length = part.1.length + 3 := by simp [marker]
      omega
  refine hparts.trans ?_
  unfold assemble
  rw [List.length_append]
  exact Nat.le_add_left _ _

/-- The markers of a string are no longer than its body. -/
theorem markerWeight_le {body : String} {inners : List String} (h : markers? body = some inners) :
    markerWeight inners ≤ body.length := by
  obtain ⟨parts, hparts, rfl⟩ := inners_of_markers? h
  have hlength := length_assemble parts
  rw [← eq_of_split? hparts, String.length_toList] at hlength
  unfold markerWeight
  rw [List.map_map]
  refine Nat.le_trans (Nat.le_of_eq ?_) hlength
  refine congrArg List.sum (List.map_congr_left fun part _ => ?_)
  rw [Function.comp_apply, String.length_ofList]

/-! ### The readers of the grammar -/

/-- The budget suffices for each reader, with an allowance for the calls that it is away from the
next token. -/
structure Sufficient (n : Nat) : Prop where
  statement : Finishes n 16 1 (statement n)
  block : ∀ inConditional, Finishes n 17 0 (block n inConditional)
  clauses : Finishes n 1 1 (clauses n)
  expression : Finishes n 15 1 (expression n)
  matching : Finishes n 14 1 (matching n none)
  declaration : ∀ t : Token, t.kind = .keyword .letWord →
    FinishesAt (· = t) n 13 1 (declaration n none)
  operators : ∀ level, Finishes n (level.height + 3) 1 (operators n level)
  operand : ∀ level, Finishes n (level.height + 2) 1 (operand n level)
  operations : ∀ level left, Finishes n 1 0 (operations n level left)
  negation : Finishes n 9 1 (negation n)
  unary : Finishes n 2 1 (unary n)
  suffixes : ∀ e, Finishes n 1 0 (suffixes n e)
  sequence : ∀ close, Finishes n 16 0 (sequence n close)
  entries : Finishes n 17 0 (entries n)
  mapKey : Finishes n 16 1 (mapKey n)
  primary : Finishes n 1 1 (primary n)
  /-- The tokens at hand do not matter. -/
  holes : ∀ p inners ts, 18 * markerWeight inners + 1 ≤ n →
    Parsed.Finished (weight ts) 0 (holes n p inners ts)
  statements : Finishes n 17 0 (statements n)

/-- A statement, whose keyword pays for the condition or the name behind it. -/
theorem Sufficient.succ_statement (ih : Sufficient n) :
    -- one line for each step of the definition; the weights are what the budget of the steps adds
    -- up to
    Finishes (n + 1) 16 1 (Parser.statement (n + 1)) := by
  unfold Parser.statement
  refine finishes_peekKind_bind fun t => ?_
  split
  · next ht =>
    refine finishesAt_advance_bind (by rw [ht]; decide) ?_
    refine FinishesAt.bind (ih.expression.later (by omega)) fun c => ?_
    refine finishes_expect_bind fun _ => ?_
    refine FinishesAt.bind ((ih.block true).later (by omega)) fun body => ?_
    exact FinishesAt.bind (ih.clauses.later (by omega)) fun _ => finishesAt_pure
  · next ht =>
    refine finishesAt_advance_bind (by rw [ht]; decide) ?_
    refine finishes_expect_bind fun name => ?_
    refine finishes_expect_bind fun _ => ?_
    refine FinishesAt.bind (finishes_parameters _) fun params => ?_
    refine finishes_expect_bind fun _ => ?_
    refine finishes_expect_bind fun _ => ?_
    refine FinishesAt.bind ((ih.block false).later (by omega)) fun body => ?_
    exact finishes_expect_bind fun _ => finishesAt_pure
  · next ht =>
    refine finishesAt_advance_bind (by rw [ht]; decide) ?_
    refine finishes_peekKind_bind fun u => ?_
    split
    · exact finishesAt_pure
    · exact FinishesAt.bind (ih.expression.later (by omega)).at fun _ => finishesAt_pure
  · next ht =>
    refine finishesAt_advance_bind (by rw [ht]; decide) ?_
    refine FinishesAt.bind (ih.expression.later (by omega)) fun c => ?_
    refine finishes_expect_bind fun _ => ?_
    refine FinishesAt.bind ((ih.block false).later (by omega)) fun body => ?_
    exact finishes_expect_bind fun _ => finishesAt_pure
  · next ht => exact finishesAt_advance_bind (by rw [ht]; decide) finishesAt_pure
  · next ht => exact finishesAt_advance_bind (by rw [ht]; decide) finishesAt_pure
  · exact FinishesAt.bind (ih.expression.later (by omega)).at fun _ => finishesAt_pure

/-- A statement has taken a token when the block goes on. -/
theorem Sufficient.succ_block (ih : Sufficient n) (inConditional : Bool) :
    Finishes (n + 1) 17 0 (Parser.block (n + 1) inConditional) := by
  unfold Parser.block
  refine FinishesAt.bind finishes_skipSeparators fun _ => finishes_peekKind_bind fun t => ?_
  split
  · exact finishesAt_pure
  · split
    · exact finishesAt_refuse
    · refine FinishesAt.bind (ih.statement.later (by omega)).at fun first => ?_
      exact FinishesAt.bind ((ih.block inConditional).later (by omega)) fun _ => finishesAt_pure

/-- The statements of a text: each pays for the next. -/
theorem Sufficient.succ_statements (ih : Sufficient n) :
    Finishes (n + 1) 17 0 (Parser.statements (n + 1)) := by
  unfold Parser.statements
  refine FinishesAt.bind finishes_skipSeparators fun _ => finishes_peekKind_bind fun t => ?_
  split
  · exact finishesAt_pure
  · refine FinishesAt.bind (ih.statement.later (by omega)).at fun first => ?_
    exact FinishesAt.bind (ih.statements.later (by omega)) fun _ => finishesAt_pure

/-- What comes after the block of an `if`: the keyword pays. -/
theorem Sufficient.succ_clauses (ih : Sufficient n) :
    Finishes (n + 1) 1 1 (Parser.clauses (n + 1)) := by
  -- a clause with a condition, the alternative with or without its word, or the end
  unfold Parser.clauses
  refine finishes_accept_bind (by decide) ?_ (finishes_accept_bind (by decide) ?_ ?_)
  · refine FinishesAt.bind (ih.expression.later (by omega)) fun c => ?_
    refine finishes_expect_bind fun _ => ?_
    refine FinishesAt.bind ((ih.block true).later (by omega)) fun body => ?_
    exact FinishesAt.bind (ih.clauses.later (by omega)) fun _ => finishesAt_pure
  · refine finishes_accept_bind (by decide) ?_ ?_
    · refine FinishesAt.bind ((ih.block false).later (by omega)) fun body => ?_
      exact finishes_expect_bind fun _ => finishesAt_pure
    · refine FinishesAt.bind ((ih.block false).later (by omega)) fun body => ?_
      exact finishes_expect_bind fun _ => finishesAt_pure
  · exact finishes_expect_bind fun _ => finishesAt_pure

/-- An expression calls the reader for both sides of `=`. -/
theorem Sufficient.succ_expression (ih : Sufficient n) :
    Finishes (n + 1) 15 1 (Parser.expression (n + 1)) := by
  unfold Parser.expression
  exact ih.matching.later (Nat.le_refl 15)

/-- The left side, and the `=`, pay for the right side. -/
theorem Sufficient.succ_matching (ih : Sufficient n) :
    Finishes (n + 1) 14 1 (Parser.matching (n + 1) none) := by
  unfold Parser.matching
  refine finishes_peekKind_bind fun t => ?_
  split
  -- the `let` has been seen, and pays for itself
  · next ht => exact fun ts hfront hts => ih.declaration t ht ts hfront (by omega)
  · refine FinishesAt.bind ((ih.operators .or).later (Nat.le_refl 14)).at fun left => ?_
    refine finishes_accept_bind (by decide) ?_ finishesAt_pure
    exact FinishesAt.bind (ih.matching.later (by omega)) fun _ => finishesAt_pure

/-- The word at the front pays for the calls on the way to the value. -/
theorem Sufficient.succ_declaration (ih : Sufficient n) (t : Token)
    (ht : t.kind = .keyword .letWord) :
    FinishesAt (· = t) (n + 1) 13 1 (Parser.declaration (n + 1) none) := by
  unfold Parser.declaration
  refine finishesAt_advance_bind (by rw [ht]; decide) ?_
  refine finishes_expect_bind fun name => finishes_expect_bind fun _ => ?_
  exact FinishesAt.bind (ih.matching.later (by omega)) fun _ => finishesAt_pure

/-- A row calls the reader of its first operand. -/
theorem Sufficient.succ_operators (ih : Sufficient n) (level : Level) :
    Finishes (n + 1) (level.height + 3) 1 (Parser.operators (n + 1) level) := by
  unfold Parser.operators
  refine FinishesAt.bind ((ih.operand level).later (Nat.le_refl _)) fun first => ?_
  exact (ih.operations level first).later (by omega)

/-- The calls from one level to the next are counted by its height. -/
theorem Sufficient.succ_operand (ih : Sufficient n) (level : Level) :
    Finishes (n + 1) (level.height + 2) 1 (Parser.operand (n + 1) level) := by
  unfold Parser.operand
  cases level with
  | or => exact (ih.operators .and).later (Nat.le_refl 12)
  | and => exact ih.negation.later (Nat.le_refl 10)
  | comparison => exact (ih.operators .sum).later (Nat.le_refl 7)
  | sum => exact (ih.operators .product).later (Nat.le_refl 5)
  | product => exact ih.unary.later (Nat.le_refl 3)

/-- The operator pays for its right operand and for the way back. -/
theorem Sufficient.succ_operations (ih : Sufficient n) (level : Level) (left : Expr) :
    Finishes (n + 1) 1 0 (Parser.operations (n + 1) level left) := by
  have hheight : level.height ≤ 10 := by cases level <;> decide
  unfold Parser.operations
  refine finishes_peek_bind fun t => ?_
  split
  -- an operator takes its token, so both parts behind it have less to do
  · next hlevel =>
    refine finishesAt_advance_bind (kind_ne_eof_of_holds hlevel) ?_
    refine FinishesAt.bind (finishes_operator t) fun op => ?_
    refine FinishesAt.bind ((ih.operand level).later (by omega)) fun right => ?_
    exact (ih.operations level _).later (by omega)
  · exact finishesAt_pure

/-- A `not` pays for the next one; without it there is a comparison. -/
theorem Sufficient.succ_negation (ih : Sufficient n) :
    Finishes (n + 1) 9 1 (Parser.negation (n + 1)) := by
  unfold Parser.negation
  refine finishes_accept_bind (by decide) ?_ ((ih.operators .comparison).later (Nat.le_refl 9))
  exact FinishesAt.bind (ih.negation.later (by omega)) fun _ => finishesAt_pure

/-- A minus pays for the next one; a primary pays for its suffixes. -/
theorem Sufficient.succ_unary (ih : Sufficient n) :
    Finishes (n + 1) 2 1 (Parser.unary (n + 1)) := by
  unfold Parser.unary
  refine finishes_accept_bind (by decide) ?_ ?_
  · exact FinishesAt.bind (ih.unary.later (by omega)) fun _ => finishesAt_pure
  · exact FinishesAt.bind (ih.primary.later (by omega)) fun e => (ih.suffixes e).later (by omega)

/-- The token that opens a suffix pays for it and for those behind it. -/
theorem Sufficient.succ_suffixes (ih : Sufficient n) (e : Expr) :
    Finishes (n + 1) 1 0 (Parser.suffixes (n + 1) e) := by
  unfold Parser.suffixes
  refine finishes_accept_bind (by decide) ?_ (finishes_accept_bind (by decide) ?_
    (finishes_accept_bind (by decide) ?_ finishesAt_pure))
  · refine FinishesAt.bind ((ih.sequence _).later (by omega)) fun args => ?_
    exact finishes_expect_bind fun _ => (ih.suffixes _).later (by omega)
  · exact finishes_expect_bind fun _ => (ih.suffixes _).later (by omega)
  · refine FinishesAt.bind (ih.expression.later (by omega)) fun property => ?_
    exact finishes_expect_bind fun _ => (ih.suffixes _).later (by omega)

/-- An item, and the comma behind it, pay for the next item. -/
theorem Sufficient.succ_sequence (ih : Sufficient n) (close : TokenKind) :
    Finishes (n + 1) 16 0 (Parser.sequence (n + 1) close) := by
  unfold Parser.sequence
  refine finishes_peekKind_bind fun t => ?_
  split
  · exact finishesAt_pure
  · refine FinishesAt.bind (ih.expression.later (by omega)).at fun first => ?_
    refine finishes_accept_bind (by decide) ?_ finishesAt_pure
    exact FinishesAt.bind ((ih.sequence close).later (by omega)) fun _ => finishesAt_pure

/-- An entry pays for the next entry. -/
theorem Sufficient.succ_entries (ih : Sufficient n) :
    Finishes (n + 1) 17 0 (Parser.entries (n + 1)) := by
  unfold Parser.entries
  refine finishes_peekKind_bind fun t => ?_
  split
  · exact finishesAt_pure
  · refine FinishesAt.bind (ih.mapKey.later (by omega)).at fun key => ?_
    refine FinishesAt.bind (ih.expression.later (by omega)) fun value => ?_
    refine finishes_accept_bind (by decide) ?_ finishesAt_pure
    exact FinishesAt.bind (ih.entries.later (by omega)) fun _ => finishesAt_pure

/-- The key of an entry: a name and a colon, or an expression and an arrow. -/
theorem Sufficient.succ_mapKey (ih : Sufficient n) :
    Finishes (n + 1) 16 1 (Parser.mapKey (n + 1)) := by
  intro ts _ hts
  -- the name and the colon are taken without a call
  by_cases hname : (front ts).kind = .identifier ∧ (front ts.tail).kind = .colon
  · match ts, hname with
    | t :: u :: us, ⟨ht, hu⟩ =>
      have hpos := tokenWeight_pos t
      rw [mapKey_of_name (t := t) (u := u) ht hu]
      change weight us + 1 ≤ weight (t :: u :: us)
      rw [weight_cons, weight_cons]
      omega
  · rw [mapKey_of_not hname]
    have harrow : Finishes (n + 1) 16 1
        (do let key ← Parser.expression n; let _ ← expect .keyArrow; return key) := by
      refine FinishesAt.bind (ih.expression.later (by omega)) fun key => ?_
      exact finishes_expect_bind fun _ => finishesAt_pure
    exact harrow ts trivial hts

/-- A primary takes the token that it is known by, which pays for what is inside. -/
theorem Sufficient.succ_primary (ih : Sufficient n) :
    Finishes (n + 1) 1 1 (Parser.primary (n + 1)) := by
  unfold Parser.primary
  refine finishes_peekKind_bind fun t => ?_
  split
  · next ht => exact finishesAt_advance_bind (by rw [ht]; decide) finishesAt_pure
  · next ht => exact finishesAt_advance_bind (by rw [ht]; decide) finishesAt_pure
  · next ht => exact finishesAt_advance_bind (by rw [ht]; decide) finishesAt_pure
  · next ht =>
    -- the body pays for the texts in its markers
    refine finishesAt_take (by rw [ht]; decide) (finishes_of_le fun hle => ?_)
    have hweight : tokenWeight t = t.text.length + 1 := if_pos ht
    split
    · exact finishesAt_fail
    · next inners hinners =>
      have hinners' := markerWeight_le hinners
      have hholes : Finishes (n + 1) (1 + 18 * tokenWeight t) 0
          (Parser.holes n t.position inners) :=
        fun ts _ _ => ih.holes t.position inners ts (by omega)
      exact FinishesAt.bind hholes fun _ => finishesAt_pure
  · next ht =>
    refine finishesAt_advance_bind (by rw [ht]; decide) ?_
    refine FinishesAt.bind (ih.expression.later (by omega)) fun e => ?_
    exact finishes_expect_bind fun _ => finishesAt_pure
  · next ht =>
    refine finishesAt_advance_bind (by rw [ht]; decide) ?_
    refine FinishesAt.bind ((ih.sequence _).later (by omega)) fun items => ?_
    exact finishes_expect_bind fun _ => finishesAt_pure
  · next ht =>
    refine finishesAt_advance_bind (by rw [ht]; decide) ?_
    refine FinishesAt.bind ((ih.sequence _).later (by omega)) fun items => ?_
    exact finishes_expect_bind fun _ => finishesAt_pure
  · next ht =>
    refine finishesAt_advance_bind (by rw [ht]; decide) ?_
    refine FinishesAt.bind (ih.entries.later (by omega)) fun es => ?_
    exact finishes_expect_bind fun _ => finishesAt_pure
  · next ht =>
    -- the parameters stand in parentheses or not; what follows them is the same
    have hbody (params : List String) {k : Nat} (hk : 17 ≤ k) : Finishes (n + 1) k 0 (do
        let _ ← expect .lambdaArrow
        let body ← Parser.expression n
        let _ ← expect .endOfLambda
        return Expr.lambda params body) := by
      refine finishes_expect_bind fun _ => ?_
      refine FinishesAt.bind (ih.expression.later (by omega)) fun body => ?_
      exact finishes_expect_bind fun _ => finishesAt_pure
    refine finishesAt_advance_bind (by rw [ht]; decide) (finishes_accept_bind (by decide) ?_ ?_)
    · refine FinishesAt.bind (finishes_parameters _) fun params => ?_
      exact finishes_expect_bind fun _ => hbody params (by omega)
    · exact FinishesAt.bind (finishes_parameters _) fun params => hbody params (by omega)
  · exact finishesAt_refuse

/-- What a marker encloses is a text of its own, shorter than the marker. -/
theorem Sufficient.succ_holes (ih : Sufficient n) (p : Position) (inners : List String)
    (ts : List Token) (hn : 18 * markerWeight inners + 1 ≤ n + 1) :
    Parsed.Finished (weight ts) 0 (Parser.holes (n + 1) p inners ts) := by
  cases inners with
  | nil =>
    unfold Parser.holes
    exact Nat.le_refl (weight ts)
  | cons inner inners =>
    have hsum : markerWeight (inner :: inners) = inner.length + 3 + markerWeight inners :=
      List.sum_cons
    unfold Parser.holes
    cases hown : tokenize (unescape inner) with
    | error e => trivial
    | ok own =>
      have hweight := weight_le_of_tokenize hown
      have hlength : (unescape inner).length ≤ inner.length := by
        unfold unescape
        rw [String.length_ofList, ← String.length_toList]
        exact length_unescapeList_le inner.toList
      -- the marker around the text is what pays for its end and for the calls to come to it
      have hread := ih.statements own trivial (by omega)
      have hwithin : Finishes (18 * weight ts) 0 0 (within own (Parser.statements n)) :=
        finishes_within hread
      have hrest : Finishes (18 * weight ts) (0 + 18 * 0) 0 (Parser.holes n p inners) :=
        fun us _ _ => ih.holes p inners us (by omega)
      change Parsed.Finished _ _ ((within own _ >>= _) ts)
      refine FinishesAt.bind hwithin (fun stmts => ?_) ts trivial (Nat.le_refl _)
      split
      · exact FinishesAt.bind hrest fun _ => finishesAt_pure
      · exact finishesAt_fail

/-- Without budget nothing is left to rely on. -/
theorem Sufficient.zero : Sufficient 0 where
  statement _ _ h := absurd h (by omega)
  block _ _ _ h := absurd h (by omega)
  clauses _ _ h := absurd h (by omega)
  expression _ _ h := absurd h (by omega)
  matching _ _ h := absurd h (by omega)
  declaration _ _ _ _ h := absurd h (by omega)
  operators _ _ _ h := absurd h (by omega)
  operand _ _ _ h := absurd h (by omega)
  operations _ _ _ _ h := absurd h (by omega)
  negation _ _ h := absurd h (by omega)
  unary _ _ h := absurd h (by omega)
  suffixes _ _ _ h := absurd h (by omega)
  sequence _ _ _ h := absurd h (by omega)
  entries _ _ h := absurd h (by omega)
  mapKey _ _ h := absurd h (by omega)
  primary _ _ h := absurd h (by omega)
  holes _ _ _ h := absurd h (by omega)
  statements _ _ h := absurd h (by omega)

/-- **The budget suffices for every reader**, by induction on it. -/
theorem sufficient (n : Nat) : Sufficient n := by
  induction n with
  | zero => exact .zero
  | succ n ih =>
    exact
      { statement := ih.succ_statement
        block := ih.succ_block
        clauses := ih.succ_clauses
        expression := ih.succ_expression
        matching := ih.succ_matching
        declaration := ih.succ_declaration
        operators := ih.succ_operators
        operand := ih.succ_operand
        operations := ih.succ_operations
        negation := ih.succ_negation
        unary := ih.succ_unary
        suffixes := ih.succ_suffixes
        sequence := ih.succ_sequence
        entries := ih.succ_entries
        mapKey := ih.succ_mapKey
        primary := ih.succ_primary
        holes := ih.succ_holes
        statements := ih.succ_statements }

/-- **A text is read or refused** with the budget that its length gives, and with any larger one. -/
theorem statements_finished {source : String} {ts : List Token} {n : Nat}
    (hts : tokenize source = .ok ts) (hn : budget source.length ≤ n) :
    Parsed.Finished (weight ts) 0 (Parser.statements n ts) := by
  have hweight := weight_le_of_tokenize hts
  unfold budget at hn
  exact (sufficient n).statements ts trivial (by omega)

end Parser

end AtomScript

import AtomScript.Proofs.Program.Progress
import AtomScript.Proofs.Token.Spaced

/-!
# What reading does not depend on

The lexer makes a minus an operator when it stands behind a numeral, and a sign otherwise.  The
readers take a sign where an operand or an operator may stand, but an operator in the second place
only, so it has to be shown that they never look for an operand just behind a numeral.  That is
what the two marks of `Agrees b c x y` keep track of: they say whether a numeral may stand before
the tokens at hand, when the reader starts and when it is done.  Only behind an operand of a product
or a sum, and before the operations of these levels, is that so.

The same relation, on two copies of one list, shows that an answer does not depend on the budget.

* `Parser.indifferent` — the readers on lists that differ in their minuses, with any two budgets;
* `Program.parse_of_answer` — an answer with any budget is the answer;
* `Program.parse_blurred` — the kind of a minus does not matter;
* `Program.parse_of_alike` — nor does anything that stands between the tokens.
-/

namespace AtomScript

/-- The token, with the kind of a sign if it is a minus. -/
def Token.blurred (t : Token) : Token :=
  if t.kind = .binaryOperator ∧ t.text = "-" then { t with kind := .minus } else t

/-- What reading came to, unless the budget was spent or the host's stack ran over. -/
def Parsed.answer? {α : Type} : Parsed α → Option (Except Error α)
  | .done a _ => some (.ok a)
  | .refused e => some (.error e)
  | .exhausted | .overflowed => none

namespace Parser

/-! ### Lists that differ in their minuses -/

/-- The lists differ only in minuses just behind numerals, which are operators in the first list and
signs in the second.  The mark says whether a numeral stands before the lists. -/
inductive Blurred : Bool → List Token → List Token → Prop where
  | nil {b : Bool} : Blurred b [] []
  | same {b : Bool} {t : Token} {ts us : List Token} :
    Blurred (t.kind == .number) ts us → Blurred b (t :: ts) (t :: us)
  | minus {t : Token} {ts us : List Token} : t.kind = .binaryOperator → t.text = "-" →
    Blurred false ts us → Blurred true (t :: ts) ({ t with kind := .minus } :: us)

variable {b c d : Bool} {ts us : List Token}

/-- Every row of tokens is a blurred form of itself. -/
theorem Blurred.refl (b : Bool) (ts : List Token) : Blurred b ts ts := by
  induction ts generalizing b with
  | nil => exact .nil
  | cons t ts ih => exact .same (ih _)

/-- The lists are alike where no numeral stands before them, and so anywhere. -/
theorem Blurred.anywhere (h : Blurred false ts us) : Blurred b ts us := by
  cases h with
  | nil => exact .nil
  | same h => exact .same h

/-- At a place where no sign can stand, both rows show the parser the same token. -/
theorem Blurred.front_eq (h : Blurred false ts us) : front us = front ts := by
  cases h with
  | nil => rfl
  | same _ => rfl

/-- Blurring every token of a lexed text is a blurring in the sense of `Blurred`. -/
theorem blurred_of_signed (h : Lexer.Signed b ts) : Blurred b ts (ts.map Token.blurred) := by
  induction h with
  | nil => exact .nil
  | @cons b t ts ht _ ih =>
    rw [List.map_cons]
    -- only a minus that stands behind an operand is changed, and `Signed` says that it does
    by_cases hminus : t.kind = .binaryOperator ∧ t.text = "-"
    · obtain ⟨hkind, htext⟩ := hminus
      have hb : b = true := ht.operator hkind htext
      subst hb
      rw [hkind] at ih
      rw [Token.blurred, if_pos ⟨hkind, htext⟩]
      exact .minus hkind htext ih
    · rw [Token.blurred, if_neg hminus]
      exact .same ih

variable {α β : Type}

/-- The second ending is the first one, unless that one is for want of budget or stack. -/
def Parsed.Agrees (c : Bool) : Parsed α → Parsed α → Prop
  | .done a rest, y => ∃ rest', y = .done a rest' ∧ Blurred c rest rest'
  | .refused e, y => y = .refused e
  | .exhausted, _ | .overflowed, _ => True

/-- Of two agreeing parses, the second has every answer the first has. -/
theorem Parsed.Agrees.answer {x y : Parsed α} {r : Except Error α}
    (h : Parsed.Agrees c x y) (hx : x.answer? = some r) : y.answer? = some r := by
  cases x with
  | done a rest =>
    obtain ⟨rest', rfl, -⟩ := h
    exact hx
  | refused e =>
    obtain rfl : y = .refused e := h
    exact hx
  | exhausted => cases hx
  | overflowed => cases hx

/-- On lists that differ in their minuses, of which the first starts with a token that satisfies
`P`, the readers agree. -/
def AgreesAt (P : Token → Prop) (b c : Bool) (x y : Parser α) : Prop :=
  ∀ ts us, Blurred b ts us → P (front ts) → Parsed.Agrees c (x ts) (y us)

/-- On lists that differ in their minuses the readers agree. -/
def Agrees (b c : Bool) (x y : Parser α) : Prop := AgreesAt (fun _ => True) b c x y

variable {P : Token → Prop} {x y : Parser α} {f g : α → Parser β}

/-- Agreement at every token is agreement at the tokens a guard selects. -/
theorem Agrees.at (h : Agrees b c x y) : AgreesAt P b c x y :=
  fun ts us hblurred _ => h ts us hblurred trivial

/-- A reader that leaves no numeral before the tokens may be used as if it did. -/
theorem AgreesAt.anywhere (h : AgreesAt P b false x y) : AgreesAt P b c x y := by
  intro ts us hblurred hP
  have hagrees := h ts us hblurred hP
  cases hx : x ts with
  | done a rest =>
    rw [hx] at hagrees
    obtain ⟨rest', hy, hrest⟩ := hagrees
    exact ⟨rest', hy, hrest.anywhere⟩
  | refused e =>
    rw [hx] at hagrees
    exact hagrees
  | exhausted => trivial
  | overflowed => trivial

/-! ### Putting readers together -/

/-- Giving a value without reading agrees with itself. -/
theorem agreesAt_pure {a : α} : AgreesAt P b b (pure a) (pure a) :=
  fun _ us hblurred _ => ⟨us, rfl, hblurred⟩

/-- Refusing without reading agrees with itself. -/
theorem agreesAt_fail {e : Error} : AgreesAt P b c (fail e : Parser α) (fail e) :=
  fun _ _ _ _ => rfl

/-- A parser whose budget is spent agrees with every parser. -/
theorem agreesAt_exhausted : AgreesAt P b c exhausted y :=
  fun _ _ _ _ => trivial

/-- A refusal names the front token, which must not be a minus behind a numeral. -/
theorem agreesAt_refuse {wanted : Expectation} :
    AgreesAt P false c (refuse wanted : Parser α) (refuse wanted) := by
  intro ts us hblurred _
  change (Parsed.refused _ : Parsed α) = Parsed.refused (.unexpected wanted (front ts))
  rw [← hblurred.front_eq]
  rfl

/-- **One after the other.** -/
theorem AgreesAt.bind (hx : AgreesAt P b d x y) (hf : ∀ a, Agrees d c (f a) (g a)) :
    AgreesAt P b c (x >>= f) (y >>= g) := by
  intro ts us hblurred hP
  have hagrees := hx ts us hblurred hP
  change Parsed.Agrees c (Parser.bind x f ts) (Parser.bind y g us)
  unfold Parser.bind
  cases h : x ts with
  | done a rest =>
    rw [h] at hagrees
    -- the rest of the tokens is blurred again, so the second half meets related rows
    obtain ⟨rest', hy, hrest⟩ := hagrees
    rw [hy]
    exact hf a rest rest' hrest trivial
  | refused e =>
    rw [h] at hagrees
    have hy : y us = .refused e := hagrees
    rw [hy]
    exact rfl
  | exhausted => trivial
  | overflowed => trivial

/-! ### The front token -/

/-- Looking at the next token before going on, which both rows show alike. -/
theorem agrees_peekKind_bind {g g' : TokenKind → Parser β}
    (h : ∀ t, AgreesAt (· = t) false c (g t.kind) (g' t.kind)) :
    Agrees false c (peekKind >>= g) (peekKind >>= g') := by
  intro ts us hblurred _
  have hagrees := h (front ts) ts us hblurred rfl
  rw [peekKind_bind, peekKind_bind, hblurred.front_eq]
  exact hagrees

/-- The front token has been looked at, and is now taken. -/
theorem agreesAt_take {t : Token} {g g' : Token → Parser β} (ht : t.kind ≠ .eof)
    (h : Agrees (t.kind == .number) c (g t) (g' t)) :
    AgreesAt (· = t) false c (advance >>= g) (advance >>= g') := by
  intro ts us hblurred hfront
  cases hblurred with
  | nil => exact absurd (congrArg Token.kind hfront.symm) ht
  | same hrest =>
    obtain rfl : _ = t := hfront
    exact h _ _ hrest trivial

/-- Reading a token that is neither the end nor a numeral before going on. -/
theorem agreesAt_advance_bind {t : Token} {kind : TokenKind} {g g' : Token → Parser β}
    (ht : t.kind = kind) (hkind : kind ≠ .eof ∧ kind ≠ .number) (h : Agrees false c (g t) (g' t)) :
    AgreesAt (· = t) false c (advance >>= g) (advance >>= g') := by
  subst ht
  refine agreesAt_take hkind.1 ?_
  rw [beq_false_of_ne hkind.2]
  exact h

/-- What follows depends on whether the front token was taken.  A minus may be either kind of
minus, so it must not be asked for behind a numeral. -/
theorem agrees_accept_bind {kind : TokenKind} {g g' : Bool → Parser β}
    (hkind : kind ≠ .eof ∧ kind ≠ .number)
    (hminus : b = true → kind ≠ .binaryOperator ∧ kind ≠ .minus)
    (htrue : Agrees false c (g true) (g' true)) (hfalse : Agrees b c (g false) (g' false)) :
    Agrees b c (accept kind >>= g) (accept kind >>= g') := by
  intro ts us hblurred _
  -- where neither list starts with the kind, both are left as they are
  have hnot : ∀ {t u : Token} {ts us : List Token}, t.kind ≠ kind → u.kind ≠ kind →
      Blurred b (t :: ts) (u :: us) →
      Parsed.Agrees c ((accept kind >>= g) (t :: ts)) ((accept kind >>= g') (u :: us)) := by
    intro t u ts us ht hu hblurred
    have hts : (accept kind >>= g) (t :: ts) = g false (t :: ts) := accept_bind_of_ne ht
    have hus : (accept kind >>= g') (u :: us) = g' false (u :: us) := accept_bind_of_ne hu
    rw [hts, hus]
    exact hfalse _ _ hblurred trivial
  cases hblurred with
  | nil =>
    have hend : ∀ f : Bool → Parser β, (accept kind >>= f) [] = f false [] :=
      fun _ => accept_bind_of_ne hkind.1.symm
    rw [hend, hend]
    exact hfalse [] [] .nil trivial
  | @same _ t ts us hrest =>
    by_cases ht : t.kind = kind
    · rw [accept_bind_of_eq ht, accept_bind_of_eq ht]
      rw [ht, beq_false_of_ne hkind.2] at hrest
      exact htrue ts us hrest trivial
    · exact hnot ht ht (.same hrest)
  | minus hoperator htext hrest =>
    obtain ⟨hne, hne'⟩ := hminus rfl
    exact hnot (hoperator ▸ hne.symm) hne'.symm (.minus hoperator htext hrest)

/-- No expectation of the grammar asks for a numeral. -/
theorem Expectation.kind?_ne_number (wanted : Expectation) : wanted.kind? ≠ some .number := by
  cases wanted <;> decide

/-- Demanding a token before going on: both rows meet the demand or neither does. -/
theorem agrees_expect_bind {wanted : Expectation} {g g' : Token → Parser β}
    (h : ∀ t, Agrees false c (g t) (g' t)) :
    Agrees false c (expect wanted >>= g) (expect wanted >>= g') := by
  intro ts us hblurred _
  by_cases hfront : some (front ts).kind = wanted.kind?
  · cases hblurred with
    | nil => exact absurd hfront.symm (Expectation.kind?_ne_eof wanted)
    | @same _ t ts us hrest =>
      have hfront : some t.kind = wanted.kind? := hfront
      -- a demanded token is no number, so the sign behind it is read in the same way on both sides
      have ht : t.kind ≠ .number := fun ht =>
        Expectation.kind?_ne_number wanted (by rw [← hfront, ht])
      rw [expect_bind_of_eq hfront, expect_bind_of_eq hfront]
      rw [beq_false_of_ne ht] at hrest
      exact h t ts us hrest trivial
  -- both sides refuse, and blame the same token: blurring changes no front
  · have hfront' : some (front us).kind ≠ wanted.kind? := by rwa [hblurred.front_eq]
    change Parsed.Agrees c (Parser.bind (expect wanted) g ts) (Parser.bind (expect wanted) g' us)
    unfold Parser.bind
    rw [expect_of_ne hfront, expect_of_ne hfront']
    change (Parsed.refused _ : Parsed β) = Parsed.refused (.unexpected wanted (front ts))
    rw [← hblurred.front_eq]
    rfl

/-! ### Readers without recursion -/

/-- Behind the separators the rows are related as before. -/
theorem Blurred.behindSeparators (h : Blurred false ts us) :
    Blurred false (behindSeparators ts) (behindSeparators us) := by
  induction ts generalizing us with
  | nil =>
    cases h
    exact .nil
  | cons t ts ih =>
    cases h with
    | @same _ _ _ us hrest =>
    by_cases ht : t.kind = .semicolon
    -- a separator is no number either, so what stands behind it is blurred alike
    · have hskip : ∀ vs, Parser.behindSeparators (t :: vs) = Parser.behindSeparators vs :=
        fun vs => List.dropWhile_cons_of_pos (by simp [ht])
      rw [ht] at hrest
      rw [hskip, hskip]
      exact ih hrest
    · have hstay : ∀ vs, Parser.behindSeparators (t :: vs) = t :: vs :=
        fun vs => List.dropWhile_cons_of_neg (by simp [ht])
      rw [hstay, hstay]
      exact .same hrest

/-- Skipping separators agrees with itself. -/
theorem agrees_skipSeparators : Agrees false false skipSeparators skipSeparators :=
  fun _ _ hblurred _ => ⟨_, rfl, hblurred.behindSeparators⟩

section Parameters

variable {close : TokenKind} {t : Token} (hclose : t.kind ≠ close) (hname : t.kind = .identifier)
include hclose hname

/-- The last name of a list of parameters. -/
theorem parameters_last (us : List Token) (hus : (front us).kind ≠ .comma) :
    parameters close (t :: us) = .done [t.text] us := by
  unfold parameters
  rw [if_neg hclose, if_pos hname]
  cases us with
  | nil => rfl
  | cons u us => exact if_neg hus

/-- A name with a comma behind it. -/
theorem parameters_comma {comma : Token} (us : List Token) (hcomma : comma.kind = .comma) :
    parameters close (t :: comma :: us) =
      (parameters close >>= fun names => pure (t.text :: names)) us := by
  unfold parameters
  rw [if_neg hclose, if_pos hname]
  simp only [if_pos hcomma]
  change _ = Parser.bind (parameters close) _ us
  unfold Parser.bind
  cases parameters close us <;> rfl

end Parameters

/-- Names and commas are no numerals. -/
theorem agrees_parameters (close : TokenKind) :
    Agrees false false (parameters close) (parameters close) := by
  intro ts us hblurred _
  fun_induction parameters close ts generalizing us with
  | case1 =>
    cases hblurred
    rfl
  | case2 t ts ht =>
    cases hblurred with
    | @same _ _ _ us hrest =>
      refine ⟨t :: us, ?_, .same hrest⟩
      unfold parameters
      rw [if_pos ht]
  | case3 t ht hkind =>
    cases hblurred with
    | same hrest =>
      rw [hkind] at hrest
      cases hrest
      exact ⟨[], parameters_last ht hkind [] (by decide), .nil⟩
  | case4 t ht hkind comma ts hkind' names rest heq ih =>
    cases hblurred with
    | same hrest =>
    rw [hkind] at hrest
    cases hrest with
    | @same _ _ _ us hrest =>
      rw [hkind'] at hrest
      have hagrees := ih us hrest
      rw [heq] at hagrees
      obtain ⟨rest', hdone, hleft⟩ := hagrees
      refine ⟨rest', ?_, hleft⟩
      rw [parameters_comma ht hkind us hkind', bind_of_done hdone]
      rfl
  | case5 t ht hkind comma ts hkind' e heq ih =>
    cases hblurred with
    | same hrest =>
    rw [hkind] at hrest
    cases hrest with
    | @same _ _ _ us hrest =>
      rw [hkind'] at hrest
      have hagrees := ih us hrest
      rw [heq] at hagrees
      have hrefused : parameters close us = .refused e := hagrees
      change parameters close (t :: comma :: us) = .refused e
      rw [parameters_comma ht hkind us hkind']
      change Parser.bind (parameters close) _ us = _
      unfold Parser.bind
      rw [hrefused]
  | case6 => trivial
  | case7 => trivial
  | case8 t ht hkind u ts hkind' =>
    cases hblurred with
    | same hrest =>
    rw [hkind] at hrest
    cases hrest with
    | @same _ _ _ us hrest =>
      exact ⟨u :: us, parameters_last ht hkind (u :: us) hkind', .same hrest⟩
  | case9 t ts ht hkind =>
    cases hblurred with
    | @same _ _ _ us _ =>
      change parameters close (t :: us) = .refused (.unexpected .parameter t)
      unfold parameters
      rw [if_neg ht, if_neg hkind]

/-- Naming the operator of a token reads nothing further, and agrees with itself. -/
theorem agrees_operator (t : Token) : Agrees b b (operator t) (operator t) := by
  unfold operator
  split
  · exact agreesAt_pure
  · exact agreesAt_fail

/-- A text of its own has tokens of its own, which are the same for both. -/
theorem agrees_within {own : List Token} (h : Parsed.Agrees c (x own) (y own)) :
    Agrees b b (within own x) (within own y) := by
  intro ts us hblurred _
  unfold within
  cases hx : x own with
  -- what is left of the inner tokens is dropped, and the outer ones are untouched
  | done a rest =>
    rw [hx] at h
    obtain ⟨rest', hy, -⟩ := h
    rw [hy]
    exact ⟨us, rfl, hblurred⟩
  | refused e =>
    rw [hx] at h
    have hy : y own = .refused e := h
    rw [hy]
    exact rfl
  | exhausted => trivial
  | overflowed => trivial

/-! ### The readers of the grammar -/

/-- An operand of the level may end with a numeral behind which a minus is left. -/
def Level.loose : Level → Bool
  | product | sum => true
  | comparison | and | or => false

/-- With a budget `m` for `n`, the readers agree with themselves.  A numeral may stand before the
tokens at hand behind an operand of a product or a sum; the operations of a sum leave no minus. -/
structure Indifferent (n m : Nat) : Prop where
  statement : Agrees false false (statement n) (statement m)
  block : ∀ inConditional, Agrees false false (block n inConditional) (block m inConditional)
  clauses : Agrees false false (clauses n) (clauses m)
  expression : Agrees false false (expression n) (expression m)
  matching : Agrees false false (matching n none) (matching m none)
  declaration : ∀ t : Token, t.kind = .keyword .letWord →
    AgreesAt (· = t) false false (declaration n none) (declaration m none)
  operators : ∀ level, Agrees false (level == .product) (operators n level) (operators m level)
  operand : ∀ level, Agrees false level.loose (operand n level) (operand m level)
  operations : ∀ level left,
    Agrees level.loose (level == .product) (operations n level left) (operations m level left)
  negation : Agrees false false (negation n) (negation m)
  unary : Agrees false true (unary n) (unary m)
  suffixes : ∀ e, Agrees true true (suffixes n e) (suffixes m e)
  sequence : ∀ close, Agrees false false (sequence n close) (sequence m close)
  entries : Agrees false false (entries n) (entries m)
  mapKey : Agrees false false (mapKey n) (mapKey m)
  primary : Agrees false true (primary n) (primary m)
  holes : ∀ p inners, Agrees false false (holes n p inners) (holes m p inners)
  statements : Agrees false false (statements n) (statements m)

variable {n m : Nat}

/-- A statement, from agreement with one unit of budget less. -/
theorem Indifferent.succ_statement (ih : Indifferent n m) :
    Agrees false false (Parser.statement (n + 1)) (Parser.statement (m + 1)) := by
  unfold Parser.statement
  refine agrees_peekKind_bind fun t => ?_
  split
  · next ht =>
    refine agreesAt_advance_bind ht (by decide) ?_
    refine AgreesAt.bind ih.expression fun condition => ?_
    refine agrees_expect_bind fun _ => ?_
    refine AgreesAt.bind (ih.block true) fun body => ?_
    exact AgreesAt.bind ih.clauses fun _ => agreesAt_pure
  · next ht =>
    refine agreesAt_advance_bind ht (by decide) ?_
    refine agrees_expect_bind fun name => agrees_expect_bind fun _ => ?_
    refine AgreesAt.bind (agrees_parameters _) fun params => ?_
    refine agrees_expect_bind fun _ => agrees_expect_bind fun _ => ?_
    refine AgreesAt.bind (ih.block false) fun body => ?_
    exact agrees_expect_bind fun _ => agreesAt_pure
  · next ht =>
    refine agreesAt_advance_bind ht (by decide) (agrees_peekKind_bind fun u => ?_)
    split
    · exact agreesAt_pure
    · exact AgreesAt.bind ih.expression.at fun _ => agreesAt_pure
  · next ht =>
    refine agreesAt_advance_bind ht (by decide) ?_
    refine AgreesAt.bind ih.expression fun condition => ?_
    refine agrees_expect_bind fun _ => ?_
    refine AgreesAt.bind (ih.block false) fun body => ?_
    exact agrees_expect_bind fun _ => agreesAt_pure
  · next ht => exact agreesAt_advance_bind ht (by decide) agreesAt_pure
  · next ht => exact agreesAt_advance_bind ht (by decide) agreesAt_pure
  · exact AgreesAt.bind ih.expression.at fun _ => agreesAt_pure

/-- The body of a block, from agreement with one unit of budget less. -/
theorem Indifferent.succ_block (ih : Indifferent n m) (inConditional : Bool) :
    Agrees false false (Parser.block (n + 1) inConditional)
      (Parser.block (m + 1) inConditional) := by
  unfold Parser.block
  refine AgreesAt.bind agrees_skipSeparators fun _ => agrees_peekKind_bind fun t => ?_
  split
  · exact agreesAt_pure
  · split
    · exact agreesAt_refuse
    · refine AgreesAt.bind ih.statement.at fun first => ?_
      exact AgreesAt.bind (ih.block inConditional) fun _ => agreesAt_pure

/-- A row of statements, from agreement with one unit of budget less. -/
theorem Indifferent.succ_statements (ih : Indifferent n m) :
    Agrees false false (Parser.statements (n + 1)) (Parser.statements (m + 1)) := by
  unfold Parser.statements
  refine AgreesAt.bind agrees_skipSeparators fun _ => agrees_peekKind_bind fun t => ?_
  split
  · exact agreesAt_pure
  · refine AgreesAt.bind ih.statement.at fun first => ?_
    exact AgreesAt.bind ih.statements fun _ => agreesAt_pure

/-- The later clauses of a conditional, from agreement with one unit of budget less. -/
theorem Indifferent.succ_clauses (ih : Indifferent n m) :
    Agrees false false (Parser.clauses (n + 1)) (Parser.clauses (m + 1)) := by
  unfold Parser.clauses
  refine agrees_accept_bind (by decide) (by decide) ?_
    (agrees_accept_bind (by decide) (by decide) ?_ ?_)
  · refine AgreesAt.bind ih.expression fun condition => ?_
    refine agrees_expect_bind fun _ => ?_
    refine AgreesAt.bind (ih.block true) fun body => ?_
    exact AgreesAt.bind ih.clauses fun _ => agreesAt_pure
  · have hbody : Agrees false false
        (do let body ← Parser.block n false
            let _ ← expect .endOfIf
            return [Clause.mk none body true])
        (do let body ← Parser.block m false
            let _ ← expect .endOfIf
            return [Clause.mk none body true]) := by
      refine AgreesAt.bind (ih.block false) fun body => ?_
      exact agrees_expect_bind fun _ => agreesAt_pure
    -- the word before the body may be left out
    exact agrees_accept_bind (by decide) (by decide) hbody hbody
  · exact agrees_expect_bind fun _ => agreesAt_pure

/-- An expression, from agreement with one unit of budget less. -/
theorem Indifferent.succ_expression (ih : Indifferent n m) :
    Agrees false false (Parser.expression (n + 1)) (Parser.expression (m + 1)) := by
  unfold Parser.expression
  exact ih.matching

/-- An assignment or a declaration, from agreement with one unit of budget less. -/
theorem Indifferent.succ_matching (ih : Indifferent n m) :
    Agrees false false (Parser.matching (n + 1) none) (Parser.matching (m + 1) none) := by
  unfold Parser.matching
  refine agrees_peekKind_bind fun t => ?_
  split
  · next ht => exact ih.declaration t ht
  · refine AgreesAt.bind (ih.operators .or).at fun left => ?_
    refine agrees_accept_bind (by decide) (by decide) ?_ agreesAt_pure
    exact AgreesAt.bind ih.matching fun _ => agreesAt_pure

/-- A declaration behind its word, from agreement with one unit of budget less. -/
theorem Indifferent.succ_declaration (ih : Indifferent n m) (t : Token)
    (ht : t.kind = .keyword .letWord) :
    AgreesAt (· = t) false false (Parser.declaration (n + 1) none)
      (Parser.declaration (m + 1) none) := by
  unfold Parser.declaration
  refine agreesAt_advance_bind ht (by decide) ?_
  refine agrees_expect_bind fun name => agrees_expect_bind fun _ => ?_
  exact AgreesAt.bind ih.matching fun _ => agreesAt_pure

/-- A level of operators. Only the level of products ends behind an operand, where a numeral may
have been read last. -/
theorem Indifferent.succ_operators (ih : Indifferent n m) (level : Level) :
    Agrees false (level == .product) (Parser.operators (n + 1) level)
      (Parser.operators (m + 1) level) := by
  unfold Parser.operators
  exact AgreesAt.bind (ih.operand level) fun first => ih.operations level first

/-- The operand of a level is the next tighter level. -/
theorem Indifferent.succ_operand (ih : Indifferent n m) (level : Level) :
    Agrees false level.loose (Parser.operand (n + 1) level) (Parser.operand (m + 1) level) := by
  unfold Parser.operand
  cases level with
  | or => exact ih.operators .and
  | and => exact ih.negation
  | comparison => exact ih.operators .sum
  | sum => exact ih.operators .product
  | product => exact ih.unary

/-- A minus behind a numeral is no operator of a product, whichever kind it has, and an operator of
a sum with either kind. -/
theorem Indifferent.succ_operations (ih : Indifferent n m) (level : Level) (left : Expr) :
    Agrees level.loose (level == .product) (Parser.operations (n + 1) level left)
      (Parser.operations (m + 1) level left) := by
  have hnext : ∀ t, Agrees false (level == .product)
      (do let op ← operator t
          let right ← Parser.operand n level
          Parser.operations n level (.binary op left right))
      (do let op ← operator t
          let right ← Parser.operand m level
          Parser.operations m level (.binary op left right)) := by
    intro t
    refine AgreesAt.bind (agrees_operator t) fun op => ?_
    exact AgreesAt.bind (ih.operand level) fun right => ih.operations level _
  intro ts us hblurred _
  unfold Parser.operations
  generalize hb : level.loose = b at hblurred
  cases hblurred with
  | nil =>
    have hend : level.holds (.endOfInput .nowhere) = false := by cases level <;> rfl
    change Parsed.Agrees _ ((if level.holds (.endOfInput .nowhere) then _ else _ : Parser Expr) [])
      ((if level.holds (.endOfInput .nowhere) then _ else _ : Parser Expr) [])
    rw [hend]
    exact ⟨[], rfl, .nil⟩
  | @same _ t ts us hrest =>
    change Parsed.Agrees _ ((if level.holds t then _ else _ : Parser Expr) (t :: ts))
      ((if level.holds t then _ else _ : Parser Expr) (t :: us))
    by_cases hholds : level.holds t = true
    · have ht : t.kind ≠ .number := by
        intro ht
        unfold Level.holds at hholds
        rw [ht] at hholds
        cases level <;> cases hholds
      rw [beq_false_of_ne ht] at hrest
      rw [if_pos hholds, if_pos hholds]
      exact hnext t ts us hrest trivial
    · rw [if_neg hholds, if_neg hholds]
      exact ⟨t :: us, rfl, .same hrest⟩
  | @minus t ts us hkind htext hrest =>
    change Parsed.Agrees _ ((if level.holds t then _ else _ : Parser Expr) (t :: ts))
      ((if level.holds { t with kind := .minus } then _ else _ : Parser Expr) _)
    cases level with
    | product =>
      -- the minus is left to the sum around the product, which takes either kind
      have hholds : Level.product.holds t = false := by simp [Level.holds, htext]
      rw [hholds]
      exact ⟨_, rfl, .minus hkind htext hrest⟩
    | sum =>
      have hholds : Level.sum.holds t = true := by simp [Level.holds, hkind, htext]
      rw [hholds]
      exact hnext t ts us hrest trivial
    | comparison | and | or => cases hb

/-- A negation, from agreement with one unit of budget less. -/
theorem Indifferent.succ_negation (ih : Indifferent n m) :
    Agrees false false (Parser.negation (n + 1)) (Parser.negation (m + 1)) := by
  unfold Parser.negation
  refine agrees_accept_bind (by decide) (by decide) ?_ (ih.operators .comparison)
  exact AgreesAt.bind ih.negation fun _ => agreesAt_pure

/-- No numeral stands before an operand, so a minus there is a sign in both lists or in neither. -/
theorem Indifferent.succ_unary (ih : Indifferent n m) :
    Agrees false true (Parser.unary (n + 1)) (Parser.unary (m + 1)) := by
  unfold Parser.unary
  refine agrees_accept_bind (by decide) (by decide) ?_ ?_
  · exact AgreesAt.bind ih.unary fun _ => agreesAt_pure
  · exact AgreesAt.bind ih.primary fun e => ih.suffixes e

/-- The calls and accesses behind an operand. -/
theorem Indifferent.succ_suffixes (ih : Indifferent n m) (e : Expr) :
    Agrees true true (Parser.suffixes (n + 1) e) (Parser.suffixes (m + 1) e) := by
  have hnext : ∀ e', Agrees false true (Parser.suffixes n e') (Parser.suffixes m e') :=
    fun e' ts us hblurred => ih.suffixes e' ts us hblurred.anywhere
  unfold Parser.suffixes
  -- behind a numeral, but no suffix starts with a minus
  refine agrees_accept_bind (by decide) (by decide) ?_ (agrees_accept_bind (by decide) (by decide)
    ?_ (agrees_accept_bind (by decide) (by decide) ?_ agreesAt_pure))
  · refine AgreesAt.bind (ih.sequence _) fun args => ?_
    exact agrees_expect_bind fun _ => hnext _
  · exact agrees_expect_bind fun name => hnext _
  · refine AgreesAt.bind ih.expression fun property => ?_
    exact agrees_expect_bind fun _ => hnext _

/-- The expressions between two brackets, from agreement with one unit of budget less. -/
theorem Indifferent.succ_sequence (ih : Indifferent n m) (close : TokenKind) :
    Agrees false false (Parser.sequence (n + 1) close) (Parser.sequence (m + 1) close) := by
  unfold Parser.sequence
  refine agrees_peekKind_bind fun t => ?_
  split
  · exact agreesAt_pure
  · refine AgreesAt.bind ih.expression.at fun first => ?_
    refine agrees_accept_bind (by decide) (by decide) ?_ agreesAt_pure
    exact AgreesAt.bind (ih.sequence close) fun _ => agreesAt_pure

/-- The entries of a map, from agreement with one unit of budget less. -/
theorem Indifferent.succ_entries (ih : Indifferent n m) :
    Agrees false false (Parser.entries (n + 1)) (Parser.entries (m + 1)) := by
  unfold Parser.entries
  refine agrees_peekKind_bind fun t => ?_
  split
  · exact agreesAt_pure
  · refine AgreesAt.bind ih.mapKey.at fun key => ?_
    refine AgreesAt.bind ih.expression fun value => ?_
    refine agrees_accept_bind (by decide) (by decide) ?_ agreesAt_pure
    exact AgreesAt.bind ih.entries fun _ => agreesAt_pure

/-- The second token is looked at only behind a name, where both lists go on alike. -/
theorem Indifferent.succ_mapKey (ih : Indifferent n m) :
    Agrees false false (Parser.mapKey (n + 1)) (Parser.mapKey (m + 1)) := by
  -- a word before a colon is taken as it stands; all else is read as an expression
  intro ts us hblurred _
  by_cases hname : (front ts).kind = .identifier ∧ (front ts.tail).kind = .colon
  · obtain ⟨ht, hu⟩ := hname
    cases hblurred with
    | nil => cases ht
    | @same _ t ts us hrest =>
    have hname : t.kind = .identifier := ht
    rw [hname] at hrest
    cases hrest with
    | nil => cases hu
    | @same _ u ts us hrest =>
      have hcolon : u.kind = .colon := hu
      rw [hcolon] at hrest
      rw [mapKey_of_name hname hcolon, mapKey_of_name hname hcolon]
      exact ⟨us, rfl, hrest⟩
  · have hother : ¬ ((front us).kind = .identifier ∧ (front us.tail).kind = .colon) := by
      rintro ⟨ht, hu⟩
      cases hblurred with
      | nil => cases ht
      | @same _ t ts us hrest =>
        have ht : t.kind = .identifier := ht
        rw [ht] at hrest
        refine hname ⟨ht, ?_⟩
        rw [List.tail_cons] at hu ⊢
        rwa [← Blurred.front_eq hrest]
    rw [mapKey_of_not hname, mapKey_of_not hother]
    have harrow : Agrees false false
        (do let key ← Parser.expression n; let _ ← expect .keyArrow; return key)
        (do let key ← Parser.expression m; let _ ← expect .keyArrow; return key) := by
      refine AgreesAt.bind ih.expression fun key => ?_
      exact agrees_expect_bind fun _ => agreesAt_pure
    exact harrow ts us hblurred trivial

/-- Only the numeral leaves a numeral before the tokens. -/
theorem Indifferent.succ_primary (ih : Indifferent n m) :
    Agrees false true (Parser.primary (n + 1)) (Parser.primary (m + 1)) := by
  unfold Parser.primary
  refine agrees_peekKind_bind fun t => ?_
  split
  · next ht => exact agreesAt_advance_bind ht (by decide) agreesAt_pure.anywhere
  · next ht =>
    refine agreesAt_take (by rw [ht]; decide) ?_
    rw [ht]
    exact agreesAt_pure
  · next ht => exact agreesAt_advance_bind ht (by decide) agreesAt_pure.anywhere
  · next ht =>
    refine agreesAt_advance_bind ht (by decide) ?_
    split
    · exact agreesAt_fail
    · exact AgreesAt.bind (ih.holes t.position _) fun _ => agreesAt_pure.anywhere
  · next ht =>
    refine agreesAt_advance_bind ht (by decide) ?_
    refine AgreesAt.bind ih.expression fun e => ?_
    exact agrees_expect_bind fun _ => agreesAt_pure.anywhere
  · next ht =>
    refine agreesAt_advance_bind ht (by decide) ?_
    refine AgreesAt.bind (ih.sequence _) fun items => ?_
    exact agrees_expect_bind fun _ => agreesAt_pure.anywhere
  · next ht =>
    refine agreesAt_advance_bind ht (by decide) ?_
    refine AgreesAt.bind (ih.sequence _) fun items => ?_
    exact agrees_expect_bind fun _ => agreesAt_pure.anywhere
  · next ht =>
    refine agreesAt_advance_bind ht (by decide) ?_
    refine AgreesAt.bind ih.entries fun es => ?_
    exact agrees_expect_bind fun _ => agreesAt_pure.anywhere
  · next ht =>
    have hbody : ∀ params, Agrees false true
        (do let _ ← expect .lambdaArrow
            let body ← Parser.expression n
            let _ ← expect .endOfLambda
            return Expr.lambda params body)
        (do let _ ← expect .lambdaArrow
            let body ← Parser.expression m
            let _ ← expect .endOfLambda
            return Expr.lambda params body) := by
      intro params
      refine agrees_expect_bind fun _ => ?_
      refine AgreesAt.bind ih.expression fun body => ?_
      exact agrees_expect_bind fun _ => agreesAt_pure.anywhere
    refine agreesAt_advance_bind ht (by decide)
      (agrees_accept_bind (by decide) (by decide) ?_ ?_)
    · refine AgreesAt.bind (agrees_parameters _) fun params => ?_
      exact agrees_expect_bind fun _ => hbody params
    · exact AgreesAt.bind (agrees_parameters _) hbody
  · exact agreesAt_refuse

/-- The holes of a string. Their tokens come from the text of the hole, so both sides read one row.
-/
theorem Indifferent.succ_holes (ih : Indifferent n m) (p : Position) (inners : List String) :
    Agrees false false (Parser.holes (n + 1) p inners) (Parser.holes (m + 1) p inners) := by
  cases inners with
  | nil =>
    unfold Parser.holes
    exact agreesAt_pure
  | cons inner inners =>
    rw [Parser.holes, Parser.holes]
    cases hown : tokenize (Template.unescape inner) with
    | error e =>
      change Agrees false false (fail e) (fail e)
      exact agreesAt_fail
    | ok own =>
      have hwithin : Agrees false false (within own (Parser.statements n))
          (within own (Parser.statements m)) :=
        -- a hole is tokenized anew, so its tokens are the same on both sides
        agrees_within (ih.statements own own (.refl false own) trivial)
      change Agrees false false (within own _ >>= _) (within own _ >>= _)
      refine AgreesAt.bind hwithin fun q => ?_
      split
      · exact AgreesAt.bind (ih.holes p inners) fun _ => agreesAt_pure
      · exact agreesAt_fail

/-- With no budget the first parser answers nothing, and agrees with everything. -/
theorem Indifferent.zero (m : Nat) : Indifferent 0 m where
  statement := by unfold Parser.statement; exact agreesAt_exhausted
  block _ := by unfold Parser.block; exact agreesAt_exhausted
  clauses := by unfold Parser.clauses; exact agreesAt_exhausted
  expression := by unfold Parser.expression; exact agreesAt_exhausted
  matching := by unfold Parser.matching; exact agreesAt_exhausted
  declaration _ _ := by unfold Parser.declaration; exact agreesAt_exhausted
  operators _ := by unfold Parser.operators; exact agreesAt_exhausted
  operand _ := by unfold Parser.operand; exact agreesAt_exhausted
  operations _ _ := by unfold Parser.operations; exact agreesAt_exhausted
  negation := by unfold Parser.negation; exact agreesAt_exhausted
  unary := by unfold Parser.unary; exact agreesAt_exhausted
  suffixes _ := by unfold Parser.suffixes; exact agreesAt_exhausted
  sequence _ := by unfold Parser.sequence; exact agreesAt_exhausted
  entries := by unfold Parser.entries; exact agreesAt_exhausted
  mapKey := by unfold Parser.mapKey; exact agreesAt_exhausted
  primary := by unfold Parser.primary; exact agreesAt_exhausted
  holes _ _ := by unfold Parser.holes; exact agreesAt_exhausted
  statements := by unfold Parser.statements; exact agreesAt_exhausted

/-- **The readers do not tell the minuses apart**, and a larger budget changes no answer. -/
theorem indifferent {n m : Nat} (h : n ≤ m) : Indifferent n m := by
  induction n generalizing m with
  | zero => exact .zero m
  | succ n ih =>
    obtain ⟨m, rfl⟩ : ∃ k, m = k + 1 := ⟨m - 1, by omega⟩
    have ih := ih (Nat.le_of_succ_le_succ h)
    exact
      { statement := ih.succ_statement
        block := ih.succ_block
        clauses := ih.succ_clauses
        expression := ih.succ_expression
        matching := ih.succ_matching
        declaration := ih.succ_declaration
        operators := ih.succ_operators
        operand := ih.succ_operand
        operations := ih.succ_operations
        negation := ih.succ_negation
        unary := ih.succ_unary
        suffixes := ih.succ_suffixes
        sequence := ih.succ_sequence
        entries := ih.succ_entries
        mapKey := ih.succ_mapKey
        primary := ih.succ_primary
        holes := ih.succ_holes
        statements := ih.succ_statements }

end Parser

/-! ### Answers -/

namespace Program

variable {source : String} {ts : List Token} {n : Nat} {r : Except Error Program}

/-- Where the stack has no bound, a text is read to an answer. -/
theorem answer_read (source : String) :
    (Program.read source).answer? = some (Program.parse source) := by
  unfold Program.parse Program.read
  cases hts : tokenize source with
  | error e => rfl
  | ok ts =>
    -- the budget of a text suffices for its tokens, so the parse has ended
    have hfinished := Parser.statements_finished hts (Nat.le_refl _)
    dsimp only
    cases h : Parser.statements (Parser.budget source.length) ts with
    | done p rest => rfl
    | refused e => rfl
    | exhausted =>
      rw [h] at hfinished
      exact hfinished.elim
    | overflowed =>
      rw [h] at hfinished
      exact hfinished.elim

/-- With the budget of its length, or a larger one, a text gets its answer. -/
theorem answer_of_budget (hts : tokenize source = .ok ts) (hn : Parser.budget source.length ≤ n) :
    (Parser.statements n ts).answer? = some (Program.parse source) := by
  have hanswer := answer_read source
  unfold Program.read at hanswer
  rw [hts] at hanswer
  exact ((Parser.indifferent hn).statements ts ts (.refl false ts) trivial).answer hanswer

/-- **An answer with any budget** is the answer. -/
theorem parse_of_answer (hts : tokenize source = .ok ts)
    (h : (Parser.statements n ts).answer? = some r) : Program.parse source = r := by
  -- the answer and the one with the budget of the text are both that of the larger budget
  have hlarge := answer_of_budget hts (Nat.le_max_right n (Parser.budget source.length))
  have hmore := Parser.indifferent (Nat.le_max_left n (Parser.budget source.length))
  have hsame := (hmore.statements ts ts (.refl false ts) trivial).answer h
  exact Option.some.inj (hlarge.symm.trans hsame)

/-- Alike tokens make the same program, whatever the lengths of the texts are. -/
theorem parse_of_forall₂ {source' : String} {us : List Token} {p : Program}
    (hts : tokenize source = .ok ts) (hus : tokenize source' = .ok us)
    (halike : List.Forall₂ Token.Alike ts us) (h : Program.parse source = .ok p) :
    Program.parse source' = .ok p := by
  obtain ⟨ts', rest, hts', hp⟩ := exists_of_parse h
  obtain rfl : ts = ts' := Except.ok.inj (hts.symm.trans hts')
  obtain ⟨read, last, rfl, hlast, hread⟩ := exists_of_tokenize hts
  obtain ⟨z, hz, hjoined⟩ :=
    Parser.joined_of_forall₂ (fun t ht => (hread t ht).kind_ne_eof) hlast halike
  obtain ⟨rest', hdone⟩ := (Parser.simulates (Nat.le_refl _)).statements _ us z p rest hz hjoined hp
  exact parse_of_answer hus (by rw [hdone]; rfl)

/-- Being alike but for positions is symmetric on rows of tokens. -/
theorem forall₂_alike_symm {ts us : List Token} (h : List.Forall₂ Token.Alike ts us) :
    List.Forall₂ Token.Alike us ts :=
  List.Forall₂.flip (h.imp fun _ _ halike => ⟨halike.1.symm, halike.2.symm⟩)

/-- **The kind of a minus does not matter.**  With its minuses turned into signs, a list of tokens
is the same program, or refused with the same error at the same place. -/
theorem parse_blurred (hts : tokenize source = .ok ts) (hn : Parser.budget source.length ≤ n) :
    (Parser.statements n ts).answer? = some (Program.parse source) ∧
      (Parser.statements n (ts.map Token.blurred)).answer? = some (Program.parse source) := by
  have hanswer := answer_of_budget hts hn
  have hblurred := Parser.blurred_of_signed (Lexer.signed_of_tokenize hts)
  have hagrees := (Parser.indifferent (Nat.le_refl n)).statements ts _ hblurred trivial
  exact ⟨hanswer, hagrees.answer hanswer⟩

/-- A minus behind a numeral on which no operand follows, and one before a sign. -/
theorem parse_blurred_dangling :
    let text := "1 - -2 -"
    let ts : List Token := [⟨.number, "1", ⟨1, 1⟩⟩, ⟨.binaryOperator, "-", ⟨1, 3⟩⟩,
      ⟨.minus, "-", ⟨1, 5⟩⟩, ⟨.number, "2", ⟨1, 6⟩⟩, ⟨.binaryOperator, "-", ⟨1, 8⟩⟩,
      .endOfInput ⟨1, 9⟩]
    let answer : Except Error Program := .error (.unexpected .expression (ts.getLast nofun))
    tokenize text = .ok ts ∧ ts.map Token.blurred ≠ ts ∧
      (Parser.statements (Parser.budget 8) ts).answer? = some answer ∧
      (Parser.statements (Parser.budget 8) (ts.map Token.blurred)).answer? = some answer := by
  intro text ts answer
  have hts : tokenize text = .ok ts := by decide +kernel
  have hanswer : Program.parse text = answer := parse_of_answer (n := 20) hts rfl
  obtain ⟨hsharp, hblurred⟩ := parse_blurred (n := Parser.budget 8) hts (by decide +kernel)
  rw [hanswer] at hsharp hblurred
  exact ⟨hts, by decide, hsharp, hblurred⟩

/-- **What stands between tokens only separates them.**  The tokens of a text with single blanks
between them are a text with the same tokens, and texts with the same tokens are the same program,
or both no program. -/
theorem parse_of_alike (hts : tokenize source = .ok ts) :
    (∃ us, tokenize (Token.spaced ts.dropLast) = .ok us ∧ List.Forall₂ Token.Alike ts us) ∧
      ∀ source' us, tokenize source' = .ok us → List.Forall₂ Token.Alike ts us →
        ∀ p, Program.parse source = .ok p ↔ Program.parse source' = .ok p := by
  refine ⟨Lexer.tokenize_of_spaced hts, fun source' us hus halike p => ⟨?_, ?_⟩⟩
  · exact parse_of_forall₂ hts hus halike
  · exact parse_of_forall₂ hus hts (forall₂_alike_symm halike)

/-- Tokens that touch, a string with a hash and a line end in it, and a comment. -/
theorem parse_of_alike_comment :
    let text := "a=\"#\n\"# b\n-1-c"
    let spaced := "a = \"#\n\" - 1 - c"
    let ts : List Token := [⟨.identifier, "a", ⟨1, 1⟩⟩, ⟨.assign, "=", ⟨1, 2⟩⟩,
      ⟨.string, "#\n", ⟨1, 3⟩⟩, ⟨.minus, "-", ⟨3, 1⟩⟩, ⟨.number, "1", ⟨3, 2⟩⟩,
      ⟨.binaryOperator, "-", ⟨3, 3⟩⟩, ⟨.identifier, "c", ⟨3, 4⟩⟩, .endOfInput ⟨3, 5⟩]
    tokenize text = .ok ts ∧ Token.spaced ts.dropLast = spaced ∧
      (∃ us, tokenize spaced = .ok us ∧ List.Forall₂ Token.Alike ts us) ∧
      ∀ p, Program.parse text = .ok p ↔ Program.parse spaced = .ok p := by
  intro text spaced ts
  have hts : tokenize text = .ok ts := by decide +kernel
  have hspaced : Token.spaced ts.dropLast = spaced := by decide +kernel
  obtain ⟨⟨us, hus, halike⟩, hparse⟩ := parse_of_alike hts
  rw [hspaced] at hus
  exact ⟨hts, hspaced, ⟨us, hus, halike⟩, hparse spaced us hus halike⟩

end Program

end AtomScript

import AtomScript.Proofs.Program.Soundness
import AtomScript.Proofs.Token.Joined

/-!
# Reading joined programs

A text that can be read alone is read the same when a semicolon stands in the place of its end: the
readers look at no token behind the end, and none of them tells a semicolon from the end where it
would go on at either.

`Joined stop ts us` says that `us` has the tokens of `ts`, up to their positions, and `stop` in
place of the end.  `Follows x y` says that `y` reads from `us` whatever `x` reads from `ts`.  With a
budget that is no smaller, every reader follows itself (`simulates`).

* `Parser.Joined.statements` — the statements of both, one list after the other;
* `Program.parse_joined` — the program of two texts with a semicolon between them.
-/

namespace AtomScript

namespace Parser

/-! ### Tokens with something else for the end -/

/-- The same tokens, up to their positions, and `stop` in place of the end. -/
inductive Joined (stop : List Token) : List Token → List Token → Prop where
  | stop {t : Token} : t.kind = .eof → Joined stop [t] stop
  | cons {t u : Token} {ts us : List Token} :
    t.Alike u → t.kind ≠ .eof → Joined stop ts us → Joined stop (t :: ts) (u :: us)

/-- What a list of tokens may be stopped by: a separator, or the end. -/
def isStop (kind : TokenKind) : Bool := kind == .semicolon || kind == .eof

/-- The list starts with something that stops another list. -/
def Stops (stop : List Token) : Prop := isStop (front stop).kind = true

/-- What stops a list is a separator or the end. -/
theorem eq_of_isStop {kind : TokenKind} (h : isStop kind = true) :
    kind = .semicolon ∨ kind = .eof := by
  unfold isStop at h
  rwa [Bool.or_eq_true, beq_iff_eq, beq_iff_eq] at h

/-- A kind that stops lists is no kind that stops none. -/
theorem ne_of_isStop {kind other : TokenKind} (hkind : isStop kind = true)
    (hother : isStop other = false) : kind ≠ other := by
  rintro rfl
  rw [hkind] at hother
  cases hother

/-- A kind that stops no list is at the front of both lists or of neither. -/
theorem Joined.front_kind_eq_iff {stop ts us : List Token} (h : Joined stop ts us)
    (hstop : Stops stop) {kind : TokenKind} (hkind : isStop kind = false) :
    (front us).kind = kind ↔ (front ts).kind = kind := by
  cases h with
  -- at the end of the first list there is something that stops it, and neither is of the kind
  | @stop t ht =>
    have ht' : isStop t.kind = true := by rw [ht]; rfl
    exact iff_of_false (ne_of_isStop hstop hkind) (ne_of_isStop ht' hkind)
  | cons htu _ _ => exact ⟨htu.1.trans, htu.1.symm.trans⟩

variable {α β : Type}

/-- On lists whose front tokens satisfy `P`, what `x` reads from the first list `y` reads from the
second. -/
def FollowsAt (P : Token → Token → Prop) (x y : Parser α) : Prop :=
  ∀ stop ts us, Stops stop → Joined stop ts us → P (front ts) (front us) →
    ∀ a rest, x ts = .done a rest → ∃ rest', y us = .done a rest' ∧ Joined stop rest rest'

/-- What `x` reads from the first list `y` reads from the second. -/
def Follows (x y : Parser α) : Prop := FollowsAt (fun _ _ => True) x y

variable {P : Token → Token → Prop} {x y : Parser α} {f g : α → Parser β}

/-- Following on all lists is following on those with certain tokens in front. -/
theorem Follows.at (h : Follows x y) : FollowsAt P x y :=
  fun stop ts us hstop hjoined _ => h stop ts us hstop hjoined trivial

/-- A result leaves both lists as they are. -/
theorem followsAt_pure {a : α} : FollowsAt P (pure a) (pure a) := by
  intro stop ts us _ hjoined _ b rest h
  cases h
  exact ⟨us, rfl, hjoined⟩

/-- Where the first reader refuses there is nothing to follow. -/
theorem followsAt_fail {e : Error} : FollowsAt P (fail e) y := by
  intro stop ts us _ _ _ a rest h
  cases h

/-- Nor where its budget has run out. -/
theorem followsAt_exhausted : FollowsAt P exhausted y := by
  intro stop ts us _ _ _ a rest h
  cases h

/-- A refusal that names the token in front. -/
theorem followsAt_refuse {wanted : Expectation} : FollowsAt P (refuse wanted) y := by
  intro stop ts us _ _ _ a rest h
  cases h

/-- The next reader begins where the first has stopped. -/
theorem bind_of_done {ts rest : List Token} {a : α} (h : x ts = .done a rest) :
    (x >>= f) ts = f a rest := by
  change Parser.bind x f ts = _
  unfold Parser.bind
  rw [h]

/-- **One after the other.** -/
theorem FollowsAt.bind (hx : FollowsAt P x y) (hf : ∀ a, Follows (f a) (g a)) :
    FollowsAt P (x >>= f) (y >>= g) := by
  -- what the first reader leaves is joined again
  intro stop ts us hstop hjoined hP b rest h
  obtain ⟨a, mid, hxa, hfb⟩ := exists_of_bind h
  obtain ⟨mid', hya, hmid⟩ := hx stop ts us hstop hjoined hP a mid hxa
  obtain ⟨rest', hgb, hrest⟩ := hf a stop mid mid' hstop hmid trivial b rest hfb
  exact ⟨rest', (bind_of_done hya).trans hgb, hrest⟩

/-! ### The front token -/

/-- The front tokens are alike, or the first list has come to its end. -/
theorem follows_peek_bind {g g' : Token → Parser β}
    (hsame : ∀ t u, t.Alike u → t.kind ≠ .eof →
      FollowsAt (fun t' u' => t' = t ∧ u' = u) (g t) (g' u))
    (hend : ∀ t u : Token, t.kind = .eof → isStop u.kind = true → Follows (g t) (g' u)) :
    Follows (peek >>= g) (peek >>= g') := by
  intro stop ts us hstop hjoined _ b rest h
  have hjoined' := hjoined
  cases hjoined' with
  | stop ht => exact hend _ (front stop) ht hstop stop _ stop hstop hjoined trivial b rest h
  | cons htu ht _ => exact hsame _ _ htu ht stop _ _ hstop hjoined ⟨rfl, rfl⟩ b rest h

/-- The front kinds are the same, or the end and what stands in its place. -/
theorem follows_peekKind_bind {g g' : TokenKind → Parser β}
    (hsame : ∀ t u, t.Alike u → t.kind ≠ .eof →
      FollowsAt (fun t' u' => t' = t ∧ u' = u) (g t.kind) (g' t.kind))
    (hend : ∀ kind, isStop kind = true → Follows (g .eof) (g' kind)) :
    Follows (peekKind >>= g) (peekKind >>= g') := by
  have h : Follows (peek >>= fun t => g t.kind) (peek >>= fun u => g' u.kind) := by
    refine follows_peek_bind (fun t u htu ht => ?_) (fun t u ht hu => ?_)
    · rw [← htu.1]
      exact hsame t u htu ht
    · rw [ht]
      exact hend u.kind hu
  exact h

/-- A front token that is alike in both lists is taken from both. -/
theorem followsAt_advance_bind {t u : Token} {g g' : Token → Parser β} (ht : t.kind ≠ .eof)
    (h : Follows (g t) (g' u)) :
    FollowsAt (fun t' u' => t' = t ∧ u' = u) (advance >>= g) (advance >>= g') := by
  intro stop ts us hstop hjoined hfront b rest hb
  cases hjoined with
  | stop heof =>
    obtain ⟨rfl, -⟩ := hfront
    exact absurd heof ht
  | cons _ _ hrest =>
    obtain ⟨rfl, rfl⟩ := hfront
    exact h stop _ _ hstop hrest trivial b rest hb

/-- A kind that stops nothing is taken from both lists or from neither. -/
theorem follows_accept {kind : TokenKind} (hkind : isStop kind = false) :
    Follows (accept kind) (accept kind) := by
  refine follows_peekKind_bind (fun t u htu ht => ?_) (fun other hother => ?_)
  -- the tokens in front are alike: both are of the kind or neither is
  · by_cases heq : t.kind = kind
    · simp only [if_pos heq]
      exact followsAt_advance_bind ht followsAt_pure
    · simp only [if_neg heq]
      exact followsAt_pure
  · rw [if_neg (ne_of_isStop rfl hkind), if_neg (ne_of_isStop hother hkind)]
    exact followsAt_pure

/-- What is read next depends on whether the token was taken. -/
theorem follows_accept_bind {kind : TokenKind} {g g' : Bool → Parser β}
    (hkind : isStop kind = false) (htrue : Follows (g true) (g' true))
    (hfalse : Follows (g false) (g' false)) :
    Follows (accept kind >>= g) (accept kind >>= g') :=
  FollowsAt.bind (follows_accept hkind) fun b =>
    match b with
    | true => htrue
    | false => hfalse

/-- Another token than the expected one is refused. -/
theorem expect_of_ne {wanted : Expectation} {ts : List Token}
    (h : some (front ts).kind ≠ wanted.kind?) : expect wanted ts = refuse wanted ts := by
  unfold expect
  exact congrFun (if_neg h) ts

/-- The expected token is taken. -/
theorem expect_of_eq {wanted : Expectation} {t : Token} {ts : List Token}
    (h : some t.kind = wanted.kind?) : expect wanted (t :: ts) = .done t ts := by
  unfold expect
  exact congrFun (if_pos h) (t :: ts)

/-- What is expected is no end, so it stands in both lists. -/
theorem follows_expect_bind {wanted : Expectation} {kind : TokenKind} {g g' : Token → Parser β}
    (hwanted : wanted.kind? = some kind) (hkind : kind ≠ .eof)
    (h : ∀ t u, t.Alike u → Follows (g t) (g' u)) :
    Follows (expect wanted >>= g) (expect wanted >>= g') := by
  intro stop ts us hstop hjoined _ b rest hb
  obtain ⟨t, mid, hexpect, hg⟩ := exists_of_bind hb
  by_cases heq : some (front ts).kind = wanted.kind?
  · cases hjoined with
    | stop heof =>
      -- the end is never wanted
      rw [hwanted, Option.some.injEq] at heq
      exact absurd (heq.symm.trans heof) hkind
    | @cons t' u ts us htu _ hrest =>
      have heq' : some u.kind = wanted.kind? := htu.1 ▸ heq
      rw [expect_of_eq (t := t') heq] at hexpect
      cases hexpect
      obtain ⟨rest', hdone, hrest'⟩ := h _ u htu stop _ us hstop hrest trivial b rest hg
      exact ⟨rest', (bind_of_done (expect_of_eq heq')).trans hdone, hrest'⟩
  · rw [expect_of_ne heq] at hexpect
    cases hexpect

/-! ### Readers without recursion -/

/-- Names are read up to a closing token that stops nothing. -/
theorem follows_parameters {close : TokenKind} (hclose : isStop close = false) :
    Follows (parameters close) (parameters close) := by
  intro stop ts us hstop hjoined _ names rest h
  -- one case for each way through the names; a refusal leaves nothing to show
  fun_induction parameters close ts generalizing us names rest with
  | case1 => cases h
  | case2 t ts ht =>
    cases h
    cases hjoined with
    | stop heof => exact absurd (heof.symm.trans ht) (ne_of_isStop rfl hclose)
    | @cons _ u _ us htu heof hrest =>
      refine ⟨u :: us, ?_, .cons htu heof hrest⟩
      unfold parameters
      rw [if_pos (htu.1.symm.trans ht)]
  | case3 t ht hname =>
    cases hjoined with
    | stop heof => simp [heof] at hname
    | cons _ _ hrest => cases hrest
  | case4 t ht hname comma ts hcomma names' rest' heq ih =>
    cases h
    cases hjoined with
    | @cons _ u _ us htu heof hrest =>
    cases hrest with
    | stop heof' => simp [heof'] at hcomma
    | @cons _ v _ vs hcv _ hrest =>
      obtain ⟨left, hdone, hleft⟩ := ih vs hrest names' rest' heq
      refine ⟨left, ?_, hleft⟩
      unfold parameters
      rw [if_neg (htu.1 ▸ ht), if_pos (htu.1.symm.trans hname)]
      simp only [hcv.1.symm.trans hcomma, hdone, htu.2, if_true]
  | case5 => cases h
  | case6 => cases h
  | case7 => cases h
  | case8 t ht hname comma ts hcomma =>
    cases h
    cases hjoined with
    | @cons _ u _ us htu heof hrest =>
      -- the name is the last one in the second list too
      have hlast : (front us).kind ≠ .comma := (hrest.front_kind_eq_iff hstop rfl).not.2 hcomma
      refine ⟨us, ?_, hrest⟩
      unfold parameters
      rw [if_neg (htu.1 ▸ ht), if_pos (htu.1.symm.trans hname), htu.2]
      cases us with
      | nil => rfl
      | cons v vs => exact if_neg hlast
  | case9 => cases h

/-- What is read apart does not touch the lists. -/
theorem follows_within {own : List Token}
    (h : ∀ a rest, x own = .done a rest → ∃ rest', y own = .done a rest') :
    Follows (within own x) (within own y) := by
  intro stop ts us _ hjoined _ a rest hx
  obtain ⟨rfl, left, hleft⟩ := exists_of_within hx
  obtain ⟨left', hleft'⟩ := h a left hleft
  refine ⟨us, ?_, hjoined⟩
  unfold within
  rw [hleft']

/-- Which operator it is depends on the text of the token. -/
theorem follows_operator {t u : Token} (h : t.text = u.text) :
    Follows (operator t) (operator u) := by
  unfold operator
  rw [h]
  split
  · exact followsAt_pure
  · exact followsAt_fail

/-- Tokens that are alike are operators of the same levels. -/
theorem holds_eq_of_alike {t u : Token} (h : t.Alike u) (level : Level) :
    level.holds t = level.holds u := by
  unfold Level.holds
  rw [h.1, h.2]

/-- Neither a separator nor the end is an operator. -/
theorem holds_of_isStop {t : Token} (h : isStop t.kind = true) (level : Level) :
    level.holds t = false := by
  unfold Level.holds
  rcases eq_of_isStop h with h | h
  · rw [h]
    cases level <;> rfl
  · rw [h]
    cases level <;> rfl

/-! ### The readers at two budgets -/

/-- With a budget `m` for `n`, the readers follow themselves. -/
structure Simulates (n m : Nat) : Prop where
  statement : Follows (statement n) (statement m)
  block : ∀ inConditional, Follows (block n inConditional) (block m inConditional)
  clauses : Follows (clauses n) (clauses m)
  expression : Follows (expression n) (expression m)
  matching : Follows (matching n none) (matching m none)
  declaration : ∀ t u : Token, t.Alike u → t.kind ≠ .eof →
    FollowsAt (fun t' u' => t' = t ∧ u' = u) (declaration n none) (declaration m none)
  operators : ∀ level, Follows (operators n level) (operators m level)
  operand : ∀ level, Follows (operand n level) (operand m level)
  operations : ∀ level left, Follows (operations n level left) (operations m level left)
  negation : Follows (negation n) (negation m)
  unary : Follows (unary n) (unary m)
  suffixes : ∀ e, Follows (suffixes n e) (suffixes m e)
  sequence : ∀ close, isStop close = false → Follows (sequence n close) (sequence m close)
  entries : Follows (entries n) (entries m)
  mapKey : Follows (mapKey n) (mapKey m)
  primary : Follows (primary n) (primary m)
  holes : ∀ p p' inners, Follows (holes n p inners) (holes m p' inners)
  /-- A whole text, which stops at its end. -/
  statements : ∀ ts us z p rest, z.kind = .eof → Joined [z] ts us →
    statements n ts = .done p rest → ∃ rest', statements m us = .done p rest'

variable {n m : Nat}

/-- A statement.  Only `return` looks whether a separator or the end is in front, and treats them
alike. -/
theorem Simulates.succ_statement (ih : Simulates n m) :
    Follows (Parser.statement (n + 1)) (Parser.statement (m + 1)) := by
  unfold Parser.statement
  refine follows_peekKind_bind (fun t u htu ht => ?_) (fun kind hkind => ?_)
  -- one case for each keyword that a statement starts with, and one for the others
  · split
    · refine followsAt_advance_bind ht ?_
      refine FollowsAt.bind ih.expression fun condition => ?_
      refine follows_expect_bind rfl (by decide) fun _ _ _ => ?_
      refine FollowsAt.bind (ih.block true) fun body => ?_
      refine FollowsAt.bind ih.clauses fun clauses => ?_
      exact followsAt_pure
    · refine followsAt_advance_bind ht ?_
      refine follows_expect_bind rfl (by decide) fun name name' hname => ?_
      refine follows_expect_bind rfl (by decide) fun _ _ _ => ?_
      refine FollowsAt.bind (follows_parameters rfl) fun params => ?_
      refine follows_expect_bind rfl (by decide) fun _ _ _ => ?_
      refine follows_expect_bind rfl (by decide) fun _ _ _ => ?_
      refine FollowsAt.bind (ih.block false) fun body => ?_
      refine follows_expect_bind rfl (by decide) fun _ _ _ => ?_
      rw [hname.2]
      exact followsAt_pure
    · refine followsAt_advance_bind ht ?_
      refine follows_peekKind_bind (fun t' u' _ _ => ?_) (fun kind hkind => ?_)
      · split
        · exact followsAt_pure
        · exact FollowsAt.bind ih.expression.at fun e => followsAt_pure
      -- `return` gives null in front of a separator and in front of the end
      · rcases eq_of_isStop hkind with rfl | rfl
        · exact followsAt_pure
        · exact followsAt_pure
    · refine followsAt_advance_bind ht ?_
      refine FollowsAt.bind ih.expression fun condition => ?_
      refine follows_expect_bind rfl (by decide) fun _ _ _ => ?_
      refine FollowsAt.bind (ih.block false) fun body => ?_
      refine follows_expect_bind rfl (by decide) fun _ _ _ => ?_
      exact followsAt_pure
    · exact followsAt_advance_bind ht followsAt_pure
    · exact followsAt_advance_bind ht followsAt_pure
    · exact FollowsAt.bind ih.expression.at fun e => followsAt_pure
  -- at the end, an expression is read, and refused
  · rcases eq_of_isStop hkind with rfl | rfl
    · exact FollowsAt.bind ih.expression fun e => followsAt_pure
    · exact FollowsAt.bind ih.expression fun e => followsAt_pure

/-- The clauses of a conditional, which its `end` closes. -/
theorem Simulates.succ_clauses (ih : Simulates n m) :
    Follows (Parser.clauses (n + 1)) (Parser.clauses (m + 1)) := by
  unfold Parser.clauses
  refine follows_accept_bind rfl ?_ (follows_accept_bind rfl ?_ ?_)
  -- `elif`, then `else`, then `end`
  · refine FollowsAt.bind ih.expression fun condition => ?_
    refine follows_expect_bind rfl (by decide) fun _ _ _ => ?_
    refine FollowsAt.bind (ih.block true) fun body => ?_
    exact FollowsAt.bind ih.clauses fun clauses => followsAt_pure
  · refine FollowsAt.bind (follows_accept rfl) fun _ => ?_
    refine FollowsAt.bind (ih.block false) fun body => ?_
    exact follows_expect_bind rfl (by decide) fun _ _ _ => followsAt_pure
  · exact follows_expect_bind rfl (by decide) fun _ _ _ => followsAt_pure

/-- An expression is what is read on the left and the right of `=`. -/
theorem Simulates.succ_expression (ih : Simulates n m) :
    Follows (Parser.expression (n + 1)) (Parser.expression (m + 1)) := by
  unfold Parser.expression
  exact ih.matching

/-- A binding or an operation; neither a separator nor the end is an `=`. -/
theorem Simulates.succ_matching (ih : Simulates n m) :
    Follows (Parser.matching (n + 1) none) (Parser.matching (m + 1) none) := by
  -- what is read when there is no `let`
  have hoperation : Follows
      (do let left ← Parser.operators n .or
          if ← accept .assign then return .bind left (← Parser.matching n none) else return left)
      (do let left ← Parser.operators m .or
          if ← accept .assign then return .bind left (← Parser.matching m none)
          else return left) := by
    refine FollowsAt.bind (ih.operators .or) fun left => follows_accept_bind rfl ?_ followsAt_pure
    exact FollowsAt.bind ih.matching fun e => followsAt_pure
  unfold Parser.matching
  refine follows_peekKind_bind (fun t u htu ht => ?_) (fun kind hkind => ?_)
  · split
    · exact ih.declaration t u htu ht
    · exact hoperation.at
  · rw [if_neg (by decide), if_neg (ne_of_isStop hkind rfl)]
    exact hoperation

/-- A `let` is in front of both lists, for it has been seen. -/
theorem Simulates.succ_declaration (ih : Simulates n m) (t u : Token) (_ : t.Alike u)
    (ht : t.kind ≠ .eof) :
    FollowsAt (fun t' u' => t' = t ∧ u' = u) (Parser.declaration (n + 1) none)
      (Parser.declaration (m + 1) none) := by
  unfold Parser.declaration
  refine followsAt_advance_bind ht ?_
  refine follows_expect_bind rfl (by decide) fun name name' hname => ?_
  refine follows_expect_bind rfl (by decide) fun _ _ _ => ?_
  rw [hname.2]
  exact FollowsAt.bind ih.matching fun e => followsAt_pure

/-- A row: an operand and what follows it. -/
theorem Simulates.succ_operators (ih : Simulates n m) (level : Level) :
    Follows (Parser.operators (n + 1) level) (Parser.operators (m + 1) level) := by
  unfold Parser.operators
  exact FollowsAt.bind (ih.operand level) fun first => ih.operations level first

/-- An operand is a row of the next level. -/
theorem Simulates.succ_operand (ih : Simulates n m) (level : Level) :
    Follows (Parser.operand (n + 1) level) (Parser.operand (m + 1) level) := by
  unfold Parser.operand
  cases level with
  | or => exact ih.operators .and
  | and => exact ih.negation
  | comparison => exact ih.operators .sum
  | sum => exact ih.operators .product
  | product => exact ih.unary

/-- The rest of a row, which goes on at an operator of its level. -/
theorem Simulates.succ_operations (ih : Simulates n m) (level : Level) (left : Expr) :
    Follows (Parser.operations (n + 1) level left) (Parser.operations (m + 1) level left) := by
  unfold Parser.operations
  refine follows_peek_bind (fun t u htu ht => ?_) (fun t u ht hu => ?_)
  -- alike tokens are both operators of the level or both not
  · rw [← holds_eq_of_alike htu]
    split
    · refine followsAt_advance_bind ht ?_
      refine FollowsAt.bind (follows_operator htu.2) fun op => ?_
      refine FollowsAt.bind (ih.operand level) fun right => ?_
      exact ih.operations level (.binary op left right)
    · exact followsAt_pure
  · have ht' : isStop t.kind = true := by rw [ht]; rfl
    rw [holds_of_isStop ht', holds_of_isStop hu]
    exact followsAt_pure

/-- A negation, or a comparison. -/
theorem Simulates.succ_negation (ih : Simulates n m) :
    Follows (Parser.negation (n + 1)) (Parser.negation (m + 1)) := by
  unfold Parser.negation
  refine follows_accept_bind rfl ?_ ?_
  · exact FollowsAt.bind ih.negation fun e => followsAt_pure
  · exact ih.operators .comparison

/-- A minus and its operand, or a primary with its suffixes. -/
theorem Simulates.succ_unary (ih : Simulates n m) :
    Follows (Parser.unary (n + 1)) (Parser.unary (m + 1)) := by
  unfold Parser.unary
  refine follows_accept_bind rfl ?_ ?_
  · exact FollowsAt.bind ih.unary fun e => followsAt_pure
  · exact FollowsAt.bind ih.primary ih.suffixes

/-- The suffixes, each of which starts with a token of its own. -/
theorem Simulates.succ_suffixes (ih : Simulates n m) (e : Expr) :
    Follows (Parser.suffixes (n + 1) e) (Parser.suffixes (m + 1) e) := by
  unfold Parser.suffixes
  refine follows_accept_bind rfl ?_ (follows_accept_bind rfl ?_ (follows_accept_bind rfl ?_ ?_))
  -- a call, a member by its name, and a member that is computed
  · refine FollowsAt.bind (ih.sequence .closeParen rfl) fun args => ?_
    exact follows_expect_bind rfl (by decide) fun _ _ _ => ih.suffixes (.call e args)
  · refine follows_expect_bind rfl (by decide) fun name name' hname => ?_
    rw [hname.2]
    exact ih.suffixes (.member e (.identifier name'.text) false)
  · refine FollowsAt.bind ih.expression fun property => ?_
    exact follows_expect_bind rfl (by decide) fun _ _ _ => ih.suffixes (.member e property true)
  · exact followsAt_pure

/-- Where a list of things ends with a kind that stops nothing, both lists come to that end. -/
theorem follows_unless {close : TokenKind} {a : α} (hclose : isStop close = false)
    (h : Follows x y) :
    Follows (do if (← peekKind) = close then return a else x)
      (do if (← peekKind) = close then return a else y) := by
  refine follows_peekKind_bind (fun t u _ _ => ?_) (fun kind hkind => ?_)
  · by_cases heq : t.kind = close
    · rw [if_pos heq, if_pos heq]
      exact followsAt_pure
    · rw [if_neg heq, if_neg heq]
      exact h.at
  -- the closing token is no stop, so at a stop neither side is closed
  · rw [if_neg (ne_of_isStop rfl hclose), if_neg (ne_of_isStop hkind hclose)]
    exact h

/-- Items up to a closing token that stops nothing. -/
theorem Simulates.succ_sequence (ih : Simulates n m) (close : TokenKind)
    (hclose : isStop close = false) :
    Follows (Parser.sequence (n + 1) close) (Parser.sequence (m + 1) close) := by
  unfold Parser.sequence
  refine follows_unless hclose ?_
  refine FollowsAt.bind ih.expression fun first => ?_
  refine follows_accept_bind rfl ?_ ?_
  · exact FollowsAt.bind (ih.sequence close hclose) fun rest => followsAt_pure
  · exact followsAt_pure

/-- The entries of a map, up to the brace. -/
theorem Simulates.succ_entries (ih : Simulates n m) :
    Follows (Parser.entries (n + 1)) (Parser.entries (m + 1)) := by
  unfold Parser.entries
  refine follows_unless rfl ?_
  refine FollowsAt.bind ih.mapKey fun key => ?_
  refine FollowsAt.bind ih.expression fun value => ?_
  refine follows_accept_bind rfl ?_ ?_
  · exact FollowsAt.bind ih.entries fun rest => followsAt_pure
  · exact followsAt_pure

/-- A primary starts with a token that stops nothing; at the end there is none. -/
theorem Simulates.succ_primary (ih : Simulates n m) :
    Follows (Parser.primary (n + 1)) (Parser.primary (m + 1)) := by
  unfold Parser.primary
  refine follows_peekKind_bind (fun t u htu ht => ?_) (fun kind hkind => ?_)
  -- the texts of names, numbers and strings are the same in both lists
  · split
    · refine followsAt_advance_bind ht ?_
      rw [htu.2]
      exact followsAt_pure
    · refine followsAt_advance_bind ht ?_
      rw [htu.2]
      exact followsAt_pure
    · refine followsAt_advance_bind ht ?_
      rw [htu.2]
      exact followsAt_pure
    · refine followsAt_advance_bind ht ?_
      rw [htu.2]
      split
      · exact followsAt_fail
      · next inners _ =>
        exact FollowsAt.bind (ih.holes t.position u.position inners) fun filled => followsAt_pure
    · refine followsAt_advance_bind ht ?_
      refine FollowsAt.bind ih.expression fun e => ?_
      exact follows_expect_bind rfl (by decide) fun _ _ _ => followsAt_pure
    · refine followsAt_advance_bind ht ?_
      refine FollowsAt.bind (ih.sequence .closeBrace rfl) fun items => ?_
      exact follows_expect_bind rfl (by decide) fun _ _ _ => followsAt_pure
    · refine followsAt_advance_bind ht ?_
      refine FollowsAt.bind (ih.sequence .closeBracket rfl) fun items => ?_
      exact follows_expect_bind rfl (by decide) fun _ _ _ => followsAt_pure
    · refine followsAt_advance_bind ht ?_
      refine FollowsAt.bind ih.entries fun es => ?_
      exact follows_expect_bind rfl (by decide) fun _ _ _ => followsAt_pure
    · refine followsAt_advance_bind ht ?_
      have hbody : ∀ params, Follows
          (do let _ ← expect .lambdaArrow
              let body ← Parser.expression n
              let _ ← expect .endOfLambda
              return Expr.lambda params body)
          (do let _ ← expect .lambdaArrow
              let body ← Parser.expression m
              let _ ← expect .endOfLambda
              return Expr.lambda params body) := by
        intro params
        refine follows_expect_bind rfl (by decide) fun _ _ _ => ?_
        refine FollowsAt.bind ih.expression fun body => ?_
        exact follows_expect_bind rfl (by decide) fun _ _ _ => followsAt_pure
      refine follows_accept_bind rfl ?_ ?_
      · refine FollowsAt.bind (follows_parameters rfl) fun params => ?_
        exact follows_expect_bind rfl (by decide) fun _ _ _ => hbody params
      · exact FollowsAt.bind (follows_parameters rfl) hbody
    · exact followsAt_refuse
  · exact followsAt_refuse

/-- The key of an entry is the one reader that looks at two tokens. -/
theorem Simulates.succ_mapKey (ih : Simulates n m) :
    Follows (Parser.mapKey (n + 1)) (Parser.mapKey (m + 1)) := by
  intro stop ts us hstop hjoined _ e rest h
  -- a name and a colon in front of the first list are in front of the second
  by_cases hname : (front ts).kind = .identifier ∧ (front ts.tail).kind = .colon
  · cases hjoined with
    | stop heof => exact absurd (heof.symm.trans hname.1) nofun
    | @cons t u ts us htu _ hrest =>
    cases hrest with
    | stop heof => exact absurd (heof.symm.trans hname.2) nofun
    | @cons t' u' ts us htu' _ hrest =>
      obtain ⟨ht, ht'⟩ := hname
      rw [mapKey_of_name (t := t) (u := t') ht ht'] at h
      cases h
      refine ⟨us, ?_, hrest⟩
      rw [mapKey_of_name (htu.1.symm.trans ht) (htu'.1.symm.trans ht'), htu.2]
  -- and if they are not there, then not in the second list either
  · have hother : ¬ ((front us).kind = .identifier ∧ (front us.tail).kind = .colon) := by
      rintro ⟨hname', hcolon⟩
      have hfront := (hjoined.front_kind_eq_iff hstop rfl).1 hname'
      cases hjoined with
      | stop heof => exact absurd (heof.symm.trans hfront) nofun
      | cons _ _ hrest => exact hname ⟨hfront, (hrest.front_kind_eq_iff hstop rfl).1 hcolon⟩
    rw [mapKey_of_not hname] at h
    rw [mapKey_of_not hother]
    have hfollows : Follows
        (do let key ← Parser.expression n; let _ ← expect .keyArrow; return key)
        (do let key ← Parser.expression m; let _ ← expect .keyArrow; return key) := by
      refine FollowsAt.bind ih.expression fun key => ?_
      exact follows_expect_bind rfl (by decide) fun _ _ _ => followsAt_pure
    exact hfollows stop ts us hstop hjoined trivial e rest h

/-! ### Statements in a row -/

/-- Behind the separators the first list has come to its end, or both lists go on alike. -/
theorem Joined.behindSeparators {stop ts us : List Token} (h : Joined stop ts us) :
    ((front (behindSeparators ts)).kind = .eof ∧
      Parser.behindSeparators us = Parser.behindSeparators stop) ∨
    ((front (Parser.behindSeparators ts)).kind ≠ .eof ∧
      (front (Parser.behindSeparators us)).kind = (front (Parser.behindSeparators ts)).kind ∧
      Joined stop (Parser.behindSeparators ts) (Parser.behindSeparators us)) := by
  -- along the list, over the separators in front
  induction h with
  | @stop t ht =>
    have hbehind : Parser.behindSeparators [t] = [t] := by simp [Parser.behindSeparators, ht]
    rw [hbehind]
    exact .inl ⟨ht, rfl⟩
  | @cons t u ts us htu ht hrest ih =>
    by_cases hkind : t.kind = .semicolon
    · have hbehind : ∀ (v : Token) vs, v.kind = .semicolon →
          Parser.behindSeparators (v :: vs) = Parser.behindSeparators vs := by
        intro v vs hv
        simp [Parser.behindSeparators, hv]
      rwa [hbehind t ts hkind, hbehind u us (htu.1 ▸ hkind)]
    · have hbehind : ∀ (v : Token) vs, v.kind ≠ .semicolon →
          Parser.behindSeparators (v :: vs) = v :: vs := by
        intro v vs hv
        simp [Parser.behindSeparators, hv]
      rw [hbehind t ts hkind, hbehind u us (htu.1 ▸ hkind)]
      exact .inr ⟨ht, htu.1.symm, .cons htu ht hrest⟩

/-- A block is closed by its `end`, so it cannot come to the end of the list. -/
theorem Simulates.succ_block (ih : Simulates n m) (inConditional : Bool) :
    Follows (Parser.block (n + 1) inConditional) (Parser.block (m + 1) inConditional) := by
  -- the block behind its separators
  have hbehind : Follows
      (do let kind ← peekKind
          if endsBlock inConditional kind then return []
          else if kind = .eof then refuse .blockEnd
          else
            let first ← Parser.statement n
            let rest ← Parser.block n inConditional
            return first :: rest)
      (do let kind ← peekKind
          if endsBlock inConditional kind then return []
          else if kind = .eof then refuse .blockEnd
          else
            let first ← Parser.statement m
            let rest ← Parser.block m inConditional
            return first :: rest) := by
    refine follows_peekKind_bind (fun t u _ ht => ?_) (fun kind _ => followsAt_refuse)
    split
    · exact followsAt_pure
    · refine FollowsAt.bind ih.statement.at fun first => ?_
      exact FollowsAt.bind (ih.block inConditional) fun rest => followsAt_pure
  intro stop ts us hstop hjoined _ body rest h
  rw [Parser.block] at h ⊢
  rcases hjoined.behindSeparators with ⟨hend, -⟩ | ⟨-, -, hjoined⟩
  · -- a block does not end with its list
    change (if endsBlock inConditional (front (Parser.behindSeparators ts)).kind then pure []
      else if (front (Parser.behindSeparators ts)).kind = .eof then refuse .blockEnd
      else _ : Parser (List Stmt)) (Parser.behindSeparators ts) = _ at h
    rw [hend] at h
    cases h
  · exact hbehind stop _ _ hstop hjoined trivial body rest h

/-- **One statement of a text.**  The first list has come to its end, or the statement at its front
is read from both. -/
theorem Joined.statements_cases {stop ts us rest : List Token} {p : Program}
    (hs : Follows (statement n) (statement m)) (hstop : Stops stop) (hjoined : Joined stop ts us)
    (h : statements (n + 1) ts = .done p rest) :
    (p = [] ∧ Parser.behindSeparators us = Parser.behindSeparators stop) ∨
    ∃ s ss ts' us', p = s :: ss ∧ Joined stop ts' us' ∧ Parser.statements n ts' = .done ss rest ∧
      ∀ ss' rest', Parser.statements m us' = .done ss' rest' →
        Parser.statements (m + 1) us = .done (s :: ss') rest' := by
  -- either both lists are at the token that stops them, or both stand at the same kind of token
  rcases hjoined.behindSeparators with ⟨hend, hus⟩ | ⟨hkind, hsame, hbehind⟩
  · rw [statements_of_end hend] at h
    cases h
    exact .inl ⟨rfl, hus⟩
  · rw [statements_of_front hkind] at h
    obtain ⟨s, ts', hts', h⟩ := exists_of_bind h
    obtain ⟨ss, left, hss, h⟩ := exists_of_bind h
    cases h
    obtain ⟨us', hus', hnext⟩ := hs stop _ _ hstop hbehind trivial s ts' hts'
    refine .inr ⟨s, ss, ts', us', rfl, hnext, hss, fun ss' rest' hss' => ?_⟩
    rw [statements_of_front (hsame ▸ hkind), bind_of_done hus', bind_of_done hss']
    rfl

/-- Behind its separators a list gives the same statements. -/
theorem statements_of_behindSeparators {ts us : List Token}
    (h : behindSeparators ts = behindSeparators us) :
    Parser.statements (n + 1) ts = Parser.statements (n + 1) us := by
  by_cases hend : (front (behindSeparators us)).kind = .eof
  · rw [statements_of_end hend, statements_of_end (h ▸ hend), h]
  · rw [statements_of_front hend, statements_of_front (h ▸ hend), h]

/-- Of the end alone no statements are read. -/
theorem statements_singleton {t : Token} (ht : t.kind = .eof) :
    Parser.statements (n + 1) [t] = .done [] [t] := by
  have hbehind : behindSeparators [t] = [t] := by simp [behindSeparators, ht]
  rw [statements_of_end (hbehind.symm ▸ ht), hbehind]

/-- The statements of a whole text, at other places and with a larger budget. -/
theorem Simulates.succ_statements (ih : Simulates n m) {ts us rest : List Token} {z : Token}
    {p : Program} (hz : z.kind = .eof) (hjoined : Joined [z] ts us)
    (h : Parser.statements (n + 1) ts = .done p rest) :
    ∃ rest', Parser.statements (m + 1) us = .done p rest' := by
  have hstop : Stops [z] := by
    unfold Stops front
    rw [List.headD_cons, hz]
    rfl
  -- at the stop there are no more statements; before it both sides read one and go on
  rcases hjoined.statements_cases ih.statement hstop h with
    ⟨rfl, hus⟩ | ⟨s, ss, ts', us', rfl, hnext, hss, hjoin⟩
  · exact ⟨[z], (statements_of_behindSeparators hus).trans (statements_singleton hz)⟩
  · obtain ⟨rest', hss'⟩ := ih.statements ts' us' z ss rest hz hnext hss
    exact ⟨rest', hjoin ss rest' hss'⟩

/-- The tokens of a text, with something else for its end. -/
theorem joined_append {stop ts : List Token} {last : Token} (hts : ∀ t ∈ ts, t.kind ≠ .eof)
    (hlast : last.kind = .eof) : Joined stop (ts ++ [last]) (ts ++ stop) := by
  induction ts with
  | nil => exact .stop hlast
  | cons t ts ih =>
    rw [List.forall_mem_cons] at hts
    exact .cons ⟨rfl, rfl⟩ hts.1 (ih hts.2)

/-- The tokens of a text, at other places. -/
theorem joined_of_forall₂ {ts us : List Token} {last : Token} (hts : ∀ t ∈ ts, t.kind ≠ .eof)
    (hlast : last.kind = .eof) (h : List.Forall₂ Token.Alike (ts ++ [last]) us) :
    ∃ z, z.kind = .eof ∧ Joined [z] (ts ++ [last]) us := by
  induction ts generalizing us with
  | nil =>
    cases h with
    | @cons _ z _ _ hz hnil =>
      cases hnil
      -- `z` ends the other text: it is alike to `last`, so of the same kind
      exact ⟨z, hz.1.symm.trans hlast, .stop hlast⟩
  | cons t ts ih =>
    rw [List.forall_mem_cons] at hts
    cases h with
    | cons htu hrest =>
      obtain ⟨z, hz, hjoined⟩ := ih hts.2 hrest
      exact ⟨z, hz, .cons htu hts.1 hjoined⟩

/-- A text of its own is read the same with either budget. -/
theorem Simulates.statements_of_tokenize (ih : Simulates n m) {source : String}
    {own rest : List Token} {p : Program} (hown : tokenize source = .ok own)
    (h : Parser.statements n own = .done p rest) :
    ∃ rest', Parser.statements m own = .done p rest' := by
  obtain ⟨read, last, rfl, hlast, hread⟩ := exists_of_tokenize hown
  have hjoined : Joined [last] (read ++ [last]) (read ++ [last]) :=
    joined_append (fun t ht => (hread t ht).kind_ne_eof) hlast
  exact ih.statements _ _ last p rest hlast hjoined h

/-- The texts of markers are read apart, each with the budget at hand. -/
theorem Simulates.succ_holes (ih : Simulates n m) (p p' : Position) (inners : List String) :
    Follows (Parser.holes (n + 1) p inners) (Parser.holes (m + 1) p' inners) := by
  cases inners with
  | nil =>
    unfold Parser.holes
    exact followsAt_pure
  | cons inner inners =>
    rw [Parser.holes, Parser.holes]
    cases hown : tokenize (Template.unescape inner) with
    | error e =>
      change Follows (fail e) _
      exact followsAt_fail
    -- the text is read with the larger budget as with the smaller one
    | ok own =>
      have hwithin : Follows (within own (Parser.statements n))
          (within own (Parser.statements m)) :=
        follows_within fun q rest => ih.statements_of_tokenize hown
      change Follows (within own _ >>= _) (within own _ >>= _)
      refine FollowsAt.bind hwithin fun q => ?_
      split
      · exact FollowsAt.bind (ih.holes p p' inners) fun filled => followsAt_pure
      · exact followsAt_fail

/-- Without budget nothing is read, so there is nothing to follow. -/
theorem Simulates.zero (m : Nat) : Simulates 0 m where
  statement := by unfold Parser.statement; exact followsAt_exhausted
  block _ := by unfold Parser.block; exact followsAt_exhausted
  clauses := by unfold Parser.clauses; exact followsAt_exhausted
  expression := by unfold Parser.expression; exact followsAt_exhausted
  matching := by unfold Parser.matching; exact followsAt_exhausted
  declaration _ _ _ _ := by unfold Parser.declaration; exact followsAt_exhausted
  operators _ := by unfold Parser.operators; exact followsAt_exhausted
  operand _ := by unfold Parser.operand; exact followsAt_exhausted
  operations _ _ := by unfold Parser.operations; exact followsAt_exhausted
  negation := by unfold Parser.negation; exact followsAt_exhausted
  unary := by unfold Parser.unary; exact followsAt_exhausted
  suffixes _ := by unfold Parser.suffixes; exact followsAt_exhausted
  sequence _ _ := by unfold Parser.sequence; exact followsAt_exhausted
  entries := by unfold Parser.entries; exact followsAt_exhausted
  mapKey := by unfold Parser.mapKey; exact followsAt_exhausted
  primary := by unfold Parser.primary; exact followsAt_exhausted
  holes _ _ _ := by unfold Parser.holes; exact followsAt_exhausted
  statements _ _ _ _ _ _ _ h := by unfold Parser.statements at h; cases h

/-- **Every reader follows itself** when its budget is no smaller. -/
theorem simulates {n m : Nat} (h : n ≤ m) : Simulates n m := by
  induction n generalizing m with
  | zero => exact .zero m
  | succ n ih =>
    obtain ⟨m, rfl⟩ : ∃ k, m = k + 1 := ⟨m - 1, by omega⟩
    have ih := ih (Nat.le_of_succ_le_succ h)
    exact
      { statement := ih.succ_statement
        block := ih.succ_block
        clauses := ih.succ_clauses
        expression := ih.succ_expression
        matching := ih.succ_matching
        declaration := ih.succ_declaration
        operators := ih.succ_operators
        operand := ih.succ_operand
        operations := ih.succ_operations
        negation := ih.succ_negation
        unary := ih.succ_unary
        suffixes := ih.succ_suffixes
        sequence := ih.succ_sequence
        entries := ih.succ_entries
        mapKey := ih.succ_mapKey
        primary := ih.succ_primary
        holes := ih.succ_holes
        statements := fun _ _ _ _ _ => ih.succ_statements }

/-- **The statements of both lists.**  What is read from the first list comes before what is read
from the list that stops it. -/
theorem Joined.statements {stop ts us rest : List Token} {p q : Program} (hstop : Stops stop)
    (hjoined : Joined stop ts us) (hle : n ≤ m) (hp : Parser.statements n ts = .done p rest)
    (hq : ∀ k, m - n < k → ∃ rest', Parser.statements k stop = .done q rest') :
    ∃ rest', Parser.statements m us = .done (p ++ q) rest' := by
  induction n generalizing m ts us p with
  | zero =>
    unfold Parser.statements at hp
    cases hp
  | succ n ih =>
    obtain ⟨m, rfl⟩ : ∃ k, m = k + 1 := ⟨m - 1, by omega⟩
    have hle' : n ≤ m := Nat.le_of_succ_le_succ hle
    rcases hjoined.statements_cases (simulates hle').statement hstop hp with
      ⟨rfl, hus⟩ | ⟨s, ss, ts', us', rfl, hnext, hss, hjoin⟩
    -- the first text has come to its end; what is left is the text behind it
    · rw [statements_of_behindSeparators hus]
      exact hq (m + 1) (by omega)
    -- one statement of the first text, and the others after it
    · obtain ⟨rest', hdone⟩ := ih hnext hle' hss fun k hk => hq k (by omega)
      exact ⟨rest', hjoin _ rest' hdone⟩

end Parser

namespace Program

/-- The statements that are read from the tokens of a text are its program. -/
theorem parse_of_statements {source : String} {p : Program} {ts rest : List Token}
    (hts : tokenize source = .ok ts)
    (h : Parser.statements (Parser.budget source.length) ts = .done p rest) :
    Program.parse source = .ok p := by
  unfold Program.parse Program.read
  rw [hts]
  dsimp only
  rw [h]

/-- **The program of joined texts** has the statements of both, one after the other. -/
theorem parse_joined {s₁ s₂ : String} {p₁ p₂ : Program} (h₁ : Program.parse s₁ = .ok p₁)
    (h₂ : Program.parse s₂ = .ok p₂) : Program.parse (s₁ ++ "\n;\n" ++ s₂) = .ok (p₁ ++ p₂) := by
  obtain ⟨ts, rest, hts, hp₁⟩ := exists_of_parse h₁
  obtain ⟨us, rest', hus, hp₂⟩ := exists_of_parse h₂
  obtain ⟨read, last, rfl, hlast, hread⟩ := exists_of_tokenize hts
  obtain ⟨position, vs, hvs, hsame⟩ := tokenize_joined hts hus
  have hread' : ∀ t ∈ read, t.kind ≠ .eof := fun t ht => (hread t ht).kind_ne_eof
  have hjoined : Parser.Joined (⟨.semicolon, ";", position⟩ :: vs) (read ++ [last])
      (read ++ ⟨.semicolon, ";", position⟩ :: vs) := Parser.joined_append hread' hlast
  -- from the semicolon on the second text is read, with any budget that is enough for it
  have hq : ∀ k, Parser.budget s₂.length ≤ k → ∃ rest,
      Parser.statements k (⟨.semicolon, ";", position⟩ :: vs) = .done p₂ rest := by
    intro k hk
    obtain ⟨read₂, last₂, rfl, hlast₂, hread₂⟩ := exists_of_tokenize hus
    obtain ⟨z, hz, hagain⟩ :=
      Parser.joined_of_forall₂ (fun t ht => (hread₂ t ht).kind_ne_eof) hlast₂ hsame
    obtain ⟨rest, hrest⟩ := (Parser.simulates hk).statements _ vs z p₂ rest' hz hagain hp₂
    -- before the second text the semicolon is skipped
    obtain ⟨k, rfl⟩ : ∃ j, k = j + 1 := ⟨k - 1, by unfold Parser.budget at hk; omega⟩
    exact ⟨rest, (Parser.statements_of_behindSeparators rfl).trans hrest⟩
  have hlength : (s₁ ++ "\n;\n" ++ s₂).length = s₁.length + 3 + s₂.length := by
    simp only [String.length_append]
    rfl
  -- one budget is enough for both texts
  have hbudget : Parser.budget s₁.length + Parser.budget s₂.length ≤
      Parser.budget (s₁ ++ "\n;\n" ++ s₂).length := by
    rw [hlength]
    unfold Parser.budget
    omega
  obtain ⟨rest'', hdone⟩ := hjoined.statements (by rfl) (Nat.le_of_add_right_le hbudget) hp₁
    fun k hk => hq k (by omega)
  exact parse_of_statements hvs hdone

end Program

end AtomScript

import AtomScript.Proofs.Program.Indifference
import AtomScript.Proofs.Program.RoundTrip

/-!
# How much of the host's stack reading takes

Where a text is read on two hosts, one of which has more room, the reading goes the same way on
both, until the stack of the smaller one runs over (`Tracks`).  So there is, for every text, a least
room with which its reading does not run over; with this and any larger room it goes as if there
were no bound, and with any smaller one it runs over (`Program.exists_needed`).  A checked call
finds all of the room before it, so only calls that do not check add up; there are never more of
them than calls at all, and a room for the whole budget is enough.

No room is enough for every text.  In a chain `a = a = … = a` each `=` takes one more unchecked
call, although the chain is short for its tokens and is a program (`Program.read_chain`).

* `Parser.tracks` — the readers on two hosts, by induction on the budget;
* `Program.exists_needed` — what a text needs;
* `Program.read_chain` — texts that need as much as one likes.
-/

namespace AtomScript

/-! ### Room -/

/-- There is no more room on the first side than on the second. -/
def HostStack.AtMost : Option Nat → Option Nat → Prop
  | _, none => True
  | none, some _ => False
  | some k, some l => k ≤ l

namespace Parser

open HostStack (AtMost)

variable {α β : Type}

/-- On any tokens, the first reader does as the second one, or the stack runs over; if there is
ample room, it does not. -/
def Tracks (ample : Prop) (x y : Parser α) : Prop :=
  ∀ ts, x ts = y ts ∨ ¬ ample ∧ x ts = .overflowed

variable {ample : Prop} {x y : Parser α} {f g : α → Parser β}

/-- A parser tracks itself. -/
theorem Tracks.refl (x : Parser α) : Tracks ample x x := fun _ => .inl rfl

/-- **One after the other.**  What the second reader is, depends on a result of the first that is
the same on both hosts. -/
theorem Tracks.bind (hx : Tracks ample x y) (hf : ∀ a, Tracks ample (f a) (g a)) :
    Tracks ample (x >>= f) (y >>= g) := by
  intro ts
  change Parser.bind x f ts = Parser.bind y g ts ∨ ¬ ample ∧ Parser.bind x f ts = .overflowed
  unfold Parser.bind
  -- either the first part agrees, and what follows gets one value, or the overflow is the answer
  rcases hx ts with heq | ⟨hample, hover⟩
  · rw [heq]
    cases y ts with
    | done a rest => exact hf a rest
    | refused e => exact .inl rfl
    | exhausted => exact .inl rfl
    | overflowed => exact .inl rfl
  · rw [hover]
    exact .inr ⟨hample, rfl⟩

/-- The same is read first on both hosts. -/
theorem Tracks.after {z : Parser α} (hf : ∀ a, Tracks ample (f a) (g a)) :
    Tracks ample (z >>= f) (z >>= g) :=
  .bind (.refl z) hf

/-- A parse of tokens of its own tracks if the parsers do. -/
theorem Tracks.within {own : List Token} (h : Tracks ample x y) :
    Tracks ample (within own x) (within own y) := by
  intro ts
  unfold Parser.within
  rcases h own with heq | ⟨hample, hover⟩
  · rw [heq]
    exact .inl rfl
  · rw [hover]
    exact .inr ⟨hample, rfl⟩

/-- An unchecked call leaves room for one call less. -/
theorem Tracks.unchecked {n : Nat} {room room' : Option Nat} {x y : Option Nat → Parser α}
    (hle : AtMost room room') (hroom : ample → AtMost (some (n + 1)) room)
    (h : ∀ {l l'}, AtMost l l' → (ample → AtMost (some n) l) → Tracks ample (x l) (y l')) :
    Tracks ample (unchecked room x) (unchecked room' y) := by
  cases room with
  | none =>
    cases room' with
    | none => exact h hle fun _ => trivial
    | some l' => exact hle.elim
  | some l =>
    cases l with
    | zero =>
      -- with no room left the call runs over
      have hshort : ¬ ample := fun hample => Nat.not_succ_le_zero n (hroom hample)
      exact fun _ => .inr ⟨hshort, rfl⟩
    | succ l =>
      have hless : ample → AtMost (some n) (some l) := fun hample =>
        Nat.le_of_succ_le_succ (hroom hample)
      cases room' with
      | none => exact h trivial hless
      | some l' =>
        obtain ⟨l', rfl⟩ : ∃ k, l' = k + 1 := Nat.exists_eq_succ_of_ne_zero fun hzero => by
          subst hzero
          exact Nat.not_succ_le_zero l hle
        exact h (Nat.le_of_succ_le_succ hle) hless

/-! ### The readers of the grammar -/

/-- With the budget `n`, each reader on the host `small` tracks itself on the host `large`.  The two
that do not check the stack are given what is left of the room, which is ample for the calls that
the budget allows. -/
structure Tracking (ample : Prop) (small large : HostStack) (n : Nat) : Prop where
  statement : Tracks ample (@statement small n) (@statement large n)
  block : ∀ inConditional,
    Tracks ample (@block small n inConditional) (@block large n inConditional)
  clauses : Tracks ample (@clauses small n) (@clauses large n)
  expression : Tracks ample (@expression small n) (@expression large n)
  matching : ∀ {l l'}, AtMost l l' → (ample → AtMost (some n) l) →
    Tracks ample (@matching small n l) (@matching large n l')
  declaration : ∀ {l l'}, AtMost l l' → (ample → AtMost (some n) l) →
    Tracks ample (@declaration small n l) (@declaration large n l')
  operators : ∀ level, Tracks ample (@operators small n level) (@operators large n level)
  operand : ∀ level, Tracks ample (@operand small n level) (@operand large n level)
  operations : ∀ level left,
    Tracks ample (@operations small n level left) (@operations large n level left)
  negation : Tracks ample (@negation small n) (@negation large n)
  unary : Tracks ample (@unary small n) (@unary large n)
  suffixes : ∀ e, Tracks ample (@suffixes small n e) (@suffixes large n e)
  sequence : ∀ close, Tracks ample (@sequence small n close) (@sequence large n close)
  entries : Tracks ample (@entries small n) (@entries large n)
  mapKey : Tracks ample (@mapKey small n) (@mapKey large n)
  primary : Tracks ample (@primary small n) (@primary large n)
  holes : ∀ p inners, Tracks ample (@holes small n p inners) (@holes large n p inners)
  statements : Tracks ample (@statements small n) (@statements large n)

variable {small large : HostStack} {n : Nat}

/-- A statement, from one unit of budget less. -/
theorem Tracking.succ_statement (ih : Tracking ample small large n) :
    Tracks ample (@Parser.statement small (n + 1)) (@Parser.statement large (n + 1)) := by
  unfold Parser.statement
  refine .after fun kind => ?_
  split
  · refine .after fun _ => .bind ih.expression fun condition => .after fun _ => ?_
    refine .bind (ih.block true) fun body => ?_
    exact .bind ih.clauses fun _ => .refl _
  · refine .after fun _ => .after fun name => .after fun _ => .after fun params => ?_
    refine .after fun _ => .after fun _ => .bind (ih.block false) fun body => ?_
    exact .refl _
  · refine .after fun _ => .after fun kind => ?_
    split
    · exact .refl _
    · exact .bind ih.expression fun _ => .refl _
  · refine .after fun _ => .bind ih.expression fun condition => .after fun _ => ?_
    exact .bind (ih.block false) fun body => .refl _
  · exact .refl _
  · exact .refl _
  · exact .bind ih.expression fun _ => .refl _

/-- The body of a block, from one unit of budget less. -/
theorem Tracking.succ_block (ih : Tracking ample small large n) (inConditional : Bool) :
    Tracks ample (@Parser.block small (n + 1) inConditional)
      (@Parser.block large (n + 1) inConditional) := by
  unfold Parser.block
  refine .after fun _ => .after fun kind => ?_
  split
  · exact .refl _
  · split
    · exact .refl _
    · refine .bind ih.statement fun first => ?_
      exact .bind (ih.block inConditional) fun _ => .refl _

/-- The later clauses of a conditional, from one unit of budget less. -/
theorem Tracking.succ_clauses (ih : Tracking ample small large n) :
    Tracks ample (@Parser.clauses small (n + 1)) (@Parser.clauses large (n + 1)) := by
  unfold Parser.clauses
  refine .after fun elif => ?_
  split
  · refine .bind ih.expression fun condition => .after fun _ => ?_
    refine .bind (ih.block true) fun body => ?_
    exact .bind ih.clauses fun _ => .refl _
  · refine .after fun otherwise => ?_
    split
    · exact .after fun _ => .bind (ih.block false) fun body => .refl _
    · exact .refl _

/-- A checked call has all of the room before it. -/
theorem Tracking.succ_expression (ih : Tracking ample small large n)
    (hle : AtMost small.room large.room) (hroom : ample → AtMost (some n) small.room) :
    Tracks ample (@Parser.expression small (n + 1)) (@Parser.expression large (n + 1)) := by
  unfold Parser.expression
  exact ih.matching hle hroom

/-- An assignment or a declaration. This is the one place, with the next, where room is used up. -/
theorem Tracking.succ_matching (ih : Tracking ample small large n) {l l' : Option Nat}
    (hle : AtMost l l') (hroom : ample → AtMost (some (n + 1)) l) :
    Tracks ample (@Parser.matching small (n + 1) l) (@Parser.matching large (n + 1) l') := by
  unfold Parser.matching
  refine .after fun kind => ?_
  split
  · exact .unchecked hle hroom ih.declaration
  · refine .bind (ih.operators .or) fun left => .after fun assigned => ?_
    split
    · exact .bind (.unchecked hle hroom ih.matching) fun _ => .refl _
    · exact .refl _

/-- A declaration behind its word, which uses up room too. -/
theorem Tracking.succ_declaration (ih : Tracking ample small large n) {l l' : Option Nat}
    (hle : AtMost l l') (hroom : ample → AtMost (some (n + 1)) l) :
    Tracks ample (@Parser.declaration small (n + 1) l)
      (@Parser.declaration large (n + 1) l') := by
  unfold Parser.declaration
  refine .after fun _ => .after fun name => .after fun _ => ?_
  exact .bind (.unchecked hle hroom ih.matching) fun _ => .refl _

/-- A level of operators, from one unit of budget less. -/
theorem Tracking.succ_operators (ih : Tracking ample small large n) (level : Level) :
    Tracks ample (@Parser.operators small (n + 1) level)
      (@Parser.operators large (n + 1) level) := by
  unfold Parser.operators
  exact .bind (ih.operand level) fun first => ih.operations level first

/-- The operand of a level, from one unit of budget less. -/
theorem Tracking.succ_operand (ih : Tracking ample small large n) (level : Level) :
    Tracks ample (@Parser.operand small (n + 1) level)
      (@Parser.operand large (n + 1) level) := by
  unfold Parser.operand
  cases level with
  | or => exact ih.operators .and
  | and => exact ih.negation
  | comparison => exact ih.operators .sum
  | sum => exact ih.operators .product
  | product => exact ih.unary

/-- The operators that follow an operand, from one unit of budget less. -/
theorem Tracking.succ_operations (ih : Tracking ample small large n) (level : Level)
    (left : Expr) :
    Tracks ample (@Parser.operations small (n + 1) level left)
      (@Parser.operations large (n + 1) level left) := by
  unfold Parser.operations
  refine .after fun t => ?_
  split
  · refine .after fun t => .after fun op => .bind (ih.operand level) fun right => ?_
    exact ih.operations level _
  · exact .refl _

/-- A negation, from one unit of budget less. -/
theorem Tracking.succ_negation (ih : Tracking ample small large n) :
    Tracks ample (@Parser.negation small (n + 1)) (@Parser.negation large (n + 1)) := by
  unfold Parser.negation
  refine .after fun negated => ?_
  split
  · exact .bind ih.negation fun _ => .refl _
  · exact ih.operators .comparison

/-- A sign, from one unit of budget less. -/
theorem Tracking.succ_unary (ih : Tracking ample small large n) :
    Tracks ample (@Parser.unary small (n + 1)) (@Parser.unary large (n + 1)) := by
  unfold Parser.unary
  refine .after fun minus => ?_
  split
  · exact .bind ih.unary fun _ => .refl _
  · exact .bind ih.primary fun first => ih.suffixes first

/-- The calls and accesses behind an operand, from one unit of budget less. -/
theorem Tracking.succ_suffixes (ih : Tracking ample small large n) (e : Expr) :
    Tracks ample (@Parser.suffixes small (n + 1) e) (@Parser.suffixes large (n + 1) e) := by
  unfold Parser.suffixes
  refine .after fun call => ?_
  split
  · refine .bind (ih.sequence _) fun args => .after fun _ => ?_
    exact ih.suffixes _
  · refine .after fun dot => ?_
    split
    · exact .after fun name => ih.suffixes _
    · refine .after fun index => ?_
      split
      · refine .bind ih.expression fun property => .after fun _ => ?_
        exact ih.suffixes _
      · exact .refl _

/-- The expressions between two brackets, from one unit of budget less. -/
theorem Tracking.succ_sequence (ih : Tracking ample small large n) (close : TokenKind) :
    Tracks ample (@Parser.sequence small (n + 1) close)
      (@Parser.sequence large (n + 1) close) := by
  unfold Parser.sequence
  refine .after fun kind => ?_
  split
  · exact .refl _
  · refine .bind ih.expression fun first => .after fun more => ?_
    split
    · exact .bind (ih.sequence close) fun _ => .refl _
    · exact .refl _

/-- The entries of a map, from one unit of budget less. -/
theorem Tracking.succ_entries (ih : Tracking ample small large n) :
    Tracks ample (@Parser.entries small (n + 1)) (@Parser.entries large (n + 1)) := by
  unfold Parser.entries
  refine .after fun kind => ?_
  split
  · exact .refl _
  · refine .bind ih.mapKey fun key => .bind ih.expression fun value => .after fun more => ?_
    split
    · exact .bind ih.entries fun _ => .refl _
    · exact .refl _

/-- The key of an entry, from one unit of budget less. -/
theorem Tracking.succ_mapKey (ih : Tracking ample small large n) :
    Tracks ample (@Parser.mapKey small (n + 1)) (@Parser.mapKey large (n + 1)) := by
  unfold Parser.mapKey
  refine .after fun kind => .after fun second => ?_
  split
  · exact .refl _
  · exact .bind ih.expression fun key => .refl _

/-- A closed expression, from one unit of budget less. -/
theorem Tracking.succ_primary (ih : Tracking ample small large n) :
    Tracks ample (@Parser.primary small (n + 1)) (@Parser.primary large (n + 1)) := by
  unfold Parser.primary
  refine .after fun kind => ?_
  split
  -- names, numerals and atoms read no expression, so the stack does not matter to them
  · exact .refl _
  · exact .refl _
  · exact .refl _
  · refine .after fun t => ?_
    split
    · exact .refl _
    · exact .bind (ih.holes _ _) fun _ => .refl _
  · exact .after fun _ => .bind ih.expression fun _ => .refl _
  · exact .after fun _ => .bind (ih.sequence _) fun _ => .refl _
  · exact .after fun _ => .bind (ih.sequence _) fun _ => .refl _
  · exact .after fun _ => .bind ih.entries fun _ => .refl _
  -- with or without parentheses around the parameters, what follows is the same
  · have hbody (params : List String) : Tracks ample
        (do let _ ← expect .lambdaArrow
            let body ← @Parser.expression small n
            let _ ← expect .endOfLambda
            return Expr.lambda params body)
        (do let _ ← expect .lambdaArrow
            let body ← @Parser.expression large n
            let _ ← expect .endOfLambda
            return Expr.lambda params body) :=
      .after fun _ => .bind ih.expression fun _ => .refl _
    refine .after fun _ => .after fun parens => ?_
    split
    · exact .after fun _ => .after fun _ => hbody _
    · exact .after fun params => hbody params
  · exact .refl _

/-- The holes of a string, from one unit of budget less. -/
theorem Tracking.succ_holes (ih : Tracking ample small large n) (p : Position)
    (inners : List String) :
    Tracks ample (@Parser.holes small (n + 1) p inners)
      (@Parser.holes large (n + 1) p inners) := by
  cases inners with
  | nil =>
    unfold Parser.holes
    exact .refl _
  | cons inner inners =>
    unfold Parser.holes
    -- the tokens of a hole do not depend on the stack
    split
    · refine .after fun own => .bind (.within ih.statements) fun stmts => ?_
      split
      · exact .bind (ih.holes p inners) fun _ => .refl _
      · exact .refl _
    · exact .refl _

/-- A row of statements, from one unit of budget less. -/
theorem Tracking.succ_statements (ih : Tracking ample small large n) :
    Tracks ample (@Parser.statements small (n + 1)) (@Parser.statements large (n + 1)) := by
  unfold Parser.statements
  refine .after fun _ => .after fun kind => ?_
  split
  · exact .refl _
  · exact .bind ih.statement fun first => .bind ih.statements fun _ => .refl _

/-- With no budget both hosts have spent it. -/
theorem Tracking.zero : Tracking ample small large 0 where
  statement := .refl _
  block _ := .refl _
  clauses := .refl _
  expression := .refl _
  matching _ _ := .refl _
  declaration _ _ := .refl _
  operators _ := .refl _
  operand _ := .refl _
  operations _ _ := .refl _
  negation := .refl _
  unary := .refl _
  suffixes _ := .refl _
  sequence _ := .refl _
  entries := .refl _
  mapKey := .refl _
  primary := .refl _
  holes _ _ := .refl _
  statements := .refl _

/-- **Two hosts**, by induction on the budget. -/
theorem tracks (hle : AtMost small.room large.room) (n : Nat)
    (hroom : ample → AtMost (some n) small.room) : Tracking ample small large n := by
  induction n with
  | zero => exact .zero
  | succ n ih =>
    -- a room that is ample for a budget is so for every smaller one
    have hless : ample → AtMost (some n) small.room := fun hample => by
      have hmore := hroom hample
      cases hsmall : small.room with
      | none => trivial
      | some k =>
        rw [hsmall] at hmore
        exact Nat.le_of_succ_le hmore
    have ih := ih hless
    exact
      { statement := ih.succ_statement
        block := ih.succ_block
        clauses := ih.succ_clauses
        expression := ih.succ_expression hle hless
        matching := ih.succ_matching
        declaration := ih.succ_declaration
        operators := ih.succ_operators
        operand := ih.succ_operand
        operations := ih.succ_operations
        negation := ih.succ_negation
        unary := ih.succ_unary
        suffixes := ih.succ_suffixes
        sequence := ih.succ_sequence
        entries := ih.succ_entries
        mapKey := ih.succ_mapKey
        primary := ih.succ_primary
        holes := ih.succ_holes
        statements := ih.succ_statements }

end Parser

/-! ### What a text needs -/

namespace Program

open HostStack (AtMost)

/-- Reads a program on a host with the given room. -/
def readWithin (room : Nat) (source : String) : Parsed Program :=
  @Program.read ⟨some room⟩ source

/-- On a larger host stack a text is read alike, or the smaller one overflows. -/
theorem read_tracks (ample : Prop) (small large : HostStack) (source : String)
    (hle : AtMost small.room large.room)
    (hroom : ample → AtMost (some (Parser.budget source.length)) small.room) :
    @Program.read small source = @Program.read large source ∨
      ¬ ample ∧ @Program.read small source = .overflowed := by
  unfold Program.read
  cases tokenize source with
  | error e => exact .inl rfl
  | ok ts => exact (Parser.tracks hle _ hroom).statements ts

/-- Without a bound no stack runs over. -/
theorem read_ne_overflowed (source : String) : Program.read source ≠ .overflowed := by
  intro hover
  have hanswer := answer_read source
  rw [hover] at hanswer
  cases hanswer

/-- A room as large as the budget is enough. -/
theorem readWithin_budget (source : String) :
    readWithin (Parser.budget source.length) source = Program.read source := by
  rcases read_tracks True ⟨some (Parser.budget source.length)⟩ .boundless source trivial
    fun _ => Nat.le_refl _ with heq | ⟨hample, -⟩
  · exact heq
  · exact absurd trivial hample

/-- **Every text needs some room**, which is not more than its budget: with less the stack runs
over, and with as much or more the text is read as it is without a bound. -/
theorem exists_needed (source : String) :
    ∃ needed, needed ≤ Parser.budget source.length ∧
      (∀ room, needed ≤ room → readWithin room source = Program.read source) ∧
      ∀ room, room < needed → readWithin room source = .overflowed := by
  classical
  have hunbounded : ∀ room, readWithin room source = Program.read source ∨
      readWithin room source = .overflowed := fun room =>
    (read_tracks False ⟨some room⟩ .boundless source trivial False.elim).imp_right And.right
  have hmore : ∀ {room room'}, room ≤ room' → readWithin room source ≠ .overflowed →
      readWithin room source = readWithin room' source := fun hle hne =>
    (read_tracks False ⟨some _⟩ ⟨some _⟩ source hle False.elim).resolve_right
      fun hover => hne hover.2
  have hexists : ∃ room, readWithin room source ≠ .overflowed := by
    refine ⟨Parser.budget source.length, ?_⟩
    rw [readWithin_budget]
    exact read_ne_overflowed source
  -- the least room with which the stack does not run over
  refine ⟨Nat.find hexists, ?_, fun room hroom => ?_, fun room hroom => ?_⟩
  · refine Nat.find_min' hexists ?_
    rw [readWithin_budget]
    exact read_ne_overflowed source
  · have hne : readWithin room source ≠ .overflowed := by
      rw [← hmore hroom (Nat.find_spec hexists)]
      exact Nat.find_spec hexists
    exact (hunbounded room).resolve_right hne
  · exact not_not.1 (Nat.find_min hexists hroom)

end Program

/-! ### Chains of bindings -/

/-- The binding `a = a = … = a`, with the given number of `=`. -/
def Expr.chain : Nat → Expr
  | 0 => .identifier "a"
  | k + 1 => .bind (.identifier "a") (chain k)

namespace Parser

/-- The tokens start with so many names that have `=` behind them. -/
inductive Chained : Nat → List Token → Prop where
  | zero {ts : List Token} : Chained 0 ts
  | succ {k : Nat} {t u : Token} {ts : List Token} : t.kind = .identifier → u.kind = .assign →
    Chained k ts → Chained (k + 1) (t :: u :: ts)

/-- The tokens of a printed chain form a chain, whatever their positions. -/
theorem chained_of_alike {k : Nat} {rest us : List Token}
    (h : List.Forall₂ Token.Alike ((Expr.chain k).tokens ++ rest) us) : Chained k us := by
  induction k generalizing us with
  | zero => exact .zero
  | succ k ih =>
    cases h with
    | cons hname h =>
      cases h with
      | cons hassign h => exact .succ hname.1.symm hassign.1.symm (ih h)

variable {α β : Type} {n k l : Nat} {ts us : List Token}

/-- What follows an overflow is not reached. -/
theorem bind_of_overflowed {x : Parser α} {f : α → Parser β} (h : x ts = .overflowed) :
    (x >>= f) ts = .overflowed := by
  change Parser.bind x f ts = _
  unfold Parser.bind
  rw [h]

/-- A name is a whole operation, if `=` follows. -/
theorem operators_of_name [HostStack] {t u : Token} (ht : t.kind = .identifier)
    (hu : u.kind = .assign) :
    operators (n + 13) .or (t :: u :: ts) = .done (.identifier t.text) (u :: ts) := by
  have hfront : ∀ kind, kind ≠ .identifier → (front (t :: u :: ts)).kind ≠ kind :=
    fun kind hkind heq => hkind (heq.symm.trans ht)
  have hrest : ∀ kind, kind ≠ .assign → (front (u :: ts)).kind ≠ kind :=
    fun kind hkind heq => hkind (heq.symm.trans hu)
  -- no operator is spelled with one `=`, so every level stops there
  have hstop : ∀ level : Level, level.holds (front (u :: ts)) = false := by
    intro level
    have hu : (front (u :: ts)).kind = .assign := hu
    cases level <;> (unfold Level.holds; rw [hu]; rfl)
  have hsuffixes : suffixes (n + 1) (.identifier t.text) (u :: ts) =
      .done (.identifier t.text) (u :: ts) :=
    suffixes_of_end (hrest _ (by decide)) (hrest _ (by decide)) (hrest _ (by decide))
  have hunary : unary (n + 2) (t :: u :: ts) = .done (.identifier t.text) (u :: ts) :=
    unary_of_primary (hfront _ (by decide)) (primary_name ht) hsuffixes
  have hoperand : operand (n + 2 + Level.or.height) .or (t :: u :: ts) =
      .done (.identifier t.text) (u :: ts) :=
    operand_of_unary hunary (hfront _ (by decide)) fun level _ => hstop level
  exact operators_of_operand hoperand (hstop .or)

/-- A name before `=` is an assignment, whose value is read without a check of the stack. -/
theorem matching_of_name [HostStack] {room : Option Nat} {t u : Token} (ht : t.kind = .identifier)
    (hu : u.kind = .assign) :
    matching (n + 14) room (t :: u :: ts) =
      (unchecked room (matching (n + 13)) >>= fun value =>
        pure (.bind (.identifier t.text) value)) ts := by
  have hlet : (front (t :: u :: ts)).kind ≠ .keyword .letWord :=
    fun heq => nomatch ht.symm.trans heq
  rw [matching, peekKind_bind, if_neg hlet, bind_of_done (operators_of_name ht hu),
    accept_bind_of_eq hu]
  rfl

/-- **Each `=` takes an unchecked call**, so a chain that is longer than the room runs over. -/
theorem matching_chained [HostStack] (hn : l ≤ n) (h : Chained (l + 1) ts) :
    matching (n + 14) (some l) ts = .overflowed := by
  induction l generalizing n ts with
  | zero =>
    cases h with
    -- the last call has no room for one more
    | succ ht hu _ =>
      rw [matching_of_name ht hu]
      rfl
  | succ l ih =>
    obtain ⟨n, rfl⟩ := Nat.exists_eq_add_of_le' hn
    cases h with
    | succ ht hu hmore =>
      rw [matching_of_name ht hu]
      exact bind_of_overflowed (ih (Nat.le_add_left l n) hmore)

/-- A chain longer than the room of the host overflows its stack. -/
theorem statements_chained (host : HostStack) (hroom : host.room = some l) (hn : l ≤ n)
    (h : Chained (l + 1) ts) : statements (n + 17) ts = .overflowed := by
  -- an expression starts with the room of the host
  have hexpression : expression (n + 15) ts = .overflowed := by
    rw [expression, hroom]
    exact matching_chained hn h
  cases h with
  | @succ _ t u ts ht hu hmore =>
    have hfront : (front (t :: u :: ts)).kind = .identifier := ht
    have hbehind : behindSeparators (t :: u :: ts) = t :: u :: ts :=
      behindSeparators_of_ne (by rw [hfront]; decide)
    have hstatement : statement (n + 16) (t :: u :: ts) = .overflowed := by
      rw [statement, peekKind_bind, hfront]
      exact bind_of_overflowed hexpression
    rw [statements_of_front (by rw [hbehind, hfront]; decide), hbehind]
    exact bind_of_overflowed hstatement

end Parser

namespace Expr

/-- A chain of assignments is an expression that prints without ambiguity. -/
theorem unambiguous_chain (k : Nat) : Unambiguous .whole (chain k) := by
  have hfront : Lexer.front none "a".toList = .token .identifier "a".toList [] := by decide +kernel
  have hname : Unambiguous .negation (.identifier "a") :=
    .closed (.identifier (Lexer.lexeme_of_front hfront))
  induction k with
  | zero => exact .negation hname
  | succ k ih => exact .bind hname ih

/-- A chain has two tokens for each assignment, and one more. -/
theorem length_tokens_chain (k : Nat) : (chain k).tokens.length = 2 * k + 1 := by
  induction k with
  | zero => rfl
  | succ k ih =>
    have hcons : (chain (k + 1)).tokens.length = (chain k).tokens.length + 2 := rfl
    rw [hcons, ih]
    omega

end Expr

/-- **No room is enough for every text.**  The chain with one `=` more than there is room is an
expression, and the stack runs over when it is read. -/
theorem Program.read_chain (room : Nat) :
    Program.parse (Expr.chain (room + 1)).print = .ok [.expression (.chain (room + 1))] ∧
      readWithin room (Expr.chain (room + 1)).print = .overflowed := by
  have hchain := Expr.unambiguous_chain (room + 1)
  obtain ⟨us, hus, halike⟩ := hchain.tokenize_print
  -- the budget grows with the text, and the text has a character for each token
  have hlength : 2 * (room + 1) + 1 + 1 ≤ (Expr.chain (room + 1)).print.length + 1 := by
    have hle := Lexer.Cursor.length_tokens_le hus
    rw [← halike.length_eq, List.length_append, Expr.length_tokens_chain] at hle
    exact hle
  refine ⟨hchain.parse_program, ?_⟩
  obtain ⟨n, hn⟩ : ∃ n, Parser.budget (Expr.chain (room + 1)).print.length = n + 17 :=
    Nat.exists_eq_add_of_le' (by unfold Parser.budget; omega)
  unfold readWithin Program.read
  rw [hus]
  change @Parser.statements ⟨some room⟩ (Parser.budget _) us = _
  rw [hn]
  refine Parser.statements_chained ⟨some room⟩ rfl ?_ (Parser.chained_of_alike halike)
  unfold Parser.budget at hn
  omega

end AtomScript

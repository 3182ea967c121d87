import AtomScript.Proofs.Program.Soundness
import AtomScript.Proofs.Token.Layout

/-!
# What readers refuse

Whatever refuses a text is a syntax error, also when it comes from the text in a marker, because the
lexer and the readers raise no others.

A reader takes a token for an operator only when its kind, and for the operators that share a kind
its text, is that of an operator.  Every such token writes an operator (`exists_op_of_holds`), so
the readers never meet an operator they do not know, whatever text the tokens come from.

`Versed x` says this of a reader: what it refuses its tokens for is a syntax error other than an
unknown operator, and the tokens it leaves are again tokens of a text.  There is a rule for each
primitive reader and one for reading one thing after another; the readers of the grammar follow by
induction on the budget.
-/

namespace AtomScript

/-- The error is that an operator is not known. -/
def Error.isUnknownOperator : Error → Bool
  | unknownOperator .. => true
  | _ => false

/-- The error is one that a text is refused for: a syntax error, but not that an operator is not
known. -/
def Error.isRefusal : Error → Bool
  | unrecognized .. | unterminatedString .. | unexpected .. | unclosedMarker ..
  | markerNotExpression .. | notOneExpression => true
  | _ => false

/-- Of the syntax errors, the unknown operator is the one that no text is refused for. -/
theorem Error.isRefusal_iff (e : Error) :
    e.isRefusal = true ↔ e.isSyntaxError = true ∧ e.isUnknownOperator = false := by
  cases e <;> simp [isRefusal, isUnknownOperator, isSyntaxError, category]

/-- The errors of the lexer are such. -/
theorem isRefusal_of_tokenize {source : String} {e : Error} (h : tokenize source = .error e) :
    e.isRefusal = true := by
  have hat := (tokenize_laid source).2 e h
  -- the lexer says where each of its errors stands, and it has two
  cases e with
  | unrecognized c p => rfl
  | unterminatedString p => rfl
  | _ => exact False.elim hat

namespace Parser

variable {α β : Type}

/-- What may come of reading: tokens that are left are written as their kinds demand, and a refusal
has its reason in the text. -/
def Parsed.Versed : Parsed α → Prop
  | .done _ rest => ∀ t ∈ rest, t.Spelled
  | .refused e => e.isRefusal = true
  | .exhausted | .overflowed => True

/-- On the tokens of a text whose first satisfies `P`, the reader knows every operator, and refuses
with syntax errors only. -/
def VersedAt (P : Token → Prop) (x : Parser α) : Prop :=
  ∀ ts, P (front ts) → (∀ t ∈ ts, t.Spelled) → Parsed.Versed (x ts)

/-- On the tokens of a text, the reader knows every operator. -/
def Versed (x : Parser α) : Prop := VersedAt (fun _ => True) x

variable {P : Token → Prop} {x : Parser α} {f : α → Parser β}

/-- What a reader knows on all tokens it knows on those with a certain one in front. -/
theorem Versed.at (h : Versed x) : VersedAt P x := fun ts _ hts => h ts trivial hts

/-! ### Putting readers together -/

/-- A result leaves the tokens as they are. -/
theorem versedAt_pure {a : α} : VersedAt P (pure a) := fun _ _ hts => hts

/-- A failure with an error of the text. -/
theorem versedAt_fail {e : Error} (he : e.isRefusal = true) :
    VersedAt P (fail e : Parser α) := fun _ _ _ => he

/-- Without budget nothing is said of the tokens. -/
theorem versedAt_exhausted : VersedAt P (exhausted : Parser α) := fun _ _ _ => trivial

/-- That another token stands in front is an error of the text. -/
theorem versedAt_refuse {wanted : Expectation} : VersedAt P (refuse wanted : Parser α) :=
  fun _ _ _ => rfl

/-- **One after the other.** -/
theorem VersedAt.bind (hx : VersedAt P x) (hf : ∀ a, Versed (f a)) : VersedAt P (x >>= f) := by
  intro ts hP hts
  have hxts := hx ts hP hts
  change Parsed.Versed (Parser.bind x f ts)
  unfold Parser.bind
  -- the second reader sees the tokens that the first has left
  cases h : x ts with
  | done a rest =>
    rw [h] at hxts
    exact hf a rest trivial hxts
  | refused e =>
    rw [h] at hxts
    exact hxts
  | exhausted => trivial
  | overflowed => trivial

/-- A look at the front token: what follows knows which one it is. -/
theorem versed_peek_bind {g : Token → Parser β} (h : ∀ t, VersedAt (· = t) (g t)) :
    Versed (peek >>= g) :=
  fun ts _ hts => h (front ts) ts rfl hts

/-- A look at its kind: what follows knows which token it is. -/
theorem versed_peekKind_bind {g : TokenKind → Parser β} (h : ∀ t, VersedAt (· = t) (g t.kind)) :
    Versed (peekKind >>= g) :=
  fun ts _ hts => h (front ts) ts rfl hts

/-- Taking a token leaves tokens of the text. -/
theorem versedAt_advance : VersedAt P advance := by
  intro ts _ hts t ht
  exact hts t (List.mem_of_mem_tail ht)

/-- The front token has been looked at, and is now taken. -/
theorem versedAt_advance_bind {t : Token} {g : Token → Parser β}
    (h : t.Spelled → Versed (g t)) (ht : t.kind ≠ .eof) : VersedAt (· = t) (advance >>= g) := by
  intro ts hfront hts
  obtain ⟨us, rfl⟩ := eq_cons_of_front hfront ht
  rw [List.forall_mem_cons] at hts
  exact h hts.1 us trivial hts.2

/-- A token is taken or left. -/
theorem versed_accept (kind : TokenKind) : Versed (accept kind) := by
  refine versed_peekKind_bind fun t => ?_
  split
  · exact versedAt_advance.bind fun _ => versedAt_pure
  · exact versedAt_pure

/-- What follows depends on whether the front token was taken. -/
theorem versed_accept_bind {kind : TokenKind} {g : Bool → Parser β} (htrue : Versed (g true))
    (hfalse : Versed (g false)) : Versed (accept kind >>= g) := by
  refine VersedAt.bind (versed_accept kind) fun b => ?_
  cases b with
  | true => exact htrue
  | false => exact hfalse

/-- A token is taken, or the text is refused for another one. -/
theorem versed_expect (wanted : Expectation) : Versed (expect wanted) := by
  refine versed_peekKind_bind fun t => ?_
  split
  · exact versedAt_advance
  · exact versedAt_refuse

/-- Separators are passed over. -/
theorem versed_skipSeparators : Versed skipSeparators := by
  intro ts _ hts t ht
  exact hts t ((List.dropWhile_sublist _).subset ht)

/-- The names of parameters are taken, or refused. -/
theorem versed_parameters (close : TokenKind) : Versed (parameters close) := by
  intro ts _ hts
  -- one case for each way through the names
  fun_induction parameters close ts with
  | case1 => rfl
  | case2 t ts hclose => exact hts
  | case3 t _ hname => exact fun u hu => absurd hu List.not_mem_nil
  | case4 t _ hname comma us hcomma names rest heq ih =>
    have hus := (List.forall_mem_cons.1 (List.forall_mem_cons.1 hts).2).2
    have hrest := ih hus
    rw [heq] at hrest
    exact hrest
  | case5 t _ hname comma us hcomma e heq ih =>
    have hus := (List.forall_mem_cons.1 (List.forall_mem_cons.1 hts).2).2
    have hrest := ih hus
    rw [heq] at hrest
    exact hrest
  | case6 => trivial
  | case7 => trivial
  | case8 t hclose hname u us hcomma => exact (List.forall_mem_cons.1 hts).2
  | case9 => rfl

/-- A token that has been found to hold an operator of a level names one. -/
theorem versed_operator {level : Level} {t : Token} (hlevel : level.holds t = true)
    (ht : t.Spelled) : Versed (operator t) := by
  -- the text of the token is the symbol of an operator
  obtain ⟨op, -, htext⟩ := exists_op_of_holds hlevel (ht (kind_ne_eof_of_holds hlevel))
  unfold operator
  rw [htext, BinaryOp.ofSymbol?_symbol]
  exact versedAt_pure

/-- The tokens at hand are left alone. -/
theorem versed_within {own : List Token} (hown : ∀ t ∈ own, t.Spelled) (hx : Versed x) :
    Versed (within own x) := by
  intro ts _ hts
  -- the inner tokens are spelled like the outer ones, so an error in them is a refusal too
  have hxown := hx own trivial hown
  unfold within
  cases h : x own with
  | done a rest => exact hts
  | refused e =>
    rw [h] at hxown
    exact hxown
  | exhausted => trivial
  | overflowed => trivial

/-! ### The readers of the grammar -/

/-- The readers with the budget know every operator. -/
structure Knows (n : Nat) : Prop where
  statement : Versed (statement n)
  block : ∀ inConditional, Versed (block n inConditional)
  clauses : Versed (clauses n)
  expression : Versed (expression n)
  matching : Versed (matching n none)
  declaration : Versed (declaration n none)
  operators : ∀ level, Versed (operators n level)
  operand : ∀ level, Versed (operand n level)
  operations : ∀ level left, Versed (operations n level left)
  negation : Versed (negation n)
  unary : Versed (unary n)
  suffixes : ∀ e, Versed (suffixes n e)
  sequence : ∀ close, Versed (sequence n close)
  entries : Versed (entries n)
  mapKey : Versed (mapKey n)
  primary : Versed (primary n)
  holes : ∀ p inners, Versed (holes n p inners)
  statements : Versed (statements n)

variable {n : Nat}

/-- A statement: whatever is refused in it, is refused by the readers of its parts. -/
theorem Knows.succ_statement (ih : Knows n) : Versed (Parser.statement (n + 1)) := by
  unfold Parser.statement
  refine versed_peekKind_bind fun t => ?_
  -- one case for each keyword that a statement starts with, and one for the others
  split
  · refine versedAt_advance.bind fun _ => ?_
    refine VersedAt.bind ih.expression fun c => ?_
    refine VersedAt.bind (versed_expect _) fun _ => ?_
    refine VersedAt.bind (ih.block true) fun body => ?_
    exact VersedAt.bind ih.clauses fun _ => versedAt_pure
  · refine versedAt_advance.bind fun _ => ?_
    refine VersedAt.bind (versed_expect _) fun name => ?_
    refine VersedAt.bind (versed_expect _) fun _ => ?_
    refine VersedAt.bind (versed_parameters _) fun params => ?_
    refine VersedAt.bind (versed_expect _) fun _ => ?_
    refine VersedAt.bind (versed_expect _) fun _ => ?_
    refine VersedAt.bind (ih.block false) fun body => ?_
    exact VersedAt.bind (versed_expect _) fun _ => versedAt_pure
  · refine versedAt_advance.bind fun _ => ?_
    refine versed_peekKind_bind fun u => ?_
    split
    · exact versedAt_pure
    · exact ih.expression.at.bind fun _ => versedAt_pure
  · refine versedAt_advance.bind fun _ => ?_
    refine VersedAt.bind ih.expression fun c => ?_
    refine VersedAt.bind (versed_expect _) fun _ => ?_
    refine VersedAt.bind (ih.block false) fun body => ?_
    exact VersedAt.bind (versed_expect _) fun _ => versedAt_pure
  · exact versedAt_advance.bind fun _ => versedAt_pure
  · exact versedAt_advance.bind fun _ => versedAt_pure
  · exact ih.expression.at.bind fun _ => versedAt_pure

/-- A block refuses the end of the text. -/
theorem Knows.succ_block (ih : Knows n) (inConditional : Bool) :
    Versed (Parser.block (n + 1) inConditional) := by
  unfold Parser.block
  refine VersedAt.bind versed_skipSeparators fun _ => versed_peekKind_bind fun t => ?_
  split
  · exact versedAt_pure
  · split
    · exact versedAt_refuse
    · refine ih.statement.at.bind fun first => ?_
      exact VersedAt.bind (ih.block inConditional) fun _ => versedAt_pure

/-- The statements of a text. -/
theorem Knows.succ_statements (ih : Knows n) : Versed (Parser.statements (n + 1)) := by
  unfold Parser.statements
  refine VersedAt.bind versed_skipSeparators fun _ => versed_peekKind_bind fun t => ?_
  split
  · exact versedAt_pure
  · exact ih.statement.at.bind fun first => VersedAt.bind ih.statements fun _ => versedAt_pure

/-- The clauses of a conditional refuse whatever is none of their keywords. -/
theorem Knows.succ_clauses (ih : Knows n) : Versed (Parser.clauses (n + 1)) := by
  unfold Parser.clauses
  refine versed_accept_bind ?_ (versed_accept_bind ?_ ?_)
  -- `elif`
  · refine VersedAt.bind ih.expression fun c => ?_
    refine VersedAt.bind (versed_expect _) fun _ => ?_
    refine VersedAt.bind (ih.block true) fun body => ?_
    exact VersedAt.bind ih.clauses fun _ => versedAt_pure
  -- `else`
  · refine VersedAt.bind (versed_accept _) fun _ => ?_
    refine VersedAt.bind (ih.block false) fun body => ?_
    exact VersedAt.bind (versed_expect _) fun _ => versedAt_pure
  -- neither: only `end` is left
  · exact VersedAt.bind (versed_expect _) fun _ => versedAt_pure

/-- An expression is read as both sides of `=`. -/
theorem Knows.succ_expression (ih : Knows n) : Versed (Parser.expression (n + 1)) := by
  unfold Parser.expression
  exact ih.matching

/-- A binding, a declaration or an operation. -/
theorem Knows.succ_matching (ih : Knows n) : Versed (Parser.matching (n + 1) none) := by
  unfold Parser.matching
  refine versed_peekKind_bind fun t => ?_
  split
  · exact ih.declaration.at
  · refine (ih.operators .or).at.bind fun left => versed_accept_bind ?_ versedAt_pure
    exact VersedAt.bind ih.matching fun _ => versedAt_pure

/-- A declaration refuses what is no name behind its `let`. -/
theorem Knows.succ_declaration (ih : Knows n) : Versed (Parser.declaration (n + 1) none) := by
  unfold Parser.declaration
  refine versedAt_advance.bind fun _ => ?_
  refine VersedAt.bind (versed_expect _) fun name => ?_
  refine VersedAt.bind (versed_expect _) fun _ => ?_
  exact VersedAt.bind ih.matching fun _ => versedAt_pure

/-- A row of operands. -/
theorem Knows.succ_operators (ih : Knows n) (level : Level) :
    Versed (Parser.operators (n + 1) level) := by
  unfold Parser.operators
  exact VersedAt.bind (ih.operand level) (ih.operations level)

/-- An operand, by the reader of the next level. -/
theorem Knows.succ_operand (ih : Knows n) (level : Level) :
    Versed (Parser.operand (n + 1) level) := by
  unfold Parser.operand
  cases level with
  | or => exact ih.operators .and
  | and => exact ih.negation
  | comparison => exact ih.operators .sum
  | sum => exact ih.operators .product
  | product => exact ih.unary

/-- The one place where an operator is asked for: the token has been found to hold one. -/
theorem Knows.succ_operations (ih : Knows n) (level : Level) (left : Expr) :
    Versed (Parser.operations (n + 1) level left) := by
  unfold Parser.operations
  refine versed_peek_bind fun t => ?_
  split
  · next hlevel =>
    -- the front is an operator of this level, which no end of input is
    refine versedAt_advance_bind (fun ht => ?_) (kind_ne_eof_of_holds hlevel)
    refine VersedAt.bind (versed_operator hlevel ht) fun op => ?_
    exact VersedAt.bind (ih.operand level) fun right => ih.operations level _
  · exact versedAt_pure

/-- A negation or a comparison. -/
theorem Knows.succ_negation (ih : Knows n) : Versed (Parser.negation (n + 1)) := by
  unfold Parser.negation
  refine versed_accept_bind ?_ (ih.operators .comparison)
  exact VersedAt.bind ih.negation fun _ => versedAt_pure

/-- A minus or a primary. -/
theorem Knows.succ_unary (ih : Knows n) : Versed (Parser.unary (n + 1)) := by
  unfold Parser.unary
  refine versed_accept_bind ?_ (VersedAt.bind ih.primary ih.suffixes)
  exact VersedAt.bind ih.unary fun _ => versedAt_pure

/-- The suffixes of a primary. -/
theorem Knows.succ_suffixes (ih : Knows n) (e : Expr) : Versed (Parser.suffixes (n + 1) e) := by
  unfold Parser.suffixes
  refine versed_accept_bind ?_ (versed_accept_bind ?_ (versed_accept_bind ?_ versedAt_pure))
  · refine VersedAt.bind (ih.sequence _) fun args => ?_
    exact VersedAt.bind (versed_expect _) fun _ => ih.suffixes _
  · exact VersedAt.bind (versed_expect _) fun _ => ih.suffixes _
  · refine VersedAt.bind ih.expression fun property => ?_
    exact VersedAt.bind (versed_expect _) fun _ => ih.suffixes _

/-- Items between brackets. -/
theorem Knows.succ_sequence (ih : Knows n) (close : TokenKind) :
    Versed (Parser.sequence (n + 1) close) := by
  unfold Parser.sequence
  refine versed_peekKind_bind fun t => ?_
  split
  · exact versedAt_pure
  · refine ih.expression.at.bind fun first => versed_accept_bind ?_ versedAt_pure
    exact VersedAt.bind (ih.sequence close) fun _ => versedAt_pure

/-- The entries of a map. -/
theorem Knows.succ_entries (ih : Knows n) : Versed (Parser.entries (n + 1)) := by
  unfold Parser.entries
  refine versed_peekKind_bind fun t => ?_
  split
  · exact versedAt_pure
  · refine ih.mapKey.at.bind fun key => VersedAt.bind ih.expression fun value => ?_
    refine versed_accept_bind ?_ versedAt_pure
    exact VersedAt.bind ih.entries fun _ => versedAt_pure

/-- The key of an entry: the look at the second token takes nothing. -/
theorem Knows.succ_mapKey (ih : Knows n) : Versed (Parser.mapKey (n + 1)) := by
  -- the second token is looked at, and stays
  have hpeek : Versed peekSecondKind := fun ts _ hts => hts
  unfold Parser.mapKey
  refine versed_peekKind_bind fun t => hpeek.at.bind fun second => ?_
  split
  · refine VersedAt.bind versedAt_advance fun name => ?_
    exact versedAt_advance.bind fun _ => versedAt_pure
  · refine VersedAt.bind ih.expression fun key => ?_
    exact VersedAt.bind (versed_expect _) fun _ => versedAt_pure

/-- A primary refuses a token that starts no expression, and a marker that is not closed. -/
theorem Knows.succ_primary (ih : Knows n) : Versed (Parser.primary (n + 1)) := by
  unfold Parser.primary
  refine versed_peekKind_bind fun t => ?_
  -- one case for each token that a primary starts with
  split
  · exact versedAt_advance.bind fun _ => versedAt_pure
  · exact versedAt_advance.bind fun _ => versedAt_pure
  · exact versedAt_advance.bind fun _ => versedAt_pure
  · refine versedAt_advance.bind fun u => ?_
    split
    · exact versedAt_fail rfl
    · exact VersedAt.bind (ih.holes _ _) fun _ => versedAt_pure
  · refine versedAt_advance.bind fun _ => VersedAt.bind ih.expression fun e => ?_
    exact VersedAt.bind (versed_expect _) fun _ => versedAt_pure
  · refine versedAt_advance.bind fun _ => VersedAt.bind (ih.sequence _) fun items => ?_
    exact VersedAt.bind (versed_expect _) fun _ => versedAt_pure
  · refine versedAt_advance.bind fun _ => VersedAt.bind (ih.sequence _) fun items => ?_
    exact VersedAt.bind (versed_expect _) fun _ => versedAt_pure
  · refine versedAt_advance.bind fun _ => VersedAt.bind ih.entries fun es => ?_
    exact VersedAt.bind (versed_expect _) fun _ => versedAt_pure
  · -- the parameters stand in parentheses or not; what follows them is the same
    have hbody (params : List String) : Versed (do
        let _ ← expect .lambdaArrow
        let body ← Parser.expression n
        let _ ← expect .endOfLambda
        return Expr.lambda params body) := by
      refine VersedAt.bind (versed_expect _) fun _ => VersedAt.bind ih.expression fun body => ?_
      exact VersedAt.bind (versed_expect _) fun _ => versedAt_pure
    refine versedAt_advance.bind fun _ => versed_accept_bind ?_ ?_
    · refine VersedAt.bind (versed_parameters _) fun params => ?_
      exact VersedAt.bind (versed_expect _) fun _ => hbody params
    · exact VersedAt.bind (versed_parameters _) hbody
  · exact versedAt_refuse

/-- A marker brings tokens of its own, which are again tokens of a text. -/
theorem Knows.succ_holes (ih : Knows n) (p : Position) (inners : List String) :
    Versed (Parser.holes (n + 1) p inners) := by
  cases inners with
  | nil =>
    unfold Parser.holes
    exact versedAt_pure
  | cons inner inners =>
    unfold Parser.holes
    -- a hole is refused by the lexer, by the parser, or for not being one expression
    cases hown : tokenize (Template.unescape inner) with
    | error e =>
      change Versed (fail e)
      exact versedAt_fail (isRefusal_of_tokenize hown)
    | ok own =>
      change Versed (within own (Parser.statements n) >>= _)
      have hspelled := Token.spelled_of_tokenize hown
      refine VersedAt.bind (versed_within hspelled ih.statements) fun stmts => ?_
      split
      · exact VersedAt.bind (ih.holes p inners) fun _ => versedAt_pure
      · exact versedAt_fail rfl

/-- Without budget nothing is refused. -/
theorem Knows.zero : Knows 0 where
  statement := by unfold Parser.statement; exact versedAt_exhausted
  block _ := by unfold Parser.block; exact versedAt_exhausted
  clauses := by unfold Parser.clauses; exact versedAt_exhausted
  expression := by unfold Parser.expression; exact versedAt_exhausted
  matching := by unfold Parser.matching; exact versedAt_exhausted
  declaration := by unfold Parser.declaration; exact versedAt_exhausted
  operators _ := by unfold Parser.operators; exact versedAt_exhausted
  operand _ := by unfold Parser.operand; exact versedAt_exhausted
  operations _ _ := by unfold Parser.operations; exact versedAt_exhausted
  negation := by unfold Parser.negation; exact versedAt_exhausted
  unary := by unfold Parser.unary; exact versedAt_exhausted
  suffixes _ := by unfold Parser.suffixes; exact versedAt_exhausted
  sequence _ := by unfold Parser.sequence; exact versedAt_exhausted
  entries := by unfold Parser.entries; exact versedAt_exhausted
  mapKey := by unfold Parser.mapKey; exact versedAt_exhausted
  primary := by unfold Parser.primary; exact versedAt_exhausted
  holes _ _ := by unfold Parser.holes; exact versedAt_exhausted
  statements := by unfold Parser.statements; exact versedAt_exhausted

/-- **No reader meets an unknown operator**, by induction on the budget. -/
theorem knows (n : Nat) : Knows n := by
  induction n with
  | zero => exact .zero
  | succ n ih =>
    exact
      { statement := ih.succ_statement
        block := ih.succ_block
        clauses := ih.succ_clauses
        expression := ih.succ_expression
        matching := ih.succ_matching
        declaration := ih.succ_declaration
        operators := ih.succ_operators
        operand := ih.succ_operand
        operations := ih.succ_operations
        negation := ih.succ_negation
        unary := ih.succ_unary
        suffixes := ih.succ_suffixes
        sequence := ih.succ_sequence
        entries := ih.succ_entries
        mapKey := ih.succ_mapKey
        primary := ih.succ_primary
        holes := ih.succ_holes
        statements := ih.succ_statements }

end Parser

/-- **A text is refused for syntax errors only**, and never for an unknown operator. -/
theorem Program.isRefusal_of_parse {source : String} {e : Error}
    (h : Program.parse source = .error e) : e.isRefusal = true := by
  unfold Program.parse Program.read at h
  cases hts : tokenize source with
  | error lexical =>
    rw [hts] at h
    cases h
    exact isRefusal_of_tokenize hts
  | ok ts =>
    have hversed := (Parser.knows (Parser.budget source.length)).statements ts trivial
      (Token.spelled_of_tokenize hts)
    rw [hts] at h
    dsimp only at h
    -- the end of the budget and of the host's stack are reported as errors of the text
    split at h
    · cases h
    · next e' hrefused =>
      cases h
      rw [hrefused] at hversed
      exact hversed
    · cases h
      rfl
    · cases h
      rfl

/-- So the error of a text is a syntax error. -/
theorem Program.isSyntaxError_of_parse {source : String} {e : Error}
    (h : Program.parse source = .error e) : e.isSyntaxError = true :=
  ((Error.isRefusal_iff e).1 (isRefusal_of_parse h)).1

end AtomScript

import AtomScript.Proofs.Program.Grammar
import AtomScript.Proofs.Program.Reading
import AtomScript.Proofs.Token.Layout

/-!
# Programs are read by the grammar

Whatever a reader makes of the tokens it takes can be derived from these tokens by the rules of the
grammar (`Parser.Sound`).  The proof is one induction on the budget, with one lemma for each reader.
The loops of the parser carry what they have read so far, so their lemmas say what comes of it
together with what is still read.
-/

namespace AtomScript

open Grammar

/-- **The tokens of a text** are written as their kinds demand. -/
theorem Token.spelled_of_tokenize {source : String} {ts : List Token}
    (h : tokenize source = .ok ts) : ∀ t ∈ ts, t.Spelled := by
  obtain ⟨read, last, rfl, hlast, hlexemes⟩ := exists_of_tokenize h
  intro t ht hne
  rcases List.mem_append.1 ht with ht | ht
  · exact hlexemes t ht
  · rw [List.mem_singleton.1 ht] at hne
    exact absurd hlast hne

namespace Parser

/-! ### Readers without recursion -/

/-- Reading the parameters of a function reads a row of names. -/
theorem reads_parameters (close : TokenKind) : Reads (parameters close) Names := by
  intro ts names rest _ hts h
  -- the cases are the places where the reading can stop or be refused, and the refused ones have no
  -- result
  fun_induction parameters close ts generalizing names rest with
  | case1 => cases h
  | case2 t ts hclose =>
    cases h
    exact ⟨[], rfl, by simp, .nil⟩
  | case3 t _ hname =>
    cases h
    exact ⟨[t], rfl, by simp [hname], .last hname⟩
  | case4 t _ hname comma us hcomma names' rest' heq ih =>
    cases h
    have hus : ∀ u ∈ us, u.Spelled := fun u hu => hts u (by simp [hu])
    obtain ⟨used, rfl, hused, hnames⟩ := ih names' rest' hus heq
    refine ⟨t :: comma :: used, rfl, ?_, .cons hname hcomma hnames⟩
    simpa [hname, hcomma] using hused
  | case5 => cases h
  | case6 => cases h
  | case7 => cases h
  | case8 t hclose hname u us hcomma =>
    cases h
    exact ⟨[t], rfl, by simp [hname], .last hname⟩
  | case9 => cases h

/-- The kinds of comparisons are kinds of operators. -/
theorem operatorKind_of_isRelational {kind : TokenKind} (h : kind.isRelational = true) :
    operatorKind kind = true := by
  cases kind <;> first | rfl | cases h

/-- What a level looks for is an operator. -/
theorem operatorKind_of_holds {level : Level} {t : Token} (h : level.holds t = true) :
    operatorKind t.kind = true := by
  -- a level of one kind fixes it, and the other levels fix it up to their list of kinds
  unfold Level.holds at h
  cases level with
  | or =>
    rw [eq_of_beq h]
    rfl
  | and =>
    rw [eq_of_beq h]
    rfl
  | comparison => exact operatorKind_of_isRelational h
  | sum =>
    rw [Bool.or_eq_true, Bool.and_eq_true] at h
    rcases h with h | ⟨h, -⟩
    · rw [eq_of_beq h]
      rfl
    · rw [eq_of_beq h]
      rfl
  | product =>
    rw [Bool.and_eq_true] at h
    rw [eq_of_beq h.1]
    rfl

/-- No level looks for the end of the text. -/
theorem kind_ne_eof_of_holds {level : Level} {t : Token} (h : level.holds t = true) :
    t.kind ≠ .eof := by
  intro heof
  have hkind := operatorKind_of_holds h
  rw [heof] at hkind
  cases hkind

/-- Operators have fixed spellings. -/
theorem mem_spellings_of_lexeme {kind : TokenKind} {cs : List Char}
    (hkind : operatorKind kind = true) (h : Lexer.Lexeme kind cs) :
    String.ofList cs ∈ kind.spellings := by
  cases h with
  | fixed hmem => exact hmem
  | _ => cases hkind

/-- A token of an operator kind has one of the spellings of its kind. -/
theorem text_mem_spellings {t : Token} (hkind : operatorKind t.kind = true)
    (hlexeme : Lexer.Lexeme t.kind t.written) : t.text ∈ t.kind.spellings := by
  have hwritten : t.written = t.text.toList := by
    unfold Token.written
    split
    · next heq =>
      rw [heq] at hkind
      cases hkind
    · rfl
  have hmem := mem_spellings_of_lexeme hkind hlexeme
  rwa [hwritten, String.ofList_toList] at hmem

/-- Each comparison has a kind of its own. -/
theorem exists_op_of_isRelational {kind : TokenKind} (h : kind.isRelational = true) :
    ∃ op ∈ Level.comparison.ops, kind.spellings = [op.symbol] := by
  cases kind with
  | equal => exact ⟨.equal, by decide, rfl⟩
  | notEqual => exact ⟨.notEqual, by decide, rfl⟩
  | lessThan => exact ⟨.less, by decide, rfl⟩
  | greaterThan => exact ⟨.greater, by decide, rfl⟩
  | lessThanOrEqual => exact ⟨.lessEqual, by decide, rfl⟩
  | greaterThanOrEqual => exact ⟨.greaterEqual, by decide, rfl⟩
  | _ => cases h

/-- **An operator token of a level** writes an operator of that level. -/
theorem exists_op_of_holds {level : Level} {t : Token} (hlevel : level.holds t = true)
    (hlexeme : Lexer.Lexeme t.kind t.written) : ∃ op ∈ level.ops, t.text = op.symbol := by
  have htext := text_mem_spellings (operatorKind_of_holds hlevel) hlexeme
  unfold Level.holds at hlevel
  cases level with
  | or =>
    rw [eq_of_beq hlevel] at htext
    exact ⟨.or, by decide, List.mem_singleton.1 htext⟩
  | and =>
    rw [eq_of_beq hlevel] at htext
    exact ⟨.and, by decide, List.mem_singleton.1 htext⟩
  | comparison =>
    obtain ⟨op, hop, hspellings⟩ := exists_op_of_isRelational hlevel
    rw [hspellings] at htext
    exact ⟨op, hop, List.mem_singleton.1 htext⟩
  -- a minus is a subtraction whether it was scanned as a sign or as an operator
  | sum =>
    simp only [Bool.or_eq_true, Bool.and_eq_true, beq_iff_eq] at hlevel
    rcases hlevel with hminus | ⟨-, hplus | hminus⟩
    · rw [hminus] at htext
      exact ⟨.subtract, by decide, List.mem_singleton.1 htext⟩
    · exact ⟨.add, by decide, hplus⟩
    · exact ⟨.subtract, by decide, hminus⟩
  | product =>
    simp only [Bool.or_eq_true, Bool.and_eq_true, beq_iff_eq] at hlevel
    obtain ⟨-, (htimes | hover) | hmodulo⟩ := hlevel
    · exact ⟨.multiply, by decide, htimes⟩
    · exact ⟨.divide, by decide, hover⟩
    · exact ⟨.modulo, by decide, hmodulo⟩

/-- Naming the operator of a token of a level gives an operator of that level. -/
theorem reads_operator {level : Level} {t : Token} (hlevel : level.holds t = true)
    (hlexeme : Lexer.Lexeme t.kind t.written) :
    Reads (operator t) fun us op => us = [] ∧ Operator level t op := by
  obtain ⟨op, hop, htext⟩ := exists_op_of_holds hlevel hlexeme
  unfold operator
  rw [htext, BinaryOp.ofSymbol?_symbol]
  exact readsAt_pure ⟨rfl, operatorKind_of_holds hlevel, htext, hop⟩

/-- Semicolons may stand before statements. -/
theorem statements_of_separators {us ts : List Token} {ss : List Stmt}
    (hus : ∀ t ∈ us, t.kind = .semicolon) (h : Statements ts ss) : Statements (us ++ ts) ss := by
  induction us with
  | nil => exact h
  | cons u us ih =>
    rw [List.forall_mem_cons] at hus
    exact .separator hus.1 (ih hus.2)

/-! ### The rules at one budget -/

/-- What is read with the budget is derived by the rules of the grammar. -/
structure Sound (n : Nat) : Prop where
  statement : Reads (statement n) Statement
  block : ∀ inConditional, Reads (block n inConditional) Statements
  clauses : Reads (clauses n) Clauses
  expression : Reads (expression n) Expression
  matching : Reads (matching n none) Expression
  declaration : ∀ t : Token, t.kind = .keyword .letWord →
    ReadsAt (· = t) (declaration n none) Expression
  operators : ∀ level, Reads (operators n level) (Operation level)
  operand : ∀ level, Reads (operand n level) (Operand level)
  operations : ∀ level us left, Operation level us left →
    Reads (operations n level left) fun vs e => Operation level (us ++ vs) e
  negation : Reads (negation n) Negation
  unary : Reads (unary n) Unary
  suffixes : ∀ us e, Chain us e → Reads (suffixes n e) fun vs e' => Chain (us ++ vs) e'
  sequence : ∀ close, Reads (sequence n close) Items
  entries : Reads (entries n) Entries
  mapKey : Reads (mapKey n) Key
  primary : Reads (primary n) Primary
  holes : ∀ p inners,
    Reads (holes n p inners) fun us filled => us = [] ∧ Holes inners filled.1 filled.2
  statements : Reads (statements n) Statements

variable {n : Nat}

/-- What is read as a statement derives as one. -/
theorem Sound.succ_statement (ih : Sound n) : Reads (Parser.statement (n + 1)) Statement := by
  unfold Parser.statement
  refine reads_peekKind_bind fun t => ?_
  split
  -- each form starts with a word of its own, and an expression with none of them
  · next ht =>
    refine readsAt_advance_bind (by rw [ht]; decide) fun _ => ?_
    refine ReadsAt.bind ih.expression fun cs c hc => ?_
    refine reads_expect_bind rfl (by decide) fun d hd => ?_
    refine ReadsAt.bind (ih.block true) fun bs body hbody => ?_
    refine ReadsAt.bind ih.clauses fun rest clauses hclauses => ?_
    exact readsAt_pure (by simpa using Statement.conditional ht hc hd hbody hclauses)
  · next ht =>
    refine readsAt_advance_bind (by rw [ht]; decide) fun _ => ?_
    refine reads_expect_bind rfl (by decide) fun name hname => ?_
    refine reads_expect_bind rfl (by decide) fun opening hopening => ?_
    refine ReadsAt.bind (reads_parameters .closeParen) fun ps params hparams => ?_
    refine reads_expect_bind rfl (by decide) fun closing hclosing => ?_
    refine reads_expect_bind rfl (by decide) fun d hd => ?_
    refine ReadsAt.bind (ih.block false) fun bs body hbody => ?_
    refine reads_expect_bind rfl (by decide) fun e he => ?_
    exact readsAt_pure
      (by simpa using Statement.define ht hname hopening hparams hclosing hd hbody he)
  · next ht =>
    refine readsAt_advance_bind (by rw [ht]; decide) fun _ => ?_
    refine reads_peekKind_bind fun u => ?_
    split
    · exact readsAt_pure (.returnNothing ht)
    · refine ReadsAt.bind ih.expression.at fun es e he => ?_
      exact readsAt_pure (by simpa using Statement.returnValue ht he)
  · next ht =>
    refine readsAt_advance_bind (by rw [ht]; decide) fun _ => ?_
    refine ReadsAt.bind ih.expression fun cs c hc => ?_
    refine reads_expect_bind rfl (by decide) fun d hd => ?_
    refine ReadsAt.bind (ih.block false) fun bs body hbody => ?_
    refine reads_expect_bind rfl (by decide) fun e he => ?_
    exact readsAt_pure (by simpa using Statement.whileLoop ht hc hd hbody he)
  · next ht =>
    refine readsAt_advance_bind (by rw [ht]; decide) fun _ => ?_
    exact readsAt_pure (.breaking ht)
  · next ht =>
    refine readsAt_advance_bind (by rw [ht]; decide) fun _ => ?_
    exact readsAt_pure (.continuing ht)
  · refine ReadsAt.bind ih.expression.at fun es e he => ?_
    exact readsAt_pure (by simpa using Statement.expression he)

/-- Both lists of statements, that of a block and that of a text, are read one by one. -/
theorem Sound.succ_block (ih : Sound n) (inConditional : Bool) :
    Reads (Parser.block (n + 1) inConditional) Statements := by
  unfold Parser.block
  refine ReadsAt.bind reads_skipSeparators fun us _ hus => ?_
  refine reads_peekKind_bind fun t => ?_
  split
  -- separators alone are an empty block
  · exact readsAt_pure (statements_of_separators hus .nil)
  · split
    · exact readsAt_refuse
    · refine ReadsAt.bind ih.statement.at fun vs s hs => ?_
      refine ReadsAt.bind (ih.block inConditional) fun ws ss hss => ?_
      exact readsAt_pure (by simpa using statements_of_separators hus (.cons hs hss))

/-- What is read as a row of statements derives as one, separators included. -/
theorem Sound.succ_statements (ih : Sound n) : Reads (Parser.statements (n + 1)) Statements := by
  unfold Parser.statements
  refine ReadsAt.bind reads_skipSeparators fun us _ hus => ?_
  refine reads_peekKind_bind fun t => ?_
  split
  · exact readsAt_pure (statements_of_separators hus .nil)
  · refine ReadsAt.bind ih.statement.at fun vs s hs => ?_
    refine ReadsAt.bind ih.statements fun ws ss hss => ?_
    exact readsAt_pure (by simpa using statements_of_separators hus (.cons hs hss))

/-- What is read as later clauses derives as such. -/
theorem Sound.succ_clauses (ih : Sound n) : Reads (Parser.clauses (n + 1)) Clauses := by
  unfold Parser.clauses
  refine reads_accept_bind (by decide) (fun t ht => ?_) ?_
  · refine ReadsAt.bind ih.expression fun cs c hc => ?_
    refine reads_expect_bind rfl (by decide) fun d hd => ?_
    refine ReadsAt.bind (ih.block true) fun bs body hbody => ?_
    refine ReadsAt.bind ih.clauses fun rest clauses hclauses => ?_
    exact readsAt_pure (by simpa using Clauses.elif ht hc hd hbody hclauses)
  · refine reads_accept_bind (by decide) (fun t ht => ?_) ?_
    · -- the do after else is optional
      refine reads_accept_bind (by decide) (fun d hd => ?_) ?_
      · refine ReadsAt.bind (ih.block false) fun bs body hbody => ?_
        refine reads_expect_bind rfl (by decide) fun e he => ?_
        exact readsAt_pure (by simpa using Clauses.otherwiseDo ht hd hbody he)
      · refine ReadsAt.bind (ih.block false) fun bs body hbody => ?_
        refine reads_expect_bind rfl (by decide) fun e he => ?_
        exact readsAt_pure (by simpa using Clauses.otherwise ht hbody he)
    · refine reads_expect_bind rfl (by decide) fun e he => ?_
      exact readsAt_pure (.finish he)

/-- What is read as an expression derives as one. -/
theorem Sound.succ_expression (ih : Sound n) : Reads (Parser.expression (n + 1)) Expression := by
  unfold Parser.expression
  exact ih.matching

/-- What is read as an assignment or a declaration derives as one. -/
theorem Sound.succ_matching (ih : Sound n) :
    Reads (Parser.matching (n + 1) none) Expression := by
  unfold Parser.matching
  refine reads_peekKind_bind fun t => ?_
  split
  · next ht => exact ih.declaration t ht
  · refine ReadsAt.bind (ih.operators .or).at fun us left hleft => ?_
    refine reads_accept_bind (by decide) (fun equals hequals => ?_) ?_
    · refine ReadsAt.bind ih.matching fun ts e he => ?_
      exact readsAt_pure (by simpa using Expression.binding hleft hequals he)
    · exact readsAt_pure (by simpa using Expression.operation hleft)

/-- What is read behind the word of a declaration derives as one. -/
theorem Sound.succ_declaration (ih : Sound n) (t : Token) (ht : t.kind = .keyword .letWord) :
    ReadsAt (· = t) (Parser.declaration (n + 1) none) Expression := by
  unfold Parser.declaration
  refine readsAt_advance_bind (by rw [ht]; decide) fun _ => ?_
  refine reads_expect_bind rfl (by decide) fun name hname => ?_
  refine reads_expect_bind rfl (by decide) fun equals hequals => ?_
  refine ReadsAt.bind ih.matching fun ts e he => ?_
  exact readsAt_pure (by simpa using Expression.letting ht hname hequals he)

/-- What a level of operators reads derives at that level. -/
theorem Sound.succ_operators (ih : Sound n) (level : Level) :
    Reads (Parser.operators (n + 1) level) (Operation level) := by
  unfold Parser.operators
  refine ReadsAt.bind (ih.operand level) fun us e he => ?_
  exact ih.operations level us e (.operand he)

/-- The operand of a level derives at the next tighter one. -/
theorem Sound.succ_operand (ih : Sound n) (level : Level) :
    Reads (Parser.operand (n + 1) level) (Operand level) := by
  unfold Parser.operand
  cases level with
  | or => exact (ih.operators .and).imp fun _ _ h => .or h
  | and => exact ih.negation.imp fun _ _ h => .and h
  | comparison => exact (ih.operators .sum).imp fun _ _ h => .comparison h
  | sum => exact (ih.operators .product).imp fun _ _ h => .sum h
  | product => exact ih.unary.imp fun _ _ h => .product h

/-- What has been read becomes the left operand of the next operator. -/
theorem Sound.succ_operations (ih : Sound n) (level : Level) (us : List Token) (left : Expr)
    (hleft : Operation level us left) :
    Reads (Parser.operations (n + 1) level left) fun vs e => Operation level (us ++ vs) e := by
  unfold Parser.operations
  refine reads_peek_bind fun t => ?_
  split
  -- the operation so far is the left operand of what follows
  · next hlevel =>
    refine readsAt_advance_bind (kind_ne_eof_of_holds hlevel) fun hlexeme => ?_
    refine ReadsAt.bind (reads_operator hlevel hlexeme) ?_
    rintro _ op ⟨rfl, hop⟩
    refine ReadsAt.bind (ih.operand level) fun vs right hright => ?_
    have hnext := ih.operations level _ _ (.apply hleft hop hright)
    exact hnext.imp fun ws e he => by simpa using he
  · exact readsAt_pure (by simpa using hleft)

/-- What is read as a negation derives as one. -/
theorem Sound.succ_negation (ih : Sound n) : Reads (Parser.negation (n + 1)) Negation := by
  unfold Parser.negation
  refine reads_accept_bind (by decide) (fun t ht => ?_) ?_
  · refine ReadsAt.bind ih.negation fun ts e he => ?_
    exact readsAt_pure (by simpa using Negation.not ht he)
  · exact (ih.operators .comparison).imp fun _ _ h => .operation h

/-- What is read behind a sign derives as a negated numeral or as a difference from zero. -/
theorem Sound.succ_unary (ih : Sound n) : Reads (Parser.unary (n + 1)) Unary := by
  unfold Parser.unary
  refine reads_accept_bind (by decide) (fun t ht => ?_) ?_
  · refine ReadsAt.bind ih.unary fun ts e he => ?_
    refine readsAt_pure ?_
    rw [List.append_nil]
    cases e with
    | number x => exact .sign ht he
    | _ => exact .subtract ht he (by simp)
  · refine ReadsAt.bind ih.primary fun us e he => ?_
    exact (ih.suffixes us e (.primary he)).imp fun _ _ h => .chain h

/-- What is read behind an operand lengthens its derivation. -/
theorem Sound.succ_suffixes (ih : Sound n) (us : List Token) (e : Expr) (he : Chain us e) :
    Reads (Parser.suffixes (n + 1) e) fun vs e' => Chain (us ++ vs) e' := by
  unfold Parser.suffixes
  -- the operand so far, with one more call or access, goes on being an operand
  refine reads_accept_bind (by decide) (fun opening hopening => ?_) ?_
  · refine ReadsAt.bind (ih.sequence .closeParen) fun vs args hargs => ?_
    refine reads_expect_bind rfl (by decide) fun closing hclosing => ?_
    have hnext := ih.suffixes _ _ (.call he hopening hargs hclosing)
    exact hnext.imp fun ws e' h => by simpa using h
  · refine reads_accept_bind (by decide) (fun dot hdot => ?_) ?_
    · refine reads_expect_bind rfl (by decide) fun name hname => ?_
      have hnext := ih.suffixes _ _ (.member he hdot hname)
      exact hnext.imp fun ws e' h => by simpa using h
    · refine reads_accept_bind (by decide) (fun opening hopening => ?_) ?_
      · refine ReadsAt.bind ih.expression fun vs property hproperty => ?_
        refine reads_expect_bind rfl (by decide) fun closing hclosing => ?_
        have hnext := ih.suffixes _ _ (.index he hopening hproperty hclosing)
        exact hnext.imp fun ws e' h => by simpa using h
      · exact readsAt_pure (by simpa using he)

/-- What is read between two brackets derives as a row of items. -/
theorem Sound.succ_sequence (ih : Sound n) (close : TokenKind) :
    Reads (Parser.sequence (n + 1) close) Items := by
  unfold Parser.sequence
  refine reads_peekKind_bind fun t => ?_
  split
  · exact readsAt_pure .nil
  · refine ReadsAt.bind ih.expression.at fun us e he => ?_
    refine reads_accept_bind (by decide) (fun comma hcomma => ?_) ?_
    · refine ReadsAt.bind (ih.sequence close) fun vs es hes => ?_
      exact readsAt_pure (by simpa using Items.cons he hcomma hes)
    · exact readsAt_pure (by simpa using Items.last he)

/-- What is read as the entries of a map derives as such. -/
theorem Sound.succ_entries (ih : Sound n) : Reads (Parser.entries (n + 1)) Entries := by
  unfold Parser.entries
  refine reads_peekKind_bind fun t => ?_
  split
  · exact readsAt_pure .nil
  · refine ReadsAt.bind ih.mapKey.at fun us key hkey => ?_
    refine ReadsAt.bind ih.expression fun vs value hvalue => ?_
    refine reads_accept_bind (by decide) (fun comma hcomma => ?_) ?_
    · refine ReadsAt.bind ih.entries fun ws es hes => ?_
      exact readsAt_pure (by simpa using Entries.cons hkey hvalue hcomma hes)
    · exact readsAt_pure (by simpa using Entries.last hkey hvalue)

/-- Two tokens tell whether the key is a name. -/
theorem mapKey_of_name {t u : Token} {ts : List Token} (ht : t.kind = .identifier)
    (hu : u.kind = .colon) :
    Parser.mapKey (n + 1) (t :: u :: ts) = .done (.atom t.text) ts := by
  unfold Parser.mapKey
  exact congrFun (if_pos ⟨ht, hu⟩) (t :: u :: ts)

/-- Unless a name and a colon are next, a key is an expression before an arrow. -/
theorem mapKey_of_not {ts : List Token}
    (h : ¬ ((front ts).kind = .identifier ∧ (front ts.tail).kind = .colon)) :
    Parser.mapKey (n + 1) ts =
      (do let key ← Parser.expression n; let _ ← expect .keyArrow; return key) ts := by
  unfold Parser.mapKey
  exact congrFun (if_neg h) ts

/-- What is read as a key derives as one. -/
theorem Sound.succ_mapKey (ih : Sound n) : Reads (Parser.mapKey (n + 1)) Key := by
  intro ts e rest _ hts h
  by_cases hname : (front ts).kind = .identifier ∧ (front ts.tail).kind = .colon
  · -- neither token is the end, so both are there
    obtain ⟨us, hus⟩ := eq_cons_of_front (rfl : front ts = _) (by rw [hname.1]; decide)
    obtain ⟨vs, hvs⟩ := eq_cons_of_front (rfl : front ts.tail = _) (by rw [hname.2]; decide)
    generalize front ts = t, front ts.tail = u at hname hus hvs
    subst hus
    rw [List.tail_cons] at hvs
    subst hvs
    rw [mapKey_of_name hname.1 hname.2] at h
    cases h
    exact ⟨[t, u], rfl, by simp [hname.1, hname.2], .name hname.1 hname.2⟩
  -- any other key is an expression, set off by an arrow
  · rw [mapKey_of_not hname] at h
    have hreads : Reads (do let key ← Parser.expression n; let _ ← expect .keyArrow; return key)
        Key := by
      refine ReadsAt.bind ih.expression fun us e he => ?_
      refine reads_expect_bind rfl (by decide) fun arrow harrow => ?_
      exact readsAt_pure (.arrow he harrow)
    exact hreads ts e rest trivial hts h

/-- The name of an atom is what stands behind the colon, and starts with a letter. -/
theorem primary_of_atom {t : Token} (ht : t.kind = .atom)
    (hlexeme : Lexer.Lexeme t.kind t.written) :
    Primary [t] (.atom (String.ofList (t.text.toList.dropWhile (· == ':')))) := by
  have hwritten : t.written = t.text.toList := by
    unfold Token.written
    rw [ht]
  rw [ht, hwritten] at hlexeme
  obtain ⟨c, cs, htext, hletter⟩ := hlexeme.atom_inv
  -- one colon is dropped from the text, since the name starts with a letter
  have hc : c ≠ ':' := by
    rintro rfl
    cases hletter
  have hname : t.text.toList.dropWhile (· == ':') = c :: cs := by
    rw [htext, List.dropWhile_cons_of_pos rfl, List.dropWhile_cons_of_neg (by simpa using hc)]
  rw [hname]
  exact .atom ht htext (by simpa using hc)

/-- What is read as a closed expression derives as one. -/
theorem Sound.succ_primary (ih : Sound n) : Reads (Parser.primary (n + 1)) Primary := by
  unfold Parser.primary
  refine reads_peekKind_bind fun t => ?_
  -- one form for each kind of token that can start an operand
  split
  · next ht =>
    refine readsAt_advance_bind (by rw [ht]; decide) fun _ => ?_
    exact readsAt_pure (.identifier ht)
  · next ht =>
    refine readsAt_advance_bind (by rw [ht]; decide) fun _ => ?_
    exact readsAt_pure (.number ht)
  · next ht =>
    refine readsAt_advance_bind (by rw [ht]; decide) fun hlexeme => ?_
    exact readsAt_pure (primary_of_atom ht hlexeme)
  · next ht =>
    refine readsAt_advance_bind (by rw [ht]; decide) fun _ => ?_
    split
    · exact readsAt_fail
    · next inners hinners =>
      refine ReadsAt.bind (ih.holes _ inners) ?_
      rintro _ ⟨fragments, es⟩ ⟨rfl, hfilled⟩
      exact readsAt_pure (.string ht hinners hfilled)
  · next ht =>
    refine readsAt_advance_bind (by rw [ht]; decide) fun _ => ?_
    refine ReadsAt.bind ih.expression fun us e he => ?_
    refine reads_expect_bind rfl (by decide) fun closing hclosing => ?_
    exact readsAt_pure (.group ht he hclosing)
  · next ht =>
    refine readsAt_advance_bind (by rw [ht]; decide) fun _ => ?_
    refine ReadsAt.bind (ih.sequence .closeBrace) fun us es hes => ?_
    refine reads_expect_bind rfl (by decide) fun closing hclosing => ?_
    exact readsAt_pure (.tuple ht hes hclosing)
  · next ht =>
    refine readsAt_advance_bind (by rw [ht]; decide) fun _ => ?_
    refine ReadsAt.bind (ih.sequence .closeBracket) fun us es hes => ?_
    refine reads_expect_bind rfl (by decide) fun closing hclosing => ?_
    exact readsAt_pure (.list ht hes hclosing)
  · next ht =>
    refine readsAt_advance_bind (by rw [ht]; decide) fun _ => ?_
    refine ReadsAt.bind ih.entries fun us es hes => ?_
    refine reads_expect_bind rfl (by decide) fun closing hclosing => ?_
    exact readsAt_pure (.map ht hes hclosing)
  · next ht =>
    refine readsAt_advance_bind (by rw [ht]; decide) fun _ => ?_
    refine reads_accept_bind (by decide) (fun opening hopening => ?_) ?_
    · refine ReadsAt.bind (reads_parameters .closeParen) fun ps params hparams => ?_
      refine reads_expect_bind rfl (by decide) fun closing hclosing => ?_
      refine reads_expect_bind rfl (by decide) fun arrow harrow => ?_
      refine ReadsAt.bind ih.expression fun us body hbody => ?_
      refine reads_expect_bind rfl (by decide) fun endWord hend => ?_
      exact readsAt_pure
        (by simpa using Primary.lambda ht hopening hparams hclosing harrow hbody hend)
    · refine ReadsAt.bind (reads_parameters .arrow) fun ps params hparams => ?_
      refine reads_expect_bind rfl (by decide) fun arrow harrow => ?_
      refine ReadsAt.bind ih.expression fun us body hbody => ?_
      refine reads_expect_bind rfl (by decide) fun endWord hend => ?_
      exact readsAt_pure (by simpa using Primary.bareLambda ht hparams harrow hbody hend)
  · exact readsAt_refuse

/-! ### Texts -/

/-- At the end of the text there are no more statements. -/
theorem statements_of_end {ts : List Token} (h : (front (behindSeparators ts)).kind = .eof) :
    Parser.statements (n + 1) ts = .done [] (behindSeparators ts) := by
  rw [Parser.statements]
  exact congrFun (if_pos h) (behindSeparators ts)

/-- Before the end of the text there is one more statement. -/
theorem statements_of_front [HostStack] {ts : List Token}
    (h : (front (behindSeparators ts)).kind ≠ .eof) :
    Parser.statements (n + 1) ts =
      (do let first ← Parser.statement n; let rest ← Parser.statements n; return first :: rest)
        (behindSeparators ts) := by
  rw [Parser.statements]
  exact congrFun (if_neg h) (behindSeparators ts)

/-- Reading a whole text stops at its end. -/
theorem front_rest_of_statements {ts rest : List Token} {p : Program}
    (h : Parser.statements n ts = .done p rest) : (front rest).kind = .eof := by
  induction n generalizing ts p with
  | zero =>
    unfold Parser.statements at h
    cases h
  | succ n ih =>
    by_cases hend : (front (behindSeparators ts)).kind = .eof
    · rw [statements_of_end hend] at h
      cases h
      exact hend
    -- the end is looked for again behind each statement
    · rw [statements_of_front hend] at h
      obtain ⟨s, mid, -, h⟩ := exists_of_bind h
      obtain ⟨ss, mid', hss, h⟩ := exists_of_bind h
      cases h
      exact ih hss

/-- **The tokens of a text, all but the end, derive what is read.** -/
theorem derives_of_statements (hsound : Reads (Parser.statements n) Statements) {source : String}
    {ts rest : List Token} {p : Program} (hts : tokenize source = .ok ts)
    (h : Parser.statements n ts = .done p rest) :
    ∃ read last, ts = read ++ [last] ∧ last.kind = .eof ∧ (∀ t ∈ read, t.kind ≠ .eof) ∧
      Statements read p := by
  have hspelled := Token.spelled_of_tokenize hts
  obtain ⟨read, last, rfl, hlast, hlexemes⟩ := exists_of_tokenize hts
  obtain ⟨used, hused, hnone, hp⟩ := hsound _ p rest trivial hspelled h
  have hread : ∀ t ∈ read, t.kind ≠ .eof := fun t ht => (hlexemes t ht).kind_ne_eof
  -- the end is not taken, and reading stops there
  have hstop := front_rest_of_statements h
  obtain rfl : used = read := by
    rcases List.append_eq_append_iff.1 hused with ⟨more, hmore, hrest⟩ | ⟨more, hmore, hrest⟩
    · cases more with
      | nil => rw [hmore, List.append_nil]
      | cons t more =>
        rw [List.cons_append, List.cons.injEq] at hrest
        exact absurd (hrest.1 ▸ hlast) (hnone t (by simp [hmore]))
    · cases more with
      | nil => rw [hmore, List.append_nil]
      | cons t more =>
        rw [hrest] at hstop
        exact absurd hstop (hread t (by simp [hmore]))
  exact ⟨used, last, rfl, hlast, hread, hp⟩

/-- The holes of a string are the programs their own texts derive as. -/
theorem Sound.succ_holes (ih : Sound n) (p : Position) (inners : List String) :
    Reads (Parser.holes (n + 1) p inners) fun us filled =>
      us = [] ∧ Holes inners filled.1 filled.2 := by
  cases inners with
  | nil =>
    unfold Parser.holes
    exact readsAt_pure ⟨rfl, .nil⟩
  | cons inner inners =>
    unfold Parser.holes
    cases hown : tokenize (Template.unescape inner) with
    | error e => exact ReadsAt.bind (F := fun _ _ => False) readsAt_fail fun _ _ h => h.elim
    | ok own =>
      -- the tokens of a hole are its own, so none are taken from around the literal
      refine ReadsAt.bind (F := fun us ts => us = [] ∧ ts = own) (readsAt_pure ⟨rfl, rfl⟩) ?_
      rintro _ ts ⟨rfl, rfl⟩
      refine ReadsAt.bind reads_within ?_
      rintro _ stmts ⟨rfl, rest, hstmts⟩
      split
      · next e =>
        obtain ⟨read, last, rfl, hlast, -, hread⟩ := derives_of_statements ih.statements hown hstmts
        refine ReadsAt.bind (ih.holes p inners) ?_
        rintro _ ⟨fragments, es⟩ ⟨rfl, hfilled⟩
        exact readsAt_pure ⟨rfl, .cons hown hlast hread hfilled⟩
      · exact readsAt_fail

/-- With no budget nothing is read, so there is nothing to derive. -/
theorem Sound.zero : Sound 0 where
  statement := by unfold Parser.statement; exact readsAt_exhausted
  block _ := by unfold Parser.block; exact readsAt_exhausted
  clauses := by unfold Parser.clauses; exact readsAt_exhausted
  expression := by unfold Parser.expression; exact readsAt_exhausted
  matching := by unfold Parser.matching; exact readsAt_exhausted
  declaration _ _ := by unfold Parser.declaration; exact readsAt_exhausted
  operators _ := by unfold Parser.operators; exact readsAt_exhausted
  operand _ := by unfold Parser.operand; exact readsAt_exhausted
  operations _ _ _ _ := by unfold Parser.operations; exact readsAt_exhausted
  negation := by unfold Parser.negation; exact readsAt_exhausted
  unary := by unfold Parser.unary; exact readsAt_exhausted
  suffixes _ _ _ := by unfold Parser.suffixes; exact readsAt_exhausted
  sequence _ := by unfold Parser.sequence; exact readsAt_exhausted
  entries := by unfold Parser.entries; exact readsAt_exhausted
  mapKey := by unfold Parser.mapKey; exact readsAt_exhausted
  primary := by unfold Parser.primary; exact readsAt_exhausted
  holes _ _ := by unfold Parser.holes; exact readsAt_exhausted
  statements := by unfold Parser.statements; exact readsAt_exhausted

/-- **Every reader follows the grammar**, by induction on the budget. -/
theorem sound (n : Nat) : Sound n := by
  induction n with
  | zero => exact .zero
  | succ n ih =>
    exact
      { statement := ih.succ_statement
        block := ih.succ_block
        clauses := ih.succ_clauses
        expression := ih.succ_expression
        matching := ih.succ_matching
        declaration := ih.succ_declaration
        operators := ih.succ_operators
        operand := ih.succ_operand
        operations := ih.succ_operations
        negation := ih.succ_negation
        unary := ih.succ_unary
        suffixes := ih.succ_suffixes
        sequence := ih.succ_sequence
        entries := ih.succ_entries
        mapKey := ih.succ_mapKey
        primary := ih.succ_primary
        holes := ih.succ_holes
        statements := ih.succ_statements }

end Parser

/-- A program is what is read from the tokens of its text. -/
theorem Program.exists_of_parse {source : String} {p : Program} (h : Program.parse source = .ok p) :
    ∃ ts rest, tokenize source = .ok ts ∧
      Parser.statements (Parser.budget source.length) ts = .done p rest := by
  unfold Program.parse Program.read at h
  cases hts : tokenize source with
  | error e =>
    rw [hts] at h
    cases h
  | ok ts =>
    rw [hts] at h
    dsimp only at h
    split at h
    · next p' rest hdone =>
      cases h
      exact ⟨ts, rest, rfl, hdone⟩
    · cases h
    · cases h
    · cases h

/-- **Programs are derived by the grammar.**  When a text is read to a program, then the text can be
cut into tokens, and these tokens, all but the token of the end, derive the program. -/
theorem Program.parse_derives {source : String} {p : Program} (h : Program.parse source = .ok p) :
    ∃ read last, tokenize source = .ok (read ++ [last]) ∧ last.kind = .eof ∧
      (∀ t ∈ read, t.kind ≠ .eof) ∧ Statements read p := by
  obtain ⟨ts, rest, hts, hdone⟩ := Program.exists_of_parse h
  obtain ⟨read, last, rfl, hlast, hread, hp⟩ :=
    Parser.derives_of_statements (Parser.sound _).statements hts hdone
  exact ⟨read, last, hts, hlast, hread, hp⟩

/-- A function with a final comma, clauses, prefixed operators, calls in a row, both kinds of map
entries, and an expression in a string. -/
theorem Program.parse_derives_mixed :
    let text := "def f(a, b,) do if not a == -b - 1 do return %\x7bx: 1, :y => [a]\x7d " ++
      "elif b do ; else do f(a)(b).c = \"#\x7ba + 1\x7d\" end end"
    ∃ p read, Program.parse text = .ok p ∧ (tokenize text).map List.length = .ok 50 ∧
      read.length = 49 ∧ Statements read p := by
  intro text
  have hok : (Program.parse text).isOk = true := by decide +kernel
  have hlength : (tokenize text).map List.length = .ok 50 := by decide +kernel
  cases hp : Program.parse text with
  | error e =>
    rw [hp] at hok
    cases hok
  | ok p =>
    obtain ⟨read, last, hts, -, -, hread⟩ := Program.parse_derives hp
    refine ⟨p, read, rfl, hlength, ?_, hread⟩
    rw [hts] at hlength
    simpa [Except.map] using hlength

end AtomScript

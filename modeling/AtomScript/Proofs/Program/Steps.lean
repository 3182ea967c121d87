import AtomScript.Proofs.Program.Joined
import AtomScript.Proofs.Program.Spelling

/-!
# Steps of the readers

What each reader does on tokens of a given form, in terms of what the readers do that it calls.

The readers take as much as they can, so what follows an expression decides where they stop: for
the operations of a level it is a token which is no operator of the level, for a chain of suffixes
one which opens no suffix.

Between a whole expression and a primary there are the five levels of operators.  An expression that
uses none of them passes through all (`Parser.operand_of_unary`), and one that uses a single
operator passes through those above and those below it (`Parser.expression_binary`).
-/

namespace AtomScript

namespace Parser

variable {β : Type} {f : Bool → Parser β} {g : Token → Parser β} {t : Token}
  {ts us rest : List Token} {kind : TokenKind} {level : Level} {e : Expr} {n : Nat}

/-! ### Taking and not taking a token -/

/-- A look at the kind of the front token takes nothing. -/
theorem peekKind_bind {f : TokenKind → Parser β} : (peekKind >>= f) ts = f (front ts).kind ts := rfl

/-- The front token is handed on. -/
theorem advance_bind : (advance >>= g) (t :: ts) = g t ts := rfl

/-- Without a separator in front there is nothing to pass over. -/
theorem behindSeparators_of_ne (h : (front ts).kind ≠ .semicolon) : behindSeparators ts = ts := by
  cases ts with
  | nil => rfl
  | cons t ts =>
    have ht : t.kind ≠ .semicolon := h
    exact List.dropWhile_cons_of_neg (by simpa using ht)

/-- A token of the kind is taken. -/
theorem accept_of_eq (h : t.kind = kind) : accept kind (t :: ts) = .done true ts := by
  unfold accept
  exact congrFun (if_pos h) (t :: ts)

/-- Another token is left. -/
theorem accept_of_ne (h : (front ts).kind ≠ kind) : accept kind ts = .done false ts := by
  unfold accept
  exact congrFun (if_neg h) ts

/-- What is read after a token of the kind. -/
theorem accept_bind_of_eq (h : t.kind = kind) : (accept kind >>= f) (t :: ts) = f true ts :=
  bind_of_done (accept_of_eq h)

/-- What is read instead of it. -/
theorem accept_bind_of_ne (h : (front ts).kind ≠ kind) : (accept kind >>= f) ts = f false ts :=
  bind_of_done (accept_of_ne h)

/-- What is read after the token that was expected. -/
theorem expect_bind_of_eq {wanted : Expectation} (h : some t.kind = wanted.kind?) :
    (expect wanted >>= g) (t :: ts) = g t ts :=
  bind_of_done (expect_of_eq h)

/-! ### From a reader to the ones that call it -/

/-- A primary and its suffixes are an operand, if no minus is in front. -/
theorem unary_of_primary [HostStack] {primary' : Expr} (hts : (front ts).kind ≠ .minus)
    (h : primary n ts = .done primary' us) (hsuffixes : suffixes n primary' us = .done e rest) :
    unary (n + 1) ts = .done e rest := by
  rw [unary, accept_bind_of_ne hts]
  exact (bind_of_done h).trans hsuffixes

/-- An operand is a row by itself, if no operator of the level follows. -/
theorem operators_of_operand [HostStack] (h : operand (n + 1) level ts = .done e rest)
    (hrest : level.holds (front rest) = false) : operators (n + 2) level ts = .done e rest := by
  -- the loop looks at the token behind the operand, and does not go on
  rw [operators, bind_of_done h, operations]
  exact congrFun (if_neg (Bool.eq_false_iff.1 hrest)) rest

/-- A comparison is a negation, if no `not` is in front. -/
theorem negation_of_operators [HostStack] (h : operators n .comparison ts = .done e rest)
    (hts : (front ts).kind ≠ .keyword .notWord) : negation (n + 1) ts = .done e rest := by
  rw [negation, accept_bind_of_ne hts]
  exact h

/-- An expression is a binding or an operation, read with all of the stack before it. -/
theorem expression_succ : expression (n + 1) = matching n none := by
  rw [expression]
  rfl

/-- An operation is the whole, if no `=` follows and no `let` is in front. -/
theorem matching_of_operators (h : operators n .or ts = .done e rest)
    (hts : (front ts).kind ≠ .keyword .letWord) (hrest : (front rest).kind ≠ .assign) :
    matching (n + 1) none ts = .done e rest := by
  rw [matching, peekKind_bind, if_neg hts, bind_of_done h, accept_bind_of_ne hrest]
  rfl

/-- And as much is an expression, two calls higher. -/
theorem expression_of_operators (h : operators n .or ts = .done e rest)
    (hts : (front ts).kind ≠ .keyword .letWord) (hrest : (front rest).kind ≠ .assign) :
    expression (n + 2) ts = .done e rest := by
  rw [expression_succ]
  exact matching_of_operators h hts hrest

/-- A binding: the pattern in front of `=`, and the value behind it, which is an expression. -/
theorem expression_bind {pattern value : Expr} (h : operators n .or ts = .done pattern (t :: us))
    (hts : (front ts).kind ≠ .keyword .letWord) (ht : t.kind = .assign)
    (hvalue : expression (n + 1) us = .done value rest) :
    expression (n + 2) ts = .done (.bind pattern value) rest := by
  rw [expression_succ] at hvalue
  rw [expression_succ, matching, peekKind_bind, if_neg hts, bind_of_done h, accept_bind_of_eq ht]
  -- the right side is read by the reader for both sides, one call below the expression
  change (matching n none >>= _) us = _
  rw [bind_of_done hvalue]
  rfl

/-- A `let` in front decides for a declaration. -/
theorem matching_of_let (ht : t.kind = .keyword .letWord) :
    matching (n + 1) none (t :: ts) = declaration n none (t :: ts) := by
  unfold matching
  exact congrFun (if_pos ht) (t :: ts)

/-- A declaration: `let`, the name, `=` and the value. -/
theorem expression_declare {name text : String} (h : expression (n + 1) ts = .done e rest) :
    expression (n + 3) (Keyword.letWord.token :: .of .identifier name :: .of .assign text :: ts) =
      .done (.declare name e) rest := by
  rw [expression_succ] at h
  rw [expression_succ, matching_of_let rfl, declaration]
  change (matching n none >>= _) ts = _
  rw [bind_of_done h]
  rfl

/-- A negation: `not` and what is negated. -/
theorem negation_not (h : negation n ts = .done e rest) :
    negation (n + 1) (Keyword.notWord.token :: ts) = .done (.not e) rest := by
  rw [negation]
  change (negation n >>= _) ts = _
  rw [bind_of_done h]
  rfl

/-- A negation is a whole operation, if no operator follows. -/
theorem operators_or_of_negation (h : negation n ts = .done e rest)
    (hrest : ∀ l : Level, l.holds (front rest) = false) :
    operators (n + 4) .or ts = .done e rest := by
  -- a negation is an operand of `and`, and the row of `and` is one of `or`
  have hand : operators (n + 2) .and ts = .done e rest := by
    refine operators_of_operand ?_ (hrest .and)
    rw [operand]
    exact h
  refine operators_of_operand ?_ (hrest .or)
  rw [operand]
  exact hand

/-! ### Operators -/

/-- The level of a binary operator. -/
def opLevel : BinaryOp → Level
  | .or => .or
  | .and => .and
  | .equal | .notEqual | .less | .greater | .lessEqual | .greaterEqual => .comparison
  | .add | .subtract => .sum
  | .multiply | .divide | .modulo => .product

/-- The token of an operator belongs to its level and to no other. -/
theorem holds_tokenKind (op : BinaryOp) (b : Bool) (level : Level) :
    level.holds (.of (op.tokenKind b) op.symbol) = decide (level = opLevel op) := by
  cases op <;> cases b <;> cases level <;> rfl

/-- How many calls an operand of the level is above a chain of suffixes. -/
def Level.height : Level → Nat
  | product => 1
  | sum => 3
  | comparison => 5
  | and => 8
  | or => 10

/-- An operand of any level may be a chain of suffixes, if no operator of another level follows. -/
theorem operand_of_unary [HostStack] (h : unary n ts = .done e rest)
    (hts : (front ts).kind ≠ .keyword .notWord)
    (hrest : ∀ l, l ≠ level → l.holds (front rest) = false) :
    operand (n + level.height) level ts = .done e rest := by
  have hproduct : operand (n + 1) .product ts = .done e rest := by
    rw [operand]
    exact h
  -- the levels from the strongest on; each reader is called by the operand of the level below
  have hsum : level ≠ .product → operand (n + 3) .sum ts = .done e rest := fun hne => by
    rw [operand]
    exact operators_of_operand hproduct (hrest _ hne.symm)
  have hcomparison : level ≠ .product → level ≠ .sum →
      operand (n + 5) .comparison ts = .done e rest := fun hne hne' => by
    rw [operand]
    exact operators_of_operand (hsum hne) (hrest _ hne'.symm)
  have hand : level ≠ .product → level ≠ .sum → level ≠ .comparison →
      operand (n + 8) .and ts = .done e rest := fun hne hne' hne'' => by
    rw [operand]
    refine negation_of_operators ?_ hts
    exact operators_of_operand (hcomparison hne hne') (hrest _ hne''.symm)
  cases level with
  | product => exact hproduct
  | sum => exact hsum nofun
  | comparison => exact hcomparison nofun nofun
  | and => exact hand nofun nofun nofun
  | or =>
    have hor : operand (n + 10) .or ts = .done e rest := by
      rw [operand]
      exact operators_of_operand (hand nofun nofun nofun) (hrest _ nofun)
    exact hor

/-- How many calls the operations of the level are below a whole expression. -/
def Level.depth : Level → Nat
  | product => 11
  | sum => 9
  | comparison => 7
  | and => 4
  | or => 2

/-- The operations of a level are a whole expression, if nothing goes on with the token behind. -/
theorem expression_of_level (h : operators n level ts = .done e rest)
    (hnot : (front ts).kind ≠ .keyword .notWord) (hlet : (front ts).kind ≠ .keyword .letWord)
    (hrest : ∀ l : Level, l.holds (front rest) = false) (hassign : (front rest).kind ≠ .assign) :
    expression (n + level.depth) ts = .done e rest := by
  -- from the weakest level on; a stronger one is an operand of each level above it
  have hor : ∀ m, operators m .or ts = .done e rest → expression (m + 2) ts = .done e rest :=
    fun m hm => expression_of_operators hm hlet hassign
  have hcomparison : ∀ m, operators m .comparison ts = .done e rest →
      expression (m + 7) ts = .done e rest := fun m hm =>
    hor (m + 5) (operators_or_of_negation (negation_of_operators hm hnot) hrest)
  have hsum : ∀ m, operators m .sum ts = .done e rest → expression (m + 9) ts = .done e rest := by
    intro m hm
    refine hcomparison (m + 2) (operators_of_operand ?_ (hrest .comparison))
    rw [operand]
    exact hm
  cases level with
  | or => exact hor n h
  | and =>
    refine hor (n + 2) (operators_of_operand ?_ (hrest .or))
    rw [operand]
    exact h
  | comparison => exact hcomparison n h
  | sum => exact hsum n h
  | product =>
    refine hsum (n + 2) (operators_of_operand ?_ (hrest .sum))
    rw [operand]
    exact h

/-- An operator between two operands of its level. -/
theorem operators_binary {op : BinaryOp} {left right : Expr}
    (hlevel : level.holds t = true) (hop : BinaryOp.ofSymbol? t.text = some op)
    (hleft : operand (n + 2) level ts = .done left (t :: us))
    (hright : operand (n + 1) level us = .done right rest)
    (hrest : level.holds (front rest) = false) :
    operators (n + 3) level ts = .done (.binary op left right) rest := by
  have hoperator : ∀ ts, operator t ts = .done op ts := by
    intro ts
    unfold operator
    rw [hop]
    rfl
  rw [operators, bind_of_done hleft, operations]
  change (if level.holds t = true then _ else _ : Parser Expr) (t :: us) = _
  rw [if_pos hlevel]
  change (operator t >>= _) us = _
  -- behind the right operand the loop starts again, and stops
  rw [bind_of_done (hoperator us), bind_of_done hright, operations]
  exact congrFun (if_neg (Bool.eq_false_iff.1 hrest)) rest

/-- The levels above and below an operator add up to the same number of calls for each. -/
theorem Level.height_add_depth (level : Level) : level.height + level.depth = 12 := by
  cases level <;> rfl

/-- **One operator** between two chains of suffixes is a whole expression. -/
theorem expression_binary {op : BinaryOp} {b : Bool} {left right : Expr}
    (hleft : unary (n + 1) ts = .done left (.of (op.tokenKind b) op.symbol :: us))
    (hright : unary n us = .done right rest)
    (hnot : (front ts).kind ≠ .keyword .notWord) (hlet : (front ts).kind ≠ .keyword .letWord)
    (hnot' : (front us).kind ≠ .keyword .notWord)
    (hrest : ∀ l : Level, l.holds (front rest) = false) (hassign : (front rest).kind ≠ .assign) :
    expression (n + 14) ts = .done (.binary op left right) rest := by
  -- the operands of a level are at least one call above a chain of suffixes
  obtain ⟨k, hk⟩ : ∃ k, (opLevel op).height = k + 1 := by cases op <;> exact ⟨_, rfl⟩
  have hothers : ∀ l, l ≠ opLevel op →
      l.holds (front (.of (op.tokenKind b) op.symbol :: us)) = false :=
    fun l hl => (holds_tokenKind op b l).trans (decide_eq_false hl)
  have hoperator : (opLevel op).holds (.of (op.tokenKind b) op.symbol) = true := by
    rw [holds_tokenKind, decide_eq_true rfl]
  have hleft' := operand_of_unary hleft hnot hothers
  have hright' := operand_of_unary hright hnot' fun l (_ : l ≠ opLevel op) => hrest l
  -- whatever the level, the calls above it and below it are twelve, and the operator takes two
  have hbudget : n + 14 = n + k + 3 + (opLevel op).depth := by
    have hsum := (opLevel op).height_add_depth
    omega
  have hshift : n + 1 + (opLevel op).height = n + k + 2 := by omega
  rw [hshift] at hleft'
  rw [hk] at hright'
  rw [hbudget]
  have hoperators := operators_binary hoperator op.ofSymbol?_symbol hleft' hright' (hrest _)
  exact expression_of_level hoperators hnot hlet hrest hassign

/-! ### Suffixes -/

/-- The chain of suffixes stops at a token which opens none. -/
theorem suffixes_of_end [HostStack] (hparen : (front rest).kind ≠ .openParen)
    (hdot : (front rest).kind ≠ .dot) (hbracket : (front rest).kind ≠ .openBracket) :
    suffixes (n + 1) e rest = .done e rest := by
  -- the three tokens that open a suffix are looked for in turn
  rw [suffixes, accept_bind_of_ne hparen]
  change (accept .dot >>= _) rest = _
  rw [accept_bind_of_ne hdot]
  change (accept .openBracket >>= _) rest = _
  rw [accept_bind_of_ne hbracket]
  rfl

/-- A call: the arguments between parentheses, and the suffixes after them. -/
theorem suffixes_call {opening closing : Token} {args : List Expr}
    (hopening : opening.kind = .openParen)
    (h : sequence n .closeParen ts = .done args (closing :: rest))
    (hclosing : closing.kind = .closeParen) :
    suffixes (n + 1) e (opening :: ts) = suffixes n (.call e args) rest := by
  rw [suffixes, accept_bind_of_eq hopening]
  change (sequence n .closeParen >>= _) ts = _
  rw [bind_of_done h, expect_bind_of_eq (by rw [hclosing]; rfl)]

/-- A member that is named behind a dot. -/
theorem suffixes_member {dot name : Token} (hdot : dot.kind = .dot)
    (hname : name.kind = .identifier) :
    suffixes (n + 1) e (dot :: name :: rest) =
      suffixes n (.member e (.identifier name.text) false) rest := by
  have hparen : (front (dot :: name :: rest)).kind ≠ .openParen := by
    change dot.kind ≠ _
    rw [hdot]
    nofun
  -- a dot is no parenthesis
  rw [suffixes, accept_bind_of_ne hparen]
  change (accept .dot >>= _) _ = _
  rw [accept_bind_of_eq hdot]
  change (expect .memberName >>= _) _ = _
  rw [expect_bind_of_eq (by rw [hname]; rfl)]

/-- A member that is computed between brackets. -/
theorem suffixes_index {opening closing : Token} {property : Expr}
    (hopening : opening.kind = .openBracket)
    (h : expression n ts = .done property (closing :: rest))
    (hclosing : closing.kind = .closeBracket) :
    suffixes (n + 1) e (opening :: ts) = suffixes n (.member e property true) rest := by
  have hfront : (front (opening :: ts)).kind = .openBracket := hopening
  have hparen : (front (opening :: ts)).kind ≠ .openParen := by rw [hfront]; nofun
  have hdot : (front (opening :: ts)).kind ≠ .dot := by rw [hfront]; nofun
  -- a bracket is neither a parenthesis nor a dot
  rw [suffixes, accept_bind_of_ne hparen]
  change (accept .dot >>= _) _ = _
  rw [accept_bind_of_ne hdot]
  change (accept .openBracket >>= _) _ = _
  rw [accept_bind_of_eq hopening]
  change (expression n >>= _) ts = _
  rw [bind_of_done h, expect_bind_of_eq (by rw [hclosing]; rfl)]

/-! ### Lists -/

section Lists

variable {close : TokenKind} {es : List Expr} {key value : Expr} {entries' : List (Expr × Expr)}

/-- No items, if the closing token is in front. -/
theorem sequence_nil (h : (front ts).kind = close) : sequence (n + 1) close ts = .done [] ts := by
  rw [sequence]
  exact congrFun (if_pos h) ts

/-- The last item has no comma behind it. -/
theorem sequence_last (hts : (front ts).kind ≠ close) (h : expression n ts = .done e rest)
    (hrest : (front rest).kind ≠ .comma) : sequence (n + 1) close ts = .done [e] rest := by
  rw [sequence]
  refine (congrFun (if_neg hts) ts).trans ?_
  rw [bind_of_done h, accept_bind_of_ne hrest]
  rfl

/-- An item, a comma, and the other items. -/
theorem sequence_cons (hts : (front ts).kind ≠ close) (h : expression n ts = .done e (t :: us))
    (ht : t.kind = .comma) (hrest : sequence n close us = .done es rest) :
    sequence (n + 1) close ts = .done (e :: es) rest := by
  rw [sequence]
  refine (congrFun (if_neg hts) ts).trans ?_
  rw [bind_of_done h, accept_bind_of_eq ht]
  change (sequence n close >>= _) us = _
  rw [bind_of_done hrest]
  rfl

/-- No entries, if the brace is in front. -/
theorem entries_nil (h : (front ts).kind = .closeBrace) : entries (n + 1) ts = .done [] ts := by
  rw [entries]
  exact congrFun (if_pos h) ts

/-- The last entry has no comma behind it. -/
theorem entries_last (hts : (front ts).kind ≠ .closeBrace) (hkey : mapKey n ts = .done key us)
    (hvalue : expression n us = .done value rest) (hrest : (front rest).kind ≠ .comma) :
    entries (n + 1) ts = .done [(key, value)] rest := by
  rw [entries]
  refine (congrFun (if_neg hts) ts).trans ?_
  rw [bind_of_done hkey, bind_of_done hvalue, accept_bind_of_ne hrest]
  rfl

/-- An entry, a comma, and the other entries. -/
theorem entries_cons {vs : List Token} (hts : (front ts).kind ≠ .closeBrace)
    (hkey : mapKey n ts = .done key us) (hvalue : expression n us = .done value (t :: vs))
    (ht : t.kind = .comma) (hrest : entries n vs = .done entries' rest) :
    entries (n + 1) ts = .done ((key, value) :: entries') rest := by
  rw [entries]
  refine (congrFun (if_neg hts) ts).trans ?_
  rw [bind_of_done hkey, bind_of_done hvalue, accept_bind_of_eq ht]
  change (entries n >>= _) vs = _
  rw [bind_of_done hrest]
  rfl

/-- A key and its arrow; a name before a colon would be another kind of key. -/
theorem mapKey_arrow (hcolon : (front ts.tail).kind ≠ .colon)
    (h : expression n ts = .done key (t :: us)) (ht : t.kind = .fatArrow) :
    mapKey (n + 1) ts = .done key us := by
  rw [mapKey_of_not fun hname => hcolon hname.2, bind_of_done h,
    expect_bind_of_eq (by rw [ht]; rfl)]
  rfl

/-- A name, a comma, and the other names. -/
theorem parameters_cons {name comma : Token} {names : List String} (hclose : close ≠ .identifier)
    (hname : name.kind = .identifier) (hcomma : comma.kind = .comma)
    (h : parameters close ts = .done names rest) :
    parameters close (name :: comma :: ts) = .done (name.text :: names) rest := by
  -- a name does not close the list of names
  have hne : name.kind ≠ close := fun heq => hclose (heq.symm.trans hname)
  unfold parameters
  dsimp only
  rw [if_neg hne, if_pos hname, if_pos hcomma, h]

/-- All names with commas between them, up to the parenthesis. -/
theorem parameters_names (names : List String) (ht : t.kind = .closeParen) :
    parameters .closeParen
      (Token.separated (names.map fun name => [.of .identifier name]) ++ t :: rest) =
        .done names (t :: rest) := by
  -- along the names; the last one has the parenthesis behind it
  induction names with
  | nil =>
    unfold parameters
    exact if_pos ht
  | cons name names ih =>
    cases names with
    | nil =>
      have hcomma : t.kind ≠ .comma := by rw [ht]; decide
      unfold parameters
      exact if_neg hcomma
    | cons name' names =>
      simp only [List.map_cons] at ih ⊢
      rw [Token.separated_cons_cons, List.append_assoc]
      exact parameters_cons (by decide) rfl rfl ih

end Lists

/-! ### Primaries -/

section Primaries

variable {text text' : String}

/-- A name stands for what is bound to it. -/
theorem primary_name [HostStack] (ht : t.kind = .identifier) :
    primary (n + 1) (t :: ts) = .done (.identifier t.text) ts := by
  have hfront : (front (t :: ts)).kind = .identifier := ht
  rw [primary, peekKind_bind, hfront]
  rfl

/-- The colon of an atom is none of its name. -/
theorem primary_atom {name : String} (hname : Lexer.Lexeme .atom (':' :: name.toList)) :
    primary (n + 1) (.of .atom (":" ++ name) :: ts) = .done (.atom name) ts := by
  -- the colons in front are cut off, and a letter stops the cut
  have htext : String.ofList ((":" ++ name).toList.dropWhile (· == ':')) = name := by
    obtain ⟨c, cs, hcons, hletter⟩ := hname.atom_inv
    have hc : c ≠ ':' := by
      rintro rfl
      cases hletter
    have hdrop : (':' :: name.toList).dropWhile (· == ':') = name.toList := by
      rw [(List.cons.inj hcons).2, List.dropWhile_cons_of_pos rfl,
        List.dropWhile_cons_of_neg (by simpa using hc)]
    rw [String.toList_append]
    change String.ofList ((':' :: name.toList).dropWhile _) = _
    rw [hdrop, String.ofList_toList]
  rw [primary]
  change Parsed.done (Expr.atom (String.ofList ((":" ++ name).toList.dropWhile _))) ts = _
  rw [htext]

/-- A string: its text, decoded, and the programs in its markers. -/
theorem primary_string {inners fragments : List String} {expressions : List Expr}
    (hmarkers : Template.markers? text = some inners)
    (hholes : holes n .nowhere inners ts = .done (fragments, expressions) rest) :
    primary (n + 1) (.of .string text :: ts) =
      .done (.string (Template.unescape text) fragments expressions) rest := by
  have hmarkers' : Template.markers? (Token.of .string text).text = some inners := hmarkers
  rw [primary, peekKind_bind]
  change (advance >>= _) (.of .string text :: ts) = _
  rw [advance_bind, hmarkers']
  change (holes n .nowhere inners >>= _) ts = _
  rw [bind_of_done hholes]
  rfl

/-- Parentheses leave no trace in the expression. -/
theorem primary_group (h : expression n ts = .done e (.of .closeParen text' :: rest)) :
    primary (n + 1) (.of .openParen text :: ts) = .done e rest := by
  rw [primary]
  change (expression n >>= _) ts = _
  rw [bind_of_done h]
  rfl

/-- A tuple between braces. -/
theorem primary_tuple {items : List Expr}
    (h : sequence n .closeBrace ts = .done items (.of .closeBrace text' :: rest)) :
    primary (n + 1) (.of .openBrace text :: ts) = .done (.tuple items) rest := by
  rw [primary]
  change (sequence n .closeBrace >>= _) ts = _
  rw [bind_of_done h]
  rfl

/-- A list between brackets. -/
theorem primary_list {items : List Expr}
    (h : sequence n .closeBracket ts = .done items (.of .closeBracket text' :: rest)) :
    primary (n + 1) (.of .openBracket text :: ts) = .done (.list items) rest := by
  rw [primary]
  change (sequence n .closeBracket >>= _) ts = _
  rw [bind_of_done h]
  rfl

/-- A map between `%{` and a brace. -/
theorem primary_map {items : List (Expr × Expr)}
    (h : entries n ts = .done items (.of .closeBrace text' :: rest)) :
    primary (n + 1) (.of .mapOpen text :: ts) = .done (.map items) rest := by
  rw [primary]
  change (entries n >>= _) ts = _
  rw [bind_of_done h]
  rfl

/-- A function without a name: its parameters in parentheses, an arrow and its body. -/
theorem primary_lambda {names : List String}
    (hnames : parameters .closeParen ts =
      .done names (.of .closeParen ")" :: .of .arrow "->" :: us))
    (hbody : expression n us = .done e (Keyword.endWord.token :: rest)) :
    primary (n + 1) (Keyword.fnWord.token :: .of .openParen "(" :: ts) =
      .done (.lambda names e) rest := by
  rw [primary]
  -- the parentheses have been asked for, so the names go up to the closing one
  change (parameters .closeParen >>= _) ts = _
  rw [bind_of_done hnames]
  change (expression n >>= _) us = _
  rw [bind_of_done hbody]
  rfl

end Primaries

end Parser

end AtomScript

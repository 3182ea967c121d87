import AtomScript.Proofs.Program.Steps

/-!
# Reading what was printed

An unambiguous expression, printed, is read back (`Expr.parse_print`).  The text is cut into the
tokens of the expression, as `Expr.Unambiguous.scanned` has it; here the grammar is run on them.

Readers look at the token in front, and at the one behind.  `Extent.opens` says which tokens an
expression of the extent starts with, and `Extent.continues` with which it would go on: a closed one
with a suffix, a negation also with an operator, a whole expression also with `=`.

The budget is counted in tokens: eighteen for each.  From the start of an expression there are
fourteen calls down to its first primary, and every further bracket opens with a token of its own.
A reader that is `k` calls nearer to the primary gets by with `k` less, which is where the summands
in the bounds come from (`Expr.Reread`).
-/

namespace AtomScript

open AtomScript.Parser

/-! ### The tokens around an expression -/

namespace Extent

/-- The token may be the first one of an expression of the extent. -/
def opens : Extent → TokenKind → Bool
  | whole, .keyword .letWord => true
  | whole, .keyword .notWord | negation, .keyword .notWord => true
  | _, .identifier | _, .number | _, .atom | _, .string | _, .openParen | _, .openBrace
  | _, .openBracket | _, .mapOpen | _, .keyword .fnWord => true
  | _, _ => false

/-- An expression of the extent would go on with the token. -/
def continues : Extent → TokenKind → Bool
  | _, .openParen | _, .dot | _, .openBracket => true
  | closed, _ => false
  | _, .minus | _, .binaryOperator | _, .keyword .andWord | _, .keyword .orWord => true
  | whole, .assign => true
  | _, kind => kind.isRelational

/-- The next wider extent. -/
def wider : Extent → Extent
  | closed => negation
  | negation | whole => whole

variable {extent : Extent} {kind other : TokenKind}

/-- What opens an expression of some extent opens one of the next wider extent. -/
theorem opens_wider (h : extent.opens kind = true) : extent.wider.opens kind = true := by
  cases extent <;> cases kind with
  | keyword word => cases word <;> first | rfl | cases h
  | _ => first | rfl | cases h

/-- What does not go on with a wide expression does not go on with a tighter one. -/
theorem not_continues_of_wider (h : extent.wider.continues kind = false) :
    extent.continues kind = false := by
  cases extent <;> cases kind with
  | keyword word => cases word <;> first | rfl | cases h
  | _ => first | rfl | cases h

/-- A kind that opens an expression is none that does not. -/
theorem ne_of_opens (h : extent.opens kind = true) (hother : extent.opens other = false) :
    kind ≠ other := by
  rintro rfl
  exact Bool.false_ne_true (hother.symm.trans h)

/-- A kind that does not go on with an expression is none that does. -/
theorem ne_of_not_continues (h : extent.continues kind = false)
    (hother : extent.continues other = true) : kind ≠ other := by
  rintro rfl
  exact Bool.false_ne_true (h.symm.trans hother)

/-- A negation goes on with every operator. -/
theorem holds_of_not_continues {t : Token} (h : negation.continues t.kind = false)
    (level : Level) : level.holds t = false := by
  obtain ⟨kind, text, p⟩ := t
  cases kind with
  | keyword word => cases word <;> first | (cases level <;> rfl) | cases h
  | _ => first | (cases level <;> rfl) | cases h

/-- No operator goes on with a closed expression: operands of operators are printed closed. -/
theorem closed_not_continues_operator (op : BinaryOp) (b : Bool) :
    closed.continues (op.tokenKind b) = false := by
  cases op <;> cases b <;> rfl

end Extent

/-- The kind closes a list of expressions. -/
structure TokenKind.Closes (kind : TokenKind) : Prop where
  opens : Extent.whole.opens kind = false
  continues : Extent.whole.continues kind = false
  comma : kind ≠ .comma

/-- What holds of every token of the groups and of commas holds of the tokens of a list. -/
theorem Token.forall_mem_separated {P : Token → Prop} {groups : List (List Token)}
    (hcomma : P (.of .comma ",")) (h : ∀ group ∈ groups, ∀ t ∈ group, P t) :
    ∀ t ∈ separated groups, P t := by
  induction groups with
  | nil => exact List.forall_mem_nil P
  | cons group groups ih =>
    obtain ⟨hgroup, hgroups⟩ := List.forall_mem_cons.1 h
    cases groups with
    | nil => rwa [separated_singleton]
    | cons next groups =>
      rw [separated_cons_cons, List.forall_mem_append, List.forall_mem_cons]
      exact ⟨hgroup, hcomma, ih hgroups⟩

namespace Expr

variable {e : Expr} {extent : Extent}

/-- An expression is printed as one token at least. -/
theorem tokens_length_pos (e : Expr) : 0 < e.tokens.length := by
  cases e with
  | member object property computed =>
    cases computed <;> simp only [tokens, List.length_append, List.length_cons] <;> omega
  | _ =>
    simp only [tokens, List.length_append, List.length_cons]
    omega

/-- The first token of a printed expression opens an expression of its extent. -/
theorem Unambiguous.opens (h : Unambiguous extent e) (rest : List Token) :
    extent.opens (front (e.tokens ++ rest)).kind = true := by
  -- forms that start with another expression start as that one does
  induction h generalizing rest with
  | bind _ _ ihpattern _ =>
    rw [tokens, List.append_assoc]
    exact Extent.opens_wider (ihpattern _)
  | negation _ ih => exact Extent.opens_wider (ih rest)
  | closed _ ih => exact Extent.opens_wider (ih rest)
  | call _ _ ihcallee _ =>
    rw [tokens, List.append_assoc]
    exact ihcallee _
  | member _ _ ih =>
    rw [tokens, List.append_assoc]
    exact ih _
  | index _ _ ihobject _ =>
    rw [tokens, List.append_assoc]
    exact ihobject _
  | _ => rfl

/-- The token is neither a colon nor the end. -/
def isInner (t : Token) : Bool := t.kind != .colon && t.kind != .eof

/-- Inner tokens are all but the colon and the end of the text. -/
theorem isInner_iff {t : Token} : isInner t = true ↔ t.kind ≠ .colon ∧ t.kind ≠ .eof := by
  rw [isInner, Bool.and_eq_true, bne_iff_ne, bne_iff_ne]

/-- The token of an operator is inner. -/
theorem isInner_operator (op : BinaryOp) (b : Bool) :
    isInner (.of (op.tokenKind b) op.symbol) = true := by
  cases op <;> cases b <;> rfl

/-- Expressions of inner tokens, with commas between them, have inner tokens only. -/
theorem isInner_all {es : List Expr} (h : ∀ e ∈ es, ∀ t ∈ e.tokens, isInner t = true) :
    ∀ t ∈ Token.separated (tokensAll es), isInner t = true := by
  refine Token.forall_mem_separated rfl ?_
  rwa [tokensAll_eq_map, List.forall_mem_map]

/-- A printed expression has neither a colon of its own nor the end of the text in it. -/
theorem Unambiguous.forall_isInner (h : Unambiguous extent e) :
    ∀ t ∈ e.tokens, isInner t = true := by
  -- brackets, words and operators are inner, and so are the parts by induction
  induction h with
  | negation _ ih => exact ih
  | closed _ ih => exact ih
  | bind _ _ ihpattern ihvalue =>
    rw [tokens, List.forall_mem_append, List.forall_mem_cons]
    exact ⟨ihpattern, rfl, ihvalue⟩
  | declare _ _ ih =>
    rw [tokens, List.forall_mem_cons, List.forall_mem_cons, List.forall_mem_cons]
    exact ⟨rfl, rfl, rfl, ih⟩
  | not _ ih =>
    rw [tokens, List.forall_mem_cons]
    exact ⟨rfl, ih⟩
  | binary _ _ ihleft ihright =>
    rw [tokens, List.forall_mem_cons, List.forall_mem_append, List.forall_mem_cons,
      List.forall_mem_append, List.forall_mem_singleton]
    exact ⟨rfl, ihleft, isInner_operator _ _, ihright, rfl⟩
  | call _ _ ihcallee ihargs =>
    rw [tokens, List.forall_mem_append, List.forall_mem_cons, List.forall_mem_append,
      List.forall_mem_singleton]
    exact ⟨ihcallee, rfl, isInner_all ihargs, rfl⟩
  | member _ _ ih =>
    rw [tokens, List.forall_mem_append, List.forall_mem_cons, tokens, List.forall_mem_singleton]
    exact ⟨ih, rfl, rfl⟩
  | index _ _ ihobject ihproperty =>
    rw [tokens, List.forall_mem_append, List.forall_mem_cons, List.forall_mem_append,
      List.forall_mem_singleton]
    exact ⟨ihobject, rfl, ihproperty, rfl⟩
  | tuple _ ih =>
    rw [tokens, List.forall_mem_cons, List.forall_mem_append, List.forall_mem_singleton]
    exact ⟨rfl, isInner_all ih, rfl⟩
  | list _ ih =>
    rw [tokens, List.forall_mem_cons, List.forall_mem_append, List.forall_mem_singleton]
    exact ⟨rfl, isInner_all ih, rfl⟩
  | map _ _ ihkeys ihvalues =>
    rw [tokens, List.forall_mem_cons, List.forall_mem_append, List.forall_mem_singleton]
    refine ⟨rfl, Token.forall_mem_separated rfl ?_, rfl⟩
    rw [tokensEntries_eq_map, List.forall_mem_map]
    intro p hp
    rw [List.forall_mem_append, List.forall_mem_cons]
    exact ⟨ihkeys p hp, rfl, ihvalues p hp⟩
  | lambda _ _ ih =>
    rw [tokens, List.forall_mem_cons, List.forall_mem_cons, List.forall_mem_append,
      List.forall_mem_cons, List.forall_mem_cons, List.forall_mem_append, List.forall_mem_singleton]
    refine ⟨rfl, rfl, Token.forall_mem_separated rfl ?_, rfl, rfl, ih, rfl⟩
    rw [List.forall_mem_map]
    exact fun name _ => List.forall_mem_singleton.2 rfl
  | _ => exact List.forall_mem_singleton.2 rfl

/-! ### Reading back -/

/-- **The expression is read back** from its tokens by the reader of its extent, unless the token
behind them goes on with it.  A closed one is a primary with `k` suffixes, and more may follow. -/
def Reread : Extent → Expr → Prop
  | .whole, e => ∀ n rest, 18 * e.tokens.length ≤ n →
    Extent.whole.continues (front rest).kind = false →
    expression n (e.tokens ++ rest) = .done e rest
  | .negation, e => ∀ n rest, 18 * e.tokens.length ≤ n + 6 →
    Extent.negation.continues (front rest).kind = false →
    negation n (e.tokens ++ rest) = .done e rest
  | .closed, e => ∃ k < e.tokens.length, ∀ n rest, 18 * e.tokens.length ≤ n + 14 →
    (primary n >>= suffixes n) (e.tokens ++ rest) = suffixes (n - k) e rest

/-- A closed expression is read whole where no suffix follows. -/
theorem Unambiguous.unary_eq (h : Unambiguous .closed e) (hread : Reread .closed e) {n : Nat}
    {rest : List Token} (hn : 18 * e.tokens.length ≤ n + 13)
    (hrest : Extent.closed.continues (front rest).kind = false) :
    unary n (e.tokens ++ rest) = .done e rest := by
  obtain ⟨k, hk, hread⟩ := hread
  obtain ⟨m, rfl⟩ : ∃ m, n = m + k + 2 := ⟨n - k - 2, by omega⟩
  -- no closed expression starts with a minus, and no suffix follows it
  have hminus : (front (e.tokens ++ rest)).kind ≠ .minus := Extent.ne_of_opens (h.opens rest) rfl
  have hleft : m + k + 1 - k = m + 1 := by omega
  rw [unary, accept_bind_of_ne hminus]
  change (primary _ >>= suffixes _) _ = _
  rw [hread _ rest (by omega), hleft]
  exact suffixes_of_end (Extent.ne_of_not_continues hrest rfl)
    (Extent.ne_of_not_continues hrest rfl) (Extent.ne_of_not_continues hrest rfl)

/-- What reads back as a closed expression reads back where a negation may stand. -/
theorem Unambiguous.reread_negation (h : Unambiguous .closed e) (hread : Reread .closed e) :
    Reread .negation e := by
  intro n rest hn hrest
  have hpos := e.tokens_length_pos
  -- `Level.height .comparison` calls lead up from the unary operand, and two to the negation
  obtain ⟨m, rfl⟩ : ∃ m, n = m + 7 := ⟨n - 7, by omega⟩
  have hnot : (front (e.tokens ++ rest)).kind ≠ .keyword .notWord :=
    Extent.ne_of_opens (h.opens rest) rfl
  have hholds := Extent.holds_of_not_continues hrest
  have hunary : unary m (e.tokens ++ rest) = .done e rest :=
    h.unary_eq hread hn (Extent.not_continues_of_wider hrest)
  have hoperand : operand (m + Level.height .comparison) .comparison (e.tokens ++ rest) =
      .done e rest := operand_of_unary hunary hnot fun l _ => hholds l
  exact negation_of_operators (operators_of_operand hoperand (hholds .comparison)) hnot

/-- What reads back as a negation reads back where a whole expression may stand. -/
theorem Unambiguous.reread_whole (h : Unambiguous .negation e) (hread : Reread .negation e) :
    Reread .whole e := by
  intro n rest hn hrest
  have hpos := e.tokens_length_pos
  obtain ⟨m, rfl⟩ : ∃ m, n = m + 6 := ⟨n - 6, by omega⟩
  have hlet : (front (e.tokens ++ rest)).kind ≠ .keyword .letWord :=
    Extent.ne_of_opens (h.opens rest) rfl
  have hrest' : Extent.negation.continues (front rest).kind = false :=
    Extent.not_continues_of_wider hrest
  have hnegation := hread m rest hn hrest'
  refine expression_of_operators ?_ hlet (Extent.ne_of_not_continues hrest rfl)
  exact operators_or_of_negation hnegation (Extent.holds_of_not_continues hrest')

section Forms

variable {pattern value left right object property body callee : Expr} {name : String}

theorem reread_bind (hpattern : Unambiguous .negation pattern) (hread : Reread .negation pattern)
    (hvalue : Reread .whole value) : Reread .whole (.bind pattern value) := by
  intro n rest hn hrest
  have hpos := pattern.tokens_length_pos
  rw [tokens, List.length_append, List.length_cons] at hn
  obtain ⟨m, rfl⟩ : ∃ m, n = m + 6 := ⟨n - 6, by omega⟩
  rw [tokens, List.append_assoc, List.cons_append]
  -- the `=` ends the pattern, a negation, and is what the binding goes on with
  have hnegation := hread m (.of .assign "=" :: (value.tokens ++ rest)) (by omega) rfl
  exact expression_bind (operators_or_of_negation hnegation (Extent.holds_of_not_continues rfl))
    (Extent.ne_of_opens (hpattern.opens _) rfl) rfl (hvalue (m + 5) rest (by omega) hrest)

/-- A declaration reads back if its value does. -/
theorem reread_declare (hvalue : Reread .whole value) :
    Reread .whole (.declare name value) := by
  intro n rest hn hrest
  rw [tokens, List.length_cons, List.length_cons, List.length_cons] at hn
  obtain ⟨m, rfl⟩ : ∃ m, n = m + 3 := ⟨n - 3, by omega⟩
  exact expression_declare (hvalue (m + 1) rest (by omega) hrest)

/-- A negation reads back if its operand does. -/
theorem reread_not (hread : Reread .negation e) : Reread .negation (.not e) := by
  intro n rest hn hrest
  rw [tokens, List.length_cons] at hn
  obtain ⟨m, rfl⟩ : ∃ m, n = m + 1 := ⟨n - 1, by omega⟩
  exact negation_not (hread m rest (by omega) hrest)

/-- An expression that is read at once. -/
theorem reread_primary (h : ∀ n rest, 18 * e.tokens.length ≤ n + 15 →
    primary (n + 1) (e.tokens ++ rest) = .done e rest) : Reread .closed e := by
  have hpos := e.tokens_length_pos
  refine ⟨0, hpos, fun n rest hn => ?_⟩
  obtain ⟨m, rfl⟩ : ∃ m, n = m + 1 := ⟨n - 1, by omega⟩
  exact bind_of_done (h m rest hn)

/-- A closed expression with a further suffix. -/
theorem reread_suffix {t : Token} {suffix : List Token} (hobject : Reread .closed object)
    (htokens : e.tokens = object.tokens ++ t :: suffix)
    (h : ∀ n rest, 18 * suffix.length < n →
      suffixes (n + 1) object (t :: (suffix ++ rest)) = suffixes n e rest) :
    Reread .closed e := by
  obtain ⟨k, hk, hread⟩ := hobject
  have hlength : e.tokens.length = object.tokens.length + (suffix.length + 1) := by
    rw [htokens, List.length_append, List.length_cons]
  refine ⟨k + 1, by omega, fun n rest hn => ?_⟩
  -- the suffixes before this one have used `k` calls, which their tokens pay for
  obtain ⟨m, rfl⟩ : ∃ m, n = m + 1 + k := ⟨n - 1 - k, by omega⟩
  have hleft : m + 1 + k - (k + 1) = m := by omega
  rw [htokens, List.append_assoc, hread _ _ (by omega), Nat.add_sub_cancel, hleft]
  exact h m rest (by omega)

/-- A name reads back. -/
theorem reread_identifier : Reread .closed (.identifier name) :=
  reread_primary fun _ _ _ => primary_name rfl

/-- A numeral reads back if its text denotes the number. -/
theorem reread_number {x : Number} (hx : Number.ofNumeral x.literal = x) :
    Reread .closed (.number x) := by
  refine reread_primary fun n rest _ => ?_
  rw [primary]
  change Parsed.done (Expr.number (.ofNumeral x.literal)) rest = _
  rw [hx]

/-- An atom reads back if its name makes an atom of the language. -/
theorem reread_atom (hname : Lexer.Lexeme .atom (':' :: name.toList)) :
    Reread .closed (.atom name) :=
  reread_primary fun _ _ _ => primary_atom hname

/-- A string without quotes, backslashes and markers reads back. -/
theorem reread_string {raw : String} (hraw : ∀ c ∈ raw.toList, c ≠ '"' ∧ c ≠ '\\' ∧ c ≠ '#') :
    Reread .closed (.string raw [] []) := by
  -- nothing in the literal is a marker or an escape, so the body is its own text
  have hmarkers : Template.markers? raw = some [] := by
    unfold Template.markers?
    rw [Template.markersList?_of_plain fun c hc => (hraw c hc).2]
    rfl
  have hunescape : Template.unescape raw = raw := by
    unfold Template.unescape
    rw [Template.unescapeList_of_plain fun c hc => (hraw c hc).2.1, String.ofList_toList]
  refine reread_primary fun n rest hn => ?_
  obtain ⟨m, rfl⟩ : ∃ m, n = m + 1 := ⟨n - 1, by rw [tokens, List.length_singleton] at hn; omega⟩
  have hholes : holes (m + 1) .nowhere [] rest = .done ([], []) rest := by
    rw [holes]
    rfl
  have hprimary := primary_string hmarkers hholes
  rw [hunescape] at hprimary
  exact hprimary

/-- An operation, printed in parentheses, reads back if its operands do. -/
theorem reread_binary (op : BinaryOp) (hleft : Unambiguous .closed left)
    (hright : Unambiguous .closed right) (hreadl : Reread .closed left)
    (hreadr : Reread .closed right) : Reread .closed (.binary op left right) := by
  refine reread_primary fun n rest hn => ?_
  simp only [tokens, List.length_cons, List.length_append, List.length_nil] at hn
  have hpos := left.tokens_length_pos
  obtain ⟨m, rfl⟩ : ∃ m, n = m + 14 := ⟨n - 14, by omega⟩
  simp only [tokens, List.cons_append, List.append_assoc, List.nil_append]
  -- the printed form is parenthesized, and its operands are closed: each is read as a unary one
  refine primary_group (expression_binary
    (hleft.unary_eq hreadl (by omega) (Extent.closed_not_continues_operator op _))
    (hright.unary_eq hreadr (by omega) rfl) (Extent.ne_of_opens (hleft.opens _) rfl)
    (Extent.ne_of_opens (hleft.opens _) rfl) (Extent.ne_of_opens (hright.opens _) rfl) ?_ nofun)
  exact Extent.holds_of_not_continues rfl

/-! Expressions with commas between them. -/

/-- A list of expressions, by induction on it: each but the last is followed by a comma. -/
theorem sequence_eq {es : List Expr} (hes : ∀ e ∈ es, Unambiguous .whole e)
    (hread : ∀ e ∈ es, Reread .whole e) {closing : Token} (hclosing : closing.kind.Closes)
    {n : Nat} (hn : 18 * (Token.separated (tokensAll es)).length < n) (rest : List Token) :
    sequence n closing.kind (Token.separated (tokensAll es) ++ closing :: rest) =
      .done es (closing :: rest) := by
  rw [tokensAll_eq_map] at hn ⊢
  induction es generalizing n with
  | nil =>
    obtain ⟨m, rfl⟩ : ∃ m, n = m + 1 := ⟨n - 1, by omega⟩
    exact sequence_nil rfl
  | cons e es ih =>
    obtain ⟨he, hes⟩ := List.forall_mem_cons.1 hes
    -- a comma follows every expression but the last, so the last one is a case of its own
    obtain ⟨hreade, hread⟩ := List.forall_mem_cons.1 hread
    obtain ⟨m, rfl⟩ : ∃ m, n = m + 1 := ⟨n - 1, by omega⟩
    have hopens : ∀ us, (front (e.tokens ++ us)).kind ≠ closing.kind :=
      fun us => Extent.ne_of_opens (he.opens us) hclosing.opens
    cases es with
    | nil =>
      rw [List.map_cons, List.map_nil, Token.separated_singleton] at hn ⊢
      exact sequence_last (hopens _) (hreade m _ (by omega) hclosing.continues) hclosing.comma
    | cons e' es =>
      simp only [List.map_cons] at ih hn ⊢
      rw [Token.separated_cons_cons] at hn ⊢
      rw [List.length_append, List.length_cons] at hn
      rw [List.append_assoc, List.cons_append]
      exact sequence_cons (hopens _) (hreade m _ (by omega) rfl) rfl (ih hes hread (by omega))

/-- The key of an entry is not taken for a name before a colon. -/
theorem Unambiguous.second_ne_colon (h : Unambiguous extent e) {t : Token} (ht : t.kind ≠ .colon)
    (rest : List Token) : (front (e.tokens ++ t :: rest).tail).kind ≠ .colon := by
  have hpos := e.tokens_length_pos
  have hinner := h.forall_isInner
  match e.tokens, hpos, hinner with
  -- a key of one token is followed by the arrow
  | [_], _, _ => exact ht
  | _ :: u :: us, _, hinner =>
    exact (isInner_iff.1 (hinner u (List.mem_cons_of_mem _ List.mem_cons_self))).1

/-- A key of a map, printed before an arrow, reads back. -/
theorem Unambiguous.mapKey_eq (h : Unambiguous .whole e) (hread : Reread .whole e) {n : Nat}
    (hn : 18 * e.tokens.length < n) (rest : List Token) :
    mapKey n (e.tokens ++ .of .fatArrow "=>" :: rest) = .done e rest := by
  obtain ⟨m, rfl⟩ : ∃ m, n = m + 1 := ⟨n - 1, by omega⟩
  have hcolon := h.second_ne_colon (t := .of .fatArrow "=>") nofun rest
  exact mapKey_arrow hcolon (hread m _ (by omega) rfl) rfl

/-- The entries of a map read back up to the closing brace. -/
theorem entries_eq {es : List (Expr × Expr)} (hkeys : ∀ p ∈ es, Unambiguous .whole p.1)
    (hreadkey : ∀ p ∈ es, Reread .whole p.1) (hreadvalue : ∀ p ∈ es, Reread .whole p.2)
    {text : String} {n : Nat} (hn : 18 * (Token.separated (tokensEntries es)).length < n)
    (rest : List Token) :
    entries n (Token.separated (tokensEntries es) ++ .of .closeBrace text :: rest) =
      .done es (.of .closeBrace text :: rest) := by
  rw [tokensEntries_eq_map] at hn ⊢
  induction es generalizing n with
  | nil =>
    obtain ⟨m, rfl⟩ : ∃ m, n = m + 1 := ⟨n - 1, by omega⟩
    exact entries_nil rfl
  | cons p es ih =>
    obtain ⟨hp, hkeys⟩ := List.forall_mem_cons.1 hkeys
    obtain ⟨hkey, hreadkey⟩ := List.forall_mem_cons.1 hreadkey
    obtain ⟨hvalue, hreadvalue⟩ := List.forall_mem_cons.1 hreadvalue
    obtain ⟨m, rfl⟩ : ∃ m, n = m + 1 := ⟨n - 1, by omega⟩
    -- a comma follows every entry but the last, as it does between items
    have hopens : ∀ us, (front (p.1.tokens ++ us)).kind ≠ .closeBrace :=
      fun us => Extent.ne_of_opens (hp.opens us) rfl
    cases es with
    | nil =>
      rw [List.map_cons, List.map_nil, Token.separated_singleton] at hn ⊢
      rw [List.length_append, List.length_cons] at hn
      rw [List.append_assoc, List.cons_append]
      exact entries_last (hopens _) (hp.mapKey_eq hkey (by omega) _)
        (hvalue m _ (by omega) rfl) nofun
    | cons p' es =>
      simp only [List.map_cons] at ih hn ⊢
      rw [Token.separated_cons_cons] at hn ⊢
      rw [List.length_append, List.length_append, List.length_cons, List.length_cons] at hn
      rw [List.append_assoc, List.append_assoc, List.cons_append, List.cons_append]
      exact entries_cons (hopens _) (hp.mapKey_eq hkey (by omega) _) (hvalue m _ (by omega) rfl)
        rfl (ih hkeys hreadkey hreadvalue (by omega))

/-! Forms with brackets. -/

/-- A call reads back if the callee and the arguments do. -/
theorem reread_call {args : List Expr} (hcallee : Reread .closed callee)
    (hargs : ∀ e ∈ args, Unambiguous .whole e) (hread : ∀ e ∈ args, Reread .whole e) :
    Reread .closed (.call callee args) := by
  refine reread_suffix hcallee rfl fun n rest hn => ?_
  rw [List.length_append, List.length_singleton] at hn
  rw [List.append_assoc, List.singleton_append]
  have hclosing : (Token.of .closeParen ")").kind.Closes := ⟨rfl, rfl, nofun⟩
  exact suffixes_call rfl (sequence_eq hargs hread hclosing (by omega) rest) rfl

/-- An access by name reads back if the object does. -/
theorem reread_member (hobject : Reread .closed object) :
    Reread .closed (.member object (.identifier name) false) :=
  reread_suffix hobject rfl fun _ _ _ => suffixes_member rfl rfl

/-- An access in brackets reads back if the object and the key do. -/
theorem reread_index (hobject : Reread .closed object) (hproperty : Reread .whole property) :
    Reread .closed (.member object property true) := by
  refine reread_suffix hobject rfl fun n rest hn => ?_
  rw [List.length_append, List.length_singleton] at hn
  rw [List.append_assoc, List.singleton_append]
  exact suffixes_index rfl (hproperty n _ (by omega) rfl) rfl

/-- A tuple reads back if its items do. -/
theorem reread_tuple {items : List Expr} (hitems : ∀ e ∈ items, Unambiguous .whole e)
    (hread : ∀ e ∈ items, Reread .whole e) : Reread .closed (.tuple items) := by
  refine reread_primary fun n rest hn => ?_
  rw [tokens, List.length_cons, List.length_append, List.length_singleton] at hn
  rw [tokens, List.cons_append, List.append_assoc, List.singleton_append]
  have hclosing : (Token.of .closeBrace "\x7d").kind.Closes := ⟨rfl, rfl, nofun⟩
  exact primary_tuple (sequence_eq hitems hread hclosing (by omega) rest)

/-- A list reads back if its items do. -/
theorem reread_list {items : List Expr} (hitems : ∀ e ∈ items, Unambiguous .whole e)
    (hread : ∀ e ∈ items, Reread .whole e) : Reread .closed (.list items) := by
  refine reread_primary fun n rest hn => ?_
  rw [tokens, List.length_cons, List.length_append, List.length_singleton] at hn
  rw [tokens, List.cons_append, List.append_assoc, List.singleton_append]
  have hclosing : (Token.of .closeBracket "]").kind.Closes := ⟨rfl, rfl, nofun⟩
  exact primary_list (sequence_eq hitems hread hclosing (by omega) rest)

/-- A map reads back if its keys and values do. -/
theorem reread_map {es : List (Expr × Expr)} (hkeys : ∀ p ∈ es, Unambiguous .whole p.1)
    (hreadkey : ∀ p ∈ es, Reread .whole p.1) (hreadvalue : ∀ p ∈ es, Reread .whole p.2) :
    Reread .closed (.map es) := by
  refine reread_primary fun n rest hn => ?_
  rw [tokens, List.length_cons, List.length_append, List.length_singleton] at hn
  rw [tokens, List.cons_append, List.append_assoc, List.singleton_append]
  exact primary_map (entries_eq hkeys hreadkey hreadvalue (by omega) rest)

/-- A function written in place reads back if its body does. -/
theorem reread_lambda {params : List String} (hbody : Reread .whole body) :
    Reread .closed (.lambda params body) := by
  refine reread_primary fun n rest hn => ?_
  simp only [tokens, List.length_cons, List.length_append, List.length_nil] at hn
  simp only [tokens, List.cons_append, List.append_assoc, List.nil_append]
  exact primary_lambda (parameters_names params rfl) (hbody n _ (by omega) rfl)

end Forms

/-- **Unambiguous expressions are read back** from their tokens. -/
theorem Unambiguous.reread (h : Unambiguous extent e) : Reread extent e := by
  induction h with
  | bind hpattern _ ihpattern ihvalue => exact reread_bind hpattern ihpattern ihvalue
  | declare _ _ ih => exact reread_declare ih
  | negation h ih => exact h.reread_whole ih
  | not _ ih => exact reread_not ih
  | closed h ih => exact h.reread_negation ih
  | identifier _ => exact reread_identifier
  | atom hname => exact reread_atom hname
  | number _ hx => exact reread_number hx
  | string hraw => exact reread_string hraw
  | binary hleft hright ihleft ihright => exact reread_binary _ hleft hright ihleft ihright
  | call _ hargs ihcallee ihargs => exact reread_call ihcallee hargs ihargs
  | member _ _ ih => exact reread_member ih
  | index _ _ ihobject ihproperty => exact reread_index ihobject ihproperty
  | tuple hitems ih => exact reread_tuple hitems ih
  | list hitems ih => exact reread_list hitems ih
  | map hkeys _ ihkeys ihvalues => exact reread_map hkeys ihkeys ihvalues
  | lambda _ _ ih => exact reread_lambda ih

/-! ### Whole texts -/

/-- A printed expression reads back as a statement. -/
theorem Unambiguous.statement_eq (h : Unambiguous .whole e) {n : Nat} {rest : List Token}
    (hn : 18 * e.tokens.length ≤ n) (hrest : Extent.whole.continues (front rest).kind = false) :
    statement (n + 1) (e.tokens ++ rest) = .done (.expression e) rest := by
  have hexpression : (expression n >>= fun e => pure (.expression e) : Parser Stmt)
      (e.tokens ++ rest) = .done (.expression e) rest := bind_of_done (h.reread n rest hn hrest)
  have hopens := h.opens rest
  rw [statement, peekKind_bind]
  -- no statement of another kind opens like an expression
  generalize (front (e.tokens ++ rest)).kind = kind at hopens
  cases kind with
  | keyword word => cases word <;> first | exact hexpression | cases hopens
  | _ => exact hexpression

/-- The expression is the only statement of its tokens. -/
theorem Unambiguous.statements_eq (h : Unambiguous .whole e) {n : Nat}
    (hn : 18 * e.tokens.length ≤ n) {last : Token} (hlast : last.kind = .eof) :
    statements (n + 2) (e.tokens ++ [last]) = .done [.expression e] [last] := by
  -- the end of the text goes on with no expression
  have hrest : Extent.whole.continues (front [last]).kind = false := by
    change Extent.whole.continues last.kind = false
    rw [hlast]
    rfl
  have hbehind : behindSeparators (e.tokens ++ [last]) = e.tokens ++ [last] :=
    behindSeparators_of_ne (Extent.ne_of_opens (h.opens _) rfl)
  have hfront : (front (behindSeparators (e.tokens ++ [last]))).kind ≠ .eof := by
    rw [hbehind]
    exact Extent.ne_of_opens (h.opens _) rfl
  rw [statements_of_front hfront, hbehind, bind_of_done (h.statement_eq hn hrest),
    bind_of_done (statements_singleton hlast)]
  rfl

/-- The printed expression is cut into its tokens. -/
theorem Unambiguous.tokenize_print (h : Unambiguous .whole e) :
    ∃ us, tokenize e.print = .ok us ∧
      List.Forall₂ Token.Alike (e.tokens ++ [.endOfInput .nowhere]) us := by
  have hscans := h.scanned [] [.endOfInput .nowhere] Lexer.boundary_nil (Lexer.scans_end _ _) false
  obtain ⟨us, hus, halike⟩ := hscans .start none ⟨nofun, nofun⟩
  refine ⟨us, ?_, halike⟩
  rw [List.append_nil] at hus
  exact hus

/-- The printed expression is a program of one statement. -/
theorem Unambiguous.parse_program (h : Unambiguous .whole e) :
    Program.parse e.print = .ok [.expression e] := by
  obtain ⟨us, hus, halike⟩ := h.tokenize_print
  have hinner : ∀ t ∈ e.tokens, t.kind ≠ .eof :=
    fun t ht => (isInner_iff.1 (h.forall_isInner t ht)).2
  -- the tokens of the text differ from those of the expression in their places only
  obtain ⟨z, hz, hjoined⟩ := joined_of_forall₂ hinner rfl halike
  have hstatements : statements (18 * e.tokens.length + 2) (e.tokens ++ [.endOfInput .nowhere]) =
      .done [.expression e] [.endOfInput .nowhere] := h.statements_eq (Nat.le_refl _) rfl
  -- every token takes a character at least
  have hlength : e.tokens.length + 1 ≤ e.print.length + 1 := by
    have hus := Lexer.Cursor.length_tokens_le hus
    rw [← halike.length_eq, List.length_append] at hus
    exact hus
  have hbudget : 18 * e.tokens.length + 2 ≤ budget e.print.length := by
    unfold budget
    omega
  obtain ⟨rest, hdone⟩ := (simulates hbudget).statements _ us z _ _ hz hjoined hstatements
  exact Program.parse_of_statements hus hdone

/-- **Printing and reading.**  An unambiguous expression is what its printed text is read to. -/
theorem parse_print (h : Unambiguous .whole e) : Expr.parse e.print = .ok e := by
  unfold Expr.parse
  rw [h.parse_program]

/-- A binding whose pattern is a negation, a minus behind a numeral and behind a name, a member of a
numeral, and open forms in brackets of each kind. -/
theorem parse_print_nested :
    let numeral : Expr := .number ⟨0x3ff8000000000000⟩
    let left : Expr := .not (.binary .subtract numeral
      (.binary .subtract (.identifier "x") (.member numeral (.identifier "f") false)))
    let right : Expr := .declare "y" (.map
      [(.not (.identifier "x"), .lambda ["x", "y"] (.bind (.identifier "x") (.string "%" [] []))),
       (.atom "ok", .member (.call (.identifier "f") [.declare "x" numeral, .tuple []])
         (.not (.list [numeral])) true)])
    (Expr.bind left right).print = "not (1.5 - (x - 1.5.f)) = let y = %\x7bnot x => " ++
      "fn (x, y) -> x = \"%\" end, :ok => f(let x = 1.5, \x7b\x7d)[not [1.5]]\x7d" ∧
    Expr.parse (Expr.bind left right).print = .ok (.bind left right) := by
  intro numeral left right
  have hlexeme : ∀ (kind : TokenKind) (text : String),
      Lexer.front none text.toList = .token kind text.toList [] → Lexer.Lexeme kind text.toList :=
    fun _ _ h => Lexer.lexeme_of_front h
  have hx := hlexeme .identifier "x" (by decide +kernel)
  have hy := hlexeme .identifier "y" (by decide +kernel)
  have hf := hlexeme .identifier "f" (by decide +kernel)
  have hok := hlexeme .atom ":ok" (by decide +kernel)
  -- the parts are put together from the inside outwards
  have hnumeral : Unambiguous .closed numeral := by
    have hliteral : Number.literal ⟨0x3ff8000000000000⟩ = "1.5" := by decide +kernel
    refine .number ?_ (by decide +kernel)
    rw [hliteral]
    exact hlexeme .number "1.5" (by decide +kernel)
  have hplain : ∀ c ∈ "%".toList, c ≠ '"' ∧ c ≠ '\\' ∧ c ≠ '#' :=
    List.forall_mem_singleton.2 (by decide)
  have hleft : Unambiguous .negation left :=
    .not (.closed (.binary hnumeral (.binary (.identifier hx) (.member hnumeral hf))))
  have hlambda : Unambiguous .closed
      (.lambda ["x", "y"] (.bind (.identifier "x") (.string "%" [] []))) :=
    .lambda (List.forall_mem_cons.2 ⟨hx, List.forall_mem_singleton.2 hy⟩)
      (.bind (.closed (.identifier hx)) (.negation (.closed (.string hplain))))
  have hargs : ∀ e ∈ [Expr.declare "x" numeral, .tuple []], Unambiguous .whole e :=
    List.forall_mem_cons.2 ⟨.declare hx (.negation (.closed hnumeral)),
      List.forall_mem_singleton.2 (.negation (.closed (.tuple nofun)))⟩
  have hindex : Unambiguous .closed
      (.member (.call (.identifier "f") [.declare "x" numeral, .tuple []])
        (.not (.list [numeral])) true) := by
    refine .index (.call (.identifier hf) hargs) (.negation (.not (.closed (.list ?_))))
    exact List.forall_mem_singleton.2 (.negation (.closed hnumeral))
  have hright : Unambiguous .whole right := by
    refine .declare hy (.negation (.closed (.map ?_ ?_)))
    · exact List.forall_mem_cons.2 ⟨.negation (.not (.closed (.identifier hx))),
        List.forall_mem_singleton.2 (.negation (.closed (.atom hok)))⟩
    · exact List.forall_mem_cons.2 ⟨.negation (.closed hlambda),
        List.forall_mem_singleton.2 (.negation (.closed hindex))⟩
  exact ⟨by decide +kernel, parse_print (.bind hleft hright)⟩

end Expr

end AtomScript

import AtomScript.Proofs.Library.Sequence
import AtomScript.Proofs.Program.Precedence
import AtomScript.Proofs.Token.Numeral
import AtomScript.Session

/-!
# Numerals as programs

A text that is a numeral, with or without a minus in front, is a program of one statement, whose
value is the number that `Number.parse` reads from it (`Native.perform_parse`).  A numeral is one
token; a minus in front is another, and the parser takes the two together as one number.
-/

namespace AtomScript

/-! ### The program -/

namespace Parser

variable {n : Nat} {ts rest : List Token} {e : Expr} {last : Token} {t : String} {p q : Position}

theorem unary_of_numeral (hlast : last.kind = .eof) :
    unary (n + 2) [⟨.number, t, p⟩, last] = .done (.number (.ofNumeral t)) [last] := by
  have hprimary : primary (n + 1) [⟨.number, t, p⟩, last] =
      .done (.number (.ofNumeral t)) [last] := by
    rw [primary]
    rfl
  have hfront : ∀ kind, kind ≠ .eof → (front [last]).kind ≠ kind := by
    intro kind hkind heq
    exact hkind (heq.symm.trans hlast)
  have hminus : (front [⟨.number, t, p⟩, last]).kind ≠ .minus := by
    show TokenKind.number ≠ .minus
    decide
  rw [unary, accept_bind_of_ne hminus]
  change (primary (n + 1) >>= _) _ = _
  rw [bind_of_done hprimary]
  exact suffixes_of_end (hfront _ (by decide)) (hfront _ (by decide)) (hfront _ (by decide))

/-- The parser takes a minus and a numeral together. -/
theorem unary_of_minus_numeral (hlast : last.kind = .eof) :
    unary (n + 3) [⟨.minus, "-", q⟩, ⟨.number, t, p⟩, last] =
      .done (.number (Number.neg (.ofNumeral t))) [last] := by
  have hminus : (⟨.minus, "-", q⟩ : Token).kind = .minus := rfl
  rw [unary, accept_bind_of_eq hminus]
  change (unary (n + 2) >>= _) _ = _
  rw [bind_of_done (unary_of_numeral hlast)]
  rfl

/-- What reaches from a sign or a numeral to the end of a text is its only statement. -/
theorem statements_of_unary (h : unary n ts = .done e [last]) (hlast : last.kind = .eof)
    (hts : (front ts).kind = .number ∨ (front ts).kind = .minus) :
    statements (n + 15) ts = .done [.expression e] [last] := by
  have hne : ∀ kind, kind ≠ .number → kind ≠ .minus → (front ts).kind ≠ kind := by
    intro kind hnumber hminus heq
    rcases hts with hts | hts
    · exact hnumber (heq.symm.trans hts)
    · exact hminus (heq.symm.trans hts)
  have hfront : (front [last]).kind = .eof := hlast
  -- at the end of the text no operator follows
  have hstop : ∀ level : Level, level.holds (front [last]) = false := by
    intro level
    cases level <;> (unfold Level.holds; rw [hfront]; rfl)
  have hoperand : operand (n + Level.or.height) .or ts = .done e [last] :=
    operand_of_unary h (hne _ (by decide) (by decide)) fun level _ => hstop level
  have hoperators : operators (n + 11) .or ts = .done e [last] :=
    operators_of_operand hoperand (hstop .or)
  have hexpression : expression (n + 13) ts = .done e [last] :=
    expression_of_operators hoperators (hne _ (by decide) (by decide)) (by rw [hfront]; decide)
  have hstatement : statement (n + 14) ts = .done (.expression e) [last] := by
    have hbound : (expression (n + 13) >>= fun e => pure (.expression e) : Parser Stmt) ts =
        .done (.expression e) [last] := bind_of_done hexpression
    rw [statement, peekKind_bind]
    rcases hts with hts | hts
    · rw [hts]
      exact hbound
    · rw [hts]
      exact hbound
  have hbehind : behindSeparators ts = ts := behindSeparators_of_ne (hne _ (by decide) (by decide))
  rw [statements_of_front (by rw [hbehind]; exact hne _ (by decide) (by decide)), hbehind,
    bind_of_done hstatement, bind_of_done (statements_singleton hlast)]
  rfl

end Parser

namespace Program

open Number

/-- **A numeral, or one behind a minus, is a program**: the number that is read from it. -/
theorem parse_numeral {t : String} (h : Signed t.toList) :
    ∃ x, read? t = some x ∧ Program.parse t = .ok [.expression (.number x)] := by
  rcases h.cases_text with hunsigned | ⟨u, rfl, hunsigned⟩
  · refine ⟨_, read?_of_unsigned hunsigned, ?_⟩
    refine parse_of_answer (Lexer.Cursor.tokens_of_numeral hunsigned .start none) (n := 17) ?_
    rw [Parser.statements_of_unary (Parser.unary_of_numeral rfl) rfl (.inl rfl)]
    rfl
  · refine ⟨_, read?_minus hunsigned, ?_⟩
    refine parse_of_answer (tokenize_minus_numeral hunsigned) (n := 18) ?_
    rw [Parser.statements_of_unary (Parser.unary_of_minus_numeral rfl) rfl (.inr rfl)]
    rfl

end Program

/-- A program that is one number has that number for its value, and changes nothing. -/
theorem Session.run_number {t : String} {x : Number}
    (h : Program.parse t = .ok [.expression (.number x)]) {fuel : Nat} (hfuel : 2 ≤ fuel)
    (σ : Session) (watch : Option Watch) : σ.run fuel t watch = (.value (.number x), σ) := by
  obtain ⟨n, rfl⟩ := Nat.exists_eq_add_of_le' hfuel
  unfold Session.run
  rw [h]
  show σ.perform (evalLast (n + 2) globalScope [.expression (.number x)]) watch = _
  unfold Session.perform evalLast evalTopLevel
  rw [Eval.foldAll, evalStmt, evalExpr]
  rfl

namespace Native

open Number

variable {call : Caller} {limit : Nat} {st : State} {s : String}

theorem perform_parse_of_some {x : Number} (h : read? (Text.trim s) = some x) :
    perform call limit (.number .parse) [.string s] st = (.value (.number x), st) := by
  show runNumber .parse [.string s] ⟨limit, none⟩ st = _
  unfold runNumber
  simp only [h]
  rfl

theorem perform_parse_of_none (h : read? (Text.trim s) = none) :
    perform call limit (.number .parse) [.string s] st = (.value .null, st) := by
  show runNumber .parse [.string s] ⟨limit, none⟩ st = _
  unfold runNumber
  simp only [h]
  rfl

/-- **`Number.parse` and the lexer accept the same numerals.**  `Number.parse` has a number for the
texts that are, trimmed, a numeral or one behind a minus, and null for all others.  Without a minus
in front they are the texts that the lexer cuts into one numeral token.  The number is the value of
the text as a program. -/
theorem perform_parse (call : Caller) (limit : Nat) (st : State) (s : String) :
    ∃ v, perform call limit (.number .parse) [.string s] st = (.value v, st) ∧
      (v ≠ .null ↔ Signed (Text.trim s).toList) ∧
      ((Text.trim s).toList.head? ≠ some '-' → (v ≠ .null ↔ ∃ p last,
        tokenize (Text.trim s) = .ok [⟨.number, Text.trim s, p⟩, last] ∧ last.kind = .eof)) ∧
      (v ≠ .null → ∀ fuel, 2 ≤ fuel → ∀ (σ : Session) (watch : Option Watch),
        σ.run fuel (Text.trim s) watch = (.value v, σ)) := by
  -- without a minus in front, the lexer accepts what `Number.parse` does
  have hlexer : (Text.trim s).toList.head? ≠ some '-' → (Signed (Text.trim s).toList ↔ ∃ p last,
      tokenize (Text.trim s) = .ok [⟨.number, Text.trim s, p⟩, last] ∧ last.kind = .eof) := by
    intro hminus
    rw [tokenize_numeral_iff]
    exact signed_iff_of_ne_minus hminus
  by_cases h : Signed (Text.trim s).toList
  · obtain ⟨x, hread, hparse⟩ := Program.parse_numeral h
    have hvalue : Value.number x ≠ .null ↔ Signed (Text.trim s).toList :=
      ⟨fun _ => h, fun _ => Value.noConfusion⟩
    refine ⟨.number x, perform_parse_of_some hread, hvalue, fun hminus => ?_, fun _ => ?_⟩
    · exact hvalue.trans (hlexer hminus)
    · intro fuel hfuel σ watch
      exact Session.run_number hparse hfuel σ watch
  · have hread : read? (Text.trim s) = none := by
      rw [← Option.not_isSome_iff_eq_none]
      intro hsome
      exact h ((readSigned?_isSome_iff _).1 hsome)
    have hvalue : Value.null ≠ .null ↔ Signed (Text.trim s).toList :=
      ⟨fun hne => absurd rfl hne, fun hsigned => absurd hsigned h⟩
    refine ⟨.null, perform_parse_of_none hread, hvalue, fun hminus => ?_, fun hne => ?_⟩
    · exact hvalue.trans (hlexer hminus)
    · exact absurd rfl hne

end Native

end AtomScript

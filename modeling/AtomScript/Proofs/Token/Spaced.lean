import AtomScript.Proofs.Token.Scan

/-!
# Tokens with single blanks between them

The tokens of a text, written one after another with a blank between any two, are cut into the same
tokens again: a blank extends none of them, and keeps apart what would grow together.  Only the
minus looks back, and it looks for a token, not for a character: it is an operator where the token
before it is a numeral, and a sign elsewhere (`Lexer.Signed`).

* `Lexer.signed_of_tokenize` — which of the two kinds each minus of a text has;
* `Lexer.front_of_lexeme` — a lexeme before a blank, or at the end, is read back;
* `Lexer.tokenize_of_spaced` — the tokens of the spaced text.
-/

namespace AtomScript

/-- The tokens as they are written, with single blanks between them. -/
def Token.spaced (ts : List Token) : String :=
  " ".intercalate (ts.map fun t => String.ofList t.written)

namespace Lexer

open Text

/-! ### The two kinds of minus -/

/-- If the token is a minus, it is an operator behind a numeral and a sign elsewhere. -/
structure SignedAfter (afterNumeral : Bool) (t : Token) : Prop where
  sign : t.kind = .minus → afterNumeral = false
  operator : t.kind = .binaryOperator → t.text = "-" → afterNumeral = true

/-- Every minus is an operator behind a numeral and a sign elsewhere. -/
inductive Signed : Bool → List Token → Prop where
  | nil {afterNumeral : Bool} : Signed afterNumeral []
  | cons {afterNumeral : Bool} {t : Token} {ts : List Token} : SignedAfter afterNumeral t →
    Signed (t.kind == .number) ts → Signed afterNumeral (t :: ts)

theorem Signed.of_append {b : Bool} {ts us : List Token} (h : Signed b (ts ++ us)) :
    Signed b ts := by
  induction ts generalizing b with
  | nil => exact .nil
  | cons t ts ih =>
    cases h with
    | cons ht hts => exact .cons ht (ih hts)

/-- A minus is part of an arrow, or a token of one of two kinds. -/
theorem front_minus (previous : Option TokenKind) (cs : List Char) :
    front previous ('-' :: cs) =
      if cs.head? = some '>' then .token .arrow ('-' :: cs.take 1) (cs.drop 1)
      else .token (if previous = some .number then .binaryOperator else .minus) ['-'] cs := by
  cases cs with
  | nil => rfl
  | cons c cs =>
    -- only with a `>` behind it is a minus part of a longer token
    by_cases hc : c = '>'
    · subst hc
      rfl
    · have hdigraph : digraph? '-' c = none := by
        unfold digraph?
        split <;> first | rfl | exact absurd rfl hc | contradiction
      have hhead : (c :: cs).head? ≠ some '>' := by simpa using hc
      rw [if_neg hhead, front]
      have hpunctuation : punctuation? '-' = none := rfl
      simp only [hpunctuation, List.head?_cons, Option.bind_some, hdigraph]
      rfl

/-- What the lexer finds at a minus depends on whether a numeral stands before it. -/
theorem signedAfter_of_front {previous : Option TokenKind} {cs lexeme rest : List Char}
    {kind : TokenKind} (h : front previous cs = .token kind lexeme rest) (p : Position) :
    SignedAfter (previous == some .number) ⟨kind, tokenText kind lexeme, p⟩ := by
  have happend := front_token_append h
  -- a lexeme that is a lone minus is found at a minus, which is the start of no arrow
  have hminus : lexeme = ['-'] → kind ≠ .arrow →
      kind = if previous = some .number then .binaryOperator else .minus := by
    rintro rfl harrow
    rw [← happend, List.singleton_append, front_minus] at h
    split at h
    · exact absurd (Front.token.inj h).1.symm harrow
    · exact (Front.token.inj h).1.symm
  refine ⟨fun hkind => ?_, fun hkind htext => ?_⟩
  · have hkind : kind = .minus := hkind
    subst hkind
    have hlexeme : lexeme = ['-'] := by
      cases lexeme_of_front h with
      | fixed hmem =>
        have hspelling := List.mem_singleton.1 hmem
        rw [← String.toList_ofList (l := lexeme), hspelling]
        rfl
    have hnone := hminus hlexeme nofun
    split at hnone
    · cases hnone
    · next hne => exact beq_false_of_ne hne
  · have hkind : kind = .binaryOperator := hkind
    subst hkind
    have hlexeme : lexeme = ['-'] := by
      rw [← String.toList_ofList (l := lexeme)]
      exact congrArg String.toList htext
    have hsome := hminus hlexeme nofun
    split at hsome
    · next heq => exact beq_iff_eq.2 heq
    · cases hsome

theorem Cursor.signed_of_tokens {cur : Cursor} {ts : List Token} (h : cur.tokens = .ok ts) :
    Signed (cur.previous == some .number) ts := by
  induction ts generalizing cur with
  | nil => exact .nil
  | cons t ts ih =>
    obtain ⟨t', ht, hcases⟩ := tokens_cases h
    rcases front_of_next ht with ⟨heof, -⟩ | ⟨hne, lexeme, rest, hfront⟩
    · -- the end is no minus, and nothing follows it
      rcases hcases with ⟨-, hcons⟩ | ⟨hkind, -⟩
      · cases hcons
        exact .cons ⟨fun hminus => absurd (heof.symm.trans hminus) nofun,
          fun hminus => absurd (heof.symm.trans hminus) nofun⟩ .nil
      · exact absurd heof hkind
    · rcases hcases with ⟨hkind, -⟩ | ⟨-, us, hus, hcons⟩
      · exact absurd hkind hne
      · cases hcons
        have hnext := next_of_front hfront
        rw [hnext] at ht hus
        have hsigned := signedAfter_of_front hfront
          (cur.position.advanceBy (splitTrivia false cur.rest).1)
        rw [Except.ok.inj ht] at hsigned
        exact .cons hsigned (ih hus)

/-- **The minuses of a text** are operators just behind numerals. -/
theorem signed_of_tokenize {source : String} {ts : List Token} (h : tokenize source = .ok ts) :
    Signed false ts :=
  Cursor.signed_of_tokens h

/-! ### Lexemes before a blank -/

/-- The text is empty or starts with a blank. -/
def Apart (rest : List Char) : Prop := rest = [] ∨ ∃ cs, rest = ' ' :: cs

theorem Apart.boundary {rest : List Char} (h : Apart rest) : Boundary rest := by
  rcases h with rfl | ⟨cs, rfl⟩
  · exact boundary_nil
  · have hblank : isNamePart ' ' = false := isNamePart_of_isBlank (by decide)
    exact ⟨by rintro _ ⟨⟩; exact hblank, nofun⟩

/-- A minus before a blank starts no arrow. -/
theorem Apart.head_ne {rest : List Char} (h : Apart rest) : rest.head? ≠ some '>' := by
  rcases h with rfl | ⟨cs, rfl⟩
  · nofun
  · simp

/-- A reserved word is written like a name. -/
theorem front_of_keyword (word : Keyword) {rest : List Char} (hrest : Boundary rest)
    (previous : Option TokenKind) :
    front previous (word.spelling.toList ++ rest) =
      .token (.keyword word) word.spelling.toList rest := by
  have hspelling : ∃ c cs, word.spelling.toList = c :: cs ∧ isNameStart c = true ∧
      cs.all isNamePart = true ∧ Keyword.ofText? (String.ofList (c :: cs)) = some word := by
    cases word <;> exact ⟨_, _, rfl, by decide +kernel, by decide +kernel, by decide +kernel⟩
  obtain ⟨c, cs, heq, hstart, hparts, hword⟩ := hspelling
  rw [heq, front_of_word hstart (List.all_eq_true.1 hparts) hrest, hword]

/-- Fixed spellings are read back, a minus where its kind belongs. -/
theorem front_of_spelling {kind : TokenKind} {text : String} (h : text ∈ kind.spellings)
    {rest : List Char} (hrest : Apart rest) {previous : Option TokenKind}
    (hsigned : SignedAfter (previous == some .number) (.of kind text)) :
    front previous (text.toList ++ rest) = .token kind text.toList rest := by
  -- a minus has two kinds, and the token before it decides; the other spellings have one
  cases kind with
  | keyword word =>
    obtain rfl := List.mem_singleton.1 h
    exact front_of_keyword word hrest.boundary previous
  | minus =>
    obtain rfl := List.mem_singleton.1 h
    have hne : previous ≠ some .number := by simpa using hsigned.sign rfl
    have hminus := front_minus previous rest
    rw [if_neg hne] at hminus
    exact hminus.trans (if_neg hrest.head_ne)
  | binaryOperator =>
    by_cases htext : text = "-"
    · subst htext
      have heq : previous = some .number := by simpa using hsigned.operator rfl rfl
      have hminus := front_minus previous rest
      rw [if_pos heq] at hminus
      exact hminus.trans (if_neg hrest.head_ne)
    · have hmem : text = "+" ∨ text = "*" ∨ text = "/" ∨ text = "%" := by
        simpa [TokenKind.spellings, htext] using h
      rcases hmem with rfl | rfl | rfl | rfl <;> rcases hrest with rfl | ⟨cs, rfl⟩ <;> rfl
  | number | string | atom | identifier | eof => cases h
  | _ =>
    obtain rfl := List.mem_singleton.1 h
    rcases hrest with rfl | ⟨cs, rfl⟩ <;> rfl

theorem protected_of_lexeme {cs body : List Char} (h : Lexeme .string cs)
    (hcs : cs = '"' :: body ++ ['"']) : Protected body := by
  cases h with
  | fixed h => cases h
  | string hbody =>
    have hsame := List.append_cancel_right hcs
    rwa [List.cons.inj hsame |>.2] at hbody

/-- **A lexeme before a blank**, or at the end of the text, is read back. -/
theorem front_of_lexeme {t : Token} (h : Lexeme t.kind t.written) {rest : List Char}
    (hrest : Apart rest) {previous : Option TokenKind}
    (hsigned : SignedAfter (previous == some .number) t) :
    front previous (t.written ++ rest) = .token t.kind t.written rest := by
  obtain ⟨kind, text, p⟩ := t
  have hb := hrest.boundary
  -- literals, names and numerals end at a boundary, all other tokens are fixed
  cases kind with
  | string => exact front_of_string (protected_of_lexeme h rfl) rest previous
  | atom => exact front_of_atom h hb previous
  | number => exact front_of_numeral h hb previous
  | identifier => exact front_of_name h hb previous
  | _ =>
    cases h with
    | fixed hmem =>
      rw [Token.written, String.ofList_toList] at hmem
      exact front_of_spelling hmem hrest ⟨hsigned.sign, hsigned.operator⟩

/-! ### Spaced texts -/

theorem tokenText_written (t : Token) : tokenText t.kind t.written = t.text := by
  unfold tokenText Token.written
  cases t.kind with
  | string => simp
  | _ => exact String.ofList_toList

/-- **Spaced tokens** are cut into themselves. -/
theorem scans_spaced {b : Bool} {ts : List Token} (hsigned : Signed b ts)
    (hlexemes : ∀ t ∈ ts, Lexeme t.kind t.written) (p : Position) :
    Scans b ([' '].intercalate (ts.map Token.written)) (ts ++ [.endOfInput p]) := by
  induction hsigned with
  | nil => exact scans_end _ p
  | @cons b t ts ht _ ih =>
    obtain ⟨hlexeme, hlexemes⟩ := List.forall_mem_cons.1 hlexemes
    have hrest := ih hlexemes
    -- the token is followed by nothing, or by a blank and the others
    have htoken : ∀ rest, Apart rest →
        Scans (t.kind == .number) rest (ts ++ [.endOfInput p]) →
        Scans b (t.written ++ rest) (t :: (ts ++ [.endOfInput p])) := by
      intro rest hapart hscans
      have hfront : ∀ previous, (previous = some .number ↔ b = true) →
          front previous (t.written ++ rest) = .token t.kind t.written rest := by
        intro previous hprevious
        have hsame : (previous == some .number) = b :=
          Bool.eq_iff_iff.2 (beq_iff_eq.trans hprevious)
        exact front_of_lexeme hlexeme hapart (hsame ▸ ht)
      have hscans' := Scans.token hfront hscans t.position
      rw [tokenText_written] at hscans'
      exact hscans'
    cases ts with
    | nil =>
      have hlast := htoken [] (.inl rfl) hrest
      rw [List.append_nil] at hlast
      rw [List.map_singleton, List.intercalate_singleton]
      exact hlast
    | cons u us =>
      rw [List.map_cons, List.map_cons, List.intercalate_cons_cons, List.append_assoc]
      exact htoken _ (.inr ⟨_, rfl⟩) hrest.blank

theorem toList_spaced (ts : List Token) :
    (Token.spaced ts).toList = [' '].intercalate (ts.map Token.written) := by
  unfold Token.spaced
  rw [String.toList_intercalate, List.map_map]
  congr 1
  exact List.map_congr_left fun t _ => String.toList_ofList

/-- **The tokens of the spaced text** are those of the text, up to where they stand. -/
theorem tokenize_of_spaced {source : String} {ts : List Token} (h : tokenize source = .ok ts) :
    ∃ us, tokenize (Token.spaced ts.dropLast) = .ok us ∧ List.Forall₂ Token.Alike ts us := by
  have hsigned := signed_of_tokenize h
  obtain ⟨read, gap, rfl, hlaid, -⟩ := (tokenize_laid source).1 ts h
  rw [List.dropLast_concat]
  have hscans := scans_spaced hsigned.of_append hlaid.lexeme_of_mem (.after source.toList)
  rw [← toList_spaced] at hscans
  exact hscans .start none (by simp)

end Lexer

end AtomScript

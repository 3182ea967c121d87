import AtomScript.Proofs.Token.Lexeme

/-!
# Nothing is lost between text and tokens

A text that is cut into tokens consists of these tokens, in order, with gaps before, between and
after them; a gap holds nothing but blanks and comments, and every token says at which line and
column it starts.  When a text cannot be cut, the same holds up to the place of the error.

Lines and columns are counted here from the text before a place (`Position.after`), while the lexer
moves a position on character by character.

* `Lexer.Gap` — what may stand between two tokens;
* `Lexer.Laid` — tokens laid out in a text;
* `tokenize_laid` — the layout of every text.
-/

namespace AtomScript

/-! ### Places -/

namespace Position

/-- The place behind a stretch of text: one line more than there are line ends in it, and one column
more than there are characters behind the last of these. -/
def after (before : List Char) : Position where
  line := 1 + before.count '\n'
  column := 1 + (before.reverse.takeWhile (· != '\n')).length

theorem after_nil : after [] = start := rfl

theorem advance_after (before : List Char) (c : Char) :
    (after before).advance c = after (before ++ [c]) := by
  unfold advance after
  by_cases hc : c = '\n'
  · subst hc
    simp [Nat.add_assoc]
  · simp [hc, Nat.add_comm]

/-- **Moving on character by character** comes to the place behind the text that was passed. -/
theorem advanceBy_after (before cs : List Char) :
    (after before).advanceBy cs = after (before ++ cs) := by
  induction cs generalizing before with
  | nil => rw [advanceBy_nil, List.append_nil]
  | cons c cs ih =>
    rw [advanceBy_cons, advance_after, ih, List.append_assoc, List.singleton_append]

end Position

namespace Lexer

open Text

/-! ### Gaps -/

/-- Blanks and comments, before the rest of a text.  A comment runs up to the end of its line, which
is no part of it, or up to the end of the text. -/
inductive Gap (rest : List Char) : List Char → Prop where
  | nil : Gap rest []
  | blank {c : Char} {gap : List Char} : isBlank c = true → Gap rest gap → Gap rest (c :: gap)
  | comment {body gap : List Char} : '\n' ∉ body →
    (∀ c, (gap ++ rest).head? = some c → c = '\n') → Gap rest gap → Gap rest ('#' :: body ++ gap)

/-- The rest of a comment, and the gap behind it. -/
def Gap.InComment (rest gap : List Char) : Prop :=
  ∃ body after, gap = body ++ after ∧ '\n' ∉ body ∧
    (∀ c, (after ++ rest).head? = some c → c = '\n') ∧ Gap rest after

theorem gap_cons_of_inComment {rest gap : List Char} (h : Gap.InComment rest gap) :
    Gap rest ('#' :: gap) := by
  obtain ⟨body, after, rfl, hbody, hend, hafter⟩ := h
  exact .comment hbody hend hafter

theorem Gap.InComment.cons {rest gap : List Char} {c : Char} (hc : c ≠ '\n')
    (h : Gap.InComment rest gap) : Gap.InComment rest (c :: gap) := by
  obtain ⟨body, after, rfl, hbody, hend, hafter⟩ := h
  exact ⟨c :: body, after, rfl, by simp [Ne.symm hc, hbody], hend, hafter⟩

/-- What is skipped from outside a comment is a gap; from inside one, the rest of the comment comes
first. -/
theorem gap_splitTrivia (cs : List Char) :
    Gap (splitTrivia false cs).2 (splitTrivia false cs).1 ∧
      Gap.InComment (splitTrivia true cs).2 (splitTrivia true cs).1 := by
  induction cs with
  | nil => exact ⟨.nil, [], [], rfl, by simp, by simp [splitTrivia], .nil⟩
  | cons c cs ih =>
    -- both states of the scanner at once, since a comment takes one to the other
    obtain ⟨houtside, hinside⟩ := ih
    refine ⟨?_, ?_⟩
    · by_cases hhash : c = '#'
      · subst hhash
        exact gap_cons_of_inComment hinside
      · by_cases hblank : isBlank c = true
        · simp only [splitTrivia, hblank, beq_false_of_ne hhash]
          exact .blank hblank houtside
        · simp only [splitTrivia, hblank, beq_false_of_ne hhash]
          exact .nil
    · by_cases hc : c = '\n'
      · -- the end of the line ends the comment, and is itself blank
        subst hc
        exact ⟨[], _, rfl, by simp, by simp [splitTrivia], .blank rfl houtside⟩
      · have hne : (c != '\n') = true := by simp [hc]
        simp only [splitTrivia, hne]
        exact hinside.cons hc

/-! ### What the lexer finds behind a gap -/

theorem stringBody_of_protected {body rest : List Char} (h : Protected body) :
    stringBody (body ++ '"' :: rest) = some (body, rest) := by
  induction h with
  | nil => rfl
  | @plain c cs hquote hbackslash _ ih =>
    rw [List.cons_append, stringBody, ih]
    · exact hquote
    · exact fun h => absurd h hbackslash
    · exact fun _ _ h => absurd h hbackslash
  | @pair c cs _ ih => rw [List.cons_append, List.cons_append, stringBody, ih]

/-- At a character there is a token, or the character starts none, or it opens a string that is
never closed. -/
theorem front_cons (previous : Option TokenKind) (c : Char) (cs : List Char) :
    (∃ kind lexeme rest, front previous (c :: cs) = .token kind lexeme rest) ∨
    front previous (c :: cs) = .unrecognized c ∨
    (c = '"' ∧ stringBody cs = none ∧ front previous (c :: cs) = .unterminated) := by
  rw [front]
  -- one question after the other, as in the definition; a text that is no token has failed all of
  -- them
  split
  · exact .inl ⟨_, _, _, rfl⟩
  · split
    · exact .inl ⟨_, _, _, rfl⟩
    · split
      · exact .inl ⟨_, _, _, rfl⟩
      · split
        · exact .inl ⟨_, _, _, rfl⟩
        · split
          · next hquote =>
            cases hbody : stringBody cs with
            | none => exact .inr (.inr ⟨eq_of_beq hquote, rfl, rfl⟩)
            | some parts => exact .inl ⟨_, _, _, rfl⟩
          · split
            · exact .inl ⟨_, _, _, rfl⟩
            · split
              · unfold word
                dsimp only
                split
                · exact .inl ⟨_, _, _, rfl⟩
                · exact .inl ⟨_, _, _, rfl⟩
              · exact .inr (.inl rfl)

/-! ### Tokens laid out in a text -/

/-- The text that stands behind `before` consists of the tokens, each with a gap before it, written
as its kind demands and at the place it says, and of `rest`. -/
inductive Laid : List Char → List Token → List Char → List Char → Prop where
  | nil {before rest : List Char} : Laid before [] rest rest
  | cons {before gap text rest : List Char} {t : Token} {ts : List Token} :
    Gap (t.written ++ text) gap → Lexeme t.kind t.written → t.position = .after (before ++ gap) →
    Laid (before ++ gap ++ t.written) ts text rest →
    Laid before (t :: ts) (gap ++ t.written ++ text) rest

/-- Tokens are laid out in the text behind `before` up to a gap, behind which the text goes on with
`rest`; all that is passed until there is `passed`. -/
def Reaches (before text passed rest : List Char) : Prop :=
  ∃ ts gap, Laid before ts text (gap ++ rest) ∧ Gap rest gap ∧ before ++ text = passed ++ rest

/-- The error is at the place to which the tokens of the text behind `before` reach: there stands
the character that starts no token, or the quote of a string that is never closed. -/
def ErrorAt (before text : List Char) : Error → Prop
  | .unrecognized c p =>
    ∃ passed rest, Reaches before text passed (c :: rest) ∧ p = .after passed
  | .unterminatedString p =>
    ∃ passed rest, Reaches before text passed ('"' :: rest) ∧ p = .after passed ∧
      ∀ body after, rest = body ++ '"' :: after → ¬ Protected body
  | _ => False

theorem Laid.lexeme_of_mem {before text rest : List Char} {ts : List Token}
    (h : Laid before ts text rest) : ∀ t ∈ ts, Lexeme t.kind t.written := by
  induction h with
  | nil => simp
  | cons _ hlexeme _ _ ih => exact List.forall_mem_cons.2 ⟨hlexeme, ih⟩

theorem Reaches.cons {before gap text passed rest : List Char} {t : Token}
    (hgap : Gap (t.written ++ text) gap) (hlexeme : Lexeme t.kind t.written)
    (hposition : t.position = .after (before ++ gap))
    (h : Reaches (before ++ gap ++ t.written) text passed rest) :
    Reaches before (gap ++ t.written ++ text) passed rest := by
  obtain ⟨ts, gap', hlaid, hgap', hpassed⟩ := h
  refine ⟨t :: ts, gap', .cons hgap hlexeme hposition hlaid, hgap', ?_⟩
  rw [← hpassed]
  simp only [List.append_assoc]

theorem ErrorAt.cons {before gap text : List Char} {t : Token} {e : Error}
    (hgap : Gap (t.written ++ text) gap) (hlexeme : Lexeme t.kind t.written)
    (hposition : t.position = .after (before ++ gap))
    (h : ErrorAt (before ++ gap ++ t.written) text e) :
    ErrorAt before (gap ++ t.written ++ text) e := by
  cases e with
  | unrecognized c p =>
    obtain ⟨passed, rest, hreaches, hp⟩ := h
    exact ⟨passed, rest, hreaches.cons hgap hlexeme hposition, hp⟩
  | unterminatedString p =>
    obtain ⟨passed, rest, hreaches, hp, hopen⟩ := h
    exact ⟨passed, rest, hreaches.cons hgap hlexeme hposition, hp, hopen⟩
  | _ => exact False.elim h

namespace Cursor

/-- **Reading one token.**  Behind a gap the text ends, or a token stands there, or an error. -/
theorem next_cases {cur : Cursor} {before : List Char} (hcur : cur.position = .after before) :
    (Gap [] cur.rest ∧ ∃ cur', cur.next = (.ok (.endOfInput (.after (before ++ cur.rest))), cur')) ∨
    (∃ gap t text previous, cur.rest = gap ++ t.written ++ text ∧ Gap (t.written ++ text) gap ∧
      Lexeme t.kind t.written ∧ t.position = .after (before ++ gap) ∧
      cur.next = (.ok t, ⟨text, .after (before ++ gap ++ t.written), previous⟩)) ∨
    (∃ e cur', cur.next = (.error e, cur') ∧ ErrorAt before cur.rest e) := by
  have hsplit := splitTrivia_append false cur.rest
  obtain ⟨hgap, -⟩ := gap_splitTrivia cur.rest
  unfold next
  rcases hs : splitTrivia false cur.rest with ⟨gap, rest⟩
  rw [hs] at hsplit hgap
  simp only at hsplit hgap ⊢
  rw [hcur, Position.advanceBy_after, ← hsplit]
  -- nothing is left, a token is next, or the text is refused where it stands
  cases rest with
  | nil =>
    refine .inl ⟨by rwa [List.append_nil], ⟨[], .after (before ++ gap), some .eof⟩, ?_⟩
    rw [front, List.append_nil]
  | cons c cs =>
    have herror : Reaches before (gap ++ c :: cs) (before ++ gap) (c :: cs) :=
      ⟨[], gap, .nil, hgap, (List.append_assoc _ _ _).symm⟩
    rcases front_cons cur.previous c cs with ⟨kind, lexeme, text, hf⟩ | hf | ⟨rfl, hbody, hf⟩
    · have hlexeme := lexeme_of_front hf
      refine .inr (.inl ⟨gap, ⟨kind, tokenText kind lexeme, .after (before ++ gap)⟩, text,
        some kind, ?_⟩)
      rw [written_of_lexeme hlexeme, hf, ← front_token_append hf]
      rw [← front_token_append hf] at hgap
      refine ⟨(List.append_assoc _ _ _).symm, hgap, hlexeme, rfl, ?_⟩
      simp only [Position.advanceBy_after]
    · rw [hf]
      exact .inr (.inr ⟨_, _, rfl, before ++ gap, cs, herror, rfl⟩)
    · rw [hf]
      refine .inr (.inr ⟨_, _, rfl, before ++ gap, cs, herror, rfl, ?_⟩)
      rintro body after rfl hprotected
      rw [stringBody_of_protected hprotected] at hbody
      cases hbody

/-- Reading goes on until the end or an error. -/
theorem tokens_eq (cur : Cursor) :
    cur.tokens =
      match cur.next.1 with
      | .error e => .error e
      | .ok t => if t.kind = .eof then .ok [t] else cur.next.2.tokens.map (t :: ·) := by
  rw [tokens]
  -- the two definitions differ in how they put the first token in front
  rcases cur.next with ⟨e | t, cur'⟩
  · rfl
  · by_cases ht : t.kind = .eof
    · simp [ht]
    · simp only [ht, dite_false, if_false]
      cases cur'.tokens with
      | error e => rfl
      | ok ts => rfl

/-- The layout of what a cursor has before it. -/
theorem laid_of_tokens (cur : Cursor) {before : List Char} (hcur : cur.position = .after before) :
    (∀ ts, cur.tokens = .ok ts → ∃ read gap,
      ts = read ++ [.endOfInput (.after (before ++ cur.rest))] ∧
        Laid before read cur.rest gap ∧ Gap [] gap) ∧
    ∀ e, cur.tokens = .error e → ErrorAt before cur.rest e := by
  -- by induction on the length of the text, which every token shortens
  induction hlength : cur.rest.length using Nat.strong_induction_on generalizing cur before with
  | _ n ih =>
    subst hlength
    rw [tokens_eq]
    rcases next_cases hcur with ⟨hgap, cur', hnext⟩ |
      ⟨gap, t, text, previous, hrest, hgap, hlexeme, hposition, hnext⟩ | ⟨e, cur', hnext, he⟩
    · rw [hnext]
      refine ⟨fun ts hts => ?_, fun e he => ?_⟩
      · cases hts
        exact ⟨[], cur.rest, rfl, .nil, hgap⟩
      · cases he
    · have hkind := hlexeme.kind_ne_eof
      have hshorter : cur.next.2.rest.length < cur.rest.length :=
        next_rest_length_lt (t := t) (by rw [hnext]) hkind
      rw [hnext] at hshorter ⊢
      simp only [if_neg hkind]
      -- the token moves the cursor on to the place behind it
      obtain ⟨hok, herror⟩ := ih _ hshorter ⟨text, _, previous⟩ rfl rfl
      rw [hrest]
      refine ⟨fun ts hts => ?_, fun e he => ?_⟩
      · cases hus : tokens ⟨text, .after (before ++ gap ++ t.written), previous⟩ with
        | error e =>
          rw [hus] at hts
          cases hts
        | ok us =>
          rw [hus] at hts
          cases hts
          obtain ⟨read, gap', rfl, hlaid, hgap'⟩ := hok us hus
          refine ⟨t :: read, gap', ?_, .cons hgap hlexeme hposition hlaid, hgap'⟩
          simp only [List.append_assoc, List.cons_append]
      · cases hus : tokens ⟨text, .after (before ++ gap ++ t.written), previous⟩ with
        | error e' =>
          rw [hus] at he
          cases he
          exact (herror e hus).cons hgap hlexeme hposition
        | ok us =>
          rw [hus] at he
          cases he
    · rw [hnext]
      refine ⟨fun ts hts => ?_, fun e' he' => ?_⟩
      · cases hts
      · cases he'
        exact he

end Cursor

end Lexer

open Lexer

/-- The tokens of a text are lexemes, with the end behind them. -/
theorem exists_of_tokenize {source : String} {ts : List Token} (h : tokenize source = .ok ts) :
    ∃ read last, ts = read ++ [last] ∧ last.kind = .eof ∧
      ∀ t ∈ read, Lexeme t.kind t.written := by
  obtain ⟨read, gap, hread, hlaid, -⟩ :=
    (Cursor.laid_of_tokens (.ofList source.toList) Position.after_nil.symm).1 ts h
  exact ⟨read, _, hread, rfl, hlaid.lexeme_of_mem⟩

/-- **The layout of a text.**  The tokens of a text are laid out in it, with gaps between them and
after the last one, and the token of the end stands at its end.  A text without tokens has an error
at the place to which its tokens reach. -/
theorem tokenize_laid (source : String) :
    (∀ ts, tokenize source = .ok ts → ∃ read gap,
      ts = read ++ [.endOfInput (.after source.toList)] ∧
        Laid [] read source.toList gap ∧ Gap [] gap) ∧
    ∀ e, tokenize source = .error e → ErrorAt [] source.toList e :=
  Cursor.laid_of_tokens (.ofList source.toList) Position.after_nil.symm

/-- A string with a protected quote and a line end in it, and a comment; and a string whose last
quote is protected. -/
theorem tokenize_laid_strings :
    let text := "s=\"a\\\"\n\" # note\n1.5>=:b"
    let ts : List Token := [⟨.identifier, "s", ⟨1, 1⟩⟩, ⟨.assign, "=", ⟨1, 2⟩⟩,
      ⟨.string, "a\\\"\n", ⟨1, 3⟩⟩, ⟨.number, "1.5", ⟨3, 1⟩⟩, ⟨.greaterThanOrEqual, ">=", ⟨3, 4⟩⟩,
      ⟨.atom, ":b", ⟨3, 6⟩⟩]
    let openText := "1\n \"a\\\""
    (tokenize text = .ok (ts ++ [.endOfInput ⟨3, 8⟩]) ∧
      ∃ gap, Laid [] ts text.toList gap ∧ Gap [] gap) ∧
    tokenize openText = .error (.unterminatedString ⟨2, 2⟩) ∧
      ErrorAt [] openText.toList (.unterminatedString ⟨2, 2⟩) := by
  intro text ts openText
  have hts : tokenize text = .ok (ts ++ [.endOfInput ⟨3, 8⟩]) := by decide +kernel
  have hopen : tokenize openText = .error (.unterminatedString ⟨2, 2⟩) := by decide +kernel
  obtain ⟨read, gap, hread, hlaid, hgap⟩ := (tokenize_laid text).1 _ hts
  -- the tokens that are laid out are those before the end
  obtain rfl : ts = read := (List.append_inj' hread rfl).1
  exact ⟨⟨hts, gap, hlaid, hgap⟩, hopen, (tokenize_laid openText).2 _ hopen⟩

end AtomScript

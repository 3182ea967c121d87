import AtomScript.Proofs.Token.Joined

/-!
# Reading back lexemes

A lexeme that is written into a text is read back from it, if what follows does not extend it.  A
name, an atom or a numeral ends where no part of a name follows, and a numeral goes on behind a
point only with a digit (`Lexer.Boundary`); a quote ends a string, and punctuation is never
extended.

`Lexer.Scans` says what tokens a text is cut into, up to where they stand.  The lexer looks back
only to see whether a numeral stands before a minus, so that is all that is said of what comes
before.

* `Lexer.front_of_name`, `Lexer.front_of_atom`, `Lexer.front_of_numeral`, `Lexer.front_of_string` —
  the lexemes that vary;
* `Lexer.Scans.token`, `Lexer.Scans.blank` — texts put together from their front.
-/

namespace AtomScript

/-- A token, wherever it stands. -/
def Token.of (kind : TokenKind) (text : String) : Token := ⟨kind, text, .nowhere⟩

namespace Text

/-! ### Characters of names -/

/-- The characters of punctuation and operators, with those that start a string and a comment. -/
def symbols : List Char := "()[]\x7b\x7d,.;:+-*/%=!<>\"#".toList

/-- No symbol of the language is part of a name. -/
theorem isNamePart_of_mem_symbols {c : Char} (h : c ∈ symbols) : isNamePart c = false := by
  have hall : (symbols.all fun c => !isNamePart c) = true := by decide +kernel
  have hc := List.all_eq_true.1 hall c h
  rwa [Bool.not_eq_true'] at hc

/-- A name does not start with a digit. -/
theorem isNameStart_of_isDigit {c : Char} (h : c.isDigit = true) : isNameStart c = false := by
  have hall : ∀ n < 58, 48 ≤ n → isNameStart (Char.ofNat n) = false := by decide +kernel
  simp only [Char.isDigit, Bool.and_eq_true, decide_eq_true_eq, ge_iff_le,
    UInt32.le_iff_toNat_le] at h
  rw [← Char.ofNat_toNat c]
  exact hall _ (Nat.lt_succ_of_le h.2) h.1

/-- No range of the first list meets one of the second. -/
def apart (rs qs : List CodeRange) : Bool :=
  rs.all fun r => qs.all fun q => r.2.blt q.1 || q.2.blt r.1

/-- A character in one of two tables that are apart is not in the other. -/
theorem inRanges_of_apart {rs qs : List CodeRange} {c : Char} (h : apart rs qs = true)
    (hc : inRanges rs c = true) : inRanges qs c = false := by
  obtain ⟨r, hr, hlo, hhi⟩ := inRanges_iff.1 hc
  refine Bool.eq_false_iff.2 fun hc' => ?_
  obtain ⟨q, hq, hlo', hhi'⟩ := inRanges_iff.1 hc'
  have hpair := List.all_eq_true.1 (List.all_eq_true.1 h r hr) q hq
  rw [Bool.or_eq_true, Nat.blt_eq, Nat.blt_eq] at hpair
  omega

/-- A blank is no part of a name. -/
theorem isNamePart_of_isBlank {c : Char} (h : isBlank c = true) : isNamePart c = false := by
  -- below the tables there are only the blanks before the first letter
  have hbounds : ∀ r ∈ blankRanges, r.2 ≤ 32 ∨ 0x80 ≤ r.1 := by decide
  have hlow : ∀ n < 33, isNamePart (Char.ofNat n) = false := by decide +kernel
  obtain ⟨r, hr, hlo, hhi⟩ := inRanges_iff.1 h
  rcases hbounds r hr with hr | hr
  · rw [← Char.ofNat_toNat c]
    exact hlow _ (by omega)
  · have hc : ¬ c.toNat < 0x80 := by omega
    have hunderscore : (c == '_') = false := by
      refine beq_false_of_ne ?_
      rintro rfl
      exact hc (by decide)
    unfold isNamePart isLetter isNumeral
    rw [if_neg hc, if_neg hc, inRanges_of_apart (by decide +kernel) h,
      inRanges_of_apart (by decide +kernel) h, hunderscore]
    rfl

/-- Digits may stand in a name. -/
theorem isNamePart_of_isDigit {c : Char} (h : c.isDigit = true) : isNamePart c = true := by
  unfold isNamePart
  rw [isNumeral_of_isDigit h, Bool.or_true, Bool.true_or]

/-- Letters may stand in a name. -/
theorem isNamePart_of_isLetter {c : Char} (h : isLetter c = true) : isNamePart c = true := by
  unfold isNamePart
  rw [h]
  rfl

end Text

namespace Lexer

open Text

/-! ### Where lexemes end -/

/-- No name, atom or numeral goes on with the text. -/
structure Boundary (rest : List Char) : Prop where
  namePart : ∀ c, rest.head? = some c → isNamePart c = false
  point : ∀ d ds, rest = '.' :: d :: ds → d.isDigit = false

/-- The end of the text is a boundary. -/
theorem boundary_nil : Boundary [] := ⟨nofun, nofun⟩

/-- A run of characters is told from a text that starts with another one. -/
theorem span_of_head {p : Char → Bool} {cs rest : List Char} (hcs : ∀ c ∈ cs, p c = true)
    (hrest : ∀ c, rest.head? = some c → p c = false) :
    (cs ++ rest).takeWhile p = cs ∧ (cs ++ rest).dropWhile p = rest := by
  rw [List.takeWhile_append_of_pos hcs, List.dropWhile_append_of_pos hcs]
  cases rest with
  | nil => simp
  | cons c rest => simp [hrest c rfl]

/-- No digit follows a boundary. -/
theorem Boundary.digit {rest : List Char} (h : Boundary rest) :
    ∀ c, rest.head? = some c → c.isDigit = false := by
  intro c hc
  refine Bool.eq_false_iff.2 fun hdigit => ?_
  have hpart := h.namePart c hc
  rw [isNamePart_of_isDigit hdigit] at hpart
  cases hpart

/-! ### Names, atoms, numerals and strings -/

/-- Punctuation is no part of a name. -/
theorem isNamePart_of_punctuation {c : Char} {kind : TokenKind} (h : punctuation? c = some kind) :
    isNamePart c = false := by
  unfold punctuation? at h
  split at h <;> first | exact isNamePart_of_mem_symbols (by decide) | cases h

/-- What starts an operator of two characters is no part of a name. -/
theorem isNamePart_of_digraph {c d : Char} {kind : TokenKind} (h : digraph? c d = some kind) :
    isNamePart c = false := by
  unfold digraph? at h
  split at h <;> first | exact isNamePart_of_mem_symbols (by decide) | cases h

/-- What is an operator alone is no part of a name. -/
theorem isNamePart_of_monograph {previous : Option TokenKind} {c : Char} {kind : TokenKind}
    (h : monograph? previous c = some kind) : isNamePart c = false := by
  unfold monograph? at h
  split at h <;> first | exact isNamePart_of_mem_symbols (by decide) | cases h

/-- A part of a name starts a numeral or a word, and nothing else. -/
theorem front_of_namePart {c : Char} (hc : isNamePart c = true) (previous : Option TokenKind)
    (cs : List Char) :
    front previous (c :: cs) =
      if c.isDigit then numeral c cs else if isNameStart c then word c cs else .unrecognized c := by
  -- a character of a name starts none of the other kinds of tokens
  have hne : ∀ d, isNamePart d = false → c ≠ d := by
    rintro d hd rfl
    rw [hd] at hc
    cases hc
  have hpunctuation : punctuation? c = none := by
    refine Option.eq_none_iff_forall_ne_some.2 fun kind hkind => ?_
    exact hne c (isNamePart_of_punctuation hkind) rfl
  have hdigraph : cs.head?.bind (digraph? c) = none := by
    refine Option.eq_none_iff_forall_ne_some.2 fun kind hkind => ?_
    obtain ⟨d, -, hkind⟩ := Option.bind_eq_some_iff.1 hkind
    exact hne c (isNamePart_of_digraph hkind) rfl
  have hmonograph : monograph? previous c = none := by
    refine Option.eq_none_iff_forall_ne_some.2 fun kind hkind => ?_
    exact hne c (isNamePart_of_monograph hkind) rfl
  have hcolon : (c == ':') = false :=
    beq_false_of_ne (hne ':' (isNamePart_of_mem_symbols (by decide)))
  have hquote : (c == '"') = false :=
    beq_false_of_ne (hne '"' (isNamePart_of_mem_symbols (by decide)))
  rw [front]
  simp only [hpunctuation, hdigraph, hmonograph, hcolon, hquote, Bool.false_and]
  rfl

/-- A word before a boundary is scanned whole, as a keyword or as a name. -/
theorem front_of_word {c : Char} {cs rest : List Char} (hc : isNameStart c = true)
    (hcs : ∀ d ∈ cs, isNamePart d = true) (hrest : Boundary rest) (previous : Option TokenKind) :
    front previous (c :: cs ++ rest) =
      match Keyword.ofText? (String.ofList (c :: cs)) with
      | some w => .token (.keyword w) (c :: cs) rest
      | none => .token .identifier (c :: cs) rest := by
  -- a word does not start with a digit, so it is no numeral
  have hdigit : ¬ c.isDigit = true := by
    intro hdigit
    rw [isNameStart_of_isDigit hdigit] at hc
    cases hc
  obtain ⟨htake, hdrop⟩ := span_of_head hcs hrest.namePart
  rw [List.cons_append, front_of_namePart (isNamePart_of_isNameStart hc), if_neg hdigit, if_pos hc]
  unfold word
  rewrite [htake, hdrop]
  rfl

/-- A name before a boundary is scanned whole. -/
theorem front_of_name {cs rest : List Char} (h : Lexeme .identifier cs) (hrest : Boundary rest)
    (previous : Option TokenKind) :
    front previous (cs ++ rest) = .token .identifier cs rest := by
  cases h with
  | fixed h => cases h
  | identifier hstart hparts hword => rw [front_of_word hstart hparts hrest, hword]

/-- An atom before a boundary is scanned whole. -/
theorem front_of_atom {cs rest : List Char} (h : Lexeme .atom cs) (hrest : Boundary rest)
    (previous : Option TokenKind) : front previous (cs ++ rest) = .token .atom cs rest := by
  cases h with
  | fixed h => cases h
  | @atom c cs hletter hparts =>
    have hall : ∀ d ∈ c :: cs, isNamePart d = true :=
      List.forall_mem_cons.2 ⟨isNamePart_of_isLetter hletter, hparts⟩
    obtain ⟨htake, hdrop⟩ := span_of_head hall hrest.namePart
    -- a colon before a letter is no punctuation and no operator
    have hpunctuation : punctuation? ':' = none := rfl
    have hdigraph : digraph? ':' c = none := rfl
    simp only [List.cons_append] at htake hdrop ⊢
    rw [front]
    simp only [hpunctuation, List.head?_cons, Option.bind_some, hdigraph, Option.any_some, hletter,
      htake, hdrop]
    rfl

/-- A numeral before a boundary is scanned whole, point and digits behind it included. -/
theorem front_of_numeral {cs rest : List Char} (h : Lexeme .number cs) (hrest : Boundary rest)
    (previous : Option TokenKind) : front previous (cs ++ rest) = .token .number cs rest := by
  have hnumeral : ∀ {c : Char} {ds : List Char}, c.isDigit = true →
      front previous (c :: ds) = numeral c ds := fun hc => by
    rw [front_of_namePart (isNamePart_of_isDigit hc), if_pos hc]
  cases h with
  | fixed h => cases h
  | @integer c cs hc hcs =>
    obtain ⟨htake, hdrop⟩ := span_of_head hcs hrest.digit
    -- a point behind the digits is not followed by a digit
    have hfraction : fraction rest = ([], rest) := by
      unfold fraction
      split
      · next d ds => rw [hrest.point d ds rfl, if_neg Bool.false_ne_true]
      · rfl
    rw [List.cons_append, hnumeral hc]
    unfold numeral
    rw [htake, hdrop, hfraction]
    dsimp only
    rw [List.append_nil]
  | @decimal c d cs ds hc hcs hd hds =>
    have hpoint : ∀ e, ('.' :: d :: ds ++ rest).head? = some e → e.isDigit = false := by
      rintro _ ⟨⟩
      rfl
    obtain ⟨htake, hdrop⟩ := span_of_head hcs hpoint
    obtain ⟨htake', hdrop'⟩ := span_of_head hds hrest.digit
    have hfraction : fraction ('.' :: d :: ds ++ rest) = ('.' :: d :: ds, rest) := by
      simp only [List.cons_append, fraction, hd, htake', hdrop', if_true]
    rw [List.cons_append, List.cons_append, List.append_assoc, hnumeral hc]
    unfold numeral
    rw [htake, hdrop, hfraction]
    rfl

/-- A literal is scanned up to its closing quote. -/
theorem front_of_string {body : List Char} (h : Protected body) (rest : List Char)
    (previous : Option TokenKind) :
    front previous ('"' :: body ++ ['"'] ++ rest) =
      .token .string ('"' :: body ++ ['"']) rest := by
  -- a quote starts none of the shorter tokens
  have hpunctuation : punctuation? '"' = none := rfl
  have hmonograph : monograph? previous '"' = none := rfl
  have hdigraph : ∀ cs : List Char, cs.head?.bind (digraph? '"') = none := by
    intro cs
    cases cs <;> rfl
  rw [List.cons_append, List.cons_append, List.append_assoc, List.singleton_append, front]
  simp only [hpunctuation, hmonograph, hdigraph, stringBody_of_protected h]
  rfl

/-! ### Texts put together -/

/-- The text, behind a numeral or not, is cut into the tokens; they may stand elsewhere. -/
def Scans (afterNumeral : Bool) (cs : List Char) (ts : List Token) : Prop :=
  ∀ p previous, (previous = some .number ↔ afterNumeral = true) →
    ∃ us, Cursor.tokens ⟨cs, p, previous⟩ = .ok us ∧ List.Forall₂ Token.Alike ts us

/-- At the end there is only the token of the end. -/
theorem scans_end (b : Bool) (p : Position) : Scans b [] [.endOfInput p] := by
  intro q previous _
  exact ⟨_, Cursor.tokens_of_end rfl rfl, .cons ⟨rfl, rfl⟩ .nil⟩

/-- A blank before a token is passed over. -/
theorem Cursor.next_blank (cs : List Char) (p : Position) (previous : Option TokenKind) :
    Cursor.next ⟨' ' :: cs, p, previous⟩ = Cursor.next ⟨cs, p.advance ' ', previous⟩ := by
  have hsplit : splitTrivia false (' ' :: cs) =
      (' ' :: (splitTrivia false cs).1, (splitTrivia false cs).2) := rfl
  unfold Cursor.next
  rw [hsplit]
  rfl

/-- A blank in front is skipped. -/
theorem Scans.blank {b : Bool} {cs : List Char} {ts : List Token} (h : Scans b cs ts) :
    Scans b (' ' :: cs) ts := by
  intro p previous hprevious
  obtain ⟨us, hus, halike⟩ := h (p.advance ' ') previous hprevious
  refine ⟨us, ?_, halike⟩
  rw [Cursor.tokens_eq, Cursor.next_blank, ← Cursor.tokens_eq, hus]

/-- The character separates no tokens. -/
def isSolid (c : Char) : Bool := !(isBlank c || c == '#')

/-- What may stand in a name is neither blank nor the start of a comment. -/
theorem isSolid_of_isNamePart {c : Char} (h : isNamePart c = true) : isSolid c = true := by
  have hblank : isBlank c = false := by
    refine Bool.eq_false_iff.2 fun hblank => ?_
    rw [isNamePart_of_isBlank hblank] at h
    cases h
  have hhash : (c == '#') = false := by
    refine beq_false_of_ne ?_
    rintro rfl
    rw [isNamePart_of_mem_symbols (by decide)] at h
    cases h
  unfold isSolid
  rw [hblank, hhash]
  rfl

/-- A lexeme does not start like a gap. -/
theorem Lexeme.head {kind : TokenKind} {cs : List Char} (h : Lexeme kind cs) :
    ∃ c ds, cs = c :: ds ∧ isSolid c = true := by
  cases h with
  | fixed h =>
    -- the spellings of a kind are a finite list, none of which starts with a blank or a comment
    have hall : ∀ s ∈ kind.spellings, s.toList.head?.any isSolid = true := by
      cases kind with
      | keyword word => cases word <;> decide
      | _ => decide
    have hhead := hall _ h
    rw [String.toList_ofList, Option.any_eq_true] at hhead
    obtain ⟨c, hc, hsolid⟩ := hhead
    obtain ⟨ds, rfl⟩ := List.head?_eq_some_iff.1 hc
    exact ⟨c, ds, rfl, hsolid⟩
  | atom _ _ => exact ⟨_, _, rfl, by decide⟩
  | string _ => exact ⟨_, _, rfl, by decide⟩
  | integer hc _ => exact ⟨_, _, rfl, isSolid_of_isNamePart (isNamePart_of_isDigit hc)⟩
  | decimal hc _ _ _ => exact ⟨_, _, rfl, isSolid_of_isNamePart (isNamePart_of_isDigit hc)⟩
  | identifier hc _ _ => exact ⟨_, _, rfl, isSolid_of_isNamePart (isNamePart_of_isNameStart hc)⟩

/-- Before a solid character there is nothing to pass over. -/
theorem splitTrivia_of_isSolid {c : Char} (hc : isSolid c = true) (cs : List Char) :
    splitTrivia false (c :: cs) = ([], c :: cs) := by
  unfold isSolid at hc
  rw [Bool.not_eq_true'] at hc
  simp only [splitTrivia, hc]
  rfl

/-- **A token in front** is read, if the lexer finds it there. -/
theorem Scans.token {b : Bool} {kind : TokenKind} {lexeme rest : List Char} {ts : List Token}
    (hfront : ∀ previous, (previous = some .number ↔ b = true) →
      Lexer.front previous (lexeme ++ rest) = .token kind lexeme rest)
    (hrest : Scans (kind == .number) rest ts) (p : Position) :
    Scans b (lexeme ++ rest) (⟨kind, tokenText kind lexeme, p⟩ :: ts) := by
  intro q previous hprevious
  have hlexeme := lexeme_of_front (hfront previous hprevious)
  -- nothing is passed over before the token, which starts with a solid character
  obtain ⟨c, cs, rfl, hsolid⟩ := hlexeme.head
  have hfront' : Lexer.front previous (splitTrivia false (c :: cs ++ rest)).2 =
      .token kind (c :: cs) rest := by
    rw [List.cons_append, splitTrivia_of_isSolid hsolid]
    exact hfront previous hprevious
  have hnext := @Cursor.next_of_front ⟨c :: cs ++ rest, q, previous⟩ kind (c :: cs) rest hfront'
  have hnumeral : (some kind = some TokenKind.number) ↔ (kind == .number) = true := by
    rw [Option.some.injEq, beq_iff_eq]
  dsimp only at hnext
  obtain ⟨us, hus, halike⟩ := hrest _ (some kind) hnumeral
  have htokens := Cursor.tokens_of_next (congrArg Prod.fst hnext) hlexeme.kind_ne_eof
    (by rw [hnext]; exact hus)
  exact ⟨_, htokens, .cons ⟨rfl, rfl⟩ halike⟩

section Tokens

variable {b : Bool} {kind : TokenKind} {text : String} {rest : List Char} {ts : List Token}

/-- A token whose text is as it is written. -/
theorem Scans.lexeme (hkind : kind ≠ .string)
    (hfront : ∀ previous, (previous = some .number ↔ b = true) →
      Lexer.front previous (text.toList ++ rest) = .token kind text.toList rest)
    (hrest : Scans (kind == .number) rest ts) :
    Scans b (text.toList ++ rest) (.of kind text :: ts) := by
  have htext : tokenText kind text.toList = text := by
    unfold tokenText
    split
    · exact absurd rfl hkind
    · exact String.ofList_toList
  have hscans := Scans.token hfront hrest .nowhere
  rw [htext] at hscans
  exact hscans

/-- A name, then what is scanned behind it. -/
theorem Scans.name (h : Lexeme .identifier text.toList) (hb : Boundary rest)
    (hrest : Scans false rest ts) : Scans b (text.toList ++ rest) (.of .identifier text :: ts) :=
  Scans.lexeme nofun (fun previous _ => front_of_name h hb previous) hrest

/-- An atom, then what is scanned behind it. -/
theorem Scans.atom (h : Lexeme .atom text.toList) (hb : Boundary rest)
    (hrest : Scans false rest ts) : Scans b (text.toList ++ rest) (.of .atom text :: ts) :=
  Scans.lexeme nofun (fun previous _ => front_of_atom h hb previous) hrest

/-- A numeral, then what is scanned behind it, where a minus is an operator. -/
theorem Scans.numeral (h : Lexeme .number text.toList) (hb : Boundary rest)
    (hrest : Scans true rest ts) : Scans b (text.toList ++ rest) (.of .number text :: ts) :=
  Scans.lexeme nofun (fun previous _ => front_of_numeral h hb previous) hrest

/-- A string is written between quotes. -/
theorem Scans.string (h : Protected text.toList) (hrest : Scans false rest ts) :
    Scans b ('"' :: text.toList ++ ['"'] ++ rest) (.of .string text :: ts) := by
  have hscans := Scans.token (b := b) (fun previous _ => front_of_string h rest previous) hrest
    .nowhere
  have htext : tokenText .string ('"' :: text.toList ++ ['"']) = text := by
    simp [tokenText]
  rw [htext] at hscans
  exact hscans

end Tokens

/-- The number of tokens is bounded by the number of characters. -/
theorem Cursor.length_tokens_le {cur : Cursor} {ts : List Token} (h : cur.tokens = .ok ts) :
    ts.length ≤ cur.rest.length + 1 := by
  induction ts generalizing cur with
  | nil => exact Nat.zero_le _
  | cons t ts ih =>
    obtain ⟨t', ht, ⟨-, hcons⟩ | ⟨hkind, us, hus, hcons⟩⟩ := Cursor.tokens_cases h
    -- every token but the last takes at least one character
    · cases hcons
      exact Nat.le_add_left 1 _
    · cases hcons
      have hle := ih hus
      have hlt := Cursor.next_rest_length_lt ht hkind
      rw [List.length_cons]
      omega

end Lexer

end AtomScript

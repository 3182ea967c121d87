import AtomScript.Number.Reader
import AtomScript.Proofs.Token.Spaced
import Mathlib.Data.List.TakeDrop

/-!
# Numerals

A numeral is read twice: the lexer scans it character by character, looking one character past a
point, and `Number.read?` splits a whole text at its first point.  Both accept the same texts, those
of `Number.Unsigned`; `Number.read?` allows a minus in front as well (`Number.Signed`), which the
lexer takes for a token of its own.

* `Number.readSigned?_isSome_iff` — what `Number.read?` accepts;
* `tokenize_numeral_iff` — what is one token for the lexer;
* `tokenize_minus_numeral` — a minus and a numeral are two.
-/

namespace AtomScript

namespace Number

/-! ### The texts -/

/-- One ASCII digit or more. -/
def Digits (cs : List Char) : Prop :=
  cs ≠ [] ∧ ∀ c ∈ cs, c.isDigit = true

/-- Digits, and optionally a point with digits behind it. -/
inductive Unsigned : List Char → Prop where
  | whole {cs : List Char} : Digits cs → Unsigned cs
  | fraction {cs ds : List Char} : Digits cs → Digits ds → Unsigned (cs ++ '.' :: ds)

/-- The same, optionally behind a minus. -/
inductive Signed : List Char → Prop where
  | plain {cs : List Char} : Unsigned cs → Signed cs
  | minus {cs : List Char} : Unsigned cs → Signed ('-' :: cs)

variable {cs : List Char}

theorem digits_cons {c : Char} :
    Digits (c :: cs) ↔ c.isDigit = true ∧ ∀ d ∈ cs, d.isDigit = true := by
  unfold Digits
  rw [List.forall_mem_cons]
  exact and_iff_right (List.cons_ne_nil c cs)

/-- A numeral begins with a digit. -/
theorem Unsigned.exists_cons (h : Unsigned cs) :
    ∃ c ds, cs = c :: ds ∧ c.isDigit = true := by
  have hdigits : ∀ {es : List Char}, Digits es → ∃ c ds, es = c :: ds ∧ c.isDigit = true := by
    intro es hes
    obtain ⟨c, ds, rfl⟩ := List.exists_cons_of_ne_nil hes.1
    exact ⟨c, ds, rfl, (digits_cons.1 hes).1⟩
  cases h with
  | whole h => exact hdigits h
  | fraction h _ =>
    obtain ⟨c, ds, rfl, hc⟩ := hdigits h
    exact ⟨c, _, rfl, hc⟩

theorem Unsigned.ne_minus (h : Unsigned cs) (ds : List Char) : cs ≠ '-' :: ds := by
  rintro rfl
  obtain ⟨c, es, hcons, hc⟩ := h.exists_cons
  rw [← (List.cons.inj hcons).1] at hc
  exact Bool.noConfusion hc

theorem signed_minus_iff : Signed ('-' :: cs) ↔ Unsigned cs := by
  constructor
  · intro h
    cases h with
    | plain h => exact absurd rfl (h.ne_minus cs)
    | minus h => exact h
  · exact .minus

theorem signed_iff_of_ne_minus (h : cs.head? ≠ some '-') : Signed cs ↔ Unsigned cs := by
  constructor
  · intro hsigned
    cases hsigned with
    | plain hunsigned => exact hunsigned
    | minus _ => exact absurd rfl h
  · exact .plain

/-! ### Reading a whole text -/

theorem isDigitRun_iff : isDigitRun cs = true ↔ Digits cs := by
  unfold isDigitRun Digits
  rw [Bool.and_eq_true, Bool.not_eq_true', List.isEmpty_eq_false_iff, List.all_eq_true]

/-- Digits are told from a point, or nothing, behind them. -/
theorem span_of_digits (h : Digits cs) {rest : List Char}
    (hrest : ∀ c, rest.head? = some c → c = '.') :
    (cs ++ rest).span (· != '.') = (cs, rest) := by
  -- digits hold no point, so the span ends where the rest starts
  have hinside : ∀ c ∈ cs, (c != '.') = true := by
    intro c hc
    refine bne_iff_ne.2 ?_
    rintro rfl
    exact Bool.noConfusion (h.2 '.' hc)
  have hbehind : ∀ c, rest.head? = some c → (c != '.') = false := by
    intro c hc
    rw [hrest c hc]
    rfl
  obtain ⟨htake, hdrop⟩ := Lexer.span_of_head hinside hbehind
  rw [List.span_eq_takeWhile_dropWhile, htake, hdrop]

theorem exists_span (cs : List Char) :
    ∃ whole rest, cs.span (· != '.') = (whole, rest) ∧ cs = whole ++ rest ∧
      ∀ c, rest.head? = some c → c = '.' := by
  refine ⟨_, _, List.span_eq_takeWhile_dropWhile _ cs, List.takeWhile_append_dropWhile.symm, ?_⟩
  intro c hc
  have hhead := List.head?_dropWhile_not (· != '.') cs
  rw [hc] at hhead
  exact bne_eq_false_iff_eq.1 hhead

theorem unsigned_of_readUnsigned? (h : (readUnsigned? cs).isSome = true) : Unsigned cs := by
  obtain ⟨whole, rest, hspan, hcs, hpoint⟩ := exists_span cs
  unfold readUnsigned? at h
  rw [hspan] at h
  subst hcs
  -- with no point there is one run of digits, else one on either side
  cases rest with
  | nil =>
    dsimp only at h
    split at h
    · next hwhole =>
      rw [List.append_nil]
      exact .whole (isDigitRun_iff.1 hwhole)
    · cases h
  | cons c fraction =>
    obtain rfl : c = '.' := hpoint c rfl
    dsimp only at h
    split at h
    · next hboth =>
      rw [Bool.and_eq_true, isDigitRun_iff, isDigitRun_iff] at hboth
      exact .fraction hboth.1 hboth.2
    · cases h

theorem Unsigned.isSome_readUnsigned? (h : Unsigned cs) : (readUnsigned? cs).isSome = true := by
  -- the two forms are read by the two branches
  cases h with
  | @whole cs h =>
    have hspan : (cs ++ []).span (· != '.') = (cs, []) := span_of_digits h nofun
    rw [List.append_nil] at hspan
    unfold readUnsigned?
    rw [hspan]
    dsimp only
    rw [if_pos (isDigitRun_iff.2 h)]
    rfl
  | @fraction whole fraction hwhole hfraction =>
    have hpoint : ∀ c, ('.' :: fraction).head? = some c → c = '.' := by
      rintro c ⟨⟩
      rfl
    have hboth : (isDigitRun whole && isDigitRun fraction) = true :=
      Bool.and_eq_true_iff.2 ⟨isDigitRun_iff.2 hwhole, isDigitRun_iff.2 hfraction⟩
    unfold readUnsigned?
    rw [span_of_digits hwhole hpoint]
    dsimp only
    rw [if_pos hboth]
    rfl

theorem readUnsigned?_isSome_iff : (readUnsigned? cs).isSome = true ↔ Unsigned cs :=
  ⟨unsigned_of_readUnsigned?, Unsigned.isSome_readUnsigned?⟩

theorem readSigned?_minus (cs : List Char) :
    readSigned? ('-' :: cs) = (readUnsigned? cs).map neg :=
  rfl

theorem readSigned?_of_ne_minus (h : cs.head? ≠ some '-') : readSigned? cs = readUnsigned? cs := by
  unfold readSigned?
  split
  · exact absurd rfl h
  · rfl

/-- **What is read as a number** is a numeral, or a numeral behind a minus. -/
theorem readSigned?_isSome_iff (cs : List Char) : (readSigned? cs).isSome = true ↔ Signed cs := by
  by_cases h : cs.head? = some '-'
  · obtain ⟨ds, rfl⟩ := List.head?_eq_some_iff.1 h
    rw [readSigned?_minus, Option.isSome_map, readUnsigned?_isSome_iff, signed_minus_iff]
  · rw [readSigned?_of_ne_minus h, readUnsigned?_isSome_iff, signed_iff_of_ne_minus h]

instance (cs : List Char) : Decidable (Signed cs) :=
  decidable_of_iff _ (readSigned?_isSome_iff cs)

-- a point stands between digits, and the minus is the only sign
example : Signed "-2.50".toList ∧ ¬ Signed "1.".toList ∧ ¬ Signed "1.2.3".toList ∧
    ¬ Signed "+1".toList := by
  decide

/-- A numeral is read to what its token means. -/
theorem read?_of_unsigned {t : String} (h : Unsigned t.toList) : read? t = some (ofNumeral t) := by
  have hsome : (read? t).isSome = true := (readSigned?_isSome_iff _).2 (.plain h)
  obtain ⟨x, hx⟩ := Option.isSome_iff_exists.1 hsome
  unfold ofNumeral
  rw [hx]
  rfl

theorem read?_minus {t : String} (h : Unsigned t.toList) :
    read? ("-" ++ t) = some (neg (ofNumeral t)) := by
  -- what is unsigned has no sign of its own
  have hne : t.toList.head? ≠ some '-' := by
    intro hhead
    obtain ⟨ds, hds⟩ := List.head?_eq_some_iff.1 hhead
    exact h.ne_minus ds hds
  have hread : readUnsigned? t.toList = some (ofNumeral t) := by
    rw [← readSigned?_of_ne_minus hne]
    exact read?_of_unsigned h
  unfold read?
  rw [String.toList_append]
  show (readUnsigned? t.toList).map neg = _
  rw [hread]
  rfl

/-- The text behind the minus is a text. -/
theorem Signed.cases_text {t : String} (h : Signed t.toList) :
    Unsigned t.toList ∨ ∃ u, t = "-" ++ u ∧ Unsigned u.toList := by
  by_cases hminus : t.toList.head? = some '-'
  · obtain ⟨cs, hcs⟩ := List.head?_eq_some_iff.1 hminus
    have hbehind : (String.ofList cs).toList = cs := String.toList_ofList
    refine .inr ⟨String.ofList cs, String.toList_inj.1 ?_, ?_⟩
    · rw [String.toList_append, hbehind, hcs]
      rfl
    · rw [hbehind]
      exact signed_minus_iff.1 (hcs ▸ h)
  · exact .inl ((signed_iff_of_ne_minus hminus).1 h)

end Number

/-! ### Scanning a text -/

namespace Lexer

open Number

/-- What the lexer scans as a numeral. -/
theorem lexeme_number_iff {cs : List Char} : Lexeme .number cs ↔ Unsigned cs := by
  constructor
  -- a numeral of the language is an unsigned one, and has at least one digit on either side
  · intro h
    cases h with
    | fixed h => cases h
    | integer hc hcs => exact .whole (digits_cons.2 ⟨hc, hcs⟩)
    | decimal hc hcs hd hds =>
      exact .fraction (digits_cons.2 ⟨hc, hcs⟩) (digits_cons.2 ⟨hd, hds⟩)
  · intro h
    cases h with
    | @whole cs h =>
      obtain ⟨c, cs, rfl⟩ := List.exists_cons_of_ne_nil h.1
      obtain ⟨hc, hcs⟩ := digits_cons.1 h
      exact .integer hc hcs
    | @fraction cs ds hwhole hfraction =>
      obtain ⟨c, cs, rfl⟩ := List.exists_cons_of_ne_nil hwhole.1
      obtain ⟨d, ds, rfl⟩ := List.exists_cons_of_ne_nil hfraction.1
      obtain ⟨hc, hcs⟩ := digits_cons.1 hwhole
      obtain ⟨hd, hds⟩ := digits_cons.1 hfraction
      exact .decimal hc hcs hd hds

/-- A numeral at the end of a text is one token, whatever stands before it. -/
theorem Cursor.tokens_of_numeral {t : String} (h : Unsigned t.toList) (p : Position)
    (previous : Option TokenKind) :
    Cursor.tokens ⟨t.toList, p, previous⟩ =
      .ok [⟨.number, t, p⟩, .endOfInput (p.advanceBy t.toList)] := by
  -- the whole text is one lexeme, with nothing before or behind it
  have hlexeme : Lexeme .number t.toList := lexeme_number_iff.2 h
  obtain ⟨c, cs, hcons, hsolid⟩ := hlexeme.head
  have hsplit : splitTrivia false t.toList = ([], t.toList) := by
    rw [hcons]
    exact splitTrivia_of_isSolid hsolid cs
  have hfront : front previous t.toList = .token .number t.toList [] := by
    have hfront := front_of_numeral hlexeme boundary_nil previous
    rwa [List.append_nil] at hfront
  have hnext : Cursor.next ⟨t.toList, p, previous⟩ =
      (.ok ⟨.number, t, p⟩, ⟨[], p.advanceBy t.toList, some .number⟩) := by
    have htext : tokenText .number t.toList = t := String.ofList_toList
    rw [Cursor.next_of_front (by rw [hsplit]; exact hfront), hsplit, htext]
    rfl
  have hend : Cursor.tokens ⟨[], p.advanceBy t.toList, some .number⟩ =
      .ok [.endOfInput (p.advanceBy t.toList)] := Cursor.tokens_of_end rfl rfl
  refine Cursor.tokens_of_next (by rw [hnext]) nofun ?_
  rw [hnext]
  exact hend

end Lexer

open Number Lexer

/-- **The texts that are one numeral token** are the numerals. -/
theorem tokenize_numeral_iff {t : String} :
    (∃ p last, tokenize t = .ok [⟨.number, t, p⟩, last] ∧ last.kind = .eof) ↔
      Unsigned t.toList := by
  constructor
  · rintro ⟨p, last, hts, -⟩
    obtain ⟨read, last', hread, hlast, hlexemes⟩ := exists_of_tokenize hts
    -- the first of the two tokens is not the end
    have hmem : (⟨.number, t, p⟩ : Token) ∈ read := by
      have hmem : (⟨.number, t, p⟩ : Token) ∈ read ++ [last'] := hread ▸ List.mem_cons_self
      rcases List.mem_append.1 hmem with hmem | hmem
      · exact hmem
      · rw [← List.mem_singleton.1 hmem] at hlast
        exact nomatch hlast
    exact lexeme_number_iff.1 (hlexemes _ hmem)
  · intro h
    exact ⟨_, _, Cursor.tokens_of_numeral h .start none, rfl⟩

/-- A minus in front of a numeral is a token of its own. -/
theorem tokenize_minus_numeral {t : String} (h : Unsigned t.toList) :
    tokenize ("-" ++ t) = .ok [⟨.minus, "-", .start⟩, ⟨.number, t, Position.start.advance '-'⟩,
      .endOfInput ((Position.start.advance '-').advanceBy t.toList)] := by
  obtain ⟨c, cs, hcons, hc⟩ := h.exists_cons
  have hfront : front none ('-' :: t.toList) = .token .minus ['-'] t.toList := by
    -- the minus and a digit make no arrow
    have harrow : t.toList.head? ≠ some '>' := by
      rw [hcons]
      rintro ⟨⟩
      exact Bool.noConfusion hc
    rw [front_minus, if_neg harrow]
    rfl
  have hsplit : splitTrivia false ('-' :: t.toList) = ([], '-' :: t.toList) :=
    splitTrivia_of_isSolid (by decide) t.toList
  have hnext : Cursor.next ⟨'-' :: t.toList, .start, none⟩ =
      (.ok ⟨.minus, "-", .start⟩, ⟨t.toList, Position.start.advance '-', some .minus⟩) := by
    rw [Cursor.next_of_front (by rw [hsplit]; exact hfront), hsplit]
    rfl
  show Cursor.tokens ⟨("-" ++ t).toList, .start, none⟩ = _
  rw [String.toList_append]
  refine Cursor.tokens_of_next (congrArg Prod.fst hnext) nofun ?_
  refine (congrArg (fun cur => Cursor.tokens cur.2) hnext).trans ?_
  exact Cursor.tokens_of_numeral h _ _

end AtomScript

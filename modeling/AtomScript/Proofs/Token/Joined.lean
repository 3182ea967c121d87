import Mathlib.Data.List.Forall2
import AtomScript.Proofs.Token.Layout

/-!
# The tokens of joined texts

Two texts are joined by a line end, a semicolon and another line end.  The first line end closes a
comment in which the first text may end, and extends no token, since no token goes on with a line
end; so the first text is cut as if it stood alone, with the semicolon in place of the end.  The
second text is cut as if it stood alone up to the positions of its tokens, because the lexer looks
back only to see whether a numeral stands before a minus.

* `Lexer.Cursor.next_append` — a token is read the same before a line end;
* `Token.Alike` — tokens that differ in their positions only;
* `tokenize_joined` — the tokens of the joined texts.
-/

namespace AtomScript

/-- The tokens differ at most in their positions. -/
def Token.Alike (t u : Token) : Prop := t.kind = u.kind ∧ t.text = u.text

namespace Lexer

open Text

/-! ### Before a line end -/

/-- A run of characters among which no line end can be stops at it. -/
theorem span_append_lineEnd {p : Char → Bool} (hp : p '\n' = false) (cs ds : List Char) :
    (cs ++ '\n' :: ds).takeWhile p = cs.takeWhile p ∧
      (cs ++ '\n' :: ds).dropWhile p = cs.dropWhile p ++ '\n' :: ds := by
  induction cs with
  | nil => simp [hp]
  | cons c cs ih =>
    by_cases hc : p c = true
    · simp [hc, ih]
    · simp [hc]

theorem fraction_append_lineEnd (cs ds : List Char) :
    fraction (cs ++ '\n' :: ds) = ((fraction cs).1, (fraction cs).2 ++ '\n' :: ds) := by
  have hdigit : Char.isDigit '\n' = false := rfl
  match cs with
  | [] => rfl
  | [c] =>
    -- a fraction starts with a point and a digit, and the line end is neither
    by_cases hc : c = '.'
    · subst hc
      rfl
    · simp [fraction, hc]
  | c :: d :: es =>
    obtain ⟨htake, hdrop⟩ := span_append_lineEnd hdigit es ds
    by_cases hc : c = '.'
    · subst hc
      by_cases hd : d.isDigit = true
      · simp [fraction, hd, htake, hdrop]
      · simp [fraction, hd]
    · simp [fraction, hc]

theorem stringBody_append_of_some {cs body rest : List Char} (ds : List Char)
    (h : stringBody cs = some (body, rest)) : stringBody (cs ++ ds) = some (body, rest ++ ds) := by
  rw [← stringBody_append h, List.append_assoc, List.cons_append]
  exact stringBody_of_protected (protected_of_stringBody h)

theorem digraph?_lineEnd (c : Char) : digraph? c '\n' = none := by
  unfold digraph?
  split <;> first | rfl | contradiction

/-- **No token goes on with a line end.** -/
theorem front_append_lineEnd {previous : Option TokenKind} {cs lexeme rest : List Char}
    {kind : TokenKind} (ds : List Char) (h : front previous cs = .token kind lexeme rest) :
    front previous (cs ++ '\n' :: ds) = .token kind lexeme (rest ++ '\n' :: ds) := by
  have hpart : isNamePart '\n' = false := by decide
  cases cs with
  | nil => cases h
  | cons c cs =>
    have hhead : (cs ++ '\n' :: ds).head?.bind (digraph? c) = cs.head?.bind (digraph? c) := by
      cases cs with
      | nil => exact digraph?_lineEnd c
      | cons d cs => rfl
    have hletter : (cs ++ '\n' :: ds).head?.any isLetter = cs.head?.any isLetter := by
      cases cs with
      | nil => rfl
      | cons d cs => rfl
    obtain ⟨htake, hdrop⟩ := span_append_lineEnd hpart cs ds
    rw [List.cons_append]
    -- the lexer takes the same way, class by class
    rw [front] at h ⊢
    rw [hhead, hletter]
    cases hpunctuation : punctuation? c with
    | some k =>
      simp only [hpunctuation] at h ⊢
      cases h
      rfl
    | none =>
    simp only [hpunctuation] at h ⊢
    cases hdigraph : cs.head?.bind (digraph? c) with
    | some k =>
      obtain ⟨d, hd, -⟩ := Option.bind_eq_some_iff.1 hdigraph
      obtain ⟨es, rfl⟩ := List.head?_eq_some_iff.1 hd
      simp only [hdigraph] at h ⊢
      cases h
      rfl
    | none =>
    simp only [hdigraph] at h ⊢
    by_cases hatom : (c == ':' && cs.head?.any isLetter) = true
    · rw [if_pos hatom] at h ⊢
      cases h
      rw [htake, hdrop]
    rw [if_neg hatom] at h ⊢
    cases hmonograph : monograph? previous c with
    | some k =>
      simp only [hmonograph] at h ⊢
      cases h
      rfl
    | none =>
    simp only [hmonograph] at h ⊢
    by_cases hquote : (c == '"') = true
    · rw [if_pos hquote] at h ⊢
      split at h
      · next body rest' hbody =>
        cases h
        rw [stringBody_append_of_some _ hbody]
      · cases h
    rw [if_neg hquote] at h ⊢
    by_cases hdigit : c.isDigit = true
    · rw [if_pos hdigit] at h ⊢
      obtain ⟨hdigits, hrest⟩ := span_append_lineEnd (p := Char.isDigit) rfl cs ds
      unfold numeral at h ⊢
      rw [hdigits, hrest, fraction_append_lineEnd]
      cases h
      rfl
    rw [if_neg hdigit] at h ⊢
    by_cases hstart : isNameStart c = true
    · rw [if_pos hstart] at h ⊢
      unfold word at h ⊢
      rw [htake, hdrop]
      dsimp only at h ⊢
      split at h
      · cases h
        rfl
      · cases h
        rfl
    · rw [if_neg hstart] at h
      cases h

/-- What is skipped before a token does not depend on what follows the token. -/
theorem splitTrivia_append_of_cons {b : Bool} {cs rest : List Char} {c : Char}
    (h : (splitTrivia b cs).2 = c :: rest) (ds : List Char) :
    splitTrivia b (cs ++ ds) = ((splitTrivia b cs).1, c :: rest ++ ds) := by
  induction cs generalizing b with
  | nil => cases h
  | cons d cs ih =>
    rw [List.cons_append]
    simp only [splitTrivia] at h ⊢
    -- inside a comment, at a blank or a comment, or at the character that is kept
    by_cases hb : b = true
    · rw [if_pos hb] at h ⊢
      rw [if_pos hb, ih h]
    · rw [if_neg hb] at h ⊢
      by_cases hd : (isBlank d || d == '#') = true
      · rw [if_pos hd] at h ⊢
        rw [if_neg hb, if_pos hd, ih h]
      · rw [if_neg hd] at h ⊢
        rw [if_neg hb, if_neg hd]
        cases h
        rfl

/-- Where nothing but blanks and comments is left, a line end closes the comment. -/
theorem splitTrivia_append_lineEnd {b : Bool} {cs : List Char} (h : (splitTrivia b cs).2 = [])
    (ds : List Char) :
    splitTrivia b (cs ++ '\n' :: ds) =
      (cs ++ '\n' :: (splitTrivia false ds).1, (splitTrivia false ds).2) := by
  induction cs generalizing b with
  | nil => cases b <;> rfl
  | cons c cs ih =>
    rw [List.cons_append]
    simp only [splitTrivia] at h ⊢
    -- the line end closes a comment and is a blank otherwise
    by_cases hb : b = true
    · rw [if_pos hb] at h ⊢
      rw [ih h]
      rfl
    · rw [if_neg hb] at h ⊢
      by_cases hc : (isBlank c || c == '#') = true
      · rw [if_pos hc] at h ⊢
        rw [ih h]
        rfl
      · rw [if_neg hc] at h
        cases h

namespace Cursor

/-- The cursor in a text that goes on. -/
def append (cur : Cursor) (ds : List Char) : Cursor := { cur with rest := cur.rest ++ ds }

theorem next_of_end {cur : Cursor} (h : (splitTrivia false cur.rest).2 = []) :
    cur.next =
      let here := cur.position.advanceBy (splitTrivia false cur.rest).1
      (.ok (.endOfInput here), ⟨[], here, some .eof⟩) := by
  unfold next
  simp only [h, front]

theorem next_of_front {cur : Cursor} {kind : TokenKind} {lexeme rest : List Char}
    (h : front cur.previous (splitTrivia false cur.rest).2 = .token kind lexeme rest) :
    cur.next =
      let here := cur.position.advanceBy (splitTrivia false cur.rest).1
      (.ok ⟨kind, tokenText kind lexeme, here⟩, ⟨rest, here.advanceBy lexeme, some kind⟩) := by
  unfold next
  simp only [h]

/-- What a cursor that reads a token finds behind the gap. -/
theorem front_of_next {cur : Cursor} {t : Token} (h : cur.next.1 = .ok t) :
    (t.kind = .eof ∧ (splitTrivia false cur.rest).2 = []) ∨
    (t.kind ≠ .eof ∧ ∃ lexeme rest,
      front cur.previous (splitTrivia false cur.rest).2 = .token t.kind lexeme rest) := by
  -- without a character left there is the token of the end only
  cases hrest : (splitTrivia false cur.rest).2 with
  | nil =>
    rw [next_of_end hrest] at h
    cases h
    exact .inl ⟨rfl, rfl⟩
  | cons c cs =>
    rcases front_cons cur.previous c cs with ⟨kind, lexeme, rest, hf⟩ | hf | ⟨-, -, hf⟩
    · rw [← hrest] at hf
      rw [next_of_front hf] at h
      cases h
      exact .inr ⟨(lexeme_of_front hf).kind_ne_eof, lexeme, rest, by rw [← hrest, hf]⟩
    · unfold next at h
      simp only [hrest, hf] at h
      cases h
    · unfold next at h
      simp only [hrest, hf] at h
      cases h

/-- **A token is read the same before a line end.** -/
theorem next_append {cur : Cursor} {t : Token} (h : cur.next.1 = .ok t) (ht : t.kind ≠ .eof)
    (ds : List Char) :
    (cur.append ('\n' :: ds)).next = (.ok t, cur.next.2.append ('\n' :: ds)) := by
  rcases front_of_next h with ⟨heof, -⟩ | ⟨-, lexeme, rest, hfront⟩
  · exact absurd heof ht
  · -- the gap is the same, since a token follows it
    have hsplit : splitTrivia false (cur.append ('\n' :: ds)).rest =
        ((splitTrivia false cur.rest).1, (splitTrivia false cur.rest).2 ++ '\n' :: ds) := by
      cases hcs : (splitTrivia false cur.rest).2 with
      | nil =>
        rw [hcs] at hfront
        cases hfront
      | cons c cs => exact splitTrivia_append_of_cons hcs ('\n' :: ds)
    have hjoined : front (cur.append ('\n' :: ds)).previous
        (splitTrivia false (cur.append ('\n' :: ds)).rest).2 =
          .token t.kind lexeme (rest ++ '\n' :: ds) := by
      rw [hsplit]
      exact front_append_lineEnd ds hfront
    rw [next_of_front hfront] at h ⊢
    rw [next_of_front hjoined, hsplit, ← h]
    rfl

/-- At the end of the text, the semicolon behind it is read. -/
theorem next_semicolon {cur : Cursor} {t : Token} (h : cur.next.1 = .ok t) (ht : t.kind = .eof)
    (ds : List Char) :
    ∃ p q, (cur.append ('\n' :: ';' :: ds)).next =
      (.ok ⟨.semicolon, ";", p⟩, ⟨ds, q, some .semicolon⟩) := by
  rcases front_of_next h with ⟨-, hend⟩ | ⟨hne, -⟩
  · unfold next append
    dsimp only
    rw [splitTrivia_append_lineEnd hend]
    exact ⟨_, _, rfl⟩
  · exact absurd ht hne

/-! ### Cursors with the same text before them -/

/-- Behind the gap both cursors have the same text before them, and both come from a numeral or
neither does. -/
def Alike (cur cur' : Cursor) : Prop :=
  (splitTrivia false cur.rest).2 = (splitTrivia false cur'.rest).2 ∧
    (cur.previous = some .number ↔ cur'.previous = some .number)

/-- The lexer looks back only to see whether a numeral stands there. -/
theorem front_eq_of_previous {previous previous' : Option TokenKind}
    (h : previous = some .number ↔ previous' = some .number) (cs : List Char) :
    front previous cs = front previous' cs := by
  have hmonograph : ∀ c, monograph? previous c = monograph? previous' c := by
    intro c
    unfold monograph?
    simp only [h]
  cases cs with
  | nil => rfl
  | cons c cs => simp only [front, hmonograph]

theorem Alike.next {cur cur' : Cursor} (h : cur.Alike cur') {t : Token} (ht : cur.next.1 = .ok t) :
    ∃ u, cur'.next.1 = .ok u ∧ t.Alike u ∧ cur.next.2.Alike cur'.next.2 := by
  obtain ⟨hrest, hprevious⟩ := h
  -- both texts go on alike, and the token before matters only if it is a numeral
  rcases front_of_next ht with ⟨-, hend⟩ | ⟨-, lexeme, rest, hfront⟩
  · rw [next_of_end hend] at ht ⊢
    rw [hrest] at hend
    rw [next_of_end hend]
    cases ht
    exact ⟨_, rfl, ⟨rfl, rfl⟩, rfl, Iff.rfl⟩
  · have hfront' := hfront
    rw [hrest, front_eq_of_previous hprevious] at hfront'
    rw [next_of_front hfront] at ht ⊢
    rw [next_of_front hfront']
    refine ⟨_, rfl, ⟨rfl, ?_⟩, rfl, Iff.rfl⟩
    rw [← Except.ok.inj ht]

/-- The first token of a list of tokens, and the others. -/
theorem tokens_cases {cur : Cursor} {ts : List Token} (h : cur.tokens = .ok ts) :
    ∃ t, cur.next.1 = .ok t ∧
      ((t.kind = .eof ∧ ts = [t]) ∨
        (t.kind ≠ .eof ∧ ∃ us, cur.next.2.tokens = .ok us ∧ ts = t :: us)) := by
  rw [tokens_eq] at h
  cases ht : cur.next.1 with
  | error e =>
    rw [ht] at h
    cases h
  | ok t =>
    rw [ht] at h
    dsimp only at h
    refine ⟨t, rfl, ?_⟩
    -- the token of the end is the last one
    by_cases hkind : t.kind = .eof
    · rw [if_pos hkind] at h
      cases h
      exact .inl ⟨hkind, rfl⟩
    · rw [if_neg hkind] at h
      cases hus : cur.next.2.tokens with
      | error e =>
        rw [hus] at h
        cases h
      | ok us =>
        rw [hus] at h
        cases h
        exact .inr ⟨hkind, us, rfl, rfl⟩

theorem tokens_of_next {cur : Cursor} {t : Token} {us : List Token} (ht : cur.next.1 = .ok t)
    (hkind : t.kind ≠ .eof) (hus : cur.next.2.tokens = .ok us) : cur.tokens = .ok (t :: us) := by
  rw [tokens_eq, ht]
  dsimp only
  rw [if_neg hkind, hus]
  rfl

theorem tokens_of_end {cur : Cursor} {t : Token} (ht : cur.next.1 = .ok t) (hkind : t.kind = .eof) :
    cur.tokens = .ok [t] := by
  rw [tokens_eq, ht]
  exact if_pos hkind

/-- **The same text gives the same tokens**, up to where they stand. -/
theorem Alike.tokens {cur cur' : Cursor} (h : cur.Alike cur') {ts : List Token}
    (hts : cur.tokens = .ok ts) :
    ∃ us, cur'.tokens = .ok us ∧ List.Forall₂ Token.Alike ts us := by
  -- by induction on the tokens, each of which leaves the cursors with the same text again
  induction ts generalizing cur cur' with
  | nil =>
    obtain ⟨t, -, ⟨-, hnil⟩ | ⟨-, us, -, hnil⟩⟩ := tokens_cases hts
    · cases hnil
    · cases hnil
  | cons t ts ih =>
    obtain ⟨t', ht, ⟨hkind, hcons⟩ | ⟨hkind, us, hus, hcons⟩⟩ := tokens_cases hts
    · cases hcons
      obtain ⟨u, hu, htu, -⟩ := h.next ht
      exact ⟨[u], tokens_of_end hu (htu.1 ▸ hkind), .cons htu .nil⟩
    · cases hcons
      obtain ⟨u, hu, htu, hnext⟩ := h.next ht
      obtain ⟨us', hus', halike⟩ := ih hnext hus
      exact ⟨u :: us', tokens_of_next hu (htu.1 ▸ hkind) hus', .cons htu halike⟩

/-- **The tokens before the seam** are those of the first text, with a semicolon for the end. -/
theorem tokens_append_semicolon {cur : Cursor} {ts : List Token} {last : Token}
    (h : cur.tokens = .ok (ts ++ [last])) (ds : List Char) :
    ∃ p q, ∀ us, tokens ⟨ds, q, some .semicolon⟩ = .ok us →
      (cur.append ('\n' :: ';' :: ds)).tokens = .ok (ts ++ ⟨.semicolon, ";", p⟩ :: us) := by
  induction ts generalizing cur with
  | nil =>
    obtain ⟨t, ht, ⟨hkind, -⟩ | ⟨-, us, hus, hcons⟩⟩ := tokens_cases h
    · obtain ⟨p, q, hnext⟩ := next_semicolon ht hkind ds
      refine ⟨p, q, fun us hus => tokens_of_next ?_ nofun ?_⟩
      · rw [hnext]
      · rw [hnext]
        exact hus
    · -- tokens that go on are not without a token
      cases hcons
      obtain ⟨t, -, ⟨-, hnil⟩ | ⟨-, us, -, hnil⟩⟩ := tokens_cases hus
      · cases hnil
      · cases hnil
  | cons t ts ih =>
    obtain ⟨t', ht, ⟨-, hcons⟩ | ⟨hkind, us, hus, hcons⟩⟩ := tokens_cases h
    · simp at hcons
    · cases hcons
      obtain ⟨p, q, hjoined⟩ := ih hus
      refine ⟨p, q, fun vs hvs => tokens_of_next ?_ hkind ?_⟩
      · rw [next_append ht hkind]
      · rw [next_append ht hkind]
        exact hjoined vs hvs

end Cursor

end Lexer

open Lexer

/-- **The tokens of joined texts**: those of the first text, a semicolon for its end, and those of
the second text, up to their positions. -/
theorem tokenize_joined {s₁ s₂ : String} {ts us : List Token} {last : Token}
    (h₁ : tokenize s₁ = .ok (ts ++ [last])) (h₂ : tokenize s₂ = .ok us) :
    ∃ p us', tokenize (s₁ ++ "\n;\n" ++ s₂) = .ok (ts ++ ⟨.semicolon, ";", p⟩ :: us') ∧
      List.Forall₂ Token.Alike us us' := by
  obtain ⟨p, q, hjoined⟩ := Cursor.tokens_append_semicolon h₁ ('\n' :: s₂.toList)
  -- the line end behind the semicolon is skipped, and neither text follows a numeral
  have halike : (Cursor.ofList s₂.toList).Alike ⟨'\n' :: s₂.toList, q, some .semicolon⟩ :=
    ⟨rfl, by simp [Cursor.ofList]⟩
  obtain ⟨us', hus', hsame⟩ := halike.tokens h₂
  refine ⟨p, us', ?_, hsame⟩
  rw [← hjoined us' hus']
  unfold tokenize Cursor.ofList Cursor.append
  simp

end AtomScript

import AtomScript.Proofs.Program.Literal
import AtomScript.Proofs.Token.Lexeme

/-!
# What readers take from the tokens

`Reads x G` says of a reader that whenever it succeeds, it has taken some tokens from the front,
none of them the end, and that these tokens and the result are related by `G`.  There is a rule for
each primitive reader and one for reading one thing after another, in which the tokens that were
taken add up.

Some readers look at the front token before they decide what to do.  `ReadsAt P x G` is the same
statement for lists whose front token satisfies `P`.

The tokens are those of a text: each is written as its kind demands (`Token.Spelled`).
-/

namespace AtomScript

/-- The token is written as its kind demands, or is the end. -/
def Token.Spelled (t : Token) : Prop :=
  t.kind ≠ .eof → Lexer.Lexeme t.kind t.written

namespace Parser

variable {α β : Type}

/-- The token at the front; behind the last token there are only ends. -/
def front (ts : List Token) : Token := ts.headD (.endOfInput .nowhere)

/-- When the reader succeeds on tokens of which the first satisfies `P`, it has taken some of them,
which `G` relates to its result. -/
def ReadsAt (P : Token → Prop) (x : Parser α) (G : List Token → α → Prop) : Prop :=
  ∀ ts a rest, P (front ts) → (∀ t ∈ ts, t.Spelled) → x ts = .done a rest →
    ∃ used, ts = used ++ rest ∧ (∀ t ∈ used, t.kind ≠ .eof) ∧ G used a

/-- When the reader succeeds, it has taken some tokens, which `G` relates to its result. -/
def Reads (x : Parser α) (G : List Token → α → Prop) : Prop := ReadsAt (fun _ => True) x G

variable {P : Token → Prop} {x : Parser α} {f : α → Parser β} {F : List Token → α → Prop}
  {G : List Token → β → Prop}

/-- What is read at every token is read at the tokens a guard selects. -/
theorem Reads.at (h : Reads x F) : ReadsAt P x F :=
  fun ts a rest _ hts hx => h ts a rest trivial hts hx

/-- What is read has every weaker form too. -/
theorem ReadsAt.imp {F' : List Token → α → Prop} (h : ReadsAt P x F)
    (himp : ∀ us a, F us a → F' us a) : ReadsAt P x F' := by
  intro ts a rest hP hts hx
  obtain ⟨used, happend, hused, hF⟩ := h ts a rest hP hts hx
  exact ⟨used, happend, hused, himp used a hF⟩

/-! ### Putting readers together -/

/-- Giving a value reads nothing. -/
theorem readsAt_pure {a : α} (h : F [] a) : ReadsAt P (pure a) F := by
  intro ts b rest _ _ hx
  cases hx
  exact ⟨[], rfl, by simp, h⟩

/-- **One after the other.**  The second reader goes on behind the tokens that the first has
taken. -/
theorem ReadsAt.bind (hx : ReadsAt P x F)
    (hf : ∀ us a, F us a → Reads (f a) fun vs b => G (us ++ vs) b) : ReadsAt P (x >>= f) G := by
  intro ts b rest hP hts h
  obtain ⟨a, mid, hxa, hfb⟩ := exists_of_bind h
  obtain ⟨us, rfl, hus, hF⟩ := hx ts a mid hP hts hxa
  obtain ⟨vs, rfl, hvs, hG⟩ := hf us a hF mid b rest trivial
    (fun t ht => hts t (List.mem_append_right us ht)) hfb
  exact ⟨us ++ vs, (List.append_assoc _ _ _).symm, List.forall_mem_append.2 ⟨hus, hvs⟩, hG⟩

/-- What fails reads nothing. -/
theorem readsAt_fail {e : Error} : ReadsAt P (fail e) F := by
  intro ts a rest _ _ hx
  cases hx

/-- What is exhausted reads nothing. -/
theorem readsAt_exhausted : ReadsAt P exhausted F := by
  intro ts a rest _ _ hx
  cases hx

/-- What refuses reads nothing. -/
theorem readsAt_refuse {wanted : Expectation} : ReadsAt P (refuse wanted) F := by
  intro ts a rest _ _ hx
  cases hx

/-! ### The front token -/

/-- Looking at the next token reads nothing and fixes what it is. -/
theorem reads_peek_bind {g : Token → Parser β} (h : ∀ t, ReadsAt (· = t) (g t) G) :
    Reads (peek >>= g) G :=
  fun ts b rest _ hts hx => h (front ts) ts b rest rfl hts hx

/-- Looking at the kind of the next token reads nothing and fixes what it is. -/
theorem reads_peekKind_bind {g : TokenKind → Parser β} (h : ∀ t, ReadsAt (· = t) (g t.kind) G) :
    Reads (peekKind >>= g) G :=
  fun ts b rest _ hts hx => h (front ts) ts b rest rfl hts hx

/-- A front token other than the end is there. -/
theorem eq_cons_of_front {ts : List Token} {t : Token} (h : front ts = t) (ht : t.kind ≠ .eof) :
    ∃ rest, ts = t :: rest := by
  cases ts with
  | nil => exact absurd (h ▸ rfl) ht
  | cons u us => exact ⟨us, by rw [show u = t from h]⟩

/-- Advancing reads the next token, which is a lexeme of its kind. -/
theorem readsAt_advance {t : Token} (ht : t.kind ≠ .eof) :
    ReadsAt (· = t) advance fun us u => us = [t] ∧ u = t ∧ Lexer.Lexeme t.kind t.written := by
  intro ts u rest hfront hts hx
  obtain ⟨us, rfl⟩ := eq_cons_of_front hfront ht
  cases hx
  exact ⟨[t], rfl, by simpa using ht, rfl, rfl, hts t List.mem_cons_self ht⟩

/-- Accepting a kind reads a token of it, or nothing. -/
theorem reads_accept {kind : TokenKind} (hkind : kind ≠ .eof) :
    Reads (accept kind) fun us b =>
      (∃ t : Token, t.kind = kind ∧ us = [t] ∧ b = true) ∨ (us = [] ∧ b = false) := by
  refine reads_peekKind_bind fun t => ?_
  by_cases ht : t.kind = kind
  · rw [if_pos ht]
    refine (readsAt_advance (ht ▸ hkind)).bind ?_
    rintro us u ⟨rfl, rfl, -⟩
    exact readsAt_pure (.inl ⟨u, ht, rfl, rfl⟩)
  · rw [if_neg ht]
    exact readsAt_pure (.inr ⟨rfl, rfl⟩)

/-- What follows depends on whether the front token was taken. -/
theorem reads_accept_bind {kind : TokenKind} {g : Bool → Parser β} (hkind : kind ≠ .eof)
    (htrue : ∀ t : Token, t.kind = kind → Reads (g true) fun us b => G (t :: us) b)
    (hfalse : Reads (g false) G) : Reads (accept kind >>= g) G := by
  refine ReadsAt.bind (reads_accept hkind) fun us b h => ?_
  rcases h with ⟨t, ht, rfl, rfl⟩ | ⟨rfl, rfl⟩
  · exact htrue t ht
  · exact hfalse

/-- Demanding a kind reads a token of it. -/
theorem reads_expect {wanted : Expectation} {kind : TokenKind} (hwanted : wanted.kind? = some kind)
    (hkind : kind ≠ .eof) : Reads (expect wanted) fun us t => us = [t] ∧ t.kind = kind := by
  refine reads_peekKind_bind fun t => ?_
  by_cases ht : some t.kind = wanted.kind?
  · rw [if_pos ht]
    rw [hwanted, Option.some.injEq] at ht
    refine (readsAt_advance (ht ▸ hkind)).imp ?_
    rintro us u ⟨rfl, rfl, -⟩
    exact ⟨rfl, ht⟩
  · rw [if_neg ht]
    exact readsAt_refuse

/-- Demanding a kind before going on reads its token first. -/
theorem reads_expect_bind {wanted : Expectation} {kind : TokenKind} {g : Token → Parser β}
    (hwanted : wanted.kind? = some kind) (hkind : kind ≠ .eof)
    (h : ∀ t : Token, t.kind = kind → Reads (g t) fun us b => G (t :: us) b) :
    Reads (expect wanted >>= g) G := by
  refine ReadsAt.bind (reads_expect hwanted hkind) ?_
  rintro us t ⟨rfl, ht⟩
  exact h t ht

/-- The front token has been looked at, and is now taken. -/
theorem readsAt_advance_bind {t : Token} {g : Token → Parser β} (ht : t.kind ≠ .eof)
    (h : Lexer.Lexeme t.kind t.written → Reads (g t) fun us b => G (t :: us) b) :
    ReadsAt (· = t) (advance >>= g) G := by
  refine (readsAt_advance ht).bind ?_
  rintro us u ⟨rfl, rfl, hlexeme⟩
  exact h hlexeme

/-! ### Separators and tokens of their own -/

/-- The tokens behind the semicolons at the front. -/
def behindSeparators (ts : List Token) : List Token := ts.dropWhile (·.kind == .semicolon)

/-- Skipping separators reads separators only. -/
theorem reads_skipSeparators :
    Reads skipSeparators fun us _ => ∀ t ∈ us, t.kind = .semicolon := by
  intro ts a rest _ _ hx
  cases hx
  -- what `takeWhile` takes are separators, and what it leaves is the rest
  have hsemicolons : ∀ t ∈ ts.takeWhile (·.kind == .semicolon), t.kind = .semicolon := by
    intro t ht
    have hkind := List.mem_takeWhile_imp ht
    exact eq_of_beq hkind
  refine ⟨_, (List.takeWhile_append_dropWhile ..).symm, fun t ht => ?_, hsemicolons⟩
  rw [hsemicolons t ht]
  decide

/-- The tokens at hand are left alone. -/
theorem exists_of_within {own ts rest : List Token} {a : α}
    (h : within own x ts = .done a rest) : rest = ts ∧ ∃ left, x own = .done a left := by
  unfold within at h
  cases hx : x own with
  | done b left =>
    rw [hx] at h
    cases h
    exact ⟨rfl, left, rfl⟩
  | refused e =>
    rw [hx] at h
    cases h
  | exhausted =>
    rw [hx] at h
    cases h
  | overflowed =>
    rw [hx] at h
    cases h

/-- A parse of tokens of its own reads none of the tokens around it. -/
theorem reads_within {own : List Token} :
    Reads (within own x) fun us a => us = [] ∧ ∃ rest, x own = .done a rest := by
  intro ts a rest _ _ h
  obtain ⟨rfl, hown⟩ := exists_of_within h
  exact ⟨[], rfl, by simp, rfl, hown⟩

end Parser

end AtomScript

import AtomScript.Proofs.Program.HostStack

/-!
# Reading comes to an end

The end token stays at the end of the queue: a reader looks at it, and never takes it.  So the loops
of the grammar, each round of which takes a token, come to an end, and so do the texts inside
strings, which are shorter than the text around them.

`Parser.Minds m x ts` follows a reader through the queues that it has on its way, in a text of
length `m`, and into the texts in its markers.  A reader `Walks d` if it does so on every queue and
a success takes `d` tokens at least; there is a rule for each primitive reader and one for reading
one thing after another.

* `Lexer.Cursor.next_advances` — a token moves the lexer on;
* `Parser.walks` — the readers, by induction on the budget;
* `Parser.ends` — no reader needs more than some budget;
* `Program.parse_ends` — every text is read or refused, with enough of the host's stack.
-/

namespace AtomScript

open Template

/-- A token moves the lexer on, over the gap in front of it and over its lexeme. -/
theorem Lexer.Cursor.next_advances {cur : Cursor} {t : Token} (h : cur.next.1 = .ok t)
    (ht : t.kind ≠ .eof) :
    ∃ gap lexeme, lexeme ≠ [] ∧ cur.rest = gap ++ lexeme ++ cur.next.2.rest ∧
      cur.next.2.position = cur.position.advanceBy (gap ++ lexeme) := by
  rcases front_of_next h with ⟨heof, -⟩ | ⟨-, lexeme, rest, hfront⟩
  · exact absurd heof ht
  · refine ⟨(splitTrivia false cur.rest).1, lexeme, front_token_ne_nil hfront, ?_, ?_⟩
    · rw [next_of_front hfront, List.append_assoc, front_token_append hfront, splitTrivia_append]
    · rw [next_of_front hfront, Position.advanceBy_append]

namespace Parser

variable {α β : Type}

/-! ### Queues -/

/-- The end token is the last one of the tokens, and no other. -/
inductive Queue : List Token → Prop where
  | last {t : Token} : t.kind = .eof → Queue [t]
  | cons {t : Token} {ts : List Token} : t.kind ≠ .eof → Queue ts → Queue (t :: ts)

variable {m n d : Nat} {t : Token} {ts us : List Token} {x : Parser α} {f : α → Parser β}

/-- A queue is what comes in front of the one end token, and that token. -/
theorem queue_iff :
    Queue ts ↔ ∃ inner last, ts = inner ++ [last] ∧ last.kind = .eof ∧
      ∀ t ∈ inner, t.kind ≠ .eof := by
  constructor
  · intro h
    -- along the queue, from its end
    induction h with
    | @last t ht => exact ⟨[], t, rfl, ht, nofun⟩
    | @cons t ts ht _ ih =>
      obtain ⟨inner, last, rfl, hlast, hinner⟩ := ih
      exact ⟨t :: inner, last, rfl, hlast, List.forall_mem_cons.2 ⟨ht, hinner⟩⟩
  · rintro ⟨inner, last, rfl, hlast, hinner⟩
    induction inner with
    | nil => exact .last hlast
    | cons t inner ih =>
      obtain ⟨ht, hinner⟩ := List.forall_mem_cons.1 hinner
      exact .cons ht (ih hinner)

/-- Taking a token that is not the end token leaves a queue. -/
theorem Queue.tail (h : Queue (t :: ts)) (ht : t.kind ≠ .eof) : Queue ts := by
  cases h with
  | last heof => exact absurd heof ht
  | cons _ hts => exact hts

/-! ### The way of a reader -/

/-- In a text of length `m`, the reader goes through queues only: it takes no end token, and what it
reads apart is the tokens of a shorter text. -/
inductive Minds : Nat → {α : Type} → Parser α → List Token → Prop where
  | pure {m : Nat} {α : Type} {a : α} {ts : List Token} : Queue ts → Minds m (pure a) ts
  | fail {m : Nat} {α : Type} {e : Error} {ts : List Token} : Queue ts →
    Minds m (fail e : Parser α) ts
  | exhausted {m : Nat} {α : Type} {ts : List Token} : Queue ts →
    Minds m (exhausted : Parser α) ts
  | peek {m : Nat} {ts : List Token} : Queue ts → Minds m peek ts
  | peekSecondKind {m : Nat} {ts : List Token} : Queue ts → Minds m peekSecondKind ts
  | advance {m : Nat} {t : Token} {ts : List Token} : t.kind ≠ .eof → Queue (t :: ts) →
    Minds m advance (t :: ts)
  | within {m : Nat} {α : Type} {x : Parser α} {text : String} {own ts : List Token} :
    tokenize text = .ok own → text.length < m → Minds text.length x own → Queue ts →
    Minds m (within own x) ts
  | bind {m : Nat} {α β : Type} {x : Parser α} {f : α → Parser β} {ts : List Token} :
    Minds m x ts → (∀ a rest, x ts = .done a rest → Minds m (f a) rest) → Minds m (x >>= f) ts

/-- What such a reader leaves is a queue, too. -/
theorem Minds.queue_rest (h : Minds m x ts) {a : α} (hx : x ts = .done a us) :
    Queue us ∧ us <:+ ts := by
  induction h generalizing us with
  | pure hts | peek hts | peekSecondKind hts =>
    cases hx
    exact ⟨hts, List.suffix_refl _⟩
  | fail | exhausted => cases hx
  | advance ht hts =>
    cases hx
    -- the token that is taken is not the last one, so a queue is left
    exact ⟨hts.tail ht, List.suffix_cons _ _⟩
  | @within m α x text own ts _ _ _ hts =>
    unfold Parser.within at hx
    cases hown : x own with
    | done b rest' =>
      rw [hown] at hx
      cases hx
      exact ⟨hts, List.suffix_refl _⟩
    | refused e =>
      rw [hown] at hx
      cases hx
    | exhausted =>
      rw [hown] at hx
      cases hx
    | overflowed =>
      rw [hown] at hx
      cases hx
  | bind _ _ ihx ihf =>
    obtain ⟨b, mid, hmid, hrest⟩ := exists_of_bind hx
    obtain ⟨-, hsuffix⟩ := ihx hmid
    obtain ⟨hqueue, hsuffix'⟩ := ihf b mid hmid hrest
    exact ⟨hqueue, hsuffix'.trans hsuffix⟩

/-- No reader that takes the last token is among them. -/
theorem not_minds_advance : ¬ Minds m advance [t] := by
  intro h
  -- behind the last token there is no queue
  obtain ⟨hqueue, -⟩ := h.queue_rest (a := t) rfl
  cases hqueue

/-! ### Readers that go through queues -/

/-- A queue in a text of length `m`: its strings are shorter. -/
structure Laden (m : Nat) (ts : List Token) : Prop where
  queue : Queue ts
  strings : ∀ t ∈ ts, t.kind = .string → t.text.length < m

/-- What is left of a queue holds strings of the same text. -/
theorem Laden.of_suffix (h : Laden m ts) (hrest : us <:+ ts) (hqueue : Queue us) :
    Laden m us :=
  ⟨hqueue, fun t ht => h.strings t (hrest.subset ht)⟩

/-- The reader goes through queues only, and a success takes `d` tokens at least. -/
structure WalksOn (m d : Nat) (x : Parser α) (ts : List Token) : Prop where
  minds : Minds m x ts
  takes : ∀ a rest, x ts = .done a rest → rest.length + d ≤ ts.length

/-- The reader does so on every queue whose first token satisfies `P`. -/
def WalksAt (P : Token → Prop) (d : Nat) (x : Parser α) : Prop :=
  ∀ m ts, Laden m ts → P (front ts) → WalksOn m d x ts

/-- The reader does so on every queue. -/
def Walks (d : Nat) (x : Parser α) : Prop := WalksAt (fun _ => True) d x

variable {P : Token → Prop} {wanted : Expectation} {kind : TokenKind}

/-- What holds of all queues holds of those with a certain token in front. -/
theorem Walks.at (h : Walks d x) : WalksAt P d x :=
  fun m ts hts _ => h m ts hts trivial

/-- What is left is never more. -/
theorem WalksOn.of_minds (h : Minds m x ts) : WalksOn m 0 x ts where
  minds := h
  takes _ _ hdone := (h.queue_rest hdone).2.length_le

/-- A result takes nothing. -/
theorem walksAt_pure {a : α} : WalksAt P 0 (pure a) :=
  fun _ _ hts _ => .of_minds (.pure hts.queue)

/-- A refusal leaves no queue, so as much may be said to be taken as one likes. -/
theorem walksAt_fail {e : Error} : WalksAt P d (fail e : Parser α) :=
  fun _ _ hts _ => ⟨.fail hts.queue, nofun⟩

/-- The same is true where the budget has run out. -/
theorem walks_exhausted : Walks d (exhausted : Parser α) :=
  fun _ _ hts _ => ⟨.exhausted hts.queue, nofun⟩

/-- The refusal names the token in front, for which it looks at it. -/
theorem minds_refuse (hts : Queue ts) : Minds m (refuse wanted : Parser α) ts := by
  refine .bind (.peek hts) fun t rest ht => ?_
  cases ht
  exact .fail hts

/-- A refusal after a look at the front token. -/
theorem walksAt_refuse : WalksAt P d (refuse wanted : Parser α) :=
  fun _ _ hts _ => ⟨minds_refuse hts.queue, nofun⟩

/-- **One after the other.** -/
theorem WalksAt.bind {e : Nat} (hx : WalksAt P d x) (hf : ∀ a, Walks (e - d) (f a)) :
    WalksAt P e (x >>= f) := by
  intro m ts hts hP
  have hwalks := hx m ts hts hP
  -- what the first reader leaves is a queue in the same text
  have hnext : ∀ a mid, x ts = .done a mid → WalksOn m (e - d) (f a) mid := by
    intro a mid hmid
    obtain ⟨hqueue, hsuffix⟩ := hwalks.minds.queue_rest hmid
    exact hf a m mid (hts.of_suffix hsuffix hqueue) trivial
  refine ⟨.bind hwalks.minds fun a mid ha => (hnext a mid ha).minds, ?_⟩
  intro b rest hb
  obtain ⟨a, mid, ha, hrest⟩ := exists_of_bind hb
  have hle := hwalks.takes a mid ha
  have hle' := (hnext a mid ha).takes b rest hrest
  omega

/-- A first reader of which it is known what it does. -/
theorem WalksOn.bind {a : α} {e : Nat} (hx : Minds m x ts) (ha : x ts = .done a us)
    (htaken : ts.length = us.length + e) (hf : WalksOn m (d - e) (f a) us) :
    WalksOn m d (x >>= f) ts where
  minds := .bind hx fun b mid hb => by
    cases ha.symm.trans hb
    exact hf.minds
  takes b rest hb := by
    rw [bind_of_done ha] at hb
    have hle := hf.takes b rest hb
    omega

/-- A look at the front token: what follows knows which one it is. -/
theorem walks_peek_bind {g : Token → Parser β} (h : ∀ t, WalksAt (· = t) d (g t)) :
    Walks d (peek >>= g) :=
  fun m ts hts _ => .bind (e := 0) (.peek hts.queue) rfl rfl (h (front ts) m ts hts rfl)

/-- A look at the kind of the front token. -/
theorem minds_peekKind (hts : Queue ts) : Minds m peekKind ts := by
  refine .bind (.peek hts) fun t rest ht => ?_
  cases ht
  exact .pure hts

/-- A look at its kind: what follows knows which token it is, not only the kind. -/
theorem walks_peekKind_bind {g : TokenKind → Parser β} (h : ∀ t, WalksAt (· = t) d (g t.kind)) :
    Walks d (peekKind >>= g) :=
  fun m ts hts _ => .bind (e := 0) (minds_peekKind hts.queue) rfl rfl (h (front ts) m ts hts rfl)

/-- A queue has more than a token in front that is no end token. -/
theorem Laden.exists_cons (h : Laden m ts) (hts : (front ts).kind ≠ .eof) :
    ∃ us, ts = front ts :: us ∧ Laden m us := by
  obtain ⟨us, hus⟩ := eq_cons_of_front rfl hts
  rw [hus] at h
  exact ⟨us, hus, h.of_suffix (List.suffix_cons _ us) (h.queue.tail hts)⟩

/-- The front token has been looked at, and is now taken. -/
theorem walksAt_advance_bind {g : Token → Parser β} (ht : t.kind ≠ .eof)
    (h : Walks (d - 1) (g t)) : WalksAt (· = t) d (advance >>= g) := by
  rintro m ts hts rfl
  obtain ⟨us, hcons, hus⟩ := hts.exists_cons ht
  rw [hcons] at hts ⊢
  exact .bind (.advance ht hts.queue) rfl rfl (h m us hus trivial)

/-- A token that is taken if it is of the kind is no end token, for the kind is another one. -/
theorem minds_accept (hkind : kind ≠ .eof) (hts : Queue ts) : Minds m (accept kind) ts := by
  unfold accept
  -- a token of the kind is no end token, and is taken; any other is left
  refine .bind (minds_peekKind hts) fun k rest hk => ?_
  cases hk
  split
  · next hfront =>
    have hne : (front ts).kind ≠ .eof := fun heof => hkind (hfront.symm.trans heof)
    obtain ⟨us, hcons⟩ := eq_cons_of_front rfl hne
    rw [hcons] at hts ⊢
    refine .bind (.advance hne hts) fun t rest ht => ?_
    cases ht
    exact .pure (hts.tail hne)
  · exact .pure hts

/-- What follows depends on whether the front token was taken. -/
theorem walks_accept_bind {g : Bool → Parser β} (hkind : kind ≠ .eof)
    (htrue : Walks (d - 1) (g true)) (hfalse : Walks d (g false)) :
    Walks d (accept kind >>= g) := by
  intro m ts hts _
  have haccept : Minds m (accept kind) ts := minds_accept hkind hts.queue
  by_cases hfront : (front ts).kind = kind
  · obtain ⟨us, hcons, hus⟩ := hts.exists_cons (hfront ▸ hkind)
    rw [hcons] at haccept ⊢
    exact .bind haccept (accept_of_eq hfront) rfl (htrue m us hus trivial)
  · exact .bind (e := 0) haccept (accept_of_ne hfront) rfl (hfalse m ts hts trivial)

/-- Nor is a token that has been expected: no expectation is met by the end token. -/
theorem minds_expect (hts : Queue ts) : Minds m (expect wanted) ts := by
  unfold expect
  refine .bind (minds_peekKind hts) fun k rest hk => ?_
  cases hk
  split
  · next hfront =>
    have hne : (front ts).kind ≠ .eof := fun heof =>
      Expectation.kind?_ne_eof wanted (hfront.symm.trans (congrArg some heof))
    obtain ⟨us, hcons⟩ := eq_cons_of_front rfl hne
    rw [hcons] at hts ⊢
    exact .advance hne hts
  · exact minds_refuse hts

/-- A token that must be there is taken, or there is no success. -/
theorem walks_expect_bind {g : Token → Parser β} (h : ∀ t, Walks (d - 1) (g t)) :
    Walks d (expect wanted >>= g) := by
  intro m ts hts _
  have hexpect : Minds m (expect wanted) ts := minds_expect hts.queue
  by_cases hfront : some (front ts).kind = wanted.kind?
  · have hne : (front ts).kind ≠ .eof := fun heof =>
      Expectation.kind?_ne_eof wanted (hfront.symm.trans (congrArg some heof))
    obtain ⟨us, hcons, hus⟩ := hts.exists_cons hne
    -- the expected token is in front, and is taken
    rw [hcons] at hexpect ⊢
    exact .bind hexpect (expect_of_eq hfront) rfl (h _ m us hus trivial)
  · have hrefused : ∀ a rest, expect wanted ts ≠ .done a rest := by
      rw [expect_of_ne hfront]
      exact nofun
    refine ⟨.bind hexpect fun a rest ha => absurd ha (hrefused a rest), fun b rest hb => ?_⟩
    obtain ⟨a, mid, ha, -⟩ := exists_of_bind hb
    exact absurd ha (hrefused a mid)

/-! ### Readers without the grammar -/

/-- Separators are passed over one at a time. -/
theorem skipSeparators_eq :
    skipSeparators = do if ← accept .semicolon then skipSeparators else return () := by
  funext ts
  cases ts with
  | nil => rfl
  | cons t ts =>
    by_cases ht : t.kind = .semicolon
    · rw [accept_bind_of_eq ht]
      exact congrArg (Parsed.done ()) (List.dropWhile_cons_of_pos (by simpa using ht))
    · have hfront : (front (t :: ts)).kind ≠ .semicolon := ht
      rw [accept_bind_of_ne hfront]
      exact congrArg (Parsed.done ()) (List.dropWhile_cons_of_neg (by simpa using ht))

/-- Passing over separators, by induction on the queue. -/
theorem walks_skipSeparators : Walks 0 skipSeparators := by
  intro m ts hts _
  refine .of_minds ?_
  have hqueue := hts.queue
  clear hts
  -- a separator is not the last token, so after it there is a queue again
  induction hqueue with
  | @last t ht =>
    have hne : (front [t]).kind ≠ .semicolon := by
      change t.kind ≠ _
      rw [ht]
      nofun
    rw [skipSeparators_eq]
    refine .bind (minds_accept nofun (.last ht)) fun took rest htook => ?_
    rw [accept_of_ne hne] at htook
    cases htook
    exact .pure (.last ht)
  | @cons t ts ht hts ih =>
    rw [skipSeparators_eq]
    refine .bind (minds_accept nofun (.cons ht hts)) fun took rest htook => ?_
    by_cases hsemicolon : t.kind = .semicolon
    · rw [accept_of_eq hsemicolon] at htook
      cases htook
      exact ih
    · have hfront : (front (t :: ts)).kind ≠ .semicolon := hsemicolon
      rw [accept_of_ne hfront] at htook
      cases htook
      exact .pure (.cons ht hts)

/-- Names are taken one at a time. -/
theorem parameters_eq {close : TokenKind} (hclose : close ≠ .eof) :
    parameters close = (do
      let t ← peek
      if t.kind = close then return []
      else if t.kind = .identifier then
        let name ← advance
        if ← accept .comma then return name.text :: (← parameters close)
        else return [name.text]
      else fail (.unexpected .parameter t)) := by
  funext ts
  cases ts with
  -- at the end of the tokens `peek` answers with an end of input, which never closes a list
  | nil =>
    change _ = (if TokenKind.eof = close then _ else _ : Parser (List String)) []
    rw [if_neg hclose.symm]
    rfl
  | cons t ts =>
    change _ = (if t.kind = close then _ else if t.kind = .identifier then _ else _ :
      Parser (List String)) (t :: ts)
    by_cases ht : t.kind = close
    · rw [if_pos ht]
      unfold parameters
      exact if_pos ht
    · rw [if_neg ht]
      by_cases hname : t.kind = .identifier
      · rw [if_pos hname]
        -- a name without a comma behind it is the last one, whether or not tokens are left
        cases ts with
        | nil =>
          unfold parameters
          rw [if_neg ht, if_pos hname]
          rfl
        | cons u us =>
          rw [advance_bind]
          by_cases hcomma : u.kind = .comma
          · rw [accept_bind_of_eq hcomma, parameters, if_neg ht, if_pos hname, if_pos hcomma]
            change _ = Parser.bind (parameters close) _ us
            unfold Parser.bind
            cases parameters close us <;> rfl
          · have hfront : (front (u :: us)).kind ≠ .comma := hcomma
            rw [accept_bind_of_ne hfront]
            unfold parameters
            dsimp only
            rw [if_neg ht, if_pos hname, if_neg hcomma]
            rfl
      · rw [if_neg hname]
        unfold parameters
        rw [if_neg ht, if_neg hname]
        rfl

/-- The names of parameters are read up to the closing token, which is left. -/
theorem minds_parameters {close : TokenKind} (hclose : close ≠ .eof) (hts : Queue ts) :
    Minds m (parameters close) ts := by
  -- by strong induction on the queue, of which two tokens are taken before the next name
  induction hlength : ts.length using Nat.strongRecOn generalizing ts with
  | ind length ih =>
    rw [parameters_eq hclose]
    refine .bind (.peek hts) fun t rest ht => ?_
    cases ht
    split
    · exact .pure hts
    · split
      · next hname =>
        have hne : (front ts).kind ≠ .eof := fun heof => nomatch hname.symm.trans heof
        obtain ⟨us, hcons⟩ := eq_cons_of_front rfl hne
        rw [hcons] at hts hlength ⊢
        have hus : Queue us := hts.tail hne
        refine .bind (.advance hne hts) fun name rest hname => ?_
        cases hname
        have haccept : Minds m (accept .comma) us := minds_accept nofun hus
        refine .bind haccept fun took rest htook => ?_
        obtain ⟨hrest, hsuffix⟩ := haccept.queue_rest htook
        have hle := hsuffix.length_le
        split
        · have hlt : rest.length < length := by
            rw [← hlength, List.length_cons]
            omega
          have hmore : Minds m (parameters close) rest := ih rest.length hlt hrest rfl
          exact .bind hmore fun names left hnames => .pure (hmore.queue_rest hnames).1
        · exact .pure hrest
      · exact .fail hts

/-- There may be no names at all. -/
theorem walks_parameters {close : TokenKind} (hclose : close ≠ .eof) :
    Walks 0 (parameters close) :=
  fun _ _ hts _ => .of_minds (minds_parameters hclose hts.queue)

/-- Telling the operator from a token that is in hand takes nothing. -/
theorem walks_operator (t : Token) : Walks 0 (operator t) := by
  unfold operator
  split
  · exact walksAt_pure
  · exact walksAt_fail

/-! ### Texts of their own -/

/-- Decoding an escape makes one character of two. -/
theorem length_unescape_le (text : String) : (unescape text).length ≤ text.length := by
  unfold unescape
  rw [String.length_ofList, ← String.length_toList]
  exact length_unescapeList_le text.toList

/-- What a marker encloses is shorter than the string. -/
theorem length_lt_of_markers? {body inner : String} {inners : List String}
    (h : markers? body = some inners) (hinner : inner ∈ inners) : inner.length < body.length := by
  -- a marker takes three characters more than what it encloses
  have hweight := markerWeight_le h
  have hle : inner.length + 3 ≤ markerWeight inners :=
    List.le_sum_of_mem (List.mem_map_of_mem hinner)
  omega

/-- A string is shorter than the text that it stands in. -/
theorem laden_of_tokenize {source : String} (h : tokenize source = .ok ts) :
    Laden source.length ts := by
  -- the tokens that have been read are no end tokens; the one at the end is
  obtain ⟨read, gap, rfl, hlaid, -⟩ := (tokenize_laid source).1 ts h
  have hne : ∀ t ∈ read, t.kind ≠ .eof := fun t ht => (hlaid.lexeme_of_mem t ht).kind_ne_eof
  refine ⟨queue_iff.2 ⟨read, _, rfl, rfl, hne⟩, fun t ht hstring => ?_⟩
  have hmem : t ∈ read := by
    rcases List.mem_append.1 ht with ht | ht
    · exact ht
    · rw [List.mem_singleton.1 ht] at hstring
      exact nomatch hstring
  have hweight : tokenWeight t = t.text.length + 1 := if_pos hstring
  have hle : tokenWeight t ≤ weight read := List.le_sum_of_mem (List.mem_map_of_mem hmem)
  have htotal := weight_le_of_laid hlaid
  rw [String.length_toList] at htotal
  omega

/-! ### The readers of the grammar -/

/-- Each reader goes through queues, and takes the given number of tokens at least. -/
structure Walking (n : Nat) : Prop where
  statement : Walks 1 (statement n)
  block : ∀ inConditional, Walks 0 (block n inConditional)
  clauses : Walks 1 (clauses n)
  expression : Walks 1 (expression n)
  matching : Walks 1 (matching n none)
  declaration : ∀ t, t.kind = .keyword .letWord → WalksAt (· = t) 1 (declaration n none)
  operators : ∀ level, Walks 1 (operators n level)
  operand : ∀ level, Walks 1 (operand n level)
  operations : ∀ level left, Walks 0 (operations n level left)
  negation : Walks 1 (negation n)
  unary : Walks 1 (unary n)
  suffixes : ∀ e, Walks 0 (suffixes n e)
  sequence : ∀ close, Walks 0 (sequence n close)
  entries : Walks 0 (entries n)
  mapKey : Walks 1 (mapKey n)
  primary : Walks 1 (primary n)
  /-- The markers belong to a string of the text. -/
  holes : ∀ m p inners ts, Laden m ts → (∀ inner ∈ inners, inner.length < m) →
    Minds m (holes n p inners) ts
  statements : Walks 0 (statements n)

/-- A statement: its kind is decided by the front token, which is taken if it is a keyword. -/
theorem Walking.succ_statement (ih : Walking n) : Walks 1 (Parser.statement (n + 1)) := by
  unfold Parser.statement
  refine walks_peekKind_bind fun t => ?_
  -- one case for each keyword that a statement starts with, and one for the others
  split
  · next ht =>
    refine walksAt_advance_bind (by rw [ht]; decide) ?_
    refine WalksAt.bind ih.expression fun c => walks_expect_bind fun _ => ?_
    refine WalksAt.bind (ih.block true) fun body => ?_
    exact WalksAt.bind ih.clauses fun _ => walksAt_pure
  · next ht =>
    refine walksAt_advance_bind (by rw [ht]; decide) ?_
    refine walks_expect_bind fun name => walks_expect_bind fun _ => ?_
    refine WalksAt.bind (walks_parameters (by decide)) fun params => ?_
    refine walks_expect_bind fun _ => walks_expect_bind fun _ => ?_
    refine WalksAt.bind (ih.block false) fun body => ?_
    exact walks_expect_bind fun _ => walksAt_pure
  · next ht =>
    refine walksAt_advance_bind (by rw [ht]; decide) ?_
    refine walks_peekKind_bind fun u => ?_
    split
    · exact walksAt_pure
    · exact WalksAt.bind ih.expression.at fun _ => walksAt_pure
  · next ht =>
    refine walksAt_advance_bind (by rw [ht]; decide) ?_
    refine WalksAt.bind ih.expression fun c => walks_expect_bind fun _ => ?_
    refine WalksAt.bind (ih.block false) fun body => ?_
    exact walks_expect_bind fun _ => walksAt_pure
  · next ht => exact walksAt_advance_bind (by rw [ht]; decide) walksAt_pure
  · next ht => exact walksAt_advance_bind (by rw [ht]; decide) walksAt_pure
  · exact WalksAt.bind ih.expression.at fun _ => walksAt_pure

/-- A block takes nothing if its end is in front; the keyword of the end is left. -/
theorem Walking.succ_block (ih : Walking n) (inConditional : Bool) :
    Walks 0 (Parser.block (n + 1) inConditional) := by
  unfold Parser.block
  refine WalksAt.bind walks_skipSeparators fun _ => walks_peekKind_bind fun t => ?_
  split
  · exact walksAt_pure
  · split
    · exact walksAt_refuse
    · refine WalksAt.bind ih.statement.at fun first => ?_
      exact WalksAt.bind (ih.block inConditional) fun _ => walksAt_pure

/-- The statements of a text: the end token is looked at, and left. -/
theorem Walking.succ_statements (ih : Walking n) : Walks 0 (Parser.statements (n + 1)) := by
  unfold Parser.statements
  refine WalksAt.bind walks_skipSeparators fun _ => walks_peekKind_bind fun t => ?_
  split
  · exact walksAt_pure
  · refine WalksAt.bind ih.statement.at fun first => ?_
    exact WalksAt.bind ih.statements fun _ => walksAt_pure

/-- What comes after the block of an `if`: one of three keywords is taken in any case. -/
theorem Walking.succ_clauses (ih : Walking n) : Walks 1 (Parser.clauses (n + 1)) := by
  unfold Parser.clauses
  refine walks_accept_bind (by decide) ?_ (walks_accept_bind (by decide) ?_ ?_)
  · refine WalksAt.bind ih.expression fun c => walks_expect_bind fun _ => ?_
    refine WalksAt.bind (ih.block true) fun body => ?_
    exact WalksAt.bind ih.clauses fun _ => walksAt_pure
  · refine walks_accept_bind (by decide) ?_ ?_
    · refine WalksAt.bind (ih.block false) fun body => ?_
      exact walks_expect_bind fun _ => walksAt_pure
    · refine WalksAt.bind (ih.block false) fun body => ?_
      exact walks_expect_bind fun _ => walksAt_pure
  · exact walks_expect_bind fun _ => walksAt_pure

/-- An expression is a chain of bindings, or what has no `=` behind it. -/
theorem Walking.succ_expression (ih : Walking n) : Walks 1 (Parser.expression (n + 1)) := by
  unfold Parser.expression
  exact ih.matching

/-- Left and right of `=`: the left side takes a token, so the right side need not. -/
theorem Walking.succ_matching (ih : Walking n) : Walks 1 (Parser.matching (n + 1) none) := by
  unfold Parser.matching
  refine walks_peekKind_bind fun t => ?_
  split
  · next ht => exact ih.declaration t ht
  · refine WalksAt.bind (ih.operators .or).at fun left => ?_
    refine walks_accept_bind (by decide) ?_ walksAt_pure
    -- the right side is read by a call that is not checked, of the same reader
    exact WalksAt.bind ih.matching fun _ => walksAt_pure

/-- A `let` has been seen, and is taken. -/
theorem Walking.succ_declaration (ih : Walking n) {t : Token}
    (ht : t.kind = .keyword .letWord) :
    WalksAt (· = t) 1 (Parser.declaration (n + 1) none) := by
  unfold Parser.declaration
  refine walksAt_advance_bind (by rw [ht]; decide) ?_
  refine walks_expect_bind fun name => walks_expect_bind fun _ => ?_
  exact WalksAt.bind ih.matching fun _ => walksAt_pure

/-- A row of operands: the first one takes a token. -/
theorem Walking.succ_operators (ih : Walking n) (level : Level) :
    Walks 1 (Parser.operators (n + 1) level) := by
  unfold Parser.operators
  exact WalksAt.bind (ih.operand level) fun first => ih.operations level first

/-- An operand of a level is a row of the next one. -/
theorem Walking.succ_operand (ih : Walking n) (level : Level) :
    Walks 1 (Parser.operand (n + 1) level) := by
  unfold Parser.operand
  cases level with
  | or => exact ih.operators .and
  | and => exact ih.negation
  | comparison => exact ih.operators .sum
  | sum => exact ih.operators .product
  | product => exact ih.unary

/-- The rest of a row: an operator in front has been looked at, and is taken. -/
theorem Walking.succ_operations (ih : Walking n) (level : Level) (left : Expr) :
    Walks 0 (Parser.operations (n + 1) level left) := by
  unfold Parser.operations
  refine walks_peek_bind fun t => ?_
  split
  · next hlevel =>
    -- the token is an operator of the level, so it is no end token
    refine walksAt_advance_bind (kind_ne_eof_of_holds hlevel) ?_
    refine WalksAt.bind (walks_operator t) fun op => ?_
    exact WalksAt.bind (ih.operand level) fun right => ih.operations level _
  · exact walksAt_pure

/-- A negation takes its `not`, or is a comparison. -/
theorem Walking.succ_negation (ih : Walking n) : Walks 1 (Parser.negation (n + 1)) := by
  unfold Parser.negation
  refine walks_accept_bind (by decide) ?_ (ih.operators .comparison)
  exact WalksAt.bind ih.negation fun _ => walksAt_pure

/-- A leading minus is taken, or there is a primary. -/
theorem Walking.succ_unary (ih : Walking n) : Walks 1 (Parser.unary (n + 1)) := by
  unfold Parser.unary
  refine walks_accept_bind (by decide) ?_ ?_
  · exact WalksAt.bind ih.unary fun _ => walksAt_pure
  · exact WalksAt.bind ih.primary fun e => ih.suffixes e

/-- The suffixes of a primary; there may be none. -/
theorem Walking.succ_suffixes (ih : Walking n) (e : Expr) :
    Walks 0 (Parser.suffixes (n + 1) e) := by
  unfold Parser.suffixes
  refine walks_accept_bind (by decide) ?_ (walks_accept_bind (by decide) ?_
    (walks_accept_bind (by decide) ?_ walksAt_pure))
  · exact WalksAt.bind (ih.sequence _) fun args => walks_expect_bind fun _ => ih.suffixes _
  · exact walks_expect_bind fun _ => ih.suffixes _
  · exact WalksAt.bind ih.expression fun property => walks_expect_bind fun _ => ih.suffixes _

/-- Items between brackets, up to the closing token, which is left. -/
theorem Walking.succ_sequence (ih : Walking n) (close : TokenKind) :
    Walks 0 (Parser.sequence (n + 1) close) := by
  unfold Parser.sequence
  refine walks_peekKind_bind fun t => ?_
  split
  · exact walksAt_pure
  · refine WalksAt.bind ih.expression.at fun first => ?_
    refine walks_accept_bind (by decide) ?_ walksAt_pure
    exact WalksAt.bind (ih.sequence close) fun _ => walksAt_pure

/-- The entries of a map, up to the closing brace, which is left. -/
theorem Walking.succ_entries (ih : Walking n) : Walks 0 (Parser.entries (n + 1)) := by
  unfold Parser.entries
  refine walks_peekKind_bind fun t => ?_
  split
  · exact walksAt_pure
  · refine WalksAt.bind ih.mapKey.at fun key => ?_
    refine WalksAt.bind ih.expression fun value => ?_
    refine walks_accept_bind (by decide) ?_ walksAt_pure
    exact WalksAt.bind ih.entries fun _ => walksAt_pure

/-- The key that is a name looks at two tokens before it takes them. -/
theorem Walking.succ_mapKey (ih : Walking n) : Walks 1 (Parser.mapKey (n + 1)) := by
  unfold Parser.mapKey
  refine walks_peekKind_bind fun t => ?_
  rintro m ts hts rfl
  -- only a name with a colon behind it is taken apart; two tokens are known then
  refine .bind (e := 0) (.peekSecondKind hts.queue) rfl rfl ?_
  split
  · next hname =>
    have hfirst : (front ts).kind ≠ .eof := by
      rw [hname.1]
      decide
    obtain ⟨us, hcons, hus⟩ := hts.exists_cons hfirst
    have hcolon : (front us).kind ≠ .eof := by
      have hkind : (front ts.tail).kind = .colon := hname.2
      rw [hcons] at hkind
      have hsecond : (front us).kind = .colon := hkind
      rw [hsecond]
      decide
    obtain ⟨vs, hcons', hvs⟩ := hus.exists_cons hcolon
    rw [hcons] at hts ⊢
    refine .bind (e := 1) (.advance hfirst hts.queue) rfl rfl ?_
    rw [hcons'] at hus ⊢
    exact .bind (e := 1) (.advance hcolon hus.queue) rfl rfl (.of_minds (.pure hvs.queue))
  · refine (WalksAt.bind ih.expression fun key => ?_ : Walks 1 _) m ts hts trivial
    exact walks_expect_bind fun _ => walksAt_pure

/-- A primary takes the token that it is known by. -/
theorem Walking.succ_primary (ih : Walking n) : Walks 1 (Parser.primary (n + 1)) := by
  unfold Parser.primary
  refine walks_peekKind_bind fun t => ?_
  -- one case for each token that a primary starts with
  split
  · next ht => exact walksAt_advance_bind (by rw [ht]; decide) walksAt_pure
  · next ht => exact walksAt_advance_bind (by rw [ht]; decide) walksAt_pure
  · next ht => exact walksAt_advance_bind (by rw [ht]; decide) walksAt_pure
  · next ht =>
    -- what the markers of the string enclose is shorter than the string
    rintro m ts hts rfl
    obtain ⟨us, hcons, hus⟩ := hts.exists_cons (by rw [ht]; decide)
    have hne : (front ts).kind ≠ .eof := by rw [ht]; decide
    have hlength : (front ts).text.length < m := by
      refine hts.strings _ ?_ ht
      rw [hcons]
      exact List.mem_cons_self
    rw [hcons] at hts ⊢
    refine .bind (e := 1) (.advance hne hts.queue) rfl rfl ?_
    split
    · exact ⟨.fail hus.queue, fun _ _ h => by cases h⟩
    · next inners hinners =>
      have hshort : ∀ inner ∈ inners, inner.length < m := fun inner hinner =>
        (length_lt_of_markers? hinners hinner).trans hlength
      have hholes : Minds m (Parser.holes n (front ts).position inners) us :=
        ih.holes m _ inners us hus hshort
      refine .of_minds (.bind hholes fun filled rest hfilled => ?_)
      exact .pure (hholes.queue_rest hfilled).1
  · next ht =>
    refine walksAt_advance_bind (by rw [ht]; decide) ?_
    exact WalksAt.bind ih.expression fun e => walks_expect_bind fun _ => walksAt_pure
  · next ht =>
    refine walksAt_advance_bind (by rw [ht]; decide) ?_
    exact WalksAt.bind (ih.sequence _) fun items => walks_expect_bind fun _ => walksAt_pure
  · next ht =>
    refine walksAt_advance_bind (by rw [ht]; decide) ?_
    exact WalksAt.bind (ih.sequence _) fun items => walks_expect_bind fun _ => walksAt_pure
  · next ht =>
    refine walksAt_advance_bind (by rw [ht]; decide) ?_
    exact WalksAt.bind ih.entries fun es => walks_expect_bind fun _ => walksAt_pure
  · next ht =>
    -- with and without parentheses around the parameters, the body is the same
    have hbody (params : List String) : Walks 0 (do
        let _ ← expect .lambdaArrow
        let body ← Parser.expression n
        let _ ← expect .endOfLambda
        return Expr.lambda params body) := by
      refine walks_expect_bind fun _ => WalksAt.bind ih.expression fun body => ?_
      exact walks_expect_bind fun _ => walksAt_pure
    refine walksAt_advance_bind (by rw [ht]; decide) (walks_accept_bind (by decide) ?_ ?_)
    · refine WalksAt.bind (walks_parameters (by decide)) fun params => ?_
      exact walks_expect_bind fun _ => hbody params
    · exact WalksAt.bind (walks_parameters (by decide)) fun params => hbody params
  · exact walksAt_refuse

/-- A text in a marker is read apart from the tokens at hand. -/
theorem Walking.succ_holes (ih : Walking n) {p : Position} {inners : List String}
    (hts : Laden m ts) (hinners : ∀ inner ∈ inners, inner.length < m) :
    Minds m (Parser.holes (n + 1) p inners) ts := by
  cases inners with
  | nil =>
    unfold Parser.holes
    exact .pure hts.queue
  | cons inner inners =>
    obtain ⟨hinner, hinners⟩ := List.forall_mem_cons.1 hinners
    unfold Parser.holes
    cases hown : tokenize (unescape inner) with
    | error e =>
      refine .bind (.fail hts.queue) fun own rest h => ?_
      cases h
    | ok own =>
      have hlt : (unescape inner).length < m :=
        Nat.lt_of_le_of_lt (length_unescape_le inner) hinner
      have hread : Minds (unescape inner).length (Parser.statements n) own :=
        (ih.statements _ own (laden_of_tokenize hown) trivial).minds
      have hwithin : Minds m (within own (Parser.statements n)) ts :=
        .within hown hlt hread hts.queue
      -- the text is read by itself; the tokens at hand stay as they are
      refine .bind (.pure hts.queue) fun own' rest h => ?_
      cases h
      refine .bind hwithin fun stmts rest h => ?_
      obtain ⟨hqueue, hsuffix⟩ := hwithin.queue_rest h
      split
      · have hmore : Minds m (Parser.holes n p inners) rest :=
          ih.holes m p inners rest (hts.of_suffix hsuffix hqueue) hinners
        exact .bind hmore fun filled left h => .pure (hmore.queue_rest h).1
      · exact .fail hqueue

/-- Without budget nothing is read. -/
theorem Walking.zero : Walking 0 where
  statement := walks_exhausted
  block _ := walks_exhausted
  clauses := walks_exhausted
  expression := walks_exhausted
  matching := walks_exhausted
  declaration _ _ := walks_exhausted.at
  operators _ := walks_exhausted
  operand _ := walks_exhausted
  operations _ _ := walks_exhausted
  negation := walks_exhausted
  unary := walks_exhausted
  suffixes _ := walks_exhausted
  sequence _ := walks_exhausted
  entries := walks_exhausted
  mapKey := walks_exhausted
  primary := walks_exhausted
  holes _ _ _ _ hts _ := .exhausted hts.queue
  statements := walks_exhausted

/-- **Every reader goes through queues only**, by induction on the budget. -/
theorem walks (n : Nat) : Walking n := by
  induction n with
  | zero => exact .zero
  | succ n ih =>
    exact
      { statement := ih.succ_statement
        block := ih.succ_block
        clauses := ih.succ_clauses
        expression := ih.succ_expression
        matching := ih.succ_matching
        declaration := fun _ => ih.succ_declaration
        operators := ih.succ_operators
        operand := ih.succ_operand
        operations := ih.succ_operations
        negation := ih.succ_negation
        unary := ih.succ_unary
        suffixes := ih.succ_suffixes
        sequence := ih.succ_sequence
        entries := ih.succ_entries
        mapKey := ih.succ_mapKey
        primary := ih.succ_primary
        holes := fun _ _ _ _ => ih.succ_holes
        statements := ih.succ_statements }

/-! ### Progress, and the end of the loops -/

/-- A success leaves a queue that is shorter. -/
def Takes (x : Parser α) : Prop :=
  ∀ ts a rest, Queue ts → x ts = .done a rest →
    ∃ taken, taken ≠ [] ∧ ts = taken ++ rest ∧ Queue rest

/-- A queue is one in a text that is long enough. -/
theorem Queue.exists_laden (h : Queue ts) : ∃ m, Laden m ts := by
  refine ⟨weight ts, h, fun t ht hstring => ?_⟩
  have hweight : tokenWeight t = t.text.length + 1 := if_pos hstring
  have hle : tokenWeight t ≤ weight ts := List.le_sum_of_mem (List.mem_map_of_mem ht)
  omega

/-- What is taken is the difference between the two queues. -/
theorem Walks.takes (h : Walks 1 x) : Takes x := by
  intro ts a rest hts hdone
  obtain ⟨m, hladen⟩ := hts.exists_laden
  -- the token that is taken is the part in front, which is not empty
  have hwalks := h m ts hladen trivial
  obtain ⟨hqueue, taken, rfl⟩ := hwalks.minds.queue_rest hdone
  refine ⟨taken, ?_, rfl, hqueue⟩
  rintro rfl
  have hle := hwalks.takes a rest hdone
  rw [List.nil_append] at hle
  omega

/-- Whatever the tokens are, some budget is enough for them, and so is every larger one. -/
def Ends (x : Nat → Parser α) : Prop :=
  ∀ ts, ∃ bound, ∀ n, bound ≤ n → x n ts ≠ .exhausted

/-- A reader that finishes with eighteen calls for each unit of weight comes to an end. -/
theorem Ends.of_finishes {k : Nat} {x : Nat → Parser α} (h : ∀ n, Finishes n k d (x n)) :
    Ends x := by
  intro ts
  -- the weight of the tokens pays for all calls
  refine ⟨18 * weight ts + k, fun n hn hexhausted => ?_⟩
  have hfinished := h n ts trivial hn
  rw [hexhausted] at hfinished
  exact hfinished

/-- The loops of the grammar, and the readers that go round in them, come to an end. -/
structure Terminates : Prop where
  statement : Ends statement
  block : ∀ inConditional, Ends fun n => block n inConditional
  clauses : Ends clauses
  expression : Ends expression
  operators : ∀ level, Ends fun n => operators n level
  operations : ∀ level left, Ends fun n => operations n level left
  negation : Ends negation
  unary : Ends unary
  suffixes : ∀ e, Ends fun n => suffixes n e
  sequence : ∀ close, Ends fun n => sequence n close
  entries : Ends entries
  primary : Ends primary
  holes : ∀ p inners, Ends fun n => holes n p inners
  statements : Ends statements

/-- **The loops come to an end**: what the tokens weigh is a bound. -/
theorem ends : Terminates where
  statement := .of_finishes fun n => (sufficient n).statement
  block inConditional := .of_finishes fun n => (sufficient n).block inConditional
  clauses := .of_finishes fun n => (sufficient n).clauses
  expression := .of_finishes fun n => (sufficient n).expression
  operators level := .of_finishes fun n => (sufficient n).operators level
  operations level left := .of_finishes fun n => (sufficient n).operations level left
  negation := .of_finishes fun n => (sufficient n).negation
  unary := .of_finishes fun n => (sufficient n).unary
  suffixes e := .of_finishes fun n => (sufficient n).suffixes e
  sequence close := .of_finishes fun n => (sufficient n).sequence close
  entries := .of_finishes fun n => (sufficient n).entries
  primary := .of_finishes fun n => (sufficient n).primary
  holes p inners ts := by
    refine ⟨18 * markerWeight inners + 1, fun n hn => ?_⟩
    have hfinished := (sufficient n).holes p inners ts hn
    intro hexhausted
    have hexhausted : holes n p inners ts = .exhausted := hexhausted
    rw [hexhausted] at hfinished
    exact hfinished
  statements := .of_finishes fun n => (sufficient n).statements

end Parser

open AtomScript.Parser

namespace Program

/-- The tokens of a text are read to an answer. -/
structure Concludes (source : String) (ts : List Token) : Prop where
  queue : Queue ts
  length_le : ts.length ≤ source.length + 1
  /-- On the way there are queues only, in the texts of markers too, which are ever shorter. -/
  minds : ∀ n, Minds source.length (statements n) ts
  markers : ∀ t ∈ ts, t.kind = .string → ∀ inners, markers? t.text = some inners →
    ∀ inner ∈ inners, (unescape inner).length < source.length
  /-- The budget is no bound: with any larger one the answer is the same. -/
  answer : ∀ n, budget source.length ≤ n →
    (statements n ts).answer? = some (Program.parse source)

/-- **The tokens of a text are read to an answer.** -/
theorem concludes {source : String} {ts : List Token} (hts : tokenize source = .ok ts) :
    Concludes source ts where
  queue := (laden_of_tokenize hts).queue
  length_le := by
    have hle := Lexer.Cursor.length_tokens_le hts
    rwa [← String.length_toList]
  minds n := ((walks n).statements _ ts (laden_of_tokenize hts) trivial).minds
  markers t ht hstring inners hinners inner hinner := by
    calc
      (unescape inner).length ≤ inner.length := length_unescape_le inner
      _ < t.text.length := length_lt_of_markers? hinners hinner
      _ < source.length := (laden_of_tokenize hts).strings t ht hstring
  answer n hn := answer_of_budget hts hn

/-- How a text is read on hosts whose stack has a bound. -/
structure NeedsRoom (source : String) (needed : Nat) : Prop where
  needed_le : needed ≤ budget source.length
  /-- With enough room a text is read as it is without a bound, to a program or a refusal. -/
  answer : ∀ room, needed ≤ room → readWithin room source = Program.read source ∧
    (readWithin room source).answer? = some (Program.parse source)
  overflows : ∀ room, room < needed → readWithin room source = .overflowed

/-- **Reading comes to an end, with enough of the host's stack.**  Each token moves the lexer on.
On a queue of tokens, of which the end token is the last one and no other, a statement, an
expression and a primary take one token at least, and every loop ends with some budget.  The tokens
of a text are such a queue, and so is all that is left of them on the way; the texts that are read
apart are shorter than the text with the string.  So a text has an error of the lexer, or it is a
program or refused, with the budget that its length gives or any larger one.

It needs some room on the host's stack for that, not more than its budget.  With less room the stack
runs over, and there is no room for which no text does: that of `a = a = … = a` has to be as large
as the chain is long. -/
theorem parse_ends (source : String) :
    (∀ (cur : Lexer.Cursor) (t : Token), cur.next.1 = .ok t → t.kind ≠ .eof →
      ∃ gap lexeme, lexeme ≠ [] ∧ cur.rest = gap ++ lexeme ++ cur.next.2.rest ∧
        cur.next.2.position = cur.position.advanceBy (gap ++ lexeme)) ∧
    (∀ n, Takes (statement n) ∧ Takes (expression n) ∧ Takes (primary n)) ∧
    Terminates ∧
    ((∃ ts, tokenize source = .ok ts ∧ Concludes source ts) ∨
      ∃ e, tokenize source = .error e ∧ Program.parse source = .error e) ∧
    (∃ needed, NeedsRoom source needed) ∧
    ∀ room, ∃ longer p, Program.parse longer = .ok p ∧ readWithin room longer = .overflowed := by
  refine ⟨fun cur t => Lexer.Cursor.next_advances, fun n => ?_, ends, ?_, ?_, fun room => ?_⟩
  · have hwalks := walks n
    exact ⟨hwalks.statement.takes, hwalks.expression.takes, hwalks.primary.takes⟩
  · cases hts : tokenize source with
    | ok ts => exact .inl ⟨ts, rfl, concludes hts⟩
    | error e =>
      refine .inr ⟨e, rfl, ?_⟩
      unfold Program.parse Program.read
      rw [hts]
  -- the room that is needed, and what happens with more or less of it
  · obtain ⟨needed, hle, henough, hover⟩ := exists_needed source
    refine ⟨needed, hle, fun room hroom => ?_, hover⟩
    rw [henough room hroom]
    exact ⟨rfl, answer_read source⟩
  · exact ⟨_, _, read_chain room⟩

end Program

end AtomScript

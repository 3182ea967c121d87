import AtomScript.Proofs.Program.Indifference

/-!
# Where the markers of a string are cut

Three scans go over the body of a string literal.  The one that looks for markers passes over a
backslash and the character behind it; the one that looks for the end of a marker counts braces, and
a backslash means nothing to it; the one that decodes goes in pairs again.  A body cut by the first
two is decoded piece by piece by the third, even when a marker ends in a backslash and a brace.

Here the cut is described without the scans.  In a literal piece every `#{` is behind a backslash
that escapes it, the last of an odd number in a row (`Escapes`).  A marker is balanced from its
opening brace on, and no beginning of it is (`Enclosed`).  There is one such cut of a body or none
(`split?_assemble`, `split?_eq_none`).

* `Template.balanced_eq_none_iff` and `Template.balanced_of_stays` — what counting braces finds;
* `Template.pieces_of_split?` — the pieces that the scans cut;
* `Parser.literal_cut` — the pieces, what is decoded from them, and what is read from them.
-/

namespace AtomScript

namespace Template

/-! ### Open braces -/

/-- By how much a character changes the number of open braces. -/
def braceStep (c : Char) : Int :=
  if c = '{' then 1 else if c = '}' then -1 else 0

/-- Opening braces less closing ones. -/
def openBraces (cs : List Char) : Int := (cs.map braceStep).sum

/-- Nothing opens nothing. -/
@[simp]
theorem openBraces_nil : openBraces [] = 0 := rfl

/-- What the first character opens counts first. -/
@[simp]
theorem openBraces_cons (c : Char) (cs : List Char) :
    openBraces (c :: cs) = braceStep c + openBraces cs :=
  List.sum_cons

/-- What two parts leave open adds up. -/
@[simp]
theorem openBraces_append (cs ds : List Char) :
    openBraces (cs ++ ds) = openBraces cs + openBraces ds := by
  simp [openBraces]

/-- A closing brace lowers the depth by one. -/
theorem succ_add_braceStep (d : Nat) : ((d + 1 : Nat) : Int) + braceStep '}' = d := by
  change ((d + 1 : Nat) : Int) + -1 = d
  omega

/-- Characters other than braces leave the depth. -/
theorem braceStep_of_ne {c : Char} (hopen : c ≠ '{') (hclose : c ≠ '}') : braceStep c = 0 := by
  unfold braceStep
  rw [if_neg hopen, if_neg hclose]

/-- No character closes more than one brace. -/
theorem neg_one_le_braceStep (c : Char) : -1 ≤ braceStep c := by
  unfold braceStep
  split
  · decide
  · split <;> decide

/-- With `d` more braces open than here, none too many is closed. -/
def Stays (d : Int) (cs : List Char) : Prop := ∀ pre, pre <+: cs → 0 ≤ d + openBraces pre

/-- What stays at a depth starts at one. -/
theorem Stays.nonneg {d : Int} {cs : List Char} (h : Stays d cs) : 0 ≤ d := by
  have hnil := h [] List.nil_prefix
  rwa [openBraces_nil, Int.add_zero] at hnil

/-- Nothing stays at every depth. -/
theorem stays_nil {d : Int} (hd : 0 ≤ d) : Stays d [] := by
  intro pre hpre
  rw [List.prefix_nil.1 hpre, openBraces_nil, Int.add_zero]
  exact hd

/-- To stay is to stay after each character. -/
theorem stays_cons {d : Int} {c : Char} {cs : List Char} :
    Stays d (c :: cs) ↔ 0 ≤ d ∧ Stays (d + braceStep c) cs := by
  constructor
  · intro h
    refine ⟨h.nonneg, fun pre hpre => ?_⟩
    have hcons := h (c :: pre) ((List.prefix_cons_inj c).2 hpre)
    rw [openBraces_cons] at hcons
    omega
  · rintro ⟨hd, h⟩ pre hpre
    -- a prefix is empty or starts with the character
    rcases List.prefix_cons_iff.1 hpre with rfl | ⟨pre', rfl, hpre'⟩
    · rw [openBraces_nil, Int.add_zero]
      exact hd
    · have hrest := h pre' hpre'
      rw [openBraces_cons]
      omega

/-- The number of open braces does not pass zero without being zero. -/
theorem stays_of_ne {d : Int} {cs : List Char} (hd : 0 ≤ d)
    (h : ∀ pre, pre <+: cs → d + 1 + openBraces pre ≠ 0) : Stays d cs := by
  induction cs generalizing d with
  | nil => exact stays_nil hd
  | cons c cs ih =>
    refine stays_cons.2 ⟨hd, ih ?_ fun pre hpre => ?_⟩
    -- one more character opens or closes at most one brace, so the depth cannot jump below zero
    · have hfirst := h [c] (List.cons_prefix_cons.2 ⟨rfl, List.nil_prefix⟩)
      have hstep := neg_one_le_braceStep c
      rw [openBraces_cons, openBraces_nil] at hfirst
      omega
    · have hcons := h (c :: pre) ((List.prefix_cons_inj c).2 hpre)
      rw [openBraces_cons] at hcons
      omega

/-! ### What counting braces finds -/

/-- What the search gives back never closes more than was open, and closes all of it. -/
theorem stays_of_balanced {depth : Nat} {cs inner rest : List Char}
    (h : balanced depth cs = some (inner, rest)) :
    Stays depth inner ∧ depth + openBraces inner = 0 := by
  fun_induction balanced depth cs generalizing inner rest with
  | case1 => cases h
  -- the closing brace that is looked for
  | case2 cs =>
    cases h
    exact ⟨stays_nil (Int.le_refl 0), rfl⟩
  -- a closing brace of a deeper level, then an opening one, then any other character
  | case3 cs d ih =>
    obtain ⟨⟨a, b⟩, hb, heq⟩ := Option.map_eq_some_iff.1 h
    cases heq
    obtain ⟨hstays, hend⟩ := ih hb
    rw [stays_cons, openBraces_cons, ← Int.add_assoc, succ_add_braceStep]
    exact ⟨⟨Int.natCast_nonneg _, hstays⟩, hend⟩
  | case4 depth cs ih =>
    obtain ⟨⟨a, b⟩, hb, heq⟩ := Option.map_eq_some_iff.1 h
    cases heq
    obtain ⟨hstays, hend⟩ := ih hb
    rw [stays_cons, openBraces_cons, ← Int.add_assoc]
    exact ⟨⟨Int.natCast_nonneg _, hstays⟩, hend⟩
  | case5 depth c cs hclose hopen ih =>
    obtain ⟨⟨a, b⟩, hb, heq⟩ := Option.map_eq_some_iff.1 h
    cases heq
    obtain ⟨hstays, hend⟩ := ih hb
    rw [stays_cons, openBraces_cons, ← Int.add_assoc, braceStep_of_ne hopen hclose, Int.add_zero]
    exact ⟨⟨Int.natCast_nonneg _, hstays⟩, hend⟩

/-- **The closing brace** is found where the braces before it are even. -/
theorem balanced_of_stays {depth : Nat} {inner : List Char} (rest : List Char)
    (hstays : Stays depth inner) (hend : depth + openBraces inner = 0) :
    balanced depth (inner ++ '}' :: rest) = some (inner, rest) := by
  induction inner generalizing depth with
  | nil =>
    obtain rfl : depth = 0 := by
      rw [openBraces_nil] at hend
      omega
    rfl
  | cons c inner ih =>
    rw [stays_cons] at hstays
    rw [openBraces_cons, ← Int.add_assoc] at hend
    obtain ⟨-, hstays⟩ := hstays
    rw [List.cons_append]
    by_cases hclose : c = '}'
    · subst hclose
      have hdepth := hstays.nonneg
      change 0 ≤ (depth : Int) + -1 at hdepth
      -- the brace closes one of those that are open
      obtain ⟨d, rfl⟩ : ∃ d, depth = d + 1 := ⟨depth - 1, by omega⟩
      rw [succ_add_braceStep] at hstays hend
      rw [balanced, ih hstays hend]
      rfl
    · by_cases hopen : c = '{'
      · subst hopen
        have hmore : balanced (depth + 1) (inner ++ '}' :: rest) = some (inner, rest) :=
          ih hstays hend
        rw [balanced, hmore]
        rfl
      · rw [braceStep_of_ne hopen hclose, Int.add_zero] at hstays hend
        rw [balanced, ih hstays hend]
        · rfl
        · exact hclose
        · exact hopen

/-- **No closing brace** is found where the braces that are open stay open. -/
theorem balanced_eq_none_iff {depth : Nat} {cs : List Char} :
    balanced depth cs = none ↔ Stays depth cs := by
  fun_induction balanced depth cs with
  | case1 depth => exact ⟨fun _ => stays_nil (Int.natCast_nonneg _), fun _ => rfl⟩
  | case2 cs =>
    -- the brace would take the depth below zero
    refine ⟨fun h => absurd h (Option.some_ne_none _), fun h => ?_⟩
    have hfirst := (stays_cons.1 h).2.nonneg
    change 0 ≤ (0 : Int) + -1 at hfirst
    omega
  | case3 cs d ih =>
    rw [Option.map_eq_none_iff, ih, stays_cons, succ_add_braceStep,
      and_iff_right (Int.natCast_nonneg _)]
  | case4 depth cs ih =>
    rw [Option.map_eq_none_iff, ih, stays_cons, and_iff_right (Int.natCast_nonneg _)]
    rfl
  | case5 depth c cs hclose hopen ih =>
    rw [Option.map_eq_none_iff, ih, stays_cons, and_iff_right (Int.natCast_nonneg _),
      braceStep_of_ne hopen hclose, Int.add_zero]

/-! ### The pieces of a body -/

/-- From its opening brace on, a marker has as many closing braces as opening ones, and no beginning
of it has. -/
structure Enclosed (inner : List Char) : Prop where
  closed : openBraces ('{' :: inner ++ ['}']) = 0
  first : ∀ pre, pre <+: '{' :: inner ++ ['}'] → pre ≠ [] → pre ≠ '{' :: inner ++ ['}'] →
    openBraces pre ≠ 0

/-- No beginning of the text, from an opening brace on, has as many closing braces as opening
ones. -/
def Unclosed (rest : List Char) : Prop :=
  ∀ pre, pre <+: '{' :: rest → pre ≠ [] → openBraces pre ≠ 0

/-- The character behind the text is escaped: the backslashes just before it are odd in number. -/
def Escapes (before : List Char) : Prop :=
  (before.reverse.takeWhile (· == '\\')).length % 2 = 1

instance (before : List Char) : Decidable (Escapes before) :=
  inferInstanceAs (Decidable (_ = _))

/-- No marker starts in the text: each place where one would is escaped. -/
def Plain (lit : List Char) : Prop :=
  ∀ before after, lit = before ++ '#' :: '{' :: after → Escapes before

/-- What stands before, between and behind the markers. -/
def literals (parts : List Char × List (List Char × List Char)) : List (List Char) :=
  parts.1 :: parts.2.map (·.2)

/-- The pieces are what they seem: markers are closed where they end, no marker starts in a literal
piece, and none that follows one is escaped. -/
structure Pieces (parts : List Char × List (List Char × List Char)) : Prop where
  marked : ∀ part ∈ parts.2, Enclosed part.1
  plain : ∀ lit ∈ literals parts, Plain lit
  apart : ∀ lit ∈ (literals parts).dropLast, ¬ Escapes lit

/-- The body is cut into the pieces. -/
def Cut (cs : List Char) (parts : List Char × List (List Char × List Char)) : Prop :=
  Pieces parts ∧ cs = assemble id parts

/-- The scan of the body comes, behind the pieces, to the opening of a marker. -/
def Opens (cs : List Char) (parts : List Char × List (List Char × List Char))
    (rest : List Char) : Prop :=
  Pieces parts ∧ (∀ lit ∈ literals parts, ¬ Escapes lit) ∧
    cs = assemble id parts ++ '#' :: '{' :: rest

section Braces

variable {inner rest : List Char}

/-- Being enclosed, told by depths: the body of a marker never goes below its own brace and ends at
it. -/
theorem enclosed_iff : Enclosed inner ↔ Stays 0 inner ∧ openBraces inner = 0 := by
  have hwhole : openBraces ('{' :: inner ++ ['}']) = openBraces inner := by
    rw [List.cons_append, openBraces_cons, openBraces_append]
    change 1 + (openBraces inner + (-1 + 0)) = openBraces inner
    omega
  constructor
  -- a prefix of the inner text, behind its brace, is not the whole marker
  · rintro ⟨hclosed, hfirst⟩
    refine ⟨stays_of_ne (Int.le_refl 0) fun pre hpre => ?_, hwhole ▸ hclosed⟩
    have hne : '{' :: pre ≠ '{' :: inner ++ ['}'] := by
      intro heq
      have hlength := congrArg List.length heq
      have hle := hpre.length_le
      simp only [List.length_append, List.length_cons, List.length_nil] at hlength
      omega
    have hprefix : '{' :: pre <+: '{' :: inner ++ ['}'] :=
      (List.prefix_cons_inj '{').2 (hpre.trans (List.prefix_append inner ['}']))
    exact hfirst ('{' :: pre) hprefix (List.cons_ne_nil _ _) hne
  · rintro ⟨hstays, hend⟩
    refine ⟨hwhole.trans hend, fun pre hpre hnil hne => ?_⟩
    rcases List.prefix_cons_iff.1 hpre with rfl | ⟨pre', rfl, hpre'⟩
    · exact absurd rfl hnil
    -- the whole marker is excluded, so what is left is a prefix of the inner text
    · rcases List.prefix_concat_iff.1 hpre' with rfl | hpre'
      · exact absurd rfl hne
      · have hopen := hstays pre' hpre'
        rw [openBraces_cons]
        change 1 + openBraces pre' ≠ 0
        omega

/-- Being unclosed, told by depths: the brace of a marker is never closed. -/
theorem unclosed_iff : Unclosed rest ↔ Stays 0 rest := by
  constructor
  · intro h
    refine stays_of_ne (Int.le_refl 0) fun pre hpre => ?_
    exact h ('{' :: pre) ((List.prefix_cons_inj '{').2 hpre) (List.cons_ne_nil _ _)
  -- the empty prefix aside, each prefix starts with the opening brace itself
  · intro h pre hpre hnil
    rcases List.prefix_cons_iff.1 hpre with rfl | ⟨pre', rfl, hpre'⟩
    · exact absurd rfl hnil
    · have hopen := h pre' hpre'
      rw [openBraces_cons]
      change 1 + openBraces pre' ≠ 0
      omega

/-- **The counter is never negative**: counting stops where it comes to zero, so there is a brace to
be closed wherever one is counted off. -/
theorem openBraces_nonneg {pre : List Char} (hpre : pre <+: '{' :: rest)
    (h : ∀ shorter, shorter <+: pre → shorter ≠ [] → shorter ≠ pre → openBraces shorter ≠ 0) :
    0 ≤ openBraces pre := by
  rcases List.prefix_cons_iff.1 hpre with rfl | ⟨pre, rfl, -⟩
  · exact Int.le_refl 0
  · rcases List.eq_nil_or_concat' pre with rfl | ⟨before, c, rfl⟩
    · decide
    -- every shorter prefix is open, and one character closes one brace at most
    · have hstays : Unclosed before := by
        intro shorter hshorter hnil
        have hprefix : shorter <+: '{' :: (before ++ [c]) :=
          hshorter.trans ((List.prefix_cons_inj '{').2 (List.prefix_append before [c]))
        refine h shorter hprefix hnil ?_
        rintro rfl
        have hle := hshorter.length_le
        simp only [List.length_append, List.length_cons, List.length_nil] at hle
        omega
      have hopen := unclosed_iff.1 hstays before (List.prefix_refl before)
      have hstep := neg_one_le_braceStep c
      rw [openBraces_cons, openBraces_append, openBraces_cons, openBraces_nil]
      change 0 ≤ 1 + (openBraces before + (braceStep c + 0))
      omega

end Braces

/-! ### Backslashes -/

/-- What stands before another character than a backslash does not matter. -/
theorem escapes_append_cons {c : Char} (hc : c ≠ '\\') (passed before : List Char) :
    Escapes (passed ++ c :: before) ↔ Escapes before := by
  have hstop : (c :: passed.reverse).takeWhile (· == '\\') = [] :=
    List.takeWhile_cons_of_neg (by simpa using hc)
  unfold Escapes
  rw [List.reverse_append, List.reverse_cons, List.append_assoc, List.singleton_append,
    List.takeWhile_append]
  split
  · next hall => rw [hstop, List.append_nil, hall]
  · rfl

/-- Two backslashes more leave an odd number odd, and a pair of other characters ends the row. -/
theorem escapes_pair (c : Char) (before : List Char) :
    Escapes ('\\' :: c :: before) ↔ Escapes before := by
  by_cases hc : c = '\\'
  -- a backslash and another one make an even number more of them
  · subst hc
    unfold Escapes
    rw [List.reverse_cons, List.reverse_cons, List.append_assoc, List.takeWhile_append]
    split
    · next hall =>
      have hpair : (['\\'] ++ ['\\']).takeWhile (· == '\\') = ['\\', '\\'] := rfl
      rw [hpair, List.length_append, ← hall]
      change (_ + 2) % 2 = 1 ↔ _
      rw [Nat.add_mod_right]
    · rfl
  · exact escapes_append_cons hc ['\\'] before

/-- Nothing escapes nothing. -/
theorem not_escapes_nil : ¬ Escapes [] := by decide

/-- The empty literal has no marker. -/
theorem plain_nil : Plain [] := by
  intro before after h
  have hlength := congrArg List.length h
  simp at hlength

/-- In front of a pair there is no marker, and its second character starts none. -/
theorem plain_pair (c : Char) {lit : List Char} (h : Plain lit) : Plain ('\\' :: c :: lit) := by
  intro before after heq
  match before with
  | [] => cases heq
  | [b] =>
    cases heq
    decide
  | b :: d :: before =>
    cases heq
    exact (escapes_pair c before).2 (h before after rfl)

/-- A character that opens no marker may go in front of a plain literal. -/
theorem plain_cons {c : Char} {lit : List Char} (hc : c ≠ '\\')
    (hopen : ∀ after, c = '#' → lit ≠ '{' :: after) (h : Plain lit) : Plain (c :: lit) := by
  intro before after heq
  cases before with
  | nil =>
    cases heq
    exact absurd rfl (hopen after rfl)
  | cons b before =>
    cases heq
    exact (escapes_append_cons hc [] before).2 (h before after rfl)

/-- A plain literal is plain behind an escape. -/
theorem Plain.of_pair {c : Char} {lit : List Char} (h : Plain ('\\' :: c :: lit)) : Plain lit := by
  rintro before after rfl
  exact (escapes_pair c before).1 (h ('\\' :: c :: before) after rfl)

/-- A plain literal is plain behind its first character, if that is no backslash. -/
theorem Plain.of_cons {c : Char} {lit : List Char} (hc : c ≠ '\\') (h : Plain (c :: lit)) :
    Plain lit := by
  rintro before after rfl
  exact (escapes_append_cons hc [] before).1 (h (c :: before) after rfl)

/-! ### The scans cut a body into its pieces -/

section Pieces

variable {cs inner rest : List Char} {parts : List Char × List (List Char × List Char)}

/-- More text in front of the first piece. -/
theorem Pieces.lead (h : Pieces parts) (hplain : Plain (cs ++ parts.1))
    (hescapes : Escapes (cs ++ parts.1) ↔ Escapes parts.1) : Pieces (lead cs parts) := by
  obtain ⟨lit, parts⟩ := parts
  refine ⟨h.marked, List.forall_mem_cons.2 ⟨hplain, (List.forall_mem_cons.1 h.plain).2⟩, ?_⟩
  have hapart := h.apart
  cases parts with
  | nil => exact List.forall_mem_nil _
  -- the characters in front change the first literal only
  | cons part parts =>
    change ∀ l ∈ lit :: ((part :: parts).map (·.2)).dropLast, ¬ Escapes l at hapart
    change ∀ l ∈ (cs ++ lit) :: ((part :: parts).map (·.2)).dropLast, ¬ Escapes l
    rw [List.forall_mem_cons] at hapart ⊢
    exact ⟨fun hlit => hapart.1 (hescapes.1 hlit), hapart.2⟩

/-- An escape may go in front of the first piece. -/
theorem Pieces.lead_pair (h : Pieces parts) (c : Char) : Pieces (Template.lead ['\\', c] parts) :=
  h.lead (plain_pair c (h.plain _ List.mem_cons_self)) (escapes_pair c parts.1)

/-- A hash goes to the first piece only if the body does not go on with a brace. -/
theorem Pieces.lead_cons {c : Char} (h : Pieces parts) (hc : c ≠ '\\')
    (hcs : cs = assemble id parts ++ rest) (hopen : ∀ ds, c = '#' → cs = '{' :: ds → False) :
    Pieces (Template.lead [c] parts) := by
  have hfirst : ∀ after, c = '#' → parts.1 ≠ '{' :: after := by
    intro after hhash hbrace
    obtain ⟨ds, hds⟩ : ∃ ds, assemble id parts ++ rest = '{' :: ds := by
      rw [assemble, hbrace]
      exact ⟨_, rfl⟩
    exact hopen ds hhash (hcs.trans hds)
  exact h.lead (plain_cons hc hfirst (h.plain _ List.mem_cons_self))
    (escapes_append_cons hc [] parts.1)

/-- A marker in front of the first piece. -/
theorem Pieces.mark (h : Pieces parts) (hinner : Enclosed inner) :
    Pieces ([], (inner, parts.1) :: parts.2) where
  marked := List.forall_mem_cons.2 ⟨hinner, h.marked⟩
  plain := List.forall_mem_cons.2 ⟨plain_nil, h.plain⟩
  apart := List.forall_mem_cons.2 ⟨not_escapes_nil, h.apart⟩

/-- The empty text is one empty literal. -/
theorem pieces_nil : Pieces ([], []) :=
  ⟨List.forall_mem_nil _, List.forall_mem_singleton.2 plain_nil, List.forall_mem_nil _⟩

/-- The text found between the braces is enclosed. -/
theorem enclosed_of_balanced (h : balanced 0 cs = some (inner, rest)) : Enclosed inner := by
  obtain ⟨hstays, hend⟩ := stays_of_balanced h
  change 0 + openBraces inner = 0 at hend
  rw [Int.zero_add] at hend
  exact enclosed_iff.2 ⟨hstays, hend⟩

/-- **What the scans cut are pieces.** -/
theorem pieces_of_split? (h : split? cs = some parts) : Pieces parts := by
  fun_induction split? cs generalizing parts with
  | case1 =>
    cases h
    exact pieces_nil
  | case2 =>
    cases h
    refine ⟨List.forall_mem_nil _, List.forall_mem_singleton.2 ?_, List.forall_mem_nil _⟩
    -- a backslash at the end of the body, in which there is no room for a marker
    intro before after heq
    have hlength := congrArg List.length heq
    simp only [List.length_append, List.length_cons, List.length_nil] at hlength
    omega
  | case3 c cs ih =>
    obtain ⟨parts, hparts, rfl⟩ := Option.map_eq_some_iff.1 h
    exact (ih hparts).lead_pair c
  | case4 cs hnone => cases h
  | case5 cs inner rest hsome _ ih =>
    obtain ⟨parts, hparts, rfl⟩ := Option.map_eq_some_iff.1 h
    exact (ih hparts).mark (enclosed_of_balanced hsome)
  | case6 c cs h₁ h₂ h₃ ih =>
    obtain ⟨parts, hparts, rfl⟩ := Option.map_eq_some_iff.1 h
    have hcs : cs = assemble id parts ++ [] :=
      (eq_of_split? hparts).trans (List.append_nil _).symm
    exact (ih hparts).lead_cons (ne_backslash h₁ h₂) hcs h₃

/-- **Where the scans fail** they have come to a marker that is not closed. -/
theorem opens_of_split?_none (h : split? cs = none) :
    ∃ parts rest, Opens cs parts rest ∧ Unclosed rest := by
  fun_induction split? cs with
  | case1 => cases h
  | case2 => cases h
  -- an escape: the two characters go in front of the first literal
  | case3 c cs ih =>
    obtain ⟨parts, rest, ⟨hpieces, hapart, rfl⟩, hrest⟩ := ih (Option.map_eq_none_iff.1 h)
    have hfirst := List.forall_mem_cons.1 hapart
    refine ⟨lead ['\\', c] parts, rest, ⟨hpieces.lead_pair c, ?_, rfl⟩, hrest⟩
    exact List.forall_mem_cons.2 ⟨(escapes_pair c parts.1).not.2 hfirst.1, hfirst.2⟩
  -- a marker that is not closed: the literal before it is empty here
  | case4 cs hnone =>
    refine ⟨([], []), cs, ⟨pieces_nil, ?_, rfl⟩, unclosed_iff.2 (balanced_eq_none_iff.1 hnone)⟩
    exact List.forall_mem_singleton.2 not_escapes_nil
  -- a marker that is closed: its inner text is followed by a literal of its own
  | case5 cs inner rest hsome _ ih =>
    obtain ⟨parts, rest', ⟨hpieces, hapart, rfl⟩, hrest⟩ := ih (Option.map_eq_none_iff.1 h)
    refine ⟨([], (inner, parts.1) :: parts.2), rest', ⟨?_, ?_, ?_⟩, hrest⟩
    · exact hpieces.mark (enclosed_of_balanced hsome)
    · exact List.forall_mem_cons.2 ⟨not_escapes_nil, hapart⟩
    · rw [eq_of_balanced hsome, ← marker_append]
      simp [assemble]
  | case6 c cs h₁ h₂ h₃ ih =>
    obtain ⟨parts, rest, ⟨hpieces, hapart, rfl⟩, hrest⟩ := ih (Option.map_eq_none_iff.1 h)
    have hfirst := List.forall_mem_cons.1 hapart
    have hc := ne_backslash h₁ h₂
    refine ⟨lead [c] parts, rest, ⟨hpieces.lead_cons hc rfl h₃, ?_, rfl⟩, hrest⟩
    exact List.forall_mem_cons.2 ⟨(escapes_append_cons hc [] parts.1).not.2 hfirst.1, hfirst.2⟩

/-! ### There is no other cut -/

/-- The scan passes over a literal piece, at the end of the body or before a marker. -/
theorem split?_append {lit tail : List Char} (hlit : Plain lit)
    (htail : tail = [] ∨ ¬ Escapes lit ∧ ∃ rest, tail = '#' :: '{' :: rest) :
    split? (lit ++ tail) = (split? tail).map (lead lit) := by
  -- along the pairs of the literal piece, as decoding goes
  fun_induction unescapeList lit with
  | case1 =>
    rw [List.nil_append]
    exact Option.map_id_fun'.symm ▸ rfl
  | case2 =>
    rcases htail with rfl | ⟨hescapes, -⟩
    · simp [split?, Template.lead]
    · exact absurd (by decide) hescapes
  | case3 c lit ih =>
    have htail' : tail = [] ∨ ¬ Escapes lit ∧ ∃ rest, tail = '#' :: '{' :: rest :=
      htail.imp_right fun h => ⟨(escapes_pair c lit).not.1 h.1, h.2⟩
    rw [List.cons_append, List.cons_append, split?, ih hlit.of_pair htail', Option.map_map]
    rfl
  | case4 c lit h₁ h₂ ih =>
    have hc := ne_backslash h₁ h₂
    have htail' : tail = [] ∨ ¬ Escapes lit ∧ ∃ rest, tail = '#' :: '{' :: rest :=
      htail.imp_right fun h => ⟨(escapes_append_cons hc [] lit).not.1 h.1, h.2⟩
    rw [List.cons_append, split?, ih (hlit.of_cons hc) htail', Option.map_map]
    · rfl
    · exact fun h _ => hc h
    · exact fun _ _ h _ => hc h
    · -- a marker here would be one in the literal piece
      rintro ds rfl heq
      cases lit with
      | nil =>
        rcases htail with rfl | ⟨-, rest, rfl⟩
        · cases heq
        · cases heq
      | cons d lit =>
        cases heq
        exact not_escapes_nil (hlit [] lit rfl)

/-- At a marker, the split goes on behind it. -/
theorem split?_marker (hinner : Enclosed inner) (rest : List Char) :
    split? (marker inner ++ rest) =
      (split? rest).map fun parts => ([], (inner, parts.1) :: parts.2) := by
  -- the search ends at the brace that encloses the inner text
  obtain ⟨hstays, hend⟩ := enclosed_iff.1 hinner
  have hbalanced : balanced 0 (inner ++ '}' :: rest) = some (inner, rest) :=
    balanced_of_stays rest hstays (by rw [hend]; rfl)
  rw [marker_append, split?]
  split
  · next h =>
    rw [hbalanced] at h
    cases h
  · next h =>
    rw [hbalanced] at h
    cases h
    rfl

/-- Putting a cut together, piece by piece. -/
theorem assemble_cons (f : List Char → List Char) (lit : List Char)
    (part : List Char × List Char) (parts : List (List Char × List Char)) :
    assemble f (lit, part :: parts) =
      f lit ++ (f (marker part.1) ++ assemble f (part.2, parts)) := by
  simp [assemble]

/-- Behind the first marker of a good cut is a good cut. -/
theorem Pieces.tail {lit : List Char} {part : List Char × List Char}
    {parts : List (List Char × List Char)} (h : Pieces (lit, part :: parts)) :
    ¬ Escapes lit ∧ Enclosed part.1 ∧ Pieces (part.2, parts) := by
  obtain ⟨hinner, hmarked⟩ := List.forall_mem_cons.1 h.marked
  obtain ⟨-, hplain⟩ := List.forall_mem_cons.1 h.plain
  have hapart : ∀ l ∈ lit :: (literals (part.2, parts)).dropLast, ¬ Escapes l := h.apart
  obtain ⟨hlit, hapart⟩ := List.forall_mem_cons.1 hapart
  exact ⟨hlit, hinner, hmarked, hplain, hapart⟩

/-- A literal piece and the marker behind it. -/
theorem split?_piece {lit : List Char} (hlit : Plain lit) (hescapes : ¬ Escapes lit)
    (hinner : Enclosed inner) (rest : List Char) :
    split? (lit ++ (marker inner ++ rest)) =
      (split? rest).map fun parts => (lit, (inner, parts.1) :: parts.2) := by
  have htail : ∃ after, marker inner ++ rest = '#' :: '{' :: after := ⟨_, marker_append inner rest⟩
  rw [split?_append hlit (.inr ⟨hescapes, htail⟩), split?_marker hinner, Option.map_map]
  congr 1
  funext parts
  simp [lead]

/-- **Pieces are what the scans cut** from the text that they make up. -/
theorem split?_assemble (h : Pieces parts) : split? (assemble id parts) = some parts := by
  obtain ⟨lit, parts⟩ := parts
  induction parts generalizing lit with
  | nil =>
    have hsplit := split?_append (h.plain lit List.mem_cons_self) (.inl rfl)
    change split? (lit ++ []) = _
    rw [hsplit, split?]
    simp [lead]
  | cons part parts ih =>
    -- the literal before a marker does not escape it, so the split finds the marker there
    obtain ⟨hescapes, hinner, htail⟩ := h.tail
    rw [assemble_cons]
    change split? (lit ++ (marker part.1 ++ assemble id (part.2, parts))) = _
    rw [split?_piece (h.plain lit List.mem_cons_self) hescapes hinner, ih part.2 htail]
    rfl

/-- **A marker that is not closed** behind pieces makes the scans fail. -/
theorem split?_eq_none (h : Opens cs parts rest) (hrest : Unclosed rest) : split? cs = none := by
  obtain ⟨hpieces, hapart, rfl⟩ := h
  obtain ⟨lit, parts⟩ := parts
  induction parts generalizing lit with
  | nil =>
    obtain ⟨hlit, -⟩ := List.forall_mem_cons.1 hapart
    -- behind the last of the pieces the count of braces does not come back
    have hnone : split? ('#' :: '{' :: rest) = none := by
      have hbalanced : balanced 0 rest = none := balanced_eq_none_iff.2 (unclosed_iff.1 hrest)
      rw [split?]
      split
      · rfl
      · next h =>
        rw [hbalanced] at h
        cases h
    have hsplit := split?_append (hpieces.plain lit List.mem_cons_self) (.inr ⟨hlit, rest, rfl⟩)
    rw [hnone] at hsplit
    simpa [assemble] using hsplit
  | cons part parts ih =>
    obtain ⟨hescapes, hinner, htail⟩ := hpieces.tail
    have hih := ih part.2 htail (List.forall_mem_cons.1 hapart).2
    rw [assemble_cons, List.append_assoc, List.append_assoc]
    change split? (lit ++ (marker part.1 ++ (assemble id (part.2, parts) ++ _))) = _
    rw [split?_piece (hpieces.plain lit List.mem_cons_self) hescapes hinner, hih]
    rfl

/-- The split finds the one good cut of a text. -/
theorem split?_eq_some_iff : split? cs = some parts ↔ Cut cs parts := by
  constructor
  · intro h
    exact ⟨pieces_of_split? h, eq_of_split? h⟩
  · rintro ⟨hpieces, rfl⟩
    exact split?_assemble hpieces

/-- The places of a marker in the body: of the hash, and of the closing brace. -/
theorem extract_of_assemble {lit after : List Char} {before : List (List Char × List Char)}
    {behind : List (List Char × List Char)} {start stop : Nat}
    (hcs : cs = assemble id (lit, before ++ (inner, after) :: behind))
    (hstart : start = (assemble id (lit, before)).length)
    (hstop : stop = start + 2 + inner.length) :
    stop < cs.length ∧ cs.extract start (stop + 1) = marker inner ∧
      cs.extract (start + 2) stop = inner := by
  -- up to the marker the text is what was put together before it
  obtain ⟨rest, hrest⟩ : ∃ rest, cs = assemble id (lit, before) ++ (marker inner ++ rest) := by
    refine ⟨assemble id (after, behind), ?_⟩
    rw [hcs]
    simp [assemble]
  have hlength : (marker inner).length = inner.length + 3 := by simp [marker]
  subst hrest hstart hstop
  refine ⟨?_, ?_, ?_⟩
  · rw [List.length_append, List.length_append, hlength]
    omega
  · rw [List.extract_eq_take_drop, List.drop_left, List.take_left' (by omega)]
  · have hinner : assemble id (lit, before) ++ (marker inner ++ rest) =
        (assemble id (lit, before) ++ ['#', '{']) ++ (inner ++ '}' :: rest) := by
      simp [marker]
    rw [hinner, List.extract_eq_take_drop, List.drop_left' (by simp), List.take_left' (by omega)]

end Pieces

/-- A backslash before the closing brace stays, with the brace. -/
theorem unescapeList_marker (inner : List Char) :
    unescapeList (marker inner) = '#' :: '{' :: unescapeList inner ++ ['}'] := by
  -- the closing brace is no escape, whatever the inner text ends in
  have hbrace : unescapeList (inner ++ ['}']) = unescapeList inner ++ ['}'] := by
    fun_induction unescapeList inner with
    | case1 => rfl
    | case2 => rfl
    | case3 c cs ih =>
      rw [List.cons_append, List.cons_append, unescapeList, ih, List.append_assoc]
    | case4 c cs h₁ h₂ ih =>
      rw [List.cons_append, unescapeList_cons (ne_backslash h₁ h₂), ih, List.cons_append]
  unfold marker
  rw [List.cons_append, List.cons_append, unescapeList_cons (by decide),
    unescapeList_cons (by decide), hbrace]
  rfl

/-- Decoding a marker decodes its inner text and leaves its braces. -/
theorem unescape_markerText (inner : String) :
    unescape (markerText inner) = "#\x7b" ++ unescape inner ++ "\x7d" := by
  apply String.toList_inj.1
  simp [unescape, markerText, unescapeList_marker]

end Template

namespace Parser

open Template

/-! ### What is read from the markers -/

/-- A fragment with its expression: the decoded marker, and what the text in the marker is. -/
def Fills (inner : String) (hole : String × Expr) : Prop :=
  hole.1 = "#\x7b" ++ unescape inner ++ "\x7d" ∧
    Program.parse (unescape inner) = .ok [.expression hole.2]

/-- Two markers that are decoded alike are filled alike. -/
theorem Fills.unique {inner inner' : String} {hole hole' : String × Expr} (h : Fills inner hole)
    (h' : Fills inner' hole') (hsame : hole.1 = hole'.1) : hole.2 = hole'.2 := by
  have hinner : unescape inner = unescape inner' := by
    rw [h.1, h'.1] at hsame
    exact String.append_right_inj _ |>.1 (String.append_left_inj _ |>.1 hsame)
  have hparse := h.2.symm.trans (hinner ▸ h'.2)
  simpa using hparse

/-- Each marker fills a fragment and an expression, in order. -/
theorem fills_of_holes {n : Nat} {p : Position} {inners fragments : List String}
    {expressions : List Expr} {ts rest : List Token}
    (h : holes n p inners ts = .done (fragments, expressions) rest) :
    List.Forall₂ Fills inners (fragments.zip expressions) := by
  induction n generalizing inners ts fragments expressions rest with
  | zero =>
    unfold holes at h
    cases h
  | succ n ih =>
    cases inners with
    | nil =>
      unfold holes at h
      cases h
      exact .nil
    | cons inner inners =>
      unfold holes at h
      cases htokens : tokenize (unescape inner) with
      | error e =>
        simp only [htokens] at h
        obtain ⟨own, mid, hfail, -⟩ := exists_of_bind h
        cases hfail
      | ok own =>
        simp only [htokens] at h
        obtain ⟨own', mid, hown, h⟩ := exists_of_bind h
        cases hown
        obtain ⟨stmts, mid', hstmts, h⟩ := exists_of_bind h
        obtain ⟨-, left, hleft⟩ := exists_of_within hstmts
        split at h
        · obtain ⟨⟨fragments', expressions'⟩, mid'', hmore, hlast⟩ := exists_of_bind h
          cases hlast
          have hparse := Program.parse_of_answer (n := n) htokens (by rw [hleft]; rfl)
          exact .cons ⟨unescape_markerText inner, hparse⟩ (ih hmore)
        -- a hole whose text is no single expression makes the literal an error
        · cases h

/-- The body of a string literal is cut in one way, which decoding and reading keep to. -/
structure CutOnce (body : String) : Prop where
  /-- The markers that are found are those of a cut of the body. -/
  found : ∀ inners, markers? body = some inners ↔
    ∃ parts, Cut body.toList parts ∧ inners = parts.2.map fun part => String.ofList part.1
  /-- Decoding the body decodes the pieces of the cut. -/
  decoded : ∀ parts, Cut body.toList parts →
    (unescape body).toList = assemble unescapeList parts
  /-- A decoded marker is the marker around the decoded text. -/
  marker : ∀ inner, unescape (markerText inner) = "#\x7b" ++ unescape inner ++ "\x7d"
  /-- A marker stands in the body, from its hash to its closing brace. -/
  inside : ∀ lit before inner after behind start stop,
    Cut body.toList (lit, before ++ (inner, after) :: behind) →
    start = (assemble id (lit, before)).length → stop = start + 2 + inner.length →
      stop < body.length ∧ body.toList.extract start (stop + 1) = Template.marker inner ∧
        body.toList.extract (start + 2) stop = inner
  /-- None are found exactly when the scan comes to a marker that is never closed. -/
  failed : markers? body = none ↔ ∃ parts rest, Opens body.toList parts rest ∧ Unclosed rest
  /-- While the scan looks for the brace that closes a marker, none too many is closed. -/
  counted : ∀ parts rest, Opens body.toList parts rest → ∀ pre, pre <+: '{' :: rest →
    (∀ shorter, shorter <+: pre → shorter ≠ [] → shorter ≠ pre → openBraces shorter ≠ 0) →
      0 ≤ openBraces pre
  /-- The literal keeps, for each marker, the decoded marker and what the text in it was read as;
  markers that are decoded to the same text have the same expression. -/
  filled : ∀ n t ts e rest, t.kind = .string → t.text = body →
    primary n (t :: ts) = .done e rest →
      ∃ inners fragments expressions, markers? body = some inners ∧
        e = .string (unescape body) fragments expressions ∧
        fragments.length = inners.length ∧ expressions.length = inners.length ∧
        List.Forall₂ Fills inners (fragments.zip expressions) ∧
        ∀ hole ∈ fragments.zip expressions, ∀ hole' ∈ fragments.zip expressions,
          hole.1 = hole'.1 → hole.2 = hole'.2

/-- A body has no markers to give exactly when it has no cut. -/
theorem markers?_eq_none_iff {body : String} :
    markers? body = none ↔ split? body.toList = none := by
  unfold markers?
  rw [Option.map_eq_none_iff, markersList?_eq, Option.map_eq_none_iff]

/-- Every hole fills one of the markers. -/
theorem exists_fills {inners : List String} {filled : List (String × Expr)}
    (h : List.Forall₂ Fills inners filled) : ∀ hole ∈ filled, ∃ inner, Fills inner hole := by
  induction h with
  | nil => exact List.forall_mem_nil _
  | cons hfills _ ih => exact List.forall_mem_cons.2 ⟨⟨_, hfills⟩, ih⟩

/-- **Escapes and markers are cut consistently.** -/
theorem literal_cut (body : String) : CutOnce body where
  found inners := by
    constructor
    · intro h
      obtain ⟨parts, hparts, rfl⟩ := inners_of_markers? h
      exact ⟨parts, split?_eq_some_iff.1 hparts, rfl⟩
    · rintro ⟨parts, hcut, rfl⟩
      unfold markers?
      rw [markersList?_eq, split?_eq_some_iff.2 hcut, Option.map_some, Option.map_some,
        List.map_map]
      rfl
  decoded parts hcut := by
    unfold unescape
    rw [String.toList_ofList]
    exact unescapeList_of_split? (split?_eq_some_iff.2 hcut)
  marker := unescape_markerText
  inside lit before inner after behind start stop hcut hstart hstop := by
    rw [← String.length_toList]
    exact extract_of_assemble hcut.2 hstart hstop
  failed := by
    rw [markers?_eq_none_iff]
    exact ⟨opens_of_split?_none, fun ⟨_, _, hopens, hrest⟩ => split?_eq_none hopens hrest⟩
  counted _ _ _ _ hpre h := openBraces_nonneg hpre h
  filled n t ts e rest ht hbody h := by
    subst hbody
    obtain ⟨m, inners, fragments, expressions, hinners, hholes, rfl⟩ := holes_of_primary ht h
    have hfills := fills_of_holes hholes
    obtain ⟨hfragments, hlength⟩ := fragments_of_holes hholes
    refine ⟨inners, fragments, expressions, hinners, rfl, by rw [hfragments, List.length_map],
      hlength, hfills, fun hole hhole hole' hhole' hsame => ?_⟩
    -- two holes with one text come from markers that are decoded alike
    obtain ⟨inner, hinner⟩ := exists_fills hfills hole hhole
    obtain ⟨inner', hinner'⟩ := exists_fills hfills hole' hhole'
    exact hinner.unique hinner' hsame

/-- Two backslashes before a marker, one before the brace that closes it, and one before the opening
of another; a marker of which only the inner braces are closed; and one that stands twice. -/
theorem literal_cut_backslashes :
    let body := "\\\\#\x7ba\\\x7d\\#\x7bb"
    let unclosed := "\\#\x7b#\x7b\x7b\x7d"
    let twice := "#\x7b:a\x7d\\n#\x7b:a\x7d"
    let e := Expr.string "#\x7b:a\x7d\n#\x7b:a\x7d" ["#\x7b:a\x7d", "#\x7b:a\x7d"]
      [.atom "a", .atom "a"]
    (markers? body = some ["a\\"] ∧ ∃ parts, Cut body.toList parts ∧
      (unescape body).toList = assemble unescapeList parts) ∧
    unescape (markerText "a\\") = "#\x7b" ++ unescape "a\\" ++ "\x7d" ∧
    (markers? unclosed = none ∧ ∃ parts rest, Opens unclosed.toList parts rest ∧ Unclosed rest) ∧
    primary 30 [⟨.string, twice, .nowhere⟩] = .done e [] ∧
      ∃ inners fragments expressions, markers? twice = some inners ∧
        e = .string (unescape twice) fragments expressions ∧
        List.Forall₂ Fills inners (fragments.zip expressions) := by
  intro body unclosed twice e
  have hmarkers : markers? body = some ["a\\"] := by decide +kernel
  have hnone : markers? unclosed = none := by decide +kernel
  have hread : primary 30 [⟨.string, "#\x7b:a\x7d\\n#\x7b:a\x7d", .nowhere⟩] =
      .done (.string "#\x7b:a\x7d\n#\x7b:a\x7d" ["#\x7b:a\x7d", "#\x7b:a\x7d"]
        [.atom "a", .atom "a"]) [] := by
    cbv
  obtain ⟨parts, hcut, -⟩ := ((literal_cut body).found ["a\\"]).1 hmarkers
  obtain ⟨inners, fragments, expressions, htwice, he, -, -, hfills, -⟩ :=
    (literal_cut twice).filled 30 _ [] e [] rfl rfl hread
  exact ⟨⟨hmarkers, parts, hcut, (literal_cut body).decoded parts hcut⟩,
    (literal_cut body).marker "a\\", ⟨hnone, (literal_cut unclosed).failed.1 hnone⟩, hread,
    inners, fragments, expressions, htwice, he, hfills⟩

end Parser

end AtomScript

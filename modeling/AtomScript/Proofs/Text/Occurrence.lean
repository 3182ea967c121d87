import AtomScript.Proofs.Text.Replace

/-!
# Where a pattern occurs, and the pieces in between

A pattern may occur at positions that overlap.  The search from the left takes the first occurrence
and goes on behind it (`FoundFrom`), so what it finds does not overlap; a pattern that is not empty
determines it (`FoundFrom.unique`).

* `occursIn_iff` — the test for an occurrence is the test for an infix.
* `exists_foundFrom` — a cut leaves one piece more than there are occurrences found.
* `not_infix_of_mem_splitOn` — the separator occurs in no piece.
-/

namespace AtomScript.Text

/-- The pattern stands in the text at a position. -/
def OccursAt (pattern text : List Char) (p : Nat) : Prop :=
  pattern <+: text.drop p

/-- The occurrences that the search from the left finds from position `i` on. -/
inductive FoundFrom (pattern text : List Char) : Nat → List Nat → Prop where
  | none {i : Nat} : (∀ p, i ≤ p → ¬ OccursAt pattern text p) → FoundFrom pattern text i []
  /-- The first occurrence is taken, and the search goes on behind it. -/
  | next {i p : Nat} {places : List Nat} : i ≤ p → OccursAt pattern text p →
    (∀ q, i ≤ q → q < p → ¬ OccursAt pattern text q) →
    FoundFrom pattern text (p + pattern.length) places → FoundFrom pattern text i (p :: places)

variable {pattern text : List Char} {i p : Nat} {places others : List Nat}

/-! ### Occurrences -/

theorem infix_iff_exists_occursAt : pattern <:+: text ↔ ∃ p, OccursAt pattern text p := by
  constructor
  · rintro ⟨front, behind, rfl⟩
    refine ⟨front.length, behind, ?_⟩
    rw [List.append_assoc, List.drop_left]
  · rintro ⟨p, hp⟩
    have hrest : text.drop p <:+: text := (List.drop_suffix p text).isInfix
    exact hp.isInfix.trans hrest

/-- The test for an occurrence is the test for an infix. -/
theorem occursIn_iff (pattern text : List Char) :
    occursIn pattern text = true ↔ pattern <:+: text := by
  induction text with
  | nil => rw [occursIn, List.isEmpty_iff, List.infix_nil]
  | cons c cs ih =>
    rw [occursIn, Bool.or_eq_true, List.isPrefixOf_iff_prefix, ih, List.infix_cons_iff]

theorem OccursAt.lt_length (hpattern : pattern ≠ []) (hp : OccursAt pattern text p) :
    p < text.length := by
  refine Nat.lt_of_not_le fun hout => ?_
  have hnil : text.drop p = [] := List.drop_eq_nil_of_le hout
  have hprefix : pattern <+: [] := hnil ▸ hp
  exact hpattern (List.prefix_nil.1 hprefix)

/-! ### The search from the left -/

/-- A search may begin earlier, where the pattern does not stand. -/
theorem FoundFrom.earlier (hfound : FoundFrom pattern text (i + 1) places)
    (hnot : ¬ OccursAt pattern text i) : FoundFrom pattern text i places := by
  have hfrom : ∀ q, i ≤ q → OccursAt pattern text q → i + 1 ≤ q := by
    intro q hq hocc
    refine Nat.lt_of_not_le fun hle => ?_
    have heq : q = i := Nat.le_antisymm hle hq
    exact hnot (heq ▸ hocc)
  cases hfound with
  | none hnone => exact .none fun q hq hocc => hnone q (hfrom q hq hocc) hocc
  | next hle hocc hfirst hrest =>
    refine .next (Nat.le_of_succ_le hle) hocc (fun q hq hlt hq' => ?_) hrest
    exact hfirst q (hfrom q hq hq') hlt hq'

/-- The text determines what the search finds. -/
theorem FoundFrom.unique (hfound : FoundFrom pattern text i places)
    (hothers : FoundFrom pattern text i others) : others = places := by
  induction hfound generalizing others with
  | none hnone =>
    cases hothers with
    | none => rfl
    | next hle hocc _ _ => exact absurd hocc (hnone _ hle)
  | @next i p places hle hocc hfirst _ ih =>
    cases hothers with
    | none hnone => exact absurd hocc (hnone p hle)
    | @next _ q others hle' hocc' hfirst' hrest' =>
      -- neither of the two first occurrences stands in front of the other
      have hpq : ¬ p < q := fun hlt => hfirst' p hle hlt hocc
      have hqp : ¬ q < p := fun hlt => hfirst q hle' hlt hocc'
      have heq : q = p := by omega
      subst heq
      rw [ih hrest']

theorem FoundFrom.eq_nil_iff (hfound : FoundFrom pattern text 0 places) :
    places = [] ↔ ¬ pattern <:+: text := by
  rw [infix_iff_exists_occursAt, not_exists]
  -- the places are empty only if nothing was found
  cases hfound with
  | none hnone =>
    constructor
    · intro _ p
      exact hnone p (Nat.zero_le p)
    · intro _
      rfl
  | @next _ p _ _ hocc =>
    constructor
    · intro h
      exact nomatch h
    · intro hnot
      exact absurd hocc (hnot p)

/-! ### Pieces -/

theorem length_extendFirst {c : Char} {ps : List (List Char)} (h : ps ≠ []) :
    (extendFirst c ps).length = ps.length := by
  cases ps with
  | nil => exact absurd rfl h
  | cons p ps => rfl

/-- Whether the pattern stands at a position is seen from what begins there. -/
theorem isPrefixOf_drop_iff : pattern.isPrefixOf (text.drop i) = true ↔ OccursAt pattern text i :=
  List.isPrefixOf_iff_prefix

/-- **Pieces are counted by occurrences.**  The search ends, and the cut leaves one piece more than
it has found. -/
theorem exists_foundFrom (hpattern : pattern ≠ []) (text : List Char) (i : Nat) :
    ∃ places, FoundFrom pattern text i places ∧
      (cutFrom pattern 0 (text.drop i)).length = places.length + 1 := by
  -- the induction is on what is left of the text behind the position
  induction hleft : text.length - i using Nat.strongRecOn generalizing i with
  | ind left ih =>
    have hpositive : 0 < pattern.length := List.length_pos_iff.2 hpattern
    cases hrest : text.drop i with
    | nil =>
      have hend : text.length ≤ i := List.drop_eq_nil_iff.1 hrest
      refine ⟨[], .none fun p hp hocc => ?_, rfl⟩
      have hlt : p < text.length := hocc.lt_length hpattern
      omega
    | cons c cs =>
      have hlt : i < text.length := by
        rw [← List.drop_eq_nil_iff.not.trans Nat.not_le, hrest]
        exact List.cons_ne_nil c cs
      have hcs : cs = text.drop (i + 1) := by
        rw [← List.tail_drop, hrest, List.tail_cons]
      have hoccurs : pattern.isPrefixOf (c :: cs) = true ↔ OccursAt pattern text i := by
        rw [← hrest, isPrefixOf_drop_iff]
      by_cases hprefix : pattern.isPrefixOf (c :: cs) = true
      · -- the pattern stands here: the piece ends, and the search goes on behind the occurrence
        obtain ⟨places, hfound, hlength⟩ :=
          ih (text.length - (i + pattern.length)) (by omega) (i + pattern.length) rfl
        have hocc := hoccurs.1 hprefix
        refine ⟨i :: places, .next (Nat.le_refl i) hocc (fun q hq hq' => ?_) hfound, ?_⟩
        · omega
        · have hbehind : cs.drop (pattern.length - 1) = text.drop (i + pattern.length) := by
            rw [hcs, List.drop_drop]
            congr 1
            omega
          rw [cutFrom, if_pos hprefix, cutFrom_eq_drop, hbehind, List.length_cons, hlength,
            List.length_cons]
      · -- it does not, and the character belongs to the piece
        have hnot : ¬ OccursAt pattern text i := hoccurs.not.1 hprefix
        obtain ⟨places, hfound, hlength⟩ := ih (text.length - (i + 1)) (by omega) (i + 1) rfl
        refine ⟨places, hfound.earlier hnot, ?_⟩
        rw [cutFrom, if_neg hprefix, length_extendFirst (cutFrom_ne_nil _ _ _), hcs, hlength]

/-- The first piece is what the text begins with. -/
theorem prefix_of_cutFrom {cs piece : List Char} {pieces : List (List Char)}
    (h : cutFrom pattern 0 cs = piece :: pieces) : piece <+: cs := by
  induction cs generalizing piece pieces with
  | nil =>
    obtain ⟨rfl, -⟩ : [] = piece ∧ [] = pieces := by simpa [cutFrom] using h
    exact List.nil_prefix
  | cons c cs ih =>
    rw [cutFrom] at h
    split at h
    -- a cut here makes the piece empty; otherwise the piece goes on behind the character
    · obtain ⟨rfl, -⟩ := List.cons.inj h
      exact List.nil_prefix
    · obtain ⟨first, rest, hcut⟩ := List.exists_cons_of_ne_nil (cutFrom_ne_nil pattern 0 cs)
      rw [hcut] at h
      obtain ⟨rfl, -⟩ := List.cons.inj h
      exact (List.prefix_cons_inj c).2 (ih hcut)

theorem not_infix_of_mem_cutFrom (hpattern : pattern ≠ []) {skip : Nat} {cs piece : List Char}
    (hmem : piece ∈ cutFrom pattern skip cs) : ¬ pattern <:+: piece := by
  have hnil : ¬ pattern <:+: [] := fun h => hpattern (List.infix_nil.1 h)
  induction cs generalizing skip piece with
  | nil =>
    obtain rfl : piece = [] := by simpa [cutFrom] using hmem
    exact hnil
  | cons c cs ih =>
    cases skip with
    | succ k =>
      rw [cutFrom] at hmem
      exact ih hmem
    | zero =>
      rw [cutFrom] at hmem
      split at hmem
      · rcases List.mem_cons.1 hmem with rfl | hmem
        · exact hnil
        · exact ih hmem
      · next hprefix =>
        obtain ⟨first, rest, hcut⟩ := List.exists_cons_of_ne_nil (cutFrom_ne_nil pattern 0 cs)
        rw [hcut] at hmem
        rcases List.mem_cons.1 hmem with rfl | hmem
        · -- an occurrence at the head of the piece would be one in the text, and be cut there
          intro hinfix
          rcases List.infix_cons_iff.1 hinfix with hhere | hlater
          · have hfirst : first <+: cs := prefix_of_cutFrom hcut
            have hstands : pattern <+: c :: cs :=
              hhere.trans ((List.prefix_cons_inj c).2 hfirst)
            exact hprefix (List.isPrefixOf_iff_prefix.2 hstands)
          · exact ih (hcut ▸ List.mem_cons_self) hlater
        · exact ih (hcut ▸ List.mem_cons_of_mem first hmem)

/-- The separator occurs in no piece. -/
theorem not_infix_of_mem_splitOn (hpattern : pattern ≠ []) {piece : List Char}
    (hmem : piece ∈ splitOn pattern text) : ¬ pattern <:+: piece :=
  not_infix_of_mem_cutFrom hpattern hmem

theorem join_eq_intercalate (glue : List Char) (pieces : List (List Char)) :
    join glue pieces = glue.intercalate pieces := by
  induction pieces with
  | nil => exact List.intercalate_nil.symm
  | cons p ps ih =>
    cases ps with
    | nil => exact List.intercalate_singleton.symm
    | cons q qs => rw [join, ih, List.intercalate_cons_cons]

end AtomScript.Text

import AtomScript.Text.Search
import Mathlib.Logic.Basic

/-!
# Replacing every occurrence

Replacement reads the text from the left.  Where the pattern begins, the replacement is written and
the pattern passed over; elsewhere the character is copied.  `replaceAll_append_of_not_begins` goes
over a whole stretch of text in which the pattern begins nowhere.
-/

namespace AtomScript.Text

variable {pattern replacement : List Char}

/-- The pattern begins somewhere in a stretch of text, to which `rest` is the continuation. -/
def beginsIn (pattern rest : List Char) : List Char → Bool
  | [] => false
  | c :: cs => pattern.isPrefixOf (c :: cs ++ rest) || beginsIn pattern rest cs

theorem cutFrom_eq_drop (separator : List Char) (skip : Nat) (cs : List Char) :
    cutFrom separator skip cs = cutFrom separator 0 (cs.drop skip) := by
  induction cs generalizing skip with
  | nil =>
    rw [List.drop_nil]
    rfl
  | cons c cs ih =>
    -- what is skipped is passed over character by character, so nothing is cut there
    cases skip with
    | zero => rfl
    | succ k =>
      rw [cutFrom, ih, List.drop_succ_cons]

/-- Where the pattern begins. -/
theorem replaceAll_append (hpattern : pattern ≠ []) (rest : List Char) :
    replaceAll pattern replacement (pattern ++ rest) =
      replacement ++ replaceAll pattern replacement rest := by
  obtain ⟨c, cs, rfl⟩ := List.exists_cons_of_ne_nil hpattern
  have hprefix : (c :: cs).isPrefixOf (c :: cs ++ rest) = true :=
    List.isPrefixOf_iff_prefix.2 (List.prefix_append _ _)
  -- the pattern is cut here, and the cut that follows skips the rest of it
  unfold replaceAll splitOn
  rw [List.cons_append, cutFrom, ← List.cons_append, if_pos hprefix, cutFrom_eq_drop,
    join_cons (cutFrom_ne_nil _ _ _), List.nil_append, List.length_cons, Nat.add_sub_cancel,
    List.drop_left]

/-- Where it does not. -/
theorem replaceAll_cons {c : Char} {cs : List Char}
    (hnot : pattern.isPrefixOf (c :: cs) = false) :
    replaceAll pattern replacement (c :: cs) = c :: replaceAll pattern replacement cs := by
  unfold replaceAll splitOn
  rw [cutFrom, if_neg (by rw [hnot]; exact Bool.false_ne_true),
    join_extendFirst (cutFrom_ne_nil _ _ _)]

theorem replaceAll_append_of_not_begins {cs rest : List Char}
    (hnot : beginsIn pattern rest cs = false) :
    replaceAll pattern replacement (cs ++ rest) =
      cs ++ replaceAll pattern replacement rest := by
  -- the stretch is copied character by character; `rest` matters only to where the pattern begins
  induction cs with
  | nil => rfl
  | cons c cs ih =>
    rw [beginsIn, Bool.or_eq_false_iff] at hnot
    have hhere : pattern.isPrefixOf (c :: (cs ++ rest)) = false := hnot.1
    rw [List.cons_append, replaceAll_cons hhere, ih hnot.2, List.cons_append]

end AtomScript.Text

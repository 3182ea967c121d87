import AtomScript.Proofs.Library.Sequence
import AtomScript.Proofs.Text.Occurrence

/-!
# Splitting a text

`String.split` is undone by joining, whatever the separator.  A separator that is not empty is found
from the left, as by `String.contains`, and each occurrence found ends a part; the empty separator
splits into characters.

* `Text.IsSplit` — what the parts are;
* `Native.perform_split` — `String.split` gives them in a new list.
-/

namespace AtomScript

namespace Text

/-- The parts of a text between the occurrences of a separator. -/
structure IsSplit (text separator : String) (parts : List String) : Prop where
  joined : separator.intercalate parts = text
  characters : separator = "" → parts = text.toList.map String.singleton
  parts_ne_nil : separator ≠ "" → parts ≠ []
  free : separator ≠ "" → ∀ part ∈ parts, ¬ separator.toList <:+: part.toList
  /-- The search from the left ends, and there is one part more than it finds. -/
  counted : separator ≠ "" → ∃ places, FoundFrom separator.toList text.toList 0 places ∧
    (∀ others, FoundFrom separator.toList text.toList 0 others → others = places) ∧
    parts.length = places.length + 1

variable {text separator : String}

theorem toList_ne_nil (h : separator ≠ "") : separator.toList ≠ [] := by
  intro hnil
  exact h (String.toList_eq_nil_iff.1 hnil)

theorem intercalate_characters (cs : List Char) :
    [].intercalate (cs.map fun c => [c]) = cs := by
  induction cs with
  | nil => rfl
  | cons c cs ih =>
    cases cs with
    | nil => rfl
    | cons d ds =>
      rw [List.map_cons] at ih
      rw [List.map_cons, List.map_cons, List.intercalate_cons_cons, ih]
      rfl

theorem toList_splitText (h : separator ≠ "") :
    (Native.splitText text separator).map String.toList =
      splitOn separator.toList text.toList := by
  have hempty : ¬ separator.isEmpty = true := by
    intro hempty
    exact h (String.isEmpty_iff.1 hempty)
  have hinverse : String.toList ∘ String.ofList = id := funext fun _ => String.toList_ofList
  unfold Native.splitText
  rw [if_neg hempty, List.map_map, hinverse, List.map_id]

theorem splitText_empty (text : String) :
    Native.splitText text "" = text.toList.map String.singleton :=
  rfl

/-- The empty separator splits into characters. -/
theorem isSplit_empty (text : String) : IsSplit text "" (Native.splitText text "") where
  joined := by
    have hinverse : (String.toList ∘ fun c => String.ofList [c]) = fun c => [c] :=
      funext fun _ => String.toList_ofList
    refine String.toList_inj.1 ?_
    rw [String.toList_intercalate]
    show [].intercalate ((text.toList.map fun c => String.ofList [c]).map String.toList) = _
    rw [List.map_map, hinverse, intercalate_characters]
  characters _ := splitText_empty text
  parts_ne_nil h := absurd rfl h
  free h := absurd rfl h
  counted h := absurd rfl h

theorem isSplit_splitText (text separator : String) :
    IsSplit text separator (Native.splitText text separator) := by
  by_cases hseparator : separator = ""
  · subst hseparator
    exact isSplit_empty text
  · have hne : separator.toList ≠ [] := toList_ne_nil hseparator
    have hpieces : (Native.splitText text separator).map String.toList =
        splitOn separator.toList text.toList := toList_splitText hseparator
    -- the separator has characters: the pieces are those between the places it is found at
    refine ⟨?_, fun h => absurd h hseparator, fun _ hnil => ?_, fun _ part hpart => ?_, fun _ => ?_⟩
    · refine String.toList_inj.1 ?_
      rw [String.toList_intercalate, hpieces, ← join_eq_intercalate, join_splitOn hne]
    · rw [hnil] at hpieces
      exact cutFrom_ne_nil _ _ _ hpieces.symm
    · have hmem : part.toList ∈ splitOn separator.toList text.toList :=
        hpieces ▸ List.mem_map_of_mem hpart
      exact not_infix_of_mem_splitOn hne hmem
    · obtain ⟨places, hfound, hlength⟩ := exists_foundFrom hne text.toList 0
      refine ⟨places, hfound, fun others hothers => hfound.unique hothers, ?_⟩
      rw [← List.length_map String.toList, hpieces]
      exact hlength

/-- There is more than one part exactly if the separator occurs in the text. -/
theorem IsSplit.one_lt_length_iff {parts : List String} (hparts : IsSplit text separator parts)
    (h : separator ≠ "") :
    1 < parts.length ↔ occursIn separator.toList text.toList = true := by
  obtain ⟨places, hfound, -, hlength⟩ := hparts.counted h
  have hnone := hfound.eq_nil_iff
  rw [occursIn_iff, hlength]
  calc
    1 < places.length + 1 ↔ places ≠ [] := by
      rw [Nat.lt_add_left_iff_pos, List.length_pos_iff]
    _ ↔ separator.toList <:+: text.toList := by
      rw [ne_eq, hnone, not_not]

end Text

namespace Native

/-- **Splitting is undone by joining.**  `String.split` puts the parts into a new list, and changes
nothing else.  Joined with the separator they are the text.  A separator that is not empty occurs in
none of them, and ends all but the last: there is one part more than there are occurrences found
from the left, so more than one exactly if `String.contains` finds one.  The empty separator leaves
the characters. -/
theorem perform_split (call : Caller) (limit : Nat) (st : State) (text separator : String) :
    ∃ parts, Text.IsSplit text separator parts ∧
      perform call limit (.text .split) [.string text, .string separator] st =
        (.value (.list st.heap.size),
          { st with heap := st.heap.push (.list (parts.map Value.string).toArray) }) ∧
      ∃ b, perform call limit (.text .contains) [.string text, .string separator] st =
          (.value (.boolean b), st) ∧
        (b = true ↔ separator.toList <:+: text.toList) ∧
        (separator ≠ "" → (1 < parts.length ↔ b = true)) := by
  have hparts := Text.isSplit_splitText text separator
  refine ⟨splitText text separator, hparts, rfl, Text.occursIn separator.toList text.toList, rfl,
    Text.occursIn_iff _ _, fun h => ?_⟩
  exact hparts.one_lt_length_iff h

/-- An occurrence that overlaps one found before it is not found. -/
example : splitText "aaa" "aa" = ["", "a"] := by decide

end Native

end AtomScript

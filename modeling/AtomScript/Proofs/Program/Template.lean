import AtomScript.Program.Template
import Mathlib.Logic.Basic

/-!
# Bodies and their markers

The body of a string literal is the text before its first marker, followed by each marker and the
text after it (`Template.split?`).  Escapes are decoded piece by piece: a backslash and the
character after it are never on two sides of a cut, for a marker ends with a brace, and the text
between markers is read in pairs.

* `Template.markersList?_eq` — the markers of the split are the markers of the body;
* `Template.eq_of_split?` — the split loses nothing;
* `Template.unescapeList_of_split?` — decoding the body decodes the pieces.
-/

namespace AtomScript.Template

/-! ### The split -/

/-- Text in front of the first piece. -/
def lead (cs : List Char) (parts : List Char × List (List Char × List Char)) :
    List Char × List (List Char × List Char) :=
  (cs ++ parts.1, parts.2)

/-- The text before the first marker, and for each marker what it encloses and the text after it;
`none` when the braces of a marker are never closed. -/
def split? (cs : List Char) : Option (List Char × List (List Char × List Char)) :=
  match cs with
  | [] => some ([], [])
  | '\\' :: [] => some (['\\'], [])
  | '\\' :: c :: cs => (split? cs).map (lead ['\\', c])
  | '#' :: '{' :: cs =>
    match h : balanced 0 cs with
    | none => none
    | some (inner, rest) =>
      have _ := balanced_length_lt h
      (split? rest).map fun parts => ([], (inner, parts.1) :: parts.2)
  | c :: cs => (split? cs).map (lead [c])
termination_by cs.length
decreasing_by all_goals simp_wf <;> omega

theorem markersList?_eq (cs : List Char) :
    markersList? cs = (split? cs).map fun parts => parts.2.map (·.1) := by
  -- both walks make the same case distinction, and only the split keeps the text between markers
  fun_induction split? cs with
  | case1 => simp [markersList?]
  | case2 => simp [markersList?]
  | case3 c cs ih =>
    rw [markersList?, ih, Option.map_map]
    rfl
  | case4 cs hnone =>
    rw [markersList?]
    split
    · rfl
    · next h => rw [hnone] at h; cases h
  | case5 cs inner rest hsome _ ih =>
    rw [markersList?]
    split
    · next h => rw [hsome] at h; cases h
    · next inner' rest' h =>
      rw [hsome] at h
      cases h
      rw [ih, Option.map_map, Option.map_map]
      rfl
  | case6 c cs h₁ h₂ h₃ ih =>
    rw [markersList?, ih, Option.map_map]
    · rfl
    · exact h₁
    · exact h₂
    · exact h₃

/-- What is enclosed, the brace, and what follows it. -/
theorem eq_of_balanced {depth : Nat} {cs inner rest : List Char}
    (h : balanced depth cs = some (inner, rest)) : cs = inner ++ '}' :: rest := by
  -- a brace that is not the last belongs to what is enclosed, whichever way it turns
  fun_induction balanced depth cs generalizing inner rest with
  | case1 => cases h
  | case2 cs =>
    cases h
    rfl
  | case3 cs d ih =>
    obtain ⟨⟨a, b⟩, hb, heq⟩ := Option.map_eq_some_iff.1 h
    cases heq
    rw [List.cons_append, ← ih hb]
  | case4 depth cs ih =>
    obtain ⟨⟨a, b⟩, hb, heq⟩ := Option.map_eq_some_iff.1 h
    cases heq
    rw [List.cons_append, ← ih hb]
  | case5 depth c cs _ _ ih =>
    obtain ⟨⟨a, b⟩, hb, heq⟩ := Option.map_eq_some_iff.1 h
    cases heq
    rw [List.cons_append, ← ih hb]

theorem marker_append (inner rest : List Char) :
    marker inner ++ rest = '#' :: '{' :: (inner ++ '}' :: rest) := by
  simp [marker]

/-- The pieces of a split, put together again. -/
def assemble (f : List Char → List Char) (parts : List Char × List (List Char × List Char)) :
    List Char :=
  f parts.1 ++ parts.2.flatMap fun part => f (marker part.1) ++ f part.2

/-- **The split loses nothing.** -/
theorem eq_of_split? {cs : List Char} {parts : List Char × List (List Char × List Char)}
    (h : split? cs = some parts) : cs = assemble id parts := by
  fun_induction split? cs generalizing parts with
  | case1 =>
    cases h
    rfl
  | case2 =>
    cases h
    rfl
  | case3 c cs ih =>
    -- the pair stays in front of the first piece
    obtain ⟨parts, hparts, rfl⟩ := Option.map_eq_some_iff.1 h
    rw [ih hparts]
    rfl
  | case4 cs hnone => cases h
  | case5 cs inner rest hsome _ ih =>
    obtain ⟨parts, hparts, rfl⟩ := Option.map_eq_some_iff.1 h
    -- the marker begins a piece of its own, and the text before it is empty
    rw [eq_of_balanced hsome, ← marker_append, ih hparts]
    simp [assemble]
  | case6 c cs h₁ h₂ h₃ ih =>
    obtain ⟨parts, hparts, rfl⟩ := Option.map_eq_some_iff.1 h
    rw [ih hparts]
    rfl

/-! ### Decoding the pieces -/

/-- No backslash begins a text that begins neither with a lone one nor with a pair. -/
theorem ne_backslash {c : Char} {cs : List Char} (hlone : c = '\\' → cs = [] → False)
    (hpair : ∀ d ds, c = '\\' → cs = d :: ds → False) : c ≠ '\\' := by
  intro hc
  cases cs with
  | nil => exact hlone hc rfl
  | cons d ds => exact hpair d ds hc rfl

/-- A character that is no backslash stands for itself. -/
theorem unescapeList_cons {c : Char} (hc : c ≠ '\\') (cs : List Char) :
    unescapeList (c :: cs) = c :: unescapeList cs := by
  rw [unescapeList]
  · exact fun h _ => hc h
  · exact fun _ _ h _ => hc h

/-- A brace ends what precedes it, escaped or not. -/
theorem unescapeList_append_brace (cs rest : List Char) :
    unescapeList (cs ++ '}' :: rest) = unescapeList (cs ++ ['}']) ++ unescapeList rest := by
  fun_induction unescapeList cs with
  | case1 =>
    rw [List.nil_append, List.nil_append, unescapeList_cons (by decide),
      unescapeList_cons (by decide)]
    rfl
  | case2 =>
    -- a backslash at the end of the text escapes the brace
    change escaped '}' ++ unescapeList rest = (escaped '}' ++ []) ++ unescapeList rest
    rw [List.append_nil]
  | case3 c cs ih =>
    -- a pair is decoded as a whole, so the brace is not part of it
    change escaped c ++ unescapeList (cs ++ '}' :: rest) =
      (escaped c ++ unescapeList (cs ++ ['}'])) ++ unescapeList rest
    rw [ih, List.append_assoc]
  | case4 c cs h₁ h₂ ih =>
    have hc := ne_backslash h₁ h₂
    rw [List.cons_append, List.cons_append, unescapeList_cons hc, unescapeList_cons hc, ih,
      List.cons_append]

/-- The marker around a text, decoded. -/
def decodedMarker (inner : List Char) : List Char :=
  unescapeList (marker inner)

theorem decodedMarker_ne_nil (inner : List Char) : decodedMarker inner ≠ [] := by
  unfold decodedMarker marker
  rw [List.cons_append, unescapeList_cons (by decide)]
  exact List.cons_ne_nil _ _

theorem unescapeList_marker_append (inner rest : List Char) :
    unescapeList (marker inner ++ rest) = unescapeList (marker inner) ++ unescapeList rest := by
  have h := unescapeList_append_brace ('#' :: '{' :: inner) rest
  rw [marker_append]
  exact h

/-- **Decoding the body decodes the pieces.** -/
theorem unescapeList_of_split? {cs : List Char} {parts : List Char × List (List Char × List Char)}
    (h : split? cs = some parts) : unescapeList cs = assemble unescapeList parts := by
  fun_induction split? cs generalizing parts with
  | case1 =>
    cases h
    rfl
  | case2 =>
    cases h
    rfl
  | case3 c cs ih =>
    -- the two characters of the pair are never on two sides of a cut
    obtain ⟨parts, hparts, rfl⟩ := Option.map_eq_some_iff.1 h
    change escaped c ++ unescapeList cs = (escaped c ++ unescapeList parts.1) ++ _
    rw [ih hparts, List.append_assoc]
    rfl
  | case4 cs hnone => cases h
  | case5 cs inner rest hsome _ ih =>
    -- the closing brace separates the decoding of the marker from that of what follows
    obtain ⟨parts, hparts, rfl⟩ := Option.map_eq_some_iff.1 h
    rw [eq_of_balanced hsome, ← marker_append, unescapeList_marker_append, ih hparts]
    simp [assemble, unescapeList]
  | case6 c cs h₁ h₂ h₃ ih =>
    obtain ⟨parts, hparts, rfl⟩ := Option.map_eq_some_iff.1 h
    have hc := ne_backslash h₁ h₂
    unfold assemble lead
    rw [List.singleton_append, unescapeList_cons hc, unescapeList_cons hc, ih hparts,
      List.cons_append]
    rfl

/-! ### Plain texts -/

theorem markersList?_of_plain {cs : List Char} (h : ∀ c ∈ cs, c ≠ '\\' ∧ c ≠ '#') :
    markersList? cs = some [] := by
  induction cs with
  | nil => rw [markersList?]
  | cons c cs ih =>
    obtain ⟨⟨hbackslash, hhash⟩, hcs⟩ := List.forall_mem_cons.1 h
    rw [markersList?, ih hcs]
    · exact fun h _ => hbackslash h
    · exact fun _ _ h _ => hbackslash h
    · exact fun _ h _ => hhash h

theorem unescapeList_of_plain {cs : List Char} (h : ∀ c ∈ cs, c ≠ '\\') :
    unescapeList cs = cs := by
  induction cs with
  | nil => rfl
  | cons c cs ih =>
    obtain ⟨hbackslash, hcs⟩ := List.forall_mem_cons.1 h
    rw [unescapeList_cons hbackslash, ih hcs]

end AtomScript.Template

/-!
# Searching and cutting text

One text occurs in another, a text is cut at every occurrence of a separator, every occurrence of a
pattern is replaced.  Occurrences are found from the left and do not overlap.

* `join_splitOn` — joining the pieces with the separator gives the text back.
-/

namespace AtomScript.Text

/-- `pattern` occurs somewhere in the text. -/
def occursIn (pattern : List Char) : List Char → Bool
  | [] => pattern.isEmpty
  | c :: cs => pattern.isPrefixOf (c :: cs) || occursIn pattern cs

/-- Puts a character in front of the first piece. -/
def extendFirst (c : Char) : List (List Char) → List (List Char)
  | [] => [[c]]
  | p :: ps => (c :: p) :: ps

/-- Cuts the text at every occurrence of `separator`; `skip` characters of an occurrence already
found are still to be passed over. -/
def cutFrom (separator : List Char) (skip : Nat) : List Char → List (List Char)
  | [] => [[]]
  | c :: cs =>
    match skip with
    | k + 1 => cutFrom separator k cs
    | 0 =>
      if separator.isPrefixOf (c :: cs) then [] :: cutFrom separator (separator.length - 1) cs
      else extendFirst c (cutFrom separator 0 cs)

/-- The pieces of the text between the occurrences of a separator that is not empty. -/
def splitOn (separator text : List Char) : List (List Char) :=
  cutFrom separator 0 text

/-- The pieces with `glue` between neighbours. -/
def join (glue : List Char) : List (List Char) → List Char
  | [] => []
  | [p] => p
  | p :: q :: ps => p ++ glue ++ join glue (q :: ps)

theorem cutFrom_ne_nil (separator : List Char) (skip : Nat) (cs : List Char) :
    cutFrom separator skip cs ≠ [] := by
  induction cs generalizing skip with
  | nil => simp [cutFrom]
  | cons c cs ih =>
    cases skip with
    | succ k => simpa [cutFrom] using ih k
    | zero =>
      simp only [cutFrom]
      split
      · simp
      · cases cutFrom separator 0 cs <;> simp [extendFirst]

theorem join_cons {glue : List Char} {p : List Char} {ps : List (List Char)} (h : ps ≠ []) :
    join glue (p :: ps) = p ++ glue ++ join glue ps := by
  cases ps with
  | nil => exact absurd rfl h
  | cons q qs => rfl

theorem join_extendFirst {glue : List Char} {c : Char} {ps : List (List Char)} (h : ps ≠ []) :
    join glue (extendFirst c ps) = c :: join glue ps := by
  match ps with
  | [] => exact absurd rfl h
  | [p] => rfl
  | p :: q :: ps => simp [extendFirst, join]

theorem join_cutFrom {separator : List Char} (hs : separator ≠ []) (skip : Nat) (cs : List Char) :
    join separator (cutFrom separator skip cs) = cs.drop skip := by
  induction cs generalizing skip with
  | nil => simp [cutFrom, join]
  | cons c cs ih =>
    cases skip with
    | succ k => simpa [cutFrom] using ih k
    | zero =>
      simp only [cutFrom]
      split
      · next h =>
        obtain ⟨rest, hr⟩ := List.isPrefixOf_iff_prefix.1 h
        obtain ⟨s, ss, rfl⟩ := List.exists_cons_of_ne_nil hs
        simp only [List.cons_append, List.cons.injEq] at hr
        rw [join_cons (cutFrom_ne_nil _ _ _), ih]
        simp [← hr.1, ← hr.2]
      · rw [join_extendFirst (cutFrom_ne_nil _ _ _), ih]
        simp

/-- **Cutting loses nothing.**  The pieces, joined with the separator, are the text. -/
theorem join_splitOn {separator : List Char} (hs : separator ≠ []) (text : List Char) :
    join separator (splitOn separator text) = text := by
  simpa [splitOn] using join_cutFrom hs 0 text

/-- Every occurrence of a pattern that is not empty gives way to `replacement`. -/
def replaceAll (pattern replacement text : List Char) : List Char :=
  join replacement (splitOn pattern text)

/-- `replaceAll` on texts. -/
def substitute (text pattern replacement : String) : String :=
  String.ofList (replaceAll pattern.toList replacement.toList text.toList)

end AtomScript.Text

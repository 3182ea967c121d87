import AtomScript.Program.Parser
import AtomScript.Proofs.Program.Template

/-!
# String literals as they are read

A string token is read to an expression that holds its decoded body and, for each marker, the
decoded marker with the expression inside.
-/

namespace AtomScript

open Template

namespace Parser

variable {α β : Type} {x : Parser α} {f : α → Parser β} {ts rest : List Token}

theorem exists_of_bind {b : β} (h : (x >>= f) ts = .done b rest) :
    ∃ a mid, x ts = .done a mid ∧ f a mid = .done b rest := by
  change Parser.bind x f ts = _ at h
  unfold Parser.bind at h
  cases hx : x ts with
  | done a mid =>
    rw [hx] at h
    exact ⟨a, mid, rfl, h⟩
  | refused e =>
    rw [hx] at h
    cases h
  | exhausted =>
    rw [hx] at h
    cases h
  | overflowed =>
    rw [hx] at h
    cases h

/-- The fragments are the markers of the literal, in order, and there is an expression for each. -/
theorem fragments_of_holes {n : Nat} {p : Position} {inners fragments : List String}
    {expressions : List Expr} (h : holes n p inners ts = .done (fragments, expressions) rest) :
    fragments = (inners.map fun inner => unescape (markerText inner)) ∧
      expressions.length = inners.length := by
  -- one unit of fuel for each marker, so the induction on the fuel goes along the markers
  induction n generalizing inners ts fragments expressions rest with
  | zero =>
    unfold holes at h
    cases h
  | succ n ih =>
    cases inners with
    | nil =>
      unfold holes at h
      cases h
      exact ⟨rfl, rfl⟩
    | cons inner inners =>
      unfold holes at h
      cases htokens : tokenize (unescape inner) with
      | error e =>
        simp only [htokens] at h
        -- a marker that cannot be cut into tokens fails the whole literal
        obtain ⟨own, mid, hfail, -⟩ := exists_of_bind h
        cases hfail
      | ok own =>
        simp only [htokens] at h
        obtain ⟨own', mid, -, h⟩ := exists_of_bind h
        obtain ⟨stmts, mid', -, h⟩ := exists_of_bind h
        -- only a single expression may stand in a marker
        split at h
        · obtain ⟨⟨fragments', expressions'⟩, mid'', hmore, hlast⟩ := exists_of_bind h
          cases hlast
          obtain ⟨hfragments, hlength⟩ := ih hmore
          exact ⟨congrArg _ hfragments, congrArg Nat.succ hlength⟩
        · cases h

theorem inners_of_markers? {body : String} {inners : List String}
    (h : markers? body = some inners) :
    ∃ parts, split? body.toList = some parts ∧
      inners = parts.2.map fun part => String.ofList part.1 := by
  unfold markers? at h
  rw [markersList?_eq, Option.map_map] at h
  obtain ⟨parts, hparts, rfl⟩ := Option.map_eq_some_iff.1 h
  refine ⟨parts, hparts, ?_⟩
  rw [Function.comp_apply, List.map_map]
  rfl

/-- The holes of a string token are read from what its markers enclose. -/
theorem holes_of_primary {n : Nat} {t : Token} {e : Expr} (ht : t.kind = .string)
    (h : primary n (t :: ts) = .done e rest) :
    ∃ m inners fragments expressions, markers? t.text = some inners ∧
      holes m t.position inners ts = .done (fragments, expressions) rest ∧
      e = .string (unescape t.text) fragments expressions := by
  cases n with
  | zero =>
    unfold primary at h
    cases h
  | succ n =>
    unfold primary at h
    -- the token is looked at, and its kind decides how it is read
    obtain ⟨kind, mid, hkind, h⟩ := exists_of_bind h
    have hpeek : peekKind (t :: ts) = .done t.kind (t :: ts) := rfl
    rw [hpeek] at hkind
    cases hkind
    simp only [ht] at h
    obtain ⟨t', mid', hadvance, h⟩ := exists_of_bind h
    cases hadvance
    -- braces that are never closed are an error
    cases hm : markers? t.text with
    | none =>
      simp only [List.headD_cons, hm] at h
      cases h
    | some inners =>
      simp only [List.headD_cons, hm] at h
      obtain ⟨⟨fragments, expressions⟩, mid'', hfilled, hlast⟩ := exists_of_bind h
      cases hlast
      exact ⟨n, inners, fragments, expressions, rfl, hfilled, rfl⟩

/-- **A string token** is read to its decoded body, with one hole for each marker. -/
theorem literal_of_primary {n : Nat} {t : Token} {e : Expr} (ht : t.kind = .string)
    (h : primary n (t :: ts) = .done e rest) :
    ∃ parts fragments expressions, split? t.text.toList = some parts ∧
      e = .string (unescape t.text) fragments expressions ∧
      fragments.map String.toList = (parts.2.map fun part => decodedMarker part.1) ∧
      expressions.length = parts.2.length := by
  obtain ⟨m, inners, fragments, expressions, hm, hfilled, rfl⟩ := holes_of_primary ht h
  obtain ⟨parts, hparts, rfl⟩ := inners_of_markers? hm
  obtain ⟨rfl, hlength⟩ := fragments_of_holes hfilled
  refine ⟨parts, _, expressions, hparts, rfl, ?_, by rw [hlength, List.length_map]⟩
  rw [List.map_map, List.map_map]
  refine List.map_congr_left fun part _ => ?_
  simp [unescape, markerText, decodedMarker]

end Parser

end AtomScript

import AtomScript.Proofs.Eval.Run
import AtomScript.Proofs.Program.Literal
import AtomScript.Proofs.Text.Replace
import Mathlib

/-!
# Interpolation

The markers of a string are replaced one after the other, each *everywhere* in the text as it then
stands: also where another marker of the same text stands, but also where literal text, or the text
of a value, or another marker happens to spell it.  So the text is followed here as a list of pieces
(`Piece`), some of them markers still to be replaced, and `undisturbed` says that each marker's
text, when its turn comes, begins nowhere but where a marker with this text stands.  Then the
replacements are what they seem to be (`evalExpr_interpolation`): every marker has given way to the
text of its own value, and nothing else has changed.  Without this condition they are not
(`interpolation_disturbed`).

* `Piece.replaceAll_flatten` — one replacement;
* `fillHoles_of_undisturbed` — all of them, by induction on the markers;
* `Template.flatten_fillAll_pieces` — what the pieces come to.
-/

namespace AtomScript

open Eval Template Text

/-- A piece of a text in which markers are replaced. -/
inductive Piece where
  /-- Text that is to stay. -/
  | text (cs : List Char)
  /-- A marker that is still to be replaced. -/
  | marker (cs : List Char)
  deriving DecidableEq

namespace Piece

def chars : Piece → List Char
  | text cs | marker cs => cs

/-- A marker with the text `m` gives way to `t`. -/
def fill (m t : List Char) : Piece → Piece
  | marker cs => if cs = m then text t else marker cs
  | p => p

/-- The text that the pieces make up. -/
def flatten (ps : List Piece) : List Char := ps.flatMap chars

/-- The text `m` begins nowhere but where a marker with this text stands. -/
def standsAlone (m : List Char) : List Piece → Bool
  | [] => true
  | p :: ps => (p == marker m || !beginsIn m (flatten ps) p.chars) && standsAlone m ps

/-- The pieces after each of the given markers has given way to its text, in order. -/
def fillAll : List Piece → List (List Char × List Char) → List Piece
  | ps, [] => ps
  | ps, (m, t) :: fillings => fillAll (ps.map (fill m t)) fillings

/-- Each marker's text, when its turn comes, stands alone. -/
def undisturbed : List Piece → List (List Char × List Char) → Bool
  | _, [] => true
  | ps, (m, t) :: fillings => standsAlone m ps && undisturbed (ps.map (fill m t)) fillings

variable {ps : List Piece} {m t : List Char} {fillings : List (List Char × List Char)}

theorem flatten_cons (p : Piece) (ps : List Piece) : flatten (p :: ps) = p.chars ++ flatten ps :=
  List.flatMap_cons

/-- **One replacement** fills the markers that have the text, and changes nothing else. -/
theorem replaceAll_flatten (hm : m ≠ []) (halone : standsAlone m ps = true) :
    replaceAll m t (flatten ps) = flatten (ps.map (fill m t)) := by
  induction ps with
  | nil => rfl
  | cons p ps ih =>
    rw [standsAlone, Bool.and_eq_true, Bool.or_eq_true] at halone
    obtain ⟨hp, hps⟩ := halone
    rw [List.map_cons, flatten_cons, flatten_cons, ← ih hps]
    -- either the piece is a marker with this text and gives way, or the text begins nowhere in it
    by_cases hmarker : p = marker m
    · subst hmarker
      have hfill : fill m t (marker m) = text t := if_pos rfl
      rw [hfill]
      exact replaceAll_append hm _
    · have hfill : fill m t p = p := by
        cases p with
        | text cs => rfl
        | marker cs => exact if_neg fun heq => hmarker (by rw [heq])
      rw [hfill]
      refine replaceAll_append_of_not_begins ?_
      -- the first way out would make the piece such a marker after all
      rcases hp with hp | hp
      · exact absurd (beq_iff_eq.1 hp) hmarker
      · rwa [Bool.not_eq_true'] at hp

/-! ### What the pieces come to -/

theorem fillAll_append (ps qs : List Piece) (fillings : List (List Char × List Char)) :
    fillAll (ps ++ qs) fillings = fillAll ps fillings ++ fillAll qs fillings := by
  induction fillings generalizing ps qs with
  | nil => rfl
  | cons f fillings ih =>
    rw [fillAll, fillAll, fillAll, List.map_append, ih]

theorem fillAll_nil (fillings : List (List Char × List Char)) : fillAll [] fillings = [] := by
  induction fillings with
  | nil => rfl
  | cons f fillings ih => exact ih

theorem fillAll_text (cs : List Char) : fillAll [text cs] fillings = [text cs] := by
  induction fillings with
  | nil => rfl
  | cons f fillings ih => exact ih

theorem flatten_append (ps qs : List Piece) : flatten (ps ++ qs) = flatten ps ++ flatten qs :=
  List.flatMap_append

/-- A marker gets the text that goes with it, if all markers with its text get the same. -/
theorem fillAll_marker (hmem : (m, t) ∈ fillings)
    (hsame : ∀ f ∈ fillings, f.1 = m → f.2 = t) : fillAll [marker m] fillings = [text t] := by
  induction fillings with
  | nil => cases hmem
  | cons f fillings ih =>
    obtain ⟨m', t'⟩ := f
    -- the first filling with the marker's text fills it, and then it is text and stays
    by_cases hm : m = m'
    · have ht : t' = t := hsame (m', t') List.mem_cons_self hm.symm
      have hfill : fill m' t' (marker m) = text t := by rw [fill, if_pos hm, ht]
      rw [fillAll, List.map_singleton, hfill]
      exact fillAll_text t
    · have hfill : fill m' t' (marker m) = marker m := if_neg hm
      rw [fillAll, List.map_singleton, hfill]
      refine ih ?_ fun f hf => hsame f (List.mem_cons_of_mem _ hf)
      rcases List.mem_cons.1 hmem with heq | hmem
      · exact absurd (Prod.mk.inj heq).1 hm
      · exact hmem

end Piece

/-! ### The pieces of a literal -/

/-- A marker and the text after it. -/
def Template.markerPieces (part : List Char × List Char) : List Piece :=
  [.marker (decodedMarker part.1), .text (unescapeList part.2)]

/-- The pieces that a literal starts with. -/
def Template.pieces (parts : List Char × List (List Char × List Char)) : List Piece :=
  .text (unescapeList parts.1) :: parts.2.flatMap markerPieces

/-- The markers of a literal, each with the text that is to take its place. -/
def Template.fillings (parts : List Char × List (List Char × List Char)) (texts : List String) :
    List (List Char × List Char) :=
  (parts.2.zip texts).map fun p => (decodedMarker p.1.1, p.2.toList)

/-- The literal with each marker replaced by its own text. -/
def Template.weave (parts : List Char × List (List Char × List Char)) (texts : List String) :
    List Char :=
  unescapeList parts.1 ++ (parts.2.zip texts).flatMap fun p => p.2.toList ++ unescapeList p.1.2

namespace Template

variable {parts : List Char × List (List Char × List Char)} {texts : List String}

theorem flatten_pieces (parts : List Char × List (List Char × List Char)) :
    Piece.flatten (pieces parts) = assemble unescapeList parts := by
  obtain ⟨lit, parts⟩ := parts
  unfold pieces assemble Piece.flatten
  rw [List.flatMap_cons, List.flatMap_assoc]
  simp [markerPieces, Piece.chars, decodedMarker]

theorem flatten_fillAll_markers {fs : List (List Char × List Char)}
    (hsame : ∀ f ∈ fs, ∀ g ∈ fs, f.1 = g.1 → f.2 = g.2) {more : List (List Char × List Char)}
    (hlen : texts.length = more.length)
    (hmem : ∀ p ∈ more.zip texts, (decodedMarker p.1.1, p.2.toList) ∈ fs) :
    Piece.flatten (Piece.fillAll (more.flatMap markerPieces) fs) =
      (more.zip texts).flatMap fun p => p.2.toList ++ unescapeList p.1.2 := by
  induction more generalizing texts with
  | nil =>
    rw [List.flatMap_nil, Piece.fillAll_nil]
    rfl
  | cons part more ih =>
    cases texts with
    | nil => cases hlen
    | cons t texts =>
      -- its own text is among the fillings, and all others with this text agree with it
      have hhere : (decodedMarker part.1, t.toList) ∈ fs := hmem _ List.mem_cons_self
      have hfilled : Piece.fillAll (markerPieces part) fs =
          [.text t.toList, .text (unescapeList part.2)] := by
        change Piece.fillAll ([.marker (decodedMarker part.1)] ++ [.text _]) fs = _
        rw [Piece.fillAll_append, Piece.fillAll_text,
          Piece.fillAll_marker hhere fun f hf heq => hsame f hf _ hhere heq]
        rfl
      rw [List.flatMap_cons, Piece.fillAll_append, Piece.flatten_append, hfilled,
        ih (Nat.succ.inj hlen) fun p hp => hmem p (List.mem_cons_of_mem _ hp)]
      simp [Piece.flatten, Piece.chars]

/-- **What the pieces come to**, when markers of the same text have the same to give way to. -/
theorem flatten_fillAll_pieces (hlen : texts.length = parts.2.length)
    (hsame : ∀ f ∈ fillings parts texts, ∀ g ∈ fillings parts texts, f.1 = g.1 → f.2 = g.2) :
    Piece.flatten (Piece.fillAll (pieces parts) (fillings parts texts)) = weave parts texts := by
  have hmem : ∀ p ∈ parts.2.zip texts,
      (decodedMarker p.1.1, p.2.toList) ∈ fillings parts texts := fun p hp =>
    List.mem_map_of_mem (f := fun p => (decodedMarker p.1.1, p.2.toList)) hp
  change Piece.flatten (Piece.fillAll ([.text _] ++ parts.2.flatMap markerPieces) _) = _
  rw [Piece.fillAll_append, Piece.fillAll_text, Piece.flatten_append,
    flatten_fillAll_markers hsame hlen hmem]
  simp [weave, Piece.flatten, Piece.chars]

end Template

/-! ### The replacements -/

/-- **All replacements**, by induction on the markers: what each expression comes to is known, and
the text as it stands is that of the pieces. -/
theorem fillHoles_of_undisturbed {eval : Expr → Eval Value} {b : Bounds} {st after : State}
    {fragments texts : List String} {expressions : List Expr} {ps : List Piece}
    (hlen : fragments.length = expressions.length)
    (hne : ∀ fragment ∈ fragments, fragment.toList ≠ [])
    (hrun : mapAll (fun e => eval e >>= rawText) expressions b st = (.value texts, after))
    (hclear : Piece.undisturbed ps
      ((fragments.zip texts).map fun p => (p.1.toList, p.2.toList)) = true) :
    fillHoles eval (String.ofList (Piece.flatten ps)) fragments expressions b st =
      (.value (String.ofList (Piece.flatten (Piece.fillAll ps
        ((fragments.zip texts).map fun p => (p.1.toList, p.2.toList))))), after) := by
  -- the text and the pieces change with each replacement, the state with each evaluation
  induction fragments generalizing expressions ps st texts with
  | nil =>
    obtain rfl := List.length_eq_zero_iff.1 hlen.symm
    cases hrun
    rfl
  | cons m fragments ih =>
    obtain ⟨e, expressions, rfl⟩ := List.exists_cons_of_length_eq_add_one hlen.symm
    unfold mapAll at hrun
    obtain ⟨t, mid, htext, hrest⟩ := exists_of_bind hrun
    obtain ⟨ts, last, htexts, hlast⟩ := exists_of_bind hrest
    cases hlast
    obtain ⟨v, mid', hv, hraw⟩ := exists_of_bind htext
    rw [List.zip_cons_cons, List.map_cons, Piece.undisturbed, Bool.and_eq_true] at hclear
    -- one step: the replacement in the text is the filling of the pieces
    have hstep : substitute (String.ofList (Piece.flatten ps)) m t =
        String.ofList (Piece.flatten (ps.map (Piece.fill m.toList t.toList))) := by
      unfold substitute
      rw [String.toList_ofList,
        Piece.replaceAll_flatten (hne _ List.mem_cons_self) hclear.1]
    unfold fillHoles
    rw [bind_of_value hv, bind_of_value hraw, hstep,
      ih (Nat.succ.inj hlen) (fun fragment hmem => hne fragment (List.mem_cons_of_mem _ hmem))
        htexts hclear.2]
    rfl

/-! ### String literals -/

/-- The texts of the values of the expressions, evaluated from left to right. -/
def renderHoles (n : Nat) (s : ScopeId) (expressions : List Expr) : Eval (List String) :=
  mapAll (fun e => evalExpr n s e >>= rawText) expressions

/-- Markers of the same text have the same text to give way to. -/
def Template.Consistent (parts : List Char × List (List Char × List Char))
    (texts : List String) : Prop :=
  ∀ f ∈ fillings parts texts, ∀ g ∈ fillings parts texts, f.1 = g.1 → f.2 = g.2

theorem length_of_mapAll {α β : Type} {f : α → Eval β} {as : List α} {bs : List β} {b : Bounds}
    {st after : State} (h : mapAll f as b st = (.value bs, after)) : bs.length = as.length := by
  induction as generalizing bs st with
  | nil =>
    cases h
    rfl
  | cons a as ih =>
    unfold mapAll at h
    obtain ⟨c, mid, -, hrest⟩ := exists_of_bind h
    obtain ⟨cs, last, hcs, hlast⟩ := exists_of_bind hrest
    cases hlast
    rw [List.length_cons, List.length_cons, ih hcs]

theorem fillings_of_fragments {parts : List Char × List (List Char × List Char)}
    {fragments texts : List String}
    (hmarkers : fragments.map String.toList = parts.2.map fun part => decodedMarker part.1) :
    ((fragments.zip texts).map fun p => (p.1.toList, p.2.toList)) = fillings parts texts := by
  have hfragments : ((fragments.zip texts).map fun p => (p.1.toList, p.2.toList)) =
      (fragments.map String.toList).zip (texts.map String.toList) := by
    rw [List.zip_map]
    rfl
  have hparts : fillings parts texts =
      (parts.2.map fun part => decodedMarker part.1).zip (texts.map String.toList) := by
    rw [List.zip_map]
    rfl
  rw [hfragments, hparts, hmarkers]

/-- **Interpolation.**  A string token that can be read is split at its markers, and it is read to
one fragment and one expression for each.  If the values of the expressions, from left to right,
have the given texts, the same for markers of the same text, and no marker's text is met, when its
turn comes, anywhere but where such a marker stands, then the value of the literal is its text with
each marker replaced by the text of its own value, and with the escapes of the rest decoded. -/
theorem evalExpr_interpolation (n : Nat) (t : Token) (ts rest : List Token) (e : Expr)
    (ht : t.kind = .string) (hread : Parser.primary n (t :: ts) = .done e rest) :
    ∃ parts fragments expressions, split? t.text.toList = some parts ∧
      t.text.toList = assemble id parts ∧
      e = .string (unescape t.text) fragments expressions ∧
      fragments.length = parts.2.length ∧ expressions.length = parts.2.length ∧
      ∀ (k : Nat) (s : ScopeId) (b : Bounds) (st after : State) (texts : List String),
        renderHoles k s expressions b st = (.value texts, after) → Consistent parts texts →
        Piece.undisturbed (pieces parts) (fillings parts texts) = true →
        evalExpr (k + 1) s e b st =
          (.value (.string (String.ofList (weave parts texts))), after) := by
  obtain ⟨parts, fragments, expressions, hparts, rfl, hmarkers, hlen⟩ :=
    Parser.literal_of_primary ht hread
  have hfragments : fragments.length = parts.2.length := by
    simpa using congrArg List.length hmarkers
  refine ⟨parts, fragments, expressions, hparts, eq_of_split? hparts, rfl, hfragments, hlen, ?_⟩
  intro k s b st after texts hrun hsame hclear
  -- markers are never empty, so every one of them can be replaced
  have hne : ∀ fragment ∈ fragments, fragment.toList ≠ [] := by
    intro fragment hfragment
    have hmem : fragment.toList ∈ parts.2.map fun part => decodedMarker part.1 :=
      hmarkers ▸ List.mem_map_of_mem (f := String.toList) hfragment
    obtain ⟨part, -, heq⟩ := List.mem_map.1 hmem
    exact heq ▸ decodedMarker_ne_nil part.1
  -- the evaluator starts with the decoded body, which is what the pieces start with
  have hraw : unescape t.text = String.ofList (Piece.flatten (pieces parts)) := by
    unfold unescape
    rw [unescapeList_of_split? hparts, flatten_pieces]
  have hfill := fillHoles_of_undisturbed (hfragments.trans hlen.symm) hne hrun
    (fillings_of_fragments hmarkers ▸ hclear)
  rw [fillings_of_fragments hmarkers,
    flatten_fillAll_pieces ((length_of_mapAll hrun).trans hlen) hsame] at hfill
  rw [evalExpr, hraw, bind_of_value hfill]
  rfl

theorem rawText_atom (name : String) (b : Bounds) (st : State) :
    rawText (.atom name) b st = (.value (":" ++ name), st) := by
  change (Ending.value (st.heap.inspectFrom [] (.atom name)), st) = _
  rw [Heap.inspectFrom]
  rfl

theorem renderHoles_atoms (n : Nat) (s : ScopeId) (names : List String) (b : Bounds)
    (st : State) :
    renderHoles (n + 1) s (names.map .atom) b st =
      (.value (names.map fun name => ":" ++ name), st) := by
  unfold renderHoles
  induction names with
  | nil => rfl
  | cons name names ih =>
    -- an atom evaluates to itself and shows its name
    have hhere : (evalExpr (n + 1) s (.atom name) >>= rawText) b st =
        (.value (":" ++ name), st) := by
      rw [evalExpr]
      exact rawText_atom name b st
    rw [List.map_cons, mapAll, bind_of_value hhere, bind_of_value ih]
    rfl

/-- A tab between markers, one of which stands twice. -/
theorem evalExpr_interpolation_atoms :
    ∃ e, Parser.primary 40 [⟨.string, "#\x7b:a\x7d\\t#\x7b:b\x7d#\x7b:a\x7d", .nowhere⟩] =
        .done e [] ∧
      evalExpr 2 globalScope e ⟨8, none⟩ .initial = (.value (.string ":a\t:b:a"), .initial) := by
  let parts := (([] : List Char),
    [([':', 'a'], ['\\', 't']), ([':', 'b'], []), ([':', 'a'], [])])
  have hread : Parser.primary 40
      [⟨.string, "#\x7b:a\x7d\\t#\x7b:b\x7d#\x7b:a\x7d", .nowhere⟩] =
      .done (.string "#\x7b:a\x7d\t#\x7b:b\x7d#\x7b:a\x7d"
        ["#\x7b:a\x7d", "#\x7b:b\x7d", "#\x7b:a\x7d"] (["a", "b", "a"].map .atom)) [] := by
    cbv
  obtain ⟨parts', fragments, expressions, hparts, -, heq, -, -, hall⟩ :=
    evalExpr_interpolation 40 _ [] [] _ rfl hread
  -- the fragments of one marker are alike, so the texts are put in consistently
  have hsplit : split? "#\x7b:a\x7d\\t#\x7b:b\x7d#\x7b:a\x7d".toList = some parts := by
    decide +kernel
  obtain rfl : parts = parts' := Option.some.inj (hsplit.symm.trans hparts)
  obtain ⟨-, rfl, rfl⟩ := Expr.string.inj heq
  have hrun := renderHoles_atoms 0 globalScope ["a", "b", "a"] ⟨8, none⟩ .initial
  have hvalue := hall 1 globalScope ⟨8, none⟩ .initial .initial [":a", ":b", ":a"] hrun
    (by unfold Consistent; decide +kernel) (by decide +kernel)
  have hweave : String.ofList (weave parts [":a", ":b", ":a"]) = ":a\t:b:a" := by decide +kernel
  exact ⟨_, hread, hweave ▸ hvalue⟩

/-- **A disturbed replacement.**  In `\#{:b}#{:b}` the first marker is protected by its backslash,
and still gives way when the second is replaced: markers are not always replaced by their own values
and nothing else. -/
theorem interpolation_disturbed :
    ¬ ∀ (n : Nat) (t : Token) (ts rest : List Token) (e : Expr), t.kind = .string →
      Parser.primary n (t :: ts) = .done e rest →
      ∃ parts fragments expressions, split? t.text.toList = some parts ∧
        e = .string (unescape t.text) fragments expressions ∧
        ∀ (k : Nat) (s : ScopeId) (b : Bounds) (st after : State) (texts : List String),
          renderHoles k s expressions b st = (.value texts, after) → Consistent parts texts →
          evalExpr (k + 1) s e b st =
            (.value (.string (String.ofList (weave parts texts))), after) := by
  intro h
  let parts := (['\\', '#', '\x7b', ':', 'b', '\x7d'], [([':', 'b'], ([] : List Char))])
  have hread : Parser.primary 40 [⟨.string, "\\#\x7b:b\x7d#\x7b:b\x7d", .nowhere⟩] =
      .done (.string "\\#\x7b:b\x7d#\x7b:b\x7d" ["#\x7b:b\x7d"] (["b"].map .atom)) [] := by
    cbv
  obtain ⟨parts', fragments, expressions, hparts, heq, hall⟩ := h 40 _ [] [] _ rfl hread
  have hsplit : split? "\\#\x7b:b\x7d#\x7b:b\x7d".toList = some parts := by decide +kernel
  obtain rfl : parts = parts' := Option.some.inj (hsplit.symm.trans hparts)
  obtain ⟨-, rfl, rfl⟩ := Expr.string.inj heq
  have hrun := renderHoles_atoms 0 globalScope ["b"] ⟨8, none⟩ .initial
  have hclaim := hall 1 globalScope ⟨8, none⟩ .initial .initial [":b"] hrun
    (by unfold Consistent; decide +kernel)
  have hatom : evalExpr 1 globalScope (.atom "b") ⟨8, none⟩ .initial =
      (.value (.atom "b"), .initial) := by
    rw [evalExpr]
    rfl
  -- the replacement finds the protected marker as well as the other
  have hreplaced : substitute "\\#\x7b:b\x7d#\x7b:b\x7d" "#\x7b:b\x7d" (":" ++ "b") = "\\:b:b" := by
    decide +kernel
  have hfill : fillHoles (evalExpr 1 globalScope) "\\#\x7b:b\x7d#\x7b:b\x7d"
      ["#\x7b:b\x7d"] [.atom "b"] ⟨8, none⟩ .initial = (.value "\\:b:b", .initial) := by
    unfold fillHoles
    rw [bind_of_value hatom, bind_of_value (rawText_atom "b" _ _), hreplaced]
    rfl
  rw [evalExpr] at hclaim
  have hvalue := hclaim.symm.trans (bind_of_value hfill)
  have htext := Value.string.inj (Ending.value.inj (Prod.mk.inj hvalue).1)
  exact absurd htext (by decide +kernel)

end AtomScript

import AtomScript.Proofs.Heap.Twin
import Mathlib.Data.List.Perm.Subperm

/-!
# The text of a value, occurrence by occurrence

The text of a value is put together from the texts of what it holds, and these from the texts of
what they hold.  A `Rendering` is what is put together: a finite tree with a node for each
occurrence of a value, where an aggregate is either shown in full or *cut* to its brackets.  The
tree says nothing about heaps; `Heap.Renders` says which tree shows a value of a heap.  An
occurrence is cut exactly when its cell is open on the way to it, and any other shows all that the
value holds.

Every value of every heap has exactly one such rendering, and its text is the text of the value
(`Heap.inspect_rendering`).  No way into it is longer than the heap has cells, for the cells that
are open on a way are all different; and nothing in it is cut when nothing in the value contains
itself.
-/

namespace AtomScript

/-- The occurrences of values that make up a text. -/
inductive Rendering where
  /-- An aggregate cut short: its brackets around three dots. -/
  | cut (v : Value)
  /-- A plain value, or an aggregate with all that it holds. -/
  | full (v : Value) (members : List Rendering)

namespace Rendering

def value : Rendering → Value
  | cut v | full v _ => v

def isCut : Rendering → Bool
  | cut _ => true
  | full _ _ => false

/-- The texts of the entries of a map, from those of its keys and values in turn. -/
def entryTexts : List String → List String
  | key :: value :: rest => (key ++ " => " ++ value) :: entryTexts rest
  | _ => []

/-- The text of a value that is not cut, from the texts of what it holds. -/
def fullText (v : Value) (texts : List String) : String :=
  let (opening, closing) := Heap.brackets v
  match v with
  | .tuple _ | .list _ => opening ++ ", ".intercalate texts ++ closing
  | .map _ => opening ++ ", ".intercalate (entryTexts texts) ++ closing
  | _ => Heap.inspectPlain v

/-- The text that the occurrences make up. -/
def text : Rendering → String
  | cut v => (Heap.brackets v).1 ++ "..." ++ (Heap.brackets v).2
  | full v members => fullText v (members.map text)

/-- The second rendering stands in the first, inside the cells of `path`, the innermost first. -/
inductive Occurs (d : Rendering) : List Ref → Rendering → Prop where
  | root : Occurs d [] d
  | member {path : List Ref} {v : Value} {members : List Rendering} {r : Ref} {e : Rendering}
      (hd : Occurs d path (full v members)) (hr : v.ref? = some r) (he : e ∈ members) :
      Occurs d (r :: path) e

end Rendering

namespace Heap

open Rendering

variable {h : Heap} {d e : Rendering} {v w : Value} {r : Ref} {path : List Ref}

/-- What a value holds, in the order in which it is shown: the keys of a map in their order, each
with its value. -/
def shown (h : Heap) : Value → List Value
  | .tuple r | .list r => (h.items r).toList
  | .map r => (h.sortedEntries r).flatMap fun e => [e.key, e.value]
  | _ => []

/-- The rendering shows the value. -/
structure Renders (h : Heap) (v : Value) (d : Rendering) : Prop where
  value_eq : d.value = v
  /-- An occurrence is cut exactly when its cell is open on the way to it. -/
  isCut_iff : ∀ {path e}, d.Occurs path e → (e.isCut = true ↔ ∃ r ∈ path, e.value.ref? = some r)
  /-- What is not cut shows all that the value holds. -/
  members : ∀ {path w ds}, d.Occurs path (full w ds) → ds.map value = h.shown w

/-! ### What is shown -/

theorem mem_contents_of_mem_shown (hr : v.ref? = some r) (hw : w ∈ h.shown v) :
    w ∈ h.contents r := by
  cases v with
  | map q =>
    cases hr
    obtain ⟨e, he, hw⟩ := List.mem_flatMap.1 hw
    -- what is shown of a map is sorted, but it is the same entries
    have he' : e ∈ (h.table r).entries := List.mem_mergeSort.1 he
    rcases List.mem_cons.1 hw with rfl | hw
    · exact mem_contents_key he'
    · rw [List.mem_singleton.1 hw]
      exact mem_contents_value he'
  | tuple q =>
    cases hr
    exact mem_contents_items hw
  | list q =>
    cases hr
    exact mem_contents_items hw
  | _ => cases hr

theorem shown_of_plain (hv : v.ref? = none) : h.shown v = [] := by
  cases v <;> first | rfl | cases hv

/-- A reference to nowhere holds nothing. -/
theorem shown_of_size_le (hr : v.ref? = some r) (hsize : h.size ≤ r) : h.shown v = [] := by
  refine List.eq_nil_iff_forall_not_mem.2 fun w hw => ?_
  have hw := mem_contents_of_mem_shown hr hw
  rw [contents_of_size_le hsize] at hw
  cases hw

theorem entryTexts_flatMap (text : Value → String) (es : List Entry) :
    entryTexts ((es.flatMap fun e => [e.key, e.value]).map text) =
      es.map fun e => text e.key ++ " => " ++ text e.value := by
  induction es with
  | nil => rfl
  | cons e es ih =>
    rw [List.map_cons, ← ih]
    rfl

theorem fullText_shown (text : Value → String) (hr : v.ref? = some r) :
    fullText v ((h.shown v).map text) =
      (brackets v).1 ++ ", ".intercalate (h.innerTexts text v r) ++ (brackets v).2 := by
  cases v with
  | map q =>
    cases hr
    -- the texts of a map come in twos, a key and a value
    change _ ++ ", ".intercalate (entryTexts _) ++ _ = _
    rw [shown, entryTexts_flatMap]
    rfl
  | tuple q =>
    cases hr
    rfl
  | list q =>
    cases hr
    rfl
  | _ => cases hr

/-! ### The rendering of a value -/

set_option linter.unusedVariables false in
/-- The rendering of a value inside the cells of `path`. -/
def rendering (h : Heap) (path : List Ref) (v : Value) : Rendering :=
  match v.ref? with
  | none => .full v []
  | some r =>
    if hp : r ∈ path then .cut v
    else if hr : r < h.size then .full v ((h.shown v).map fun w => rendering h (r :: path) w)
    else .full v []
termination_by unopened path h.refs
decreasing_by exact unopened_cons_lt (mem_refs.2 hr) hp

theorem rendering_of_plain (hv : v.ref? = none) : h.rendering path v = .full v [] := by
  rw [rendering]
  simp only [hv]

theorem rendering_of_mem (hr : v.ref? = some r) (hp : r ∈ path) :
    h.rendering path v = .cut v := by
  rw [rendering]
  simp only [hr, dif_pos hp]

theorem rendering_of_notMem (hr : v.ref? = some r) (hp : r ∉ path) :
    h.rendering path v = .full v ((h.shown v).map (h.rendering (r :: path))) := by
  rw [rendering]
  simp only [hr, dif_neg hp]
  by_cases hsize : r < h.size
  · rw [dif_pos hsize]
  · rw [dif_neg hsize, shown_of_size_le hr (Nat.le_of_not_lt hsize), List.map_nil]

theorem value_rendering (h : Heap) (path : List Ref) (v : Value) :
    (h.rendering path v).value = v := by
  rw [rendering]
  split
  · rfl
  · split
    · rfl
    · split <;> rfl

/-- **The text of the rendering is the text of the value**, by induction along the walk. -/
theorem text_rendering (h : Heap) (path : List Ref) (v : Value) :
    (h.rendering path v).text = h.inspectFrom path v := by
  cases hv : v.ref? with
  | none =>
    rw [rendering_of_plain hv, inspectFrom_of_plain hv, text, List.map_nil]
    cases v <;> first | rfl | cases hv
  | some r =>
    rw [inspectFrom_of_ref hv]
    by_cases hp : r ∈ path
    · rw [rendering_of_mem hv hp, if_pos hp, text]
    rw [rendering_of_notMem hv hp, if_neg hp, text, List.map_map]
    by_cases hr : r < h.size
    -- the members are drawn with this cell on the way, which leaves fewer to open
    · have hmembers : text ∘ h.rendering (r :: path) = h.inspectFrom (r :: path) :=
        funext fun w => text_rendering h (r :: path) w
      rw [if_pos hr, hmembers, fullText_shown _ hv]
    · have hnone : h.shown v = [] := shown_of_size_le hv (Nat.le_of_not_lt hr)
      rw [if_neg hr, hnone, List.map_nil]
      cases v <;> first | rfl | cases hv
termination_by unopened path h.refs
decreasing_by exact unopened_cons_lt (mem_refs.2 hr) hp

/-- What stands in a rendering is the rendering of a value, inside all the cells around it. -/
theorem eq_rendering_of_occurs (hd : (h.rendering [] v).Occurs path e) :
    e = h.rendering path e.value := by
  induction hd with
  | root => rw [value_rendering]
  | @member path w members r e _ hr he ih =>
    have hp : r ∉ path := by
      intro hp
      rw [value, rendering_of_mem hr hp] at ih
      cases ih
    rw [value, rendering_of_notMem hr hp, Rendering.full.injEq] at ih
    rw [ih.2] at he
    obtain ⟨x, -, rfl⟩ := List.mem_map.1 he
    rw [value_rendering]

theorem renders_rendering (h : Heap) (v : Value) : h.Renders v (h.rendering [] v) where
  value_eq := value_rendering h [] v
  isCut_iff {path e} he := by
    rw [eq_rendering_of_occurs he, value_rendering]
    cases hr : e.value.ref? with
    | none =>
      rw [rendering_of_plain hr]
      simp [isCut]
    | some r =>
      by_cases hp : r ∈ path
      · rw [rendering_of_mem hr hp]
        simp [isCut, hp]
      · rw [rendering_of_notMem hr hp]
        simp [isCut, hp]
  members {path w ds} he := by
    have heq := eq_rendering_of_occurs he
    rw [value] at heq
    cases hr : w.ref? with
    | none =>
      rw [rendering_of_plain hr, Rendering.full.injEq] at heq
      rw [heq.2, shown_of_plain hr, List.map_nil]
    | some r =>
      by_cases hp : r ∈ path
      · rw [rendering_of_mem hr hp] at heq
        cases heq
      · rw [rendering_of_notMem hr hp, Rendering.full.injEq] at heq
        rw [heq.2, List.map_map]
        exact (List.map_congr_left fun x _ => value_rendering h _ x).trans (List.map_id _)

/-! ### What follows from the rules -/

/-- **The rules leave no choice**: an occurrence is determined by its value and the way to it. -/
theorem Renders.eq_rendering (hd : h.Renders v d) (he : d.Occurs path e) :
    e = h.rendering path e.value := by
  -- the members are smaller than the occurrence that they stand in
  induction hn : sizeOf e using Nat.strongRecOn generalizing e path with
  | ind n ih =>
    cases e with
    | cut w =>
      obtain ⟨r, hp, hr⟩ := (hd.isCut_iff he).1 rfl
      exact (rendering_of_mem hr hp).symm
    | full w ds =>
      have hmembers := hd.members he
      cases hr : w.ref? with
      | none =>
        rw [shown_of_plain hr, List.map_eq_nil_iff] at hmembers
        rw [value, rendering_of_plain hr, hmembers]
      | some r =>
        have hp : r ∉ path := fun hp =>
          absurd ((hd.isCut_iff he).2 ⟨r, hp, hr⟩) Bool.false_ne_true
        rw [value, rendering_of_notMem hr hp, ← hmembers, List.map_map]
        refine congrArg _ ((List.map_id ds).symm.trans (List.map_congr_left fun x hx => ?_))
        refine ih (sizeOf x) ?_ (he.member hr hx) rfl
        have hlt := List.sizeOf_lt_of_mem hx
        rw [← hn, Rendering.full.sizeOf_spec]
        omega

/-- The cells open on a way are different cells of the heap. -/
theorem Renders.nodup_path (hd : h.Renders v d) (he : d.Occurs path e) :
    path.Nodup ∧ ∀ r ∈ path, r < h.size := by
  induction he with
  | root => simp
  | @member path w members r e hw hr he ih =>
    have hp : r ∉ path := fun hp => absurd ((hd.isCut_iff hw).2 ⟨r, hp, hr⟩) Bool.false_ne_true
    -- the cell holds something, so it is a cell of the heap
    have hlt : r < h.size := by
      refine Nat.lt_of_not_le fun hsize => ?_
      have hmembers := hd.members hw
      rw [shown_of_size_le hr hsize, List.map_eq_nil_iff] at hmembers
      rw [hmembers] at he
      cases he
    exact ⟨List.nodup_cons.2 ⟨hp, ih.1⟩, List.forall_mem_cons.2 ⟨hlt, ih.2⟩⟩

theorem Renders.length_path_le (hd : h.Renders v d) (he : d.Occurs path e) :
    path.length ≤ h.size := by
  obtain ⟨hnodup, hlt⟩ := hd.nodup_path he
  have hsub : path ⊆ h.refs := fun r hr => mem_refs.2 (hlt r hr)
  have hle := (List.subperm_of_subset hnodup hsub).length_le
  rwa [refs, List.length_range] at hle

/-- The way to an occurrence stays clear. -/
theorem Renders.clear (hd : h.Renders v d) (hv : h.Clear [] v) (he : d.Occurs path e) :
    h.Clear path e.value := by
  induction he with
  | root => rwa [hd.value_eq]
  | @member path w members r e hw hr he ih =>
    have hmem : e.value ∈ h.shown w := by
      rw [← hd.members hw]
      exact List.mem_map_of_mem he
    exact ih.member hr (mem_contents_of_mem_shown hr hmem)

/-- **Texts are finite and cut exactly at cycles.**  A value has one rendering, whose text is the
text of the value; no occurrence in it lies inside more aggregates than the heap has cells.  If
nothing that the value reaches contains itself, every occurrence is shown in full. -/
theorem inspect_rendering (h : Heap) (v : Value) :
    ∃ d, h.Renders v d ∧ (∀ d', h.Renders v d' → d' = d) ∧ h.inspect v = d.text ∧
      (∀ path e, d.Occurs path e → path.length ≤ h.size) ∧
      ((∀ r, h.Reaches v r → ¬ h.ContainsItself r) →
        ∀ path e, d.Occurs path e → e.isCut = false) := by
  have hd := renders_rendering h v
  refine ⟨h.rendering [] v, hd, fun d' hd' => ?_, (text_rendering h [] v).symm,
    fun path e he => hd.length_path_le he, fun hacyclic path e he => ?_⟩
  · rw [hd'.eq_rendering .root, hd'.value_eq]
  · have hclear := hd.clear ⟨hacyclic, by simp⟩ he
    refine Bool.eq_false_iff.2 fun hcut => ?_
    obtain ⟨r, hp, hr⟩ := (hd.isCut_iff he).1 hcut
    exact hclear.not_mem hr hp

-- the map is shown in full twice; the list is cut where it occurs inside itself
example :
    let h : Heap := { cells := #[.list #[.map 1, .map 1],
      .map ⟨3, [⟨.atom "a", .atom "a", .list 0⟩]⟩] }
    h.inspect (.list 0) = "[%\x7b:a => [...]\x7d, %\x7b:a => [...]\x7d]" := by
  decide +kernel

end Heap

end AtomScript

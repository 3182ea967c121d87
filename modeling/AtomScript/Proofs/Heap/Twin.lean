import AtomScript.Proofs.Heap.Reach
import Mathlib.Data.List.Forall2

/-!
# Twins

Two values, each of a heap of its own, are *twins* when they are built alike: a plain value is its
only twin, and aggregates are twins when they are of one kind and have twins in the same places
(`Heap.Twin`).  Where the cells lie does not matter, nor which of them are shared.

Twins are filed, ordered and shown alike (`Heap.Twin.fingerprint_eq`, `Heap.Twin.order_eq`,
`Heap.Twin.inspect_eq`), and twins of one heap are equal (`Heap.Twin.equal`).  The last needs sound
values: where the entries of a map are not filed under what their keys now are, a map is not even
found in a map that is built like it.
-/

namespace AtomScript

/-! ### Lists in step -/

section Lists

variable {α β γ : Type} {R : α → β → Prop} {as : List α} {bs : List β}

/-- Related lists have the same images under functions that agree on related elements. -/
theorem map_eq_of_forall₂ {f : α → γ} {f' : β → γ} (hR : List.Forall₂ R as bs)
    (hf : ∀ a b, R a b → f a = f' b) : as.map f = bs.map f' := by
  induction hR with
  | nil => rfl
  | cons hab _ ih => rw [List.map_cons, List.map_cons, hf _ _ hab, ih]

/-- Two lists in step are still in step when both are sorted, if their members compare alike. -/
theorem forall₂_mergeSort {le : α → α → Bool} {le' : β → β → Bool} (hR : List.Forall₂ R as bs)
    (hle : ∀ a b a' b', R a b → R a' b' → le a a' = le' b b') :
    List.Forall₂ R (as.mergeSort le) (bs.mergeSort le') := by
  -- sort the list of pairs; each of the two is one side of it
  have hfst : (as.zip bs).map Prod.fst = as := List.map_fst_zip hR.length_eq.le
  have hsnd : (as.zip bs).map Prod.snd = bs := List.map_snd_zip hR.length_eq.ge
  have hpair : ∀ p ∈ as.zip bs, R p.1 p.2 := fun p hp => List.forall₂_zip hR hp
  have hleft : ((as.zip bs).mergeSort fun p q => le p.1 q.1).map Prod.fst = as.mergeSort le := by
    rw [List.map_mergeSort (s := le) fun _ _ _ _ => rfl, hfst]
  have hright : ((as.zip bs).mergeSort fun p q => le p.1 q.1).map Prod.snd =
      bs.mergeSort le' := by
    rw [List.map_mergeSort fun p hp q hq => hle _ _ _ _ (hpair p hp) (hpair q hq), hsnd]
  rw [← hleft, ← hright, List.forall₂_map_left_iff, List.forall₂_map_right_iff,
    List.forall₂_same]
  exact fun p hp => hpair p (List.mem_mergeSort.1 hp)

end Lists

namespace Heap

variable {h g k : Heap} {R : Value → Value → Prop} {v w : Value} {r s : Ref} {path : List Ref}
  {n : Nat}

/-- What the two cells hold is related, place by place. -/
structure Matched (h g : Heap) (R : Value → Value → Prop) (r s : Ref) : Prop where
  lt_size : r < h.size
  lt_size' : s < g.size
  items : List.Forall₂ R (h.items r).toList (g.items s).toList
  entries : List.Forall₂ (fun e f => R e.key f.key ∧ R e.value f.value) (h.table r).entries
    (g.table s).entries

/-- The values are built alike. -/
inductive Twin (h g : Heap) : Value → Value → Prop where
  | plain {v : Value} (hv : v.ref? = none) : Twin h g v v
  | aggregate {v w : Value} {r s : Ref} (R : Value → Value → Prop) (hr : v.ref? = some r)
      (hs : w.ref? = some s) (hkind : v.kind = w.kind) (hm : h.Matched g R r s)
      (hR : ∀ a b, R a b → Twin h g a b) : Twin h g v w

/-! ### Matched cells -/

/-- A weaker relation matches too. -/
theorem Matched.imp {R' : Value → Value → Prop} (hm : h.Matched g R r s)
    (himp : ∀ a b, R a b → R' a b) : h.Matched g R' r s where
  lt_size := hm.lt_size
  lt_size' := hm.lt_size'
  items := hm.items.imp himp
  entries := hm.entries.imp fun _ _ hef => ⟨himp _ _ hef.1, himp _ _ hef.2⟩

/-- The related values are members of the cells. -/
theorem Matched.members (hm : h.Matched g R r s) :
    h.Matched g (fun a b => R a b ∧ a ∈ h.contents r ∧ b ∈ g.contents s) r s where
  lt_size := hm.lt_size
  lt_size' := hm.lt_size'
  items := by
    -- related elements stand at one place of their lists
    refine List.forall₂_iff_zip.2 ⟨hm.items.length_eq, fun hab => ?_⟩
    obtain ⟨ha, hb⟩ := List.of_mem_zip hab
    exact ⟨List.forall₂_zip hm.items hab, mem_contents_items ha, mem_contents_items hb⟩
  entries := by
    refine List.forall₂_iff_zip.2 ⟨hm.entries.length_eq, fun hef => ?_⟩
    obtain ⟨he, hf⟩ := List.of_mem_zip hef
    obtain ⟨hkey, hvalue⟩ := List.forall₂_zip hm.entries hef
    exact ⟨⟨hkey, mem_contents_key he, mem_contents_key hf⟩, hvalue, mem_contents_value he,
      mem_contents_value hf⟩

/-- Matched cells have equally many elements. -/
theorem Matched.size_items (hm : h.Matched g R r s) : (h.items r).size = (g.items s).size := by
  simpa using hm.items.length_eq

/-- Matched cells have equally many entries. -/
theorem Matched.size_table (hm : h.Matched g R r s) : (h.table r).size = (g.table s).size :=
  hm.entries.length_eq

/-! ### Twins are filed and ordered alike -/

/-- Twins are of one kind. -/
theorem Twin.kind_eq (ht : h.Twin g v w) : v.kind = w.kind := by
  cases ht with
  | plain hv => rfl
  | aggregate R hr hs hkind hm hR => exact hkind

/-- Twins have one fingerprint. -/
theorem Twin.fingerprint_eq (ht : h.Twin g v w) : h.fingerprint v = g.fingerprint w := by
  cases ht with
  | plain hv => cases v <;> first | rfl | cases hv
  | aggregate R hr hs hkind hm hR =>
    -- of an aggregate only the size counts
    have hitems := hm.size_items
    have htable := hm.size_table
    cases v <;> cases w <;> simp_all [Value.ref?, Value.kind, fingerprint]

/-- Values of different kinds are ordered by their kinds. -/
theorem order_of_kind_ne (hkind : v.kind ≠ w.kind) :
    h.order v w = compare v.kind.rank w.kind.rank := by
  cases v <;> cases w <;> first | rfl | exact absurd rfl hkind

/-- Aggregates of one kind are ordered by their sizes. -/
theorem order_of_refs (hv : v.ref? = some r) (hw : w.ref? = some s) (hkind : v.kind = w.kind) :
    h.order v w = if v.kind = .map then compare (h.table r).size (h.table s).size
      else compare (h.items r).size (h.items s).size := by
  cases v <;> cases w <;> simp_all [Value.ref?, Value.kind, order]

/-- Next to a plain value the heap does not count. -/
theorem order_of_plain (hv : v.ref? = none) : h.order v w = g.order v w := by
  cases v <;> cases w <;> first | rfl | cases hv

/-- Being an aggregate is a matter of the kind. -/
theorem ref?_isSome_of_kind (hkind : v.kind = w.kind) : v.ref?.isSome = w.ref?.isSome := by
  cases v <;> cases w <;> first | rfl | cases hkind

/-- Twins stand in the same order. -/
theorem Twin.order_eq {v' w' : Value} (ht : h.Twin g v w) (ht' : h.Twin g v' w') :
    h.order v v' = g.order w w' := by
  by_cases hkind : v.kind = v'.kind
  · have hsome := ref?_isSome_of_kind hkind
    have hkind' : w.kind = w'.kind := by rwa [← ht.kind_eq, ← ht'.kind_eq]
    -- of one kind, both are plain or both are aggregates
    cases ht with
    | plain hv =>
      cases ht' with
      | plain hv' => exact order_of_plain hv
      | aggregate R hr hs _ hm hR => simp [hv, hr] at hsome
    | aggregate R hr hs hvw hm hR =>
      cases ht' with
      | plain hv' => simp [hr, hv'] at hsome
      | aggregate R' hr' hs' _ hm' hR' =>
        rw [order_of_refs hr hr' hkind, order_of_refs hs hs' hkind', hvw, hm.size_table,
          hm'.size_table, hm.size_items, hm'.size_items]
  · have hkind' : w.kind ≠ w'.kind := by rwa [← ht.kind_eq, ← ht'.kind_eq]
    rw [order_of_kind_ne hkind, order_of_kind_ne hkind', ht.kind_eq, ht'.kind_eq]

/-- Matched tables are listed alike. -/
theorem Matched.sortedEntries (hm : h.Matched g R r s) (hR : ∀ a b, R a b → h.Twin g a b) :
    List.Forall₂ (fun e f => R e.key f.key ∧ R e.value f.value) (h.sortedEntries r)
      (g.sortedEntries s) := by
  refine forall₂_mergeSort hm.entries fun e f e' f' hef hef' => ?_
  rw [(hR _ _ hef.1).order_eq (hR _ _ hef'.1)]

/-! ### Twins are shown alike -/

/-- The brackets of a text depend on the kind only. -/
theorem brackets_of_kind (hkind : v.kind = w.kind) : brackets v = brackets w := by
  cases v <;> cases w <;> first | rfl | cases hkind

/-- The texts of matched contents are the same. -/
theorem Matched.innerTexts {text text' : Value → String} (hr : v.ref? = some r)
    (hs : w.ref? = some s) (hkind : v.kind = w.kind) (hm : h.Matched g R r s)
    (hR : ∀ a b, R a b → h.Twin g a b) (htext : ∀ a b, R a b → text a = text' b) :
    h.innerTexts text v r = g.innerTexts text' w s := by
  have hitems : (h.items r).toList.map text = (g.items s).toList.map text' :=
    map_eq_of_forall₂ hm.items htext
  have hentries : ((h.sortedEntries r).map fun e => text e.key ++ " => " ++ text e.value) =
      (g.sortedEntries s).map fun e => text' e.key ++ " => " ++ text' e.value := by
    refine map_eq_of_forall₂ (hm.sortedEntries hR) fun e f hef => ?_
    rw [htext _ _ hef.1, htext _ _ hef.2]
  cases v <;> cases w <;> first | exact hitems | exact hentries | cases hkind

/-- Nothing that the value reaches contains itself or lies on the path. -/
structure Clear (h : Heap) (path : List Ref) (v : Value) : Prop where
  acyclic : ∀ r, h.Reaches v r → ¬ h.ContainsItself r
  off_path : ∀ r ∈ path, ¬ h.Reaches v r

/-- A value that is clear of a way is not on it. -/
theorem Clear.not_mem (hv : h.Clear path v) (hr : v.ref? = some r) : r ∉ path :=
  fun hp => hv.off_path r hp (.self hr)

/-- The way into an aggregate stays clear. -/
theorem Clear.member (hv : h.Clear path v) (hr : v.ref? = some r) (hw : w ∈ h.contents r) :
    h.Clear (r :: path) w where
  acyclic s hs := hv.acyclic s (hs.of_member hr hw)
  off_path s hs hreach := by
    rcases List.mem_cons.1 hs with rfl | hs
    · exact hv.acyclic s (.self hr) (hreach.containsItself hw)
    · exact hv.off_path s hs (hreach.of_member hr hw)

/-- The walks into two twins go the same way. -/
theorem Twin.inspectFrom_eq (ht : h.Twin g v w) {path path' : List Ref} (hv : h.Clear path v)
    (hw : g.Clear path' w) : h.inspectFrom path v = g.inspectFrom path' w := by
  induction ht generalizing path path' with
  | plain hnone => rw [inspectFrom_of_plain hnone, inspectFrom_of_plain hnone]
  | @aggregate v w r s R hr hs hkind hm hR ih =>
    rw [inspectFrom_of_ref hr, inspectFrom_of_ref hs, if_neg (hv.not_mem hr),
      if_neg (hw.not_mem hs), if_pos hm.lt_size, if_pos hm.lt_size', brackets_of_kind hkind]
    -- one cell further, the texts of the members are the same
    rw [hm.members.innerTexts hr hs hkind (fun a b hab => hR a b hab.1) fun a b hab =>
      ih a b hab.1 (hv.member hr hab.2.1) (hw.member hs hab.2.2)]

/-- Twins have the same text. -/
theorem Twin.inspect_eq (ht : h.Twin g v w) (hv : h.Clear [] v) (hw : g.Clear [] w) :
    h.inspect v = g.inspect w :=
  ht.inspectFrom_eq hv hw

/-! ### Twins of one heap are equal -/

/-- Comparison in pairs, as a relation of lists. -/
theorem allPairs_iff_forall₂ {α : Type} {same : α → α → Bool} {as bs : List α} :
    allPairs same as bs = true ↔ List.Forall₂ (fun a b => same a b = true) as bs := by
  induction as generalizing bs with
  | nil => cases bs <;> simp [allPairs]
  | cons a as ih => cases bs <;> simp [allPairs, ih]

/-- **Sound twins are equal.** -/
theorem Twin.equal (ht : h.Twin h v w) (hv : h.Sound n v) (hw : h.Sound n w) :
    h.equal v w = true := by
  induction ht generalizing n with
  | plain _ => exact h.equal_refl _
  | @aggregate v w r s R hr hs hkind hm hR ih =>
    have hr' := hv r hr
    have hs' := hw s hs
    cases n with
    | zero => cases hr'
    | succ n =>
      -- the members are sound to a lesser depth, so those in the same places are equal
      have heq := hm.members.imp fun a b hab =>
        ih a b hab.1 (hr'.contents hab.2.1) (hs'.contents hab.2.2)
      rw [equal_iff_of_refs hv hr hs]
      refine ⟨hkind, .inr ?_⟩
      unfold sameContents
      rw [Bool.and_eq_true, sameTables_iff (h.euclidean n) hs'.2.1
        (fun e he => hr'.contents (mem_contents_key he))
        fun e he => hs'.contents (mem_contents_key he)]
      exact ⟨allPairs_iff_forall₂.2 heq.items, heq.size_table, fun e he =>
        exists_of_forall₂ heq.entries he⟩

/-! ### Twins in heaps that change elsewhere -/

/-- Cells stay matched in heaps that have the same cells there. -/
theorem Matched.congr {h' g' : Heap} (hm : h.Matched g R r s)
    (hr : h'.cells[r]? = h.cells[r]?) (hs : g'.cells[s]? = g.cells[s]?) : h'.Matched g' R r s where
  lt_size := by
    obtain ⟨c, hc⟩ := h.exists_cell hm.lt_size
    exact h'.lt_size_of_cell (hr.trans hc)
  lt_size' := by
    obtain ⟨c, hc⟩ := g.exists_cell hm.lt_size'
    exact g'.lt_size_of_cell (hs.trans hc)
  items := by
    unfold Heap.items
    rw [hr, hs]
    exact hm.items
  entries := by
    unfold Heap.table
    rw [hr, hs]
    exact hm.entries

/-- A value has the twins that it had, as long as what the two reach is left alone. -/
theorem Twin.congr {h' g' : Heap} (ht : h.Twin g v w)
    (hv : ∀ r, h.Reaches v r → r < h.size → h'.cells[r]? = h.cells[r]?)
    (hw : ∀ r, g.Reaches w r → r < g.size → g'.cells[r]? = g.cells[r]?) : h'.Twin g' v w := by
  induction ht with
  | plain hnone => exact .plain hnone
  | @aggregate v w r s R hr hs hkind hm hR ih =>
    have hr' := hv r (.self hr) hm.lt_size
    have hs' := hw s (.self hs) hm.lt_size'
    refine .aggregate _ hr hs hkind (hm.members.congr hr' hs') fun a b hab => ?_
    -- what the members reach, the aggregates reach
    exact ih a b hab.1 (fun q hq => hv q (hq.of_member hr hab.2.1)) fun q hq =>
      hw q (hq.of_member hs hab.2.2)

end Heap

end AtomScript

import AtomScript.Proofs.Heap.Copying
import AtomScript.Proofs.Heap.Filed

/-!
# Sealed regions of the heap

A region of the heap is *sealed* when its cells refer only to cells of the region with smaller
addresses, and its maps are filed (`Heap.Sealed`).  The values in it are sound.  As long as the
cells of a sealed region are left alone, whatever else happens to the heap (`Heap.Agree`), values in
the region stay sound and compare as before, and a table with keys in the region stays filed.

* `Heap.Agree.equal_eq`, `Heap.Filed.agree`, `Heap.Sealed.agree` — what does not change;
* `Heap.of_detach_sealed` — a detached copy is in a sealed region of its own.
-/

namespace AtomScript

/-- The value refers to no cell outside the region. -/
def Value.In (K : Ref → Prop) (v : Value) : Prop :=
  ∀ r, v.ref? = some r → K r

namespace Heap

variable {h g : Heap} {K : Ref → Prop} {v w : Value} {r : Ref} {t : Table}

/-- The cells of the region refer only to cells of the region. -/
def Closed (h : Heap) (K : Ref → Prop) : Prop :=
  ∀ ⦃r⦄, K r → ∀ ⦃v⦄, v ∈ h.contents r → v.In K

/-- The cells of the region refer only to cells of the region with smaller addresses, and its maps
are filed. -/
def Sealed (h : Heap) (K : Ref → Prop) : Prop :=
  ∀ r, K r → r < h.size ∧ h.Filed (h.table r) ∧
    ∀ v ∈ h.contents r, ∀ s, v.ref? = some s → K s ∧ s < r

/-- The two heaps have the same cells in the region. -/
def Agree (h g : Heap) (K : Ref → Prop) : Prop :=
  ∀ r, K r → g.cells[r]? = h.cells[r]?

/-! ### Values in a sealed region -/

/-- A sealed part is closed. -/
theorem Sealed.closed (hK : h.Sealed K) : h.Closed K :=
  fun r hr v hv s hs => ((hK r hr).2.2 v hv s hs).1

/-- The contents of a cell of a sealed part are in it. -/
theorem Sealed.contents (hK : h.Sealed K) (hr : K r) (hv : v ∈ h.contents r) : v.In K :=
  hK.closed hr hv

/-- References go down, so the address bounds the depth. -/
theorem Sealed.soundCell (hK : h.Sealed K) (hr : K r) : h.SoundCell (r + 1) r := by
  induction r using Nat.strongRecOn with
  | ind r ih =>
    obtain ⟨hsize, hfiled, hcontents⟩ := hK r hr
    refine ⟨hsize, hfiled, fun v hv s hs => ?_⟩
    obtain ⟨hKs, hlt⟩ := hcontents v hv s hs
    exact (ih s hlt hKs).mono hlt

/-- A value in a sealed part is sound. -/
theorem Sealed.sound (hK : h.Sealed K) (hv : v.In K) : h.Sound h.size v :=
  fun r hr => (hK.soundCell (hv r hr)).mono (hK r (hv r hr)).1

/-! ### Heaps that agree on a sealed region -/

/-- A heap agrees with itself. -/
theorem Agree.refl (h : Heap) (K : Ref → Prop) : h.Agree h K := fun _ _ => rfl

/-- Heaps that agree step by step on growing parts agree on the first. -/
theorem Agree.trans {k : Heap} {K' : Ref → Prop} (hg : h.Agree g K) (hk : g.Agree k K')
    (hsub : ∀ r, K r → K' r) : h.Agree k K :=
  fun r hr => (hk r (hsub r hr)).trans (hg r hr)

/-- An extension agrees on everything that was there. -/
theorem Extends.agree (hg : h.Extends g) (hK : ∀ r, K r → r < h.size) : h.Agree g K :=
  fun r hr => hg.cell_eq (hK r hr)

section Agree

variable (hK : h.Sealed K) (hg : h.Agree g K)

include hg

/-- The same elements where heaps agree. -/
theorem Agree.items_eq (hr : K r) : g.items r = h.items r := by
  unfold items
  rw [hg r hr]

/-- The same table where heaps agree. -/
theorem Agree.table_eq (hr : K r) : g.table r = h.table r := by
  unfold table
  rw [hg r hr]

/-- The same fingerprint where heaps agree. -/
theorem Agree.fingerprint_eq (hv : v.In K) : g.fingerprint v = h.fingerprint v := by
  cases v with
  | tuple r => rw [fingerprint, fingerprint, hg.items_eq (hv r rfl)]
  | list r => rw [fingerprint, fingerprint, hg.items_eq (hv r rfl)]
  | map r => rw [fingerprint, fingerprint, hg.table_eq (hv r rfl)]
  | _ => rfl

/-- A place where heaps agree is in both or in neither. -/
theorem Agree.lt_size_iff (hr : K r) : r < g.size ↔ r < h.size := by
  have hcell := hg r hr
  constructor
  · intro hlt
    obtain ⟨c, hc⟩ := g.exists_cell hlt
    exact h.lt_size_of_cell (hcell.symm.trans hc)
  · intro hlt
    obtain ⟨c, hc⟩ := h.exists_cell hlt
    exact g.lt_size_of_cell (hcell.trans hc)

section Closed

variable (hclosed : h.Closed K)

include hclosed

/-- Contents of cells of the region agree as before, if their members do. -/
theorem Agree.sameContents_eq {f f' : Value → Value → Bool} {s : Ref} (hr : K r) (hs : K s)
    (hf : ∀ a ∈ h.contents r, ∀ b ∈ h.contents s, f' a b = f a b) :
    g.sameContents f' r s = h.sameContents f r s := by
  symm
  refine sameContents_congr (hg r hr).symm (hg s hs).symm (fun a ha b hb => ?_) fun a ha => ?_
  · exact (hf a ha b hb).symm
  · exact (hg.fingerprint_eq (hclosed hr ha)).symm

/-- The walk into two values of the region goes the same way in both heaps. -/
theorem Agree.equalFrom_eq (path : List (Ref × Ref)) (v w : Value) (hv : v.In K) (hw : w.In K) :
    g.equalFrom path v w = h.equalFrom path v w := by
  cases hr : v.ref? with
  | none => rw [equalFrom_of_plain (.inl hr), equalFrom_of_plain (.inl hr)]
  | some r =>
    cases hs : w.ref? with
    | none => rw [equalFrom_of_plain (.inr hs), equalFrom_of_plain (.inr hs)]
    | some s =>
      have hKr := hv r hr
      have hKs := hw s hs
      rw [equalFrom_of_refs hr hs, equalFrom_of_refs hr hs]
      simp only [hg.lt_size_iff hKr, hg.lt_size_iff hKs]
      -- a pair that is open already is taken as equal on both sides
      by_cases hp : (r, s) ∈ path
      · simp only [if_pos hp]
      by_cases hsize : r < h.size ∧ s < h.size
      -- the members are compared under a longer path: the call that the measure below justifies
      · have hmembers : ∀ a ∈ h.contents r, ∀ b ∈ h.contents s,
            g.equalFrom ((r, s) :: path) a b = h.equalFrom ((r, s) :: path) a b := fun a ha b hb =>
          Agree.equalFrom_eq ((r, s) :: path) a b (hclosed hKr ha) (hclosed hKs hb)
        simp only [if_neg hp, if_pos hsize, hg.sameContents_eq hclosed hKr hKs hmembers]
      -- a cell is missing, so no members are compared
      · simp only [if_neg hp, if_neg hsize,
          hg.sameContents_eq hclosed hKr hKs (f := fun _ _ => false) fun _ _ _ _ => rfl]
termination_by unopened path h.refPairs
decreasing_by exact unopened_cons_lt (mem_refPairs.2 hsize) hp

/-- **Values in the region compare as before.** -/
theorem Agree.equal_eq (hv : v.In K) (hw : w.In K) : g.equal v w = h.equal v w :=
  hg.equalFrom_eq hclosed [] v w hv hw

/-- A table with keys in the region stays filed. -/
theorem Filed.agree (ht : h.Filed t) (hkeys : ∀ e ∈ t.entries, e.key.In K) : g.Filed t := by
  refine ⟨fun e he => ?_, List.Pairwise.imp_of_mem (fun he hf heq => ?_) ht.distinct⟩
  · rw [hg.fingerprint_eq (hkeys e he)]
    exact ht.filed e he
  · rw [hg.equal_eq hclosed (hkeys _ hf) (hkeys _ he)]
    exact heq

/-- Cells of the region stay sound to the same depth. -/
theorem SoundCell.agree {n : Nat} (hr : K r) (hsound : h.SoundCell n r) : g.SoundCell n r := by
  induction n generalizing r with
  | zero => cases hsound
  | succ n ih =>
    refine ⟨(hg.lt_size_iff hr).2 hsound.1, ?_, fun v hv s hs => ?_⟩
    · rw [hg.table_eq hr]
      exact hsound.2.1.agree hg hclosed fun e he => hclosed hr (mem_contents_key he)
    · rw [contents_congr (hg r hr)] at hv
      exact ih (hclosed hr hv s hs) (hsound.contents hv s hs)

/-- A value in a closed part stays sound where heaps agree. -/
theorem Sound.agree {n : Nat} (hv : v.In K) (hsound : h.Sound n v) : g.Sound n v :=
  fun r hr => (hsound r hr).agree hg hclosed (hv r hr)

end Closed

include hK

/-- A part that is sealed stays sealed where heaps agree. -/
theorem Sealed.agree : g.Sealed K := by
  intro r hr
  obtain ⟨hsize, hfiled, hcontents⟩ := hK r hr
  refine ⟨(hg.lt_size_iff hr).2 hsize, ?_, ?_⟩
  · rw [hg.table_eq hr]
    exact hfiled.agree hg hK.closed fun e he => hK.contents hr (mem_contents_key he)
  · rw [contents_congr (hg r hr)]
    exact hcontents

end Agree

/-! ### Growth -/

/-- The contents of a place are those of the cell there. -/
theorem contents_of_cell {c : Cell} (hc : h.cells[r]? = some c) :
    h.contents r = c.items.toList ++ c.table.entries.flatMap fun e => [e.key, e.value] := by
  unfold contents
  rw [h.items_of_cell hc, h.table_of_cell hc]

/-- A condition on a cell is one on its contents. -/
theorem contents_of_holds {c : Cell} {V : Value → Prop} (hc : h.cells[r]? = some c)
    (hV : c.Holds V V) (hv : v ∈ h.contents r) : V v := by
  rw [contents_of_cell hc, List.mem_append, List.mem_flatMap] at hv
  rcases hv with hv | ⟨e, he, hv⟩
  · exact hV.1 v (by simpa using hv)
  · simp only [List.mem_cons, List.not_mem_nil, or_false] at hv
    rcases hv with rfl | rfl
    · exact (hV.2 e he).1
    · exact (hV.2 e he).2

/-- A new cell that holds values of the region belongs to it. -/
theorem Sealed.push {c : Cell} (hK : h.Sealed K) (hc : c.Holds (Value.In K) (Value.In K))
    (hfiled : h.Filed c.table) : (h.push c).Sealed fun r => K r ∨ r = h.size := by
  have hagree : h.Agree (h.push c) K := (h.extends_push c).agree fun r hr => (hK r hr).1
  have hnew : (h.push c).cells[h.size]? = some c := by rw [cell_push, if_pos rfl]
  -- the old cells of the region are as they were; the new one has the largest address
  rintro r (hr | rfl)
  · obtain ⟨hsize, hfiled, hcontents⟩ := hK.agree hagree r hr
    refine ⟨hsize, hfiled, fun v hv s hs => ?_⟩
    obtain ⟨hKs, hlt⟩ := hcontents v hv s hs
    exact ⟨.inl hKs, hlt⟩
  · refine ⟨by simp, ?_, fun v hv s hs => ?_⟩
    · rw [table_of_cell _ hnew]
      exact hfiled.agree hagree hK.closed fun e he => (hc.2 e he).1
    · have hKs : K s := contents_of_holds hnew hc hv s hs
      exact ⟨.inl hKs, (hK s hKs).1⟩

/-- Two sealed parts together are sealed. -/
theorem Sealed.union {K' : Ref → Prop} (hK : h.Sealed K) (hK' : h.Sealed K') :
    h.Sealed fun r => K r ∨ K' r := by
  rintro r (hr | hr)
  · obtain ⟨hsize, hfiled, hcontents⟩ := hK r hr
    exact ⟨hsize, hfiled, fun v hv s hs => ⟨.inl (hcontents v hv s hs).1, (hcontents v hv s hs).2⟩⟩
  · obtain ⟨hsize, hfiled, hcontents⟩ := hK' r hr
    exact ⟨hsize, hfiled, fun v hv s hs => ⟨.inr (hcontents v hv s hs).1, (hcontents v hv s hs).2⟩⟩

/-! ### Detached copies -/

/-- The cells that the second heap has and the first has not. -/
def Fresh (h g : Heap) (r : Ref) : Prop :=
  h.size ≤ r ∧ r < g.size

/-- New cells stay new when more are added. -/
theorem Fresh.mono {k : Heap} (hr : h.Fresh g r) (hk : g.Extends k) : h.Fresh k r :=
  ⟨hr.1, Nat.lt_of_lt_of_le hr.2 hk.size_le⟩

/-- A cell that holds new cells only may join them. -/
theorem sealed_fresh_push {c : Cell} (hle : h.size ≤ g.size) (hg : g.Sealed (h.Fresh g))
    (hc : c.Holds (Value.In (h.Fresh g)) (Value.In (h.Fresh g))) (hfiled : g.Filed c.table) :
    (g.push c).Sealed (h.Fresh (g.push c)) := by
  -- the new cells of the larger heap are those of the smaller one and the cell just added
  have heq : h.Fresh (g.push c) = fun r => h.Fresh g r ∨ r = g.size := by
    funext r
    unfold Fresh
    rw [size_push, eq_iff_iff, Nat.lt_succ_iff_lt_or_eq]
    constructor
    · rintro ⟨hr, hlt | rfl⟩
      · exact .inl ⟨hr, hlt⟩
      · exact .inr rfl
    · rintro (⟨hr, hlt⟩ | rfl)
      · exact ⟨hr, .inl hlt⟩
      · exact ⟨hle, .inr rfl⟩
  rw [heq]
  exact hg.push hc hfiled

/-- While a copy is made, its cells form a sealed region. -/
def sealedCopying (h : Heap) : h.Copying where
  Source v := ∀ r, v.ref? = some r → r < h.size
  Inv g := h.size ≤ g.size ∧ g.Sealed (h.Fresh g)
  Val g v := v.In (h.Fresh g)
  Tab g t := g.Filed t ∧ t.Holds (Value.In (h.Fresh g)) (Value.In (h.Fresh g))
  val_mono hk hv r hr := (hv r hr).mono hk
  tab_mono {g k t} hk hg _ ht := by
    -- a table in the making stays filed, for its keys lie in cells that are not changed
    have hagree : g.Agree k (h.Fresh g) := hk.agree fun r hr => hr.2
    have hmono : ∀ v : Value, v.In (h.Fresh g) → v.In (h.Fresh k) := fun v hv r hr =>
      (hv r hr).mono hk
    exact ⟨ht.1.agree hagree hg.2.closed fun e he => (ht.2 e he).1, ht.2.imp hmono hmono⟩
  leaf hv hnone r hr := absurd (hv r hr) (hnone r hr)
  withRoom := ⟨filed_withRoom _ _, Table.holds_withRoom _⟩
  insert _ ht hkey hvalue := ⟨ht.1.insert, holds_insert _ ht.2 hkey hvalue⟩
  sequence kind {g vs} hg hvs := by
    have hself : ∀ c : Cell, h.Fresh (g.push c) g.size := fun c => ⟨hg.1, by simp⟩
    have hle : ∀ c : Cell, h.size ≤ (g.push c).size := fun c => by
      rw [size_push]
      exact Nat.le_succ_of_le hg.1
    cases kind with
    | tuple =>
      refine ⟨⟨hle _, sealed_fresh_push hg.1 hg.2 (Cell.holds_tuple (by simpa using hvs))
        (filed_withRoom _ _)⟩, fun r hr => ?_⟩
      cases hr
      exact hself _
    | list =>
      refine ⟨⟨hle _, sealed_fresh_push hg.1 hg.2 (Cell.holds_list (by simpa using hvs))
        (filed_withRoom _ _)⟩, fun r hr => ?_⟩
      cases hr
      exact hself _
  map {g t} hg ht := by
    refine ⟨⟨?_, sealed_fresh_push hg.1 hg.2 (Cell.holds_map ht.2) ht.1⟩, fun r hr => ?_⟩
    · rw [size_push]
      exact Nat.le_succ_of_le hg.1
    · cases hr
      exact ⟨hg.1, by simp⟩

/-- **A detached copy** lies in new cells that form a sealed region. -/
theorem of_detach_sealed (hclosed : h.Holds (Value.In (· < h.size)) (Value.In (· < h.size)))
    {copy : Value} (hv : v.In (· < h.size)) (heq : h.detach v = .ok (copy, g)) :
    h.Extends g ∧ g.Sealed (h.Fresh g) ∧ copy.In (h.Fresh g) := by
  -- at the start there are no new cells
  have hstart : h.size ≤ h.size ∧ h.Sealed (h.Fresh h) :=
    ⟨Nat.le_refl _, fun r hr => absurd hr.2 (Nat.not_lt.2 hr.1)⟩
  obtain ⟨hext, hinv, hcopy⟩ := h.sealedCopying.of_detach hclosed.opens hstart hv heq
  exact ⟨hext, hinv.2, hcopy⟩

end Heap

end AtomScript

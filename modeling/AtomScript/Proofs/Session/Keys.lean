import AtomScript.Proofs.Heap.Reach
import AtomScript.Proofs.Session.Global
import AtomScript.Proofs.Session.Reached

/-!
# Stored keys

A map stores a detached copy of each key, in cells of its own.  The invariant is a separation of the
heap in two (`KeyWorld`): a sealed region, which holds the cells of all stored keys, and the rest,
to which all references at large belong — those of bindings, elements and values of maps, whether in
a scope, in a cell or in the hands of a running native.  Programs edit only what they can refer to,
so the region is never edited; keys cannot come to be equal, nor change, nor contain themselves.

The separation breaks in one place.  Listings of a map (`Map.keys`, `Map.to_list`, and the callbacks
of `Enum` on maps) give out the stored keys themselves, the event `lend`, and a key that is an
aggregate can then be edited like any other value.  So the separation is proved of runs that lend
only keys without cells (`LendsPlainKeys`), and `Heap.not_sameKeys_push` shows that they have to.

* `keyLogic` — the evaluator keeps the separation;
* `Session.keys_separate` — what it means for the stored keys.
-/

namespace AtomScript

/-! ### The vocabulary -/

namespace Heap

/-- The stored keys of a map. -/
def keys (h : Heap) (m : Ref) : List Value :=
  (h.table m).entries.map (·.key)

/-- A map has the same keys in both heaps, in the same places, and every cell that a key reaches is
the same. -/
def SameKeys (h g : Heap) (m : Ref) : Prop :=
  g.keys m = h.keys m ∧ ∀ key ∈ h.keys m, ∀ r, h.Reaches key r → g.cells[r]? = h.cells[r]?

end Heap

/-- A map that is listed has no aggregates for keys. -/
def LendsPlainKeys (event : Event) (st _after : State) : Prop :=
  ∀ m, event = .lend m → ∀ key ∈ st.heap.keys m, key.ref? = none

/-- The keys of a map are changed by a `put` or a `delete` on this map only. -/
def KeepsOtherKeys (event : Event) (st after : State) : Prop :=
  ∀ m, m < st.heap.size → event ≠ .put m → event ≠ .delete m → st.heap.SameKeys after.heap m

/-! ### Keys in a sealed region -/

namespace Heap

variable {h g : Heap} {K : Ref → Prop}

/-- The keys of a map are the same where they are in a sealed part that is left alone. -/
theorem Sealed.sameKeys (hK : h.Sealed K) (hg : h.Agree g K) {m : Ref}
    (hkeys : g.keys m = h.keys m) (hin : ∀ key ∈ h.keys m, key.In K) : h.SameKeys g m :=
  ⟨hkeys, fun key hkey r hr => hg r (hK.closed.of_reaches (hin key hkey) hr)⟩

end Heap

/-! ### The separation -/

/-- A heap with the sealed region that the stored keys are in. -/
structure KeyWorld where
  heap : Heap
  /-- The cells of the region. -/
  region : Ref → Prop
  sealed : heap.Sealed region

namespace KeyWorld

/-- The region grows by new cells only, and its cells stay as they are. -/
structure le (w w' : KeyWorld) : Prop where
  size : w.heap.size ≤ w'.heap.size
  agree : w.heap.Agree w'.heap w.region
  grows : ∀ r, w.region r → w'.region r
  fresh : ∀ r, r < w.heap.size → w'.region r → w.region r

/-- A value at large refers to a cell outside the region. -/
def Val (w : KeyWorld) (v : Value) : Prop :=
  v.In fun r => r < w.heap.size ∧ ¬ w.region r

/-- A stored key refers to a cell of the region. -/
def Key (w : KeyWorld) (v : Value) : Prop :=
  v.In w.region

/-- A table whose keys are stored ones, and which is filed. -/
def Tab (w : KeyWorld) (t : Table) : Prop :=
  w.heap.Filed t ∧ t.Holds w.Val w.Key

/-- A cell outside the region holds values at large and stored keys. -/
def Open (w : KeyWorld) (c : Cell) : Prop :=
  c.Holds w.Val w.Key ∧ w.heap.Filed c.table

/-- The heap is the one of the world; all cells outside the region and all bindings hold values at
large. -/
structure Separates (w : KeyWorld) (h : Heap) (t : ScopeTree) : Prop where
  heap_eq : h = w.heap
  cells : ∀ (r : Ref) (c : Cell), w.heap.cells[r]? = some c → ¬ w.region r → w.Open c
  bindings : ∀ i name b, (t.scope i).find? name = some b → w.Val b.value

variable {w w' w'' : KeyWorld} {v : Value} {t : Table} {c : Cell} {r : Ref}

/-- A world comes no later than itself. -/
theorem le.refl (w : KeyWorld) : w.le w :=
  ⟨Nat.le_refl _, .refl _ _, fun _ hr => hr, fun _ _ hr => hr⟩

/-- Coming later is transitive. -/
theorem le.trans (h : w.le w') (h' : w'.le w'') : w.le w'' where
  size := Nat.le_trans h.size h'.size
  agree := h.agree.trans h'.agree h.grows
  grows := fun r hr => h'.grows r (h.grows r hr)
  fresh := fun r hlt hr => h.fresh r hlt (h'.fresh r (Nat.lt_of_lt_of_le hlt h.size) hr)

/-- A value of a world is a value of every later one: a region grows by new cells only. -/
theorem Val.mono (hle : w.le w') (hv : w.Val v) : w'.Val v := by
  intro r hr
  obtain ⟨hlt, hout⟩ := hv r hr
  exact ⟨Nat.lt_of_lt_of_le hlt hle.size, fun hin => hout (hle.fresh r hlt hin)⟩

/-- A key of a world is a key of every later one. -/
theorem Key.mono (hle : w.le w') (hv : w.Key v) : w'.Key v :=
  fun r hr => hle.grows r (hv r hr)

/-- A table of a world is a table of every later one. -/
theorem Tab.mono (hle : w.le w') (ht : w.Tab t) : w'.Tab t :=
  ⟨ht.1.agree hle.agree w.sealed.closed fun e he => (ht.2 e he).1,
    ht.2.imp (fun _ hv => hv.mono hle) fun _ hv => hv.mono hle⟩

/-- A cell outside the region may stand outside the region of every later world. -/
theorem Open.mono (hle : w.le w') (hc : w.Open c) : w'.Open c :=
  ⟨hc.1.imp (fun _ hv => hv.mono hle) fun _ hv => hv.mono hle,
    hc.2.agree hle.agree w.sealed.closed fun e he => (hc.1.2 e he).1⟩

/-- Plain values are values of every world. -/
theorem val_of_plain (hv : v.ref? = none) : w.Val v :=
  fun r hr => by rw [hv] at hr; cases hr

/-! ### What a separated heap is like -/

section Separates

variable {h : Heap} {tree : ScopeTree} (hw : w.Separates h tree)

include hw

/-- Wherever a map is, its keys are in the region. -/
theorem Separates.table (m : Ref) : h.Filed (h.table m) ∧ ∀ key ∈ h.keys m, key.In w.region := by
  obtain ⟨rfl, hcells, -⟩ := hw
  cases hc : w.heap.cells[m]? with
  | none =>
    unfold Heap.keys
    rw [Heap.table_of_none _ hc]
    exact ⟨Heap.filed_withRoom _ _, fun key hkey => by cases hkey⟩
  | some c =>
    unfold Heap.keys
    -- maps inside keys are in the region, and all others hold stored keys
    by_cases hm : w.region m
    · refine ⟨(w.sealed m hm).2.1, fun key hkey => ?_⟩
      obtain ⟨e, he, rfl⟩ := List.mem_map.1 hkey
      exact w.sealed.contents hm (Heap.mem_contents_key he)
    · obtain ⟨hholds, hfiled⟩ := hcells m c hc hm
      rw [Heap.table_of_cell _ hc]
      refine ⟨hfiled, fun key hkey => ?_⟩
      obtain ⟨e, he, rfl⟩ := List.mem_map.1 hkey
      exact (hholds.2 e he).1

/-- What a value at large refers to holds values at large and stored keys. -/
theorem Separates.opened (hv : w.Val v) (hr : v.ref? = some r) :
    (∀ x ∈ h.items r, w.Val x) ∧ (h.table r).Holds w.Val w.Key := by
  obtain ⟨rfl, hcells, -⟩ := hw
  obtain ⟨hlt, hout⟩ := hv r hr
  obtain ⟨c, hc⟩ := w.heap.exists_cell hlt
  rw [w.heap.items_of_cell hc, w.heap.table_of_cell hc]
  exact (hcells r c hc hout).1

/-- All references are to cells of the heap. -/
theorem Separates.closed : h.Holds (Value.In (· < h.size)) (Value.In (· < h.size)) := by
  obtain ⟨rfl, hcells, -⟩ := hw
  -- keys are in the region, and the region is part of the heap
  have hregion : ∀ v : Value, v.In w.region → v.In (· < w.heap.size) := fun v hv r hr =>
    (w.sealed r (hv r hr)).1
  intro r c hc
  by_cases hr : w.region r
  · have hcontents : ∀ v ∈ w.heap.contents r, v.In (· < w.heap.size) := fun v hv =>
      hregion v (w.sealed.contents hr hv)
    refine ⟨fun v hv => hcontents v ?_, fun e he => ⟨hcontents _ ?_, hcontents _ ?_⟩⟩
    · refine Heap.mem_contents_items ?_
      rw [w.heap.items_of_cell hc]
      exact Array.mem_toList_iff.2 hv
    · exact Heap.mem_contents_key (by rwa [w.heap.table_of_cell hc])
    · exact Heap.mem_contents_value (by rwa [w.heap.table_of_cell hc])
  · exact (hcells r c hc hr).1.imp (fun v hv s hs => (hv s hs).1) hregion

end Separates

/-! ### Steps from world to world -/

/-- The world with another heap that has the same region. -/
def withHeap (w : KeyWorld) (g : Heap) (hg : w.heap.Agree g w.region) : KeyWorld where
  heap := g
  region := w.region
  sealed := w.sealed.agree hg

/-- Another heap that agrees on the region makes a later world. -/
theorem le_withHeap {g : Heap} (hg : w.heap.Agree g w.region) (hsize : w.heap.size ≤ g.size) :
    w.le (w.withHeap g hg) :=
  ⟨hsize, hg, fun _ hr => hr, fun _ _ hr => hr⟩

/-- Cells outside the region may change as long as they stay open. -/
theorem Separates.withHeap {h g : Heap} {tree : ScopeTree} (hw : w.Separates h tree)
    (hg : w.heap.Agree g w.region) (hsize : w.heap.size ≤ g.size)
    (hcells : ∀ (r : Ref) (c : Cell), g.cells[r]? = some c → ¬ w.region r →
      w.heap.cells[r]? = some c ∨ w.Open c) :
    (w.withHeap g hg).Separates g tree where
  heap_eq := rfl
  cells := fun r c hc hr => by
    rcases hcells r c hc hr with hold | hopen
    · exact (hw.cells r c hold hr).mono (le_withHeap hg hsize)
    · exact hopen.mono (le_withHeap hg hsize)
  bindings := fun i name b hb => (hw.bindings i name b hb).mono (le_withHeap hg hsize)

/-- The world in which the new cells of a larger heap have joined the region. -/
def withFresh (w : KeyWorld) (g : Heap) (hg : w.heap.Extends g)
    (hsealed : g.Sealed (w.heap.Fresh g)) : KeyWorld where
  heap := g
  region := fun r => w.region r ∨ w.heap.Fresh g r
  sealed := (w.sealed.agree (hg.agree fun r hr => (w.sealed r hr).1)).union hsealed

/-- Taking new cells into the region makes a later world. -/
theorem le_withFresh {g : Heap} (hg : w.heap.Extends g) (hsealed : g.Sealed (w.heap.Fresh g)) :
    w.le (w.withFresh g hg hsealed) where
  size := hg.size_le
  agree := hg.agree fun r hr => (w.sealed r hr).1
  grows := fun _ hr => .inl hr
  fresh := fun _ hlt hr => hr.resolve_right fun hfresh => Nat.not_le_of_lt hlt hfresh.1

/-- The copies of a key can be taken into the region. -/
theorem Separates.withFresh {h g : Heap} {tree : ScopeTree} (hw : w.Separates h tree)
    (hg : w.heap.Extends g) (hsealed : g.Sealed (w.heap.Fresh g)) :
    (w.withFresh g hg hsealed).Separates g tree where
  heap_eq := rfl
  cells := fun r c hc hr => by
    -- a cell outside the larger region is not one of the new cells
    have hlt : r < w.heap.size := Nat.lt_of_not_le fun hle => hr (.inr ⟨hle, g.lt_size_of_cell hc⟩)
    have hold : w.heap.cells[r]? = some c := (hg.cell_eq hlt).symm.trans hc
    exact (hw.cells r c hold fun hin => hr (.inl hin)).mono (le_withFresh hg hsealed)
  bindings := fun i name b hb => (hw.bindings i name b hb).mono (le_withFresh hg hsealed)

end KeyWorld

/-! ### The regime of stored keys -/

/-- The regime: keys are lent only if they have no cells, and are changed only by their maps. -/
def keyRegime : Regime where
  World := KeyWorld
  le := KeyWorld.le
  le_refl := KeyWorld.le.refl
  le_trans := KeyWorld.le.trans
  Holds := KeyWorld.Separates
  Allowed := LendsPlainKeys
  Done := KeepsOtherKeys
  Fails _ := True
  fails_of_proper _ := trivial

namespace keyRegime

variable {w : KeyWorld} {v : Value} {r : Ref} {c : Cell}

/-- A step that leaves the heap leaves every key. -/
theorem keeps_of_heap_eq {event : Event} {st after : State} (heq : after.heap = st.heap) :
    KeepsOtherKeys event st after := by
  intro m _ _ _
  unfold Heap.SameKeys
  rw [heq]
  exact ⟨rfl, fun _ _ _ _ => rfl⟩

/-- New cells change no map. -/
theorem keeps_of_extends {event : Event} {st after : State} {tree : ScopeTree}
    (hw : w.Separates st.heap tree) (hext : st.heap.Extends after.heap) :
    KeepsOtherKeys event st after := by
  intro m hm _ _
  have hsealed : st.heap.Sealed w.region := hw.heap_eq ▸ w.sealed
  refine hsealed.sameKeys (hext.agree fun r hr => (hsealed r hr).1) ?_ (hw.table m).2
  unfold Heap.keys Heap.table
  rw [hext.cell_eq hm]

/-- A new cell is outside the region. -/
theorem comp_alloc (hc : w.Open c) :
    keyRegime.Comp w (fun w' r => r < w'.heap.size ∧ ¬ w'.region r) (Eval.alloc c) := by
  refine Regime.comp_act_total fun st hst _ => ?_
  have hw : w.Separates st.heap st.scopes := hst
  have hext := st.heap.extends_push c
  refine ⟨keeps_of_extends hw hext, ?_⟩
  rw [hw.heap_eq] at hext ⊢
  -- the new cell does not join the region
  have hagree := hext.agree fun r hr => (w.sealed r hr).1
  refine ⟨w.withHeap _ hagree, KeyWorld.le_withHeap hagree hext.size_le,
    hw.withHeap hagree hext.size_le fun r c' hc' _ => ?_, ?_, ?_⟩
  · rw [Heap.cell_push] at hc'
    split at hc'
    · cases hc'
      exact .inr hc
    · exact .inl hc'
  · change w.heap.size < (w.heap.push c).size
    simp
  · exact fun hr => Nat.lt_irrefl _ (w.sealed _ hr).1

/-- **An edit** of one cell that a value at large refers to. -/
theorem comp_edit {event : Event} (edit : Heap → Heap) (hv : w.Val v) (hr : v.ref? = some r)
    (hsize : (edit w.heap).size = w.heap.size)
    (hother : ∀ s, s ≠ r → (edit w.heap).cells[s]? = w.heap.cells[s]?)
    (hcell : ∀ c', (edit w.heap).cells[r]? = some c' →
      ∃ c, w.heap.cells[r]? = some c ∧ (w.Open c → w.Open c'))
    (hkeys : event ≠ .put r → event ≠ .delete r → (edit w.heap).keys r = w.heap.keys r) :
    keyRegime.Comp w (fun _ _ => True)
      (Eval.act event fun st => (.value (), { st with heap := edit st.heap })) := by
  refine Regime.comp_act_total fun st hst _ => ?_
  have hw : w.Separates st.heap st.scopes := hst
  -- a value at large refers to no cell of the region, so the region is as it was
  have hout : ¬ w.region r := (hv r hr).2
  have hagree : w.heap.Agree (edit w.heap) w.region := fun s hs =>
    hother s fun heq => hout (heq ▸ hs)
  have htable := fun m => (hw.table m).2
  have heq := hw.heap_eq
  refine ⟨fun m hm hput hdelete => ?_, ?_⟩
  · change st.heap.SameKeys (edit st.heap) m
    rw [heq] at htable ⊢
    refine w.sealed.sameKeys hagree ?_ (htable m)
    -- of the map that is edited the keys are known, and no other map changes
    by_cases hmr : m = r
    · subst hmr
      exact hkeys hput hdelete
    · unfold Heap.keys Heap.table
      rw [hother m hmr]
  · rw [heq]
    refine ⟨w.withHeap _ hagree, KeyWorld.le_withHeap hagree (Nat.le_of_eq hsize.symm),
      hw.withHeap hagree (Nat.le_of_eq hsize.symm) fun s c' hc' hs => ?_, trivial⟩
    by_cases hsr : s = r
    · subst hsr
      obtain ⟨c, hc, hopen⟩ := hcell c' hc'
      exact .inr (hopen (hw.cells s c hc hs))
    · rw [hother s hsr] at hc'
      exact .inl hc'

/-- An edit of elements is outside the region, since no key is a value that programs have. -/
theorem comp_editItems {f : Array Value → Array Value} (hv : w.Val v) (hr : v.ref? = some r)
    (hf : ∀ xs : Array Value, ∀ x ∈ f xs, x ∈ xs ∨ w.Val x) :
    keyRegime.Comp w (fun _ _ => True) (Eval.editItems r f) := by
  refine comp_edit (fun h => h.editItems r f) hv hr (w.heap.size_editItems r f)
    (fun s hs => ?_) (fun c' hc' => ?_) fun _ _ => ?_
  -- the other cells are as they were
  · rw [Heap.cell_editItems, if_neg (Ne.symm hs)]
  -- the cell itself is still open: its new members are old ones or the value put in
  · rw [Heap.cell_editItems, if_pos rfl] at hc'
    obtain ⟨c, hc, rfl⟩ := Option.map_eq_some_iff.1 hc'
    refine ⟨c, hc, fun hopen => ⟨Cell.holds_mapItems hopen.1 hf, ?_⟩⟩
    rw [Cell.table_mapItems]
    exact hopen.2
  · unfold Heap.keys
    rw [Heap.table_editItems]

/-- A map may be changed as long as its table stays one of stored keys. -/
theorem comp_editTable {event : Ref → Event} {f : Heap → Table → Table} (hv : w.Val (.map r))
    (hf : ∀ t, w.Tab t → w.Tab (f w.heap t))
    (hkeys : event r ≠ .put r → event r ≠ .delete r →
      ∀ t, (f w.heap t).entries.map (·.key) = t.entries.map (·.key)) :
    keyRegime.Comp w (fun _ _ => True) (Eval.editTable event r f) := by
  refine comp_edit (fun h => h.editTable r (f h)) hv rfl (w.heap.size_editTable r _)
    (fun s hs => ?_) (fun c' hc' => ?_) fun hput hdelete => ?_
  -- the other cells stay; this one stays outside; its keys stay unless it is a map that is put to
  -- or deleted from
  · rw [Heap.cell_editTable, if_neg (Ne.symm hs)]
  · rw [Heap.cell_editTable, if_pos rfl] at hc'
    obtain ⟨c, hc, rfl⟩ := Option.map_eq_some_iff.1 hc'
    refine ⟨c, hc, fun hopen => ?_⟩
    cases c with
    | tuple xs => exact hopen
    | list xs => exact hopen
    | map t =>
      obtain ⟨hfiled, hholds⟩ := hf t ⟨hopen.2, hopen.1.2⟩
      exact ⟨Cell.holds_map hholds, hfiled⟩
  · unfold Heap.keys
    cases hc : w.heap.cells[r]? with
    | none =>
      have hnone : (w.heap.editTable r (f w.heap)).cells[r]? = none := by
        rw [Heap.cell_editTable, if_pos rfl, hc]
        rfl
      rw [Heap.table_of_none _ hc, Heap.table_of_none _ hnone]
    | some c =>
      have hsome : (w.heap.editTable r (f w.heap)).cells[r]? = some (c.mapTable (f w.heap)) := by
        rw [Heap.cell_editTable, if_pos rfl, hc]
        rfl
      rw [Heap.table_of_cell _ hc, Heap.table_of_cell _ hsome]
      cases c with
      | tuple xs => rfl
      | list xs => rfl
      | map t => exact hkeys hput hdelete t

/-- Detaching a key adds its cells to the region. -/
theorem comp_detachKey (hv : w.Val v) : keyRegime.Comp w KeyWorld.Key (Eval.detachKey v) := by
  refine Regime.comp_detachKey fun st copy g hst hd => ?_
  have hw : w.Separates st.heap st.scopes := hst
  -- the value that is copied refers to cells of the heap, the copy to new ones
  have hsource : v.In (· < st.heap.size) := fun r hr => by
    rw [hw.heap_eq]
    exact (hv r hr).1
  obtain ⟨hext, hsealed, hcopy⟩ := Heap.of_detach_sealed hw.closed hsource hd
  refine ⟨keeps_of_extends hw hext, ?_⟩
  rw [hw.heap_eq] at hext hsealed hcopy
  exact ⟨w.withFresh g hext hsealed, KeyWorld.le_withFresh hext hsealed,
    hw.withFresh hext hsealed, fun r hr => .inr (hcopy r hr)⟩

/-- What is lent has no cells, so it may be at large as well as stored. -/
theorem comp_lendEntries (hr : w.Val (.map r)) :
    keyRegime.Comp w (fun w' es => ∀ e ∈ es, w'.Key e.key ∧ w'.Val e.key ∧ w'.Val e.value)
      (Native.lendEntries r) := by
  refine Regime.comp_act_total fun st hst hallowed => ?_
  have hw : w.Separates st.heap st.scopes := hst
  refine ⟨keeps_of_heap_eq rfl, w, .refl w, hw, fun e he => ?_⟩
  have he := Logic.sortedEntries_mem he
  obtain ⟨hkey, hvalue⟩ := (hw.opened hr rfl).2 e he
  -- here it is used that no aggregate is lent
  have hplain : e.key.ref? = none := hallowed r rfl e.key (List.mem_map_of_mem he)
  exact ⟨hkey, KeyWorld.val_of_plain hplain, hvalue⟩

/-! ### Scopes -/

/-- A new scope has no bindings to check. -/
theorem comp_newScope (s : ScopeId) : keyRegime.Comp w (fun _ _ => True) (Eval.newScope s) := by
  refine Regime.comp_act_total fun st hst _ => ?_
  have hw : w.Separates st.heap st.scopes := hst
  refine ⟨keeps_of_heap_eq rfl, w, .refl w, ⟨hw.heap_eq, hw.cells, fun i name b hb => ?_⟩, trivial⟩
  unfold ScopeTree.addChild at hb
  rw [ScopeTree.scope_push] at hb
  split at hb
  · rw [Scope.find?_bare] at hb
    cases hb
  · exact hw.bindings i name b hb

/-- A name has a value of the world. -/
theorem comp_lookup {s : ScopeId} {name : String} :
    keyRegime.Comp w KeyWorld.Val (Eval.lookup s name) := by
  refine Regime.comp_lookup fun st v hst hv => ?_
  have hw : w.Separates st.heap st.scopes := hst
  have hbinds : st.scopes.Binds (fun _ => True) w.Val := fun i _ => hw.bindings i
  exact hbinds.lookup (fun _ _ => trivial) hv

/-- Binding a value of the world keeps the scopes free of keys. -/
theorem comp_binding (locate : ScopeTree → Except Error ScopeId) {name : String}
    (hv : w.Val v) :
    keyRegime.Comp w (fun _ _ => True) (Eval.act .bind fun st =>
      match locate st.scopes with
      | .ok o => (.value (), { st with scopes := st.scopes.bind o name ⟨v, false⟩ })
      | .error e => (.error e, st)) := by
  refine Regime.comp_binding locate (fun _ _ _ => trivial) fun st o hst _ => ?_
  have hw : w.Separates st.heap st.scopes := hst
  refine ⟨keeps_of_heap_eq rfl, w, .refl w, hw.heap_eq, hw.cells, fun i other b hb => ?_⟩
  -- the name that is bound has a value of the world, and the other names are as they were
  rw [ScopeTree.find?_scope_bind] at hb
  split at hb
  · cases hb
    exact hv
  · exact hw.bindings i other b hb

end keyRegime

/-- **The evaluator keeps stored keys apart.** -/
def keyLogic : Logic where
  World := KeyWorld
  le := KeyWorld.le
  le_refl := KeyWorld.le.refl
  le_trans := KeyWorld.le.trans
  Inv := keyRegime.Inv
  Val := KeyWorld.Val
  Key := KeyWorld.Key
  Tab := KeyWorld.Tab
  Scope _ _ := True
  Here _ _ := True
  Body _ := True
  Fails _ := True
  Comp := keyRegime.Comp
  val_mono := KeyWorld.Val.mono
  key_mono := KeyWorld.Key.mono
  tab_mono := KeyWorld.Tab.mono
  scope_mono _ _ := trivial
  here_mono _ _ := trivial
  here_scope _ := trivial
  val_plain {w v} hv := by
    refine KeyWorld.val_of_plain ?_
    cases v <;> first | rfl | cases hv
  val_function {w f} := ⟨fun _ => ⟨trivial, fun _ _ => trivial⟩, fun _ => KeyWorld.val_of_plain rfl⟩
  val_lambda := ⟨fun _ => trivial, fun _ => KeyWorld.val_of_plain rfl⟩
  fails_of_proper _ := trivial
  fails_of_body _ _ _ := trivial
  items hst hv hr := (KeyWorld.Separates.opened hst hv hr).1
  entries hst hr := (KeyWorld.Separates.opened hst hr rfl).2
  tab_withRoom := ⟨Heap.filed_withRoom _ _, Table.holds_withRoom _⟩
  -- a table in the making is filed in the heap at hand, for the world knows it
  tab_insert {w st t k v} hst ht hk hv := by
    have hw : w.Separates st.heap st.scopes := hst
    rw [hw.heap_eq]
    exact ⟨ht.1.insert, Heap.holds_insert _ ht.2 hk hv⟩
  pure := Regime.comp_pure (R := keyRegime)
  bind := Regime.comp_bind (R := keyRegime)
  fail := Regime.comp_fail (R := keyRegime)
  exhausted := Regime.comp_exhausted (R := keyRegime)
  reading := Regime.comp_reading (R := keyRegime)
  frame := Regime.comp_frame (R := keyRegime)
  newTuple hvs := Regime.comp_bind (keyRegime.comp_alloc
    ⟨Cell.holds_tuple (by simpa using hvs), Heap.filed_withRoom _ _⟩)
    fun _ r _ hr => Regime.comp_pure fun s hs => by cases hs; exact hr
  newList hvs := Regime.comp_bind (keyRegime.comp_alloc
    ⟨Cell.holds_list (by simpa using hvs), Heap.filed_withRoom _ _⟩)
    fun _ r _ hr => Regime.comp_pure fun s hs => by cases hs; exact hr
  newMap ht := Regime.comp_bind (keyRegime.comp_alloc ⟨Cell.holds_map ht.2, ht.1⟩)
    fun _ r _ hr => Regime.comp_pure fun s hs => by cases hs; exact hr
  editItems := keyRegime.comp_editItems
  put hr hk hv := keyRegime.comp_editTable hr
    (fun _ ht => ⟨ht.1.insert, Heap.holds_insert _ ht.2 hk hv⟩) fun hput => absurd rfl hput
  replace hr hk hv := keyRegime.comp_editTable hr
    (fun _ ht => ⟨ht.1.replace, Heap.holds_replace _ ht.2 hv⟩) fun _ _ t =>
      Heap.keys_replace _ t _ _
  delete hr _ := keyRegime.comp_editTable hr
    (fun _ ht => ⟨ht.1.erase, Heap.holds_erase _ ht.2⟩) fun _ hdelete => absurd rfl hdelete
  lendEntries := keyRegime.comp_lendEntries
  detachKey := keyRegime.comp_detachKey
  newScope _ := keyRegime.comp_newScope _
  lookup _ := keyRegime.comp_lookup
  declare _ hv := keyRegime.comp_binding (fun t => t.declareIn _ _) hv
  assign _ hv := keyRegime.comp_binding (fun t => t.assignIn _ _) hv
  newIdentity := Regime.comp_act_aside (fun _ => rfl) (fun _ => rfl)
    (fun _ _ => keyRegime.keeps_of_heap_eq) fun _ _ => trivial
  print := Regime.comp_act_aside (fun _ => rfl) (fun _ => rfl)
    (fun _ _ => keyRegime.keeps_of_heap_eq) fun _ _ => trivial

/-- The logic admits every statement. -/
theorem keyLogic.admits (stmt : Stmt) : keyLogic.Admits stmt :=
  ⟨fun _ _ => trivial, fun _ _ => trivial⟩

/-- The regime holds in every session whose listings lend no key with a cell. -/
theorem keyRegime.governs : keyRegime.Governs where
  initial hashing := by
    -- an empty region in an empty heap
    let w : KeyWorld := ⟨.empty hashing, fun _ => False, fun _ hr => hr.elim⟩
    refine ⟨w, rfl, fun r c hc => by simp [w, Heap.empty] at hc, fun i name b hb => ?_⟩
    have hmem := ScopeTree.mem_builtins_of_find?_globalScopes hb
    exact keyLogic.val_plain (isPlain_builtins _ hmem)
  evalLast w _ _ := Logic.weaken (L := keyLogic)
    (Logic.evalLast (L := keyLogic) (w := w) trivial fun stmt _ => keyLogic.admits stmt)
    fun _ _ _ _ => trivial
  evalProgram w _ _ := Logic.weaken (L := keyLogic)
    (Logic.evalProgram (L := keyLogic) (w := w) trivial fun stmt _ => keyLogic.admits stmt)
    fun _ _ _ _ => trivial

/-! ### Stored keys in every session reached -/

/-- The keys of a map are different in pairs. -/
theorem KeyWorld.Separates.pairwise_keys {w : KeyWorld} {h : Heap} {tree : ScopeTree}
    (hw : w.Separates h tree) (m : Ref) :
    (h.keys m).Pairwise fun a b => h.equal a b = false ∧ h.equal b a = false := by
  obtain ⟨hfiled, hin⟩ := hw.table m
  have hsealed : h.Sealed w.region := hw.heap_eq ▸ w.sealed
  have hdistinct : (h.keys m).Pairwise fun a b => h.equal b a = false :=
    List.pairwise_map.2 hfiled.distinct
  refine List.Pairwise.imp_of_mem (fun {a b} ha hb hba => ⟨?_, hba⟩) hdistinct
  -- the table says that no key is equal to an earlier one; of sound values equality is symmetric
  cases hab : h.equal a b with
  | false => rfl
  | true =>
    have := Heap.equal_symm (hsealed.sound (hin a ha)) (hsealed.sound (hin b hb)) hab
    rw [hba] at this
    cases this

/-- **Stored keys stay as they are.**  In every session reached by runs that lend no aggregate for a
key, and in every state that such a run passes through, no two keys of a map are equal, no key
reaches an aggregate that contains itself, and every event of a further run that lends no aggregate
for a key leaves the keys of a map as they are, unless it is a `put` or a `delete` on this map. -/
theorem Session.keys_separate (s : Session) (hs : s.Reached LendsPlainKeys) :
    (∀ m, (s.state.heap.keys m).Pairwise (fun a b =>
        s.state.heap.equal a b = false ∧ s.state.heap.equal b a = false) ∧
      ∀ key ∈ s.state.heap.keys m, ∀ r, s.state.heap.Reaches key r →
        ¬ s.state.heap.ContainsItself r) ∧
    ∀ fuel source watch, Bounds.Within ⟨s.limit, watch⟩ LendsPlainKeys →
      s.Brings fuel source watch KeepsOtherKeys := by
  -- the regime holds in every session; what it says of keys is read off the last state
  obtain ⟨w, hst⟩ := keyRegime.governs.holds hs
  have hw : w.Separates s.state.heap s.state.scopes := hst
  have hsealed : s.state.heap.Sealed w.region := hw.heap_eq ▸ w.sealed
  refine ⟨fun m => ⟨hw.pairwise_keys m, fun key hkey r hr => ?_⟩, fun fuel source watch hwithin =>
    keyRegime.governs.brings hs fuel source watch hwithin⟩
  exact hsealed.not_containsItself (hsealed.closed.of_reaches ((hw.table m).2 key hkey) hr)

/-- The watch that objects to lending aggregates. -/
def plainLending : Watch
  | .lend m, st, _ => (st.heap.keys m).all fun key => key.ref?.isNone
  | _, _, _ => true

/-- The bounds that allow plain keys to be lent allow nothing else. -/
theorem within_plainLending (limit : Nat) :
    Bounds.Within ⟨limit, some plainLending⟩ LendsPlainKeys := by
  intro event st after hpermits m heq key hkey
  subst heq
  change (st.heap.keys m).all (fun key => key.ref?.isNone) = true at hpermits
  exact Option.isNone_iff_eq_none.1 (List.all_eq_true.1 hpermits key hkey)

/-- A run that passes the watch leads to a session of which `keys_separate` speaks. -/
theorem Session.Reached.run_plainLending {s : Session} (hs : s.Reached LendsPlainKeys) {fuel : Nat}
    {source : String} (hended : (s.run fuel source (some plainLending)).1.ended = true) :
    (s.run fuel source).2.Reached LendsPlainKeys := by
  rw [run_eq_of_watched hended]
  exact .run fuel source (some plainLending) hs (within_plainLending s.limit)

/-- A list is a key, is edited, and becomes another key of the same map. -/
theorem Session.keys_separate_edited_list :
    let text := "k = []; m = %{k => 1}; List.append(k, 2); Map.put(m, k, 3)"
    let s := ((Session.new 8).run 60 text).2
    (s.state.heap.keys 2).map s.inspect = ["[]", "[2]"] ∧
      (s.state.heap.keys 2).Pairwise fun a b =>
        s.state.heap.equal a b = false ∧ s.state.heap.equal b a = false := by
  intro text s
  have hs : s.Reached LendsPlainKeys := Reached.run_plainLending (.new 8) (by decide +kernel)
  exact ⟨by decide +kernel, ((keys_separate s hs).1 2).1⟩

/-- **Lending an aggregate breaks the separation.**  Whatever program gets hold of a key that is a
sequence, appending to it changes the keys of the map. -/
theorem Heap.not_sameKeys_push {h : Heap} {m r : Ref} {key v : Value} (hkey : key ∈ h.keys m)
    (hr : key.ref? = some r) {kind : SequenceKind} {xs : Array Value}
    (hc : h.cells[r]? = some (.ofSequence kind xs)) :
    ¬ h.SameKeys (h.editItems r (·.push v)) m := by
  intro hsame
  -- the key reaches its own cell, so that cell would have to be as it was
  have hcell := hsame.2 key hkey r ⟨r, hr, .refl⟩
  rw [cell_editItems, if_pos rfl, hc, Option.map_some, Option.some.injEq] at hcell
  have hsize : (xs.push v).size = xs.size := by
    cases kind with
    | tuple => exact congrArg Array.size (Cell.tuple.inj hcell)
    | list => exact congrArg Array.size (Cell.list.inj hcell)
  rw [Array.size_push] at hsize
  exact Nat.succ_ne_self _ hsize

example :
    let s := ((Session.new 8).run 60 "k = List.at(Map.keys(%{[] => 1}), 0)").2
    let s' := (s.run 60 "List.append(k, 2)").2
    (s.state.heap.keys 2).map s.inspect = ["[]"] ∧
      (s'.state.heap.keys 2).map s'.inspect = ["[2]"] := by
  decide +kernel

end AtomScript

import AtomScript.Proofs.Heap.Lookup
import AtomScript.Proofs.Scope.Outwards
import AtomScript.Proofs.Session.Builtins
import AtomScript.Proofs.Session.Reset

/-!
# Closed memories

The heap and the scopes of a state refer to each other: a cell holds functions, which were made in
scopes, and a scope binds aggregates, which are held by cells.  Together they are its `Memory`.  A
memory is *closed* (`Memory.Closed`) when whatever is mentioned in it is there, cells with an
aggregate of the kind that the reference has, and every scope was made inside an earlier one or is
one of the global scopes, which are the only ones with constants.

Memories only grow.  A later one (`Memory.Lasts`) has all cells and scopes of the earlier one, the
cells with the kinds they had and the scopes inside the scopes they were made in; so whatever there
was is still there (`Memory.Lasts.has`).  What computations do to a memory, each step keeps closed:
new cells and edits (`Memory.Closed.withHeap`), copies of keys (`Memory.Closed.of_detach`), new
scopes and bindings, and the global scope that is made by a reset.
-/

namespace AtomScript

namespace Heap

variable {h g k : Heap} {v : Value} {r : Ref}

/-! ### Kinds -/

/-- The cells of the first heap are in the second, with the same kinds. -/
def KeepsKinds (h g : Heap) : Prop :=
  ∀ (r : Ref) (c : Cell), h.cells[r]? = some c → ∃ c', g.cells[r]? = some c' ∧ c'.kind = c.kind

/-- A heap keeps its own kinds. -/
theorem KeepsKinds.refl (h : Heap) : h.KeepsKinds h := fun _ c hc => ⟨c, hc, rfl⟩

/-- Keeping kinds is transitive. -/
theorem KeepsKinds.trans (hg : h.KeepsKinds g) (hk : g.KeepsKinds k) : h.KeepsKinds k := by
  intro r c hc
  obtain ⟨c', hc', hkind⟩ := hg r c hc
  obtain ⟨c'', hc'', hkind'⟩ := hk r c' hc'
  exact ⟨c'', hc'', hkind'.trans hkind⟩

/-- An extension leaves the old cells, and with them their kinds. -/
theorem Extends.keepsKinds (hg : h.Extends g) : h.KeepsKinds g := fun r c hc => ⟨c, hg r c hc, rfl⟩

/-- An edit of one cell that leaves its kind alone. -/
theorem keepsKinds_of_edit {F : Cell → Cell} (hF : ∀ c, (F c).kind = c.kind)
    (hg : ∀ s : Ref, g.cells[s]? = if r = s then (h.cells[s]?).map F else h.cells[s]?) :
    h.KeepsKinds g := by
  intro s c hc
  rw [hg s, hc]
  split
  · exact ⟨F c, rfl, hF c⟩
  · exact ⟨c, rfl, rfl⟩

/-- An edit of elements keeps the kinds. -/
theorem keepsKinds_editItems (h : Heap) (r : Ref) (f : Array Value → Array Value) :
    h.KeepsKinds (h.editItems r f) :=
  keepsKinds_of_edit (fun c => by cases c <;> rfl) (h.cell_editItems r f)

/-- An edit of a table keeps the kinds. -/
theorem keepsKinds_editTable (h : Heap) (r : Ref) (f : Table → Table) :
    h.KeepsKinds (h.editTable r f) :=
  keepsKinds_of_edit (fun c => by cases c <;> rfl) (h.cell_editTable r f)

/-- A value without a cell fits every heap. -/
theorem fits_of_ref?_eq_none (hv : v.ref? = none) : h.Fits v := by
  intro r hr
  rw [hv] at hr
  cases hr

/-- A value that fits goes on to fit while kinds are kept. -/
theorem Fits.keep (hv : h.Fits v) (hg : h.KeepsKinds g) : g.Fits v := by
  intro r hr
  obtain ⟨c, hc, hkind⟩ := hv r hr
  obtain ⟨c', hc', hkind'⟩ := hg r c hc
  exact ⟨c', hc', hkind'.trans hkind⟩

end Heap

/-! ### Memories -/

/-- Plain values have no cell. -/
theorem Value.ref?_of_isPlain {v : Value} (h : v.isPlain = true) : v.ref? = none := by
  cases v with
  | tuple r => cases h
  | list r => cases h
  | map r => cases h
  | _ => rfl

/-- The part of a state in which things are mentioned. -/
structure Memory where
  heap : Heap
  scopes : ScopeTree

def State.memory (st : State) : Memory := ⟨st.heap, st.scopes⟩

namespace Memory

variable {m m' m'' : Memory} {G : ScopeId → Prop} {v : Value} {s o : ScopeId} {name : String}
  {g : Heap} {c : Cell}

/-- What the value mentions is there: the cell, with an aggregate of its kind, and the scope that it
was made in. -/
structure Has (m : Memory) (v : Value) : Prop where
  cell : m.heap.Fits v
  scope : ∀ s, v.scope? = some s → s < m.scopes.size

/-- The second memory is a later one: cells have kept their kinds, and scopes are inside the scopes
they were made in. -/
structure Lasts (m m' : Memory) : Prop where
  kinds : m.heap.KeepsKinds m'.heap
  size : m.scopes.size ≤ m'.scopes.size
  outer : ∀ s < m.scopes.size, (m'.scopes.scope s).outer = (m.scopes.scope s).outer

/-- **Whatever is mentioned is there**, and the scopes are in order; `G` tells the global ones. -/
structure Closed (G : ScopeId → Prop) (m : Memory) : Prop where
  /-- The elements of sequences, and the keys and values of maps. -/
  cells : m.heap.Holds m.Has m.Has
  bindings : m.scopes.Binds (fun _ => True) m.Has
  /-- Every scope is inside none, or was made inside an earlier one. -/
  linked : m.scopes.Linked
  /-- The global scopes are those that are inside no other. -/
  globals : ∀ s, G s ↔ s < m.scopes.size ∧ m.scopes.parent? s = none
  /-- The constants are the built-in names of the global scopes. -/
  constants : ∀ s name v,
    (m.scopes.scope s).find? name = some ⟨v, true⟩ ↔ G s ∧ (name, v) ∈ builtins

/-! ### Later memories -/

/-- A memory lasts to itself. -/
theorem Lasts.refl (m : Memory) : m.Lasts m := ⟨.refl _, Nat.le_refl _, fun _ _ => rfl⟩

/-- Lasting is transitive. -/
theorem Lasts.trans (h : m.Lasts m') (h' : m'.Lasts m'') : m.Lasts m'' where
  kinds := h.kinds.trans h'.kinds
  size := Nat.le_trans h.size h'.size
  outer := fun s hs => (h'.outer s (Nat.lt_of_lt_of_le hs h.size)).trans (h.outer s hs)

/-- What there was is still there. -/
theorem Lasts.has (h : m.Lasts m') (hv : m.Has v) : m'.Has v :=
  ⟨hv.cell.keep h.kinds, fun s hs => Nat.lt_of_lt_of_le (hv.scope s hs) h.size⟩

/-! ### What is there -/

/-- Plain values are in every memory. -/
theorem has_of_isPlain (hv : v.isPlain = true) : m.Has v where
  cell := Heap.fits_of_ref?_eq_none (Value.ref?_of_isPlain hv)
  scope s hs := by
    rw [Value.scope?_of_isPlain hv] at hs
    cases hs

/-- A named function is in memory when its scope is. -/
theorem has_function {f : Function} : m.Has (.function f) ↔ f.scope < m.scopes.size :=
  ⟨fun h => h.scope f.scope rfl,
    fun h => ⟨Heap.fits_of_ref?_eq_none rfl, fun _ hs => Option.some.inj hs ▸ h⟩⟩

/-- A function written in place is in memory when its scope is. -/
theorem has_lambda {f : Lambda} : m.Has (.lambda f) ↔ f.scope < m.scopes.size :=
  ⟨fun h => h.scope f.scope rfl,
    fun h => ⟨Heap.fits_of_ref?_eq_none rfl, fun _ hs => Option.some.inj hs ▸ h⟩⟩

/-- An aggregate is there if its cell is. -/
theorem has_of_ref? {r : Ref} (hr : v.ref? = some r)
    (hc : ∃ c, m.heap.cells[r]? = some c ∧ c.kind = v.kind) : m.Has v where
  cell q hq := by
    rw [hr] at hq
    cases hq
    exact hc
  -- a value with a cell is no function, so it names no scope
  scope s hs := by
    rw [Value.scope?_of_ref? hr] at hs
    cases hs

/-! ### Another heap -/

def withHeap (m : Memory) (g : Heap) : Memory := { m with heap := g }

/-- Changing the heap again, kinds kept, lasts. -/
theorem lasts_withHeap_withHeap {k : Heap} (hk : g.KeepsKinds k) :
    (m.withHeap g).Lasts (m.withHeap k) :=
  ⟨hk, Nat.le_refl _, fun _ _ => rfl⟩

/-- Changing the heap, kinds kept, lasts. -/
theorem lasts_withHeap (hg : m.heap.KeepsKinds g) : m.Lasts (m.withHeap g) :=
  lasts_withHeap_withHeap hg

/-- A closed memory stays closed under a heap that keeps kinds and holds present values only. -/
theorem Closed.withHeap (hm : m.Closed G) (hkinds : m.heap.KeepsKinds g)
    (hg : g.Holds (m.withHeap g).Has (m.withHeap g).Has) : (m.withHeap g).Closed G where
  cells := hg
  bindings i hi name b hb := (lasts_withHeap hkinds).has (hm.bindings i hi name b hb)
  linked := hm.linked
  globals := hm.globals
  constants := hm.constants

/-- What is put into cells may be anything that was there before. -/
theorem Closed.withHeap_of_holds (hm : m.Closed G) (hkinds : m.heap.KeepsKinds g)
    (hg : g.Holds m.Has m.Has) : (m.withHeap g).Closed G :=
  hm.withHeap hkinds <|
    hg.imp (fun _ hv => (lasts_withHeap hkinds).has hv) fun _ hv => (lasts_withHeap hkinds).has hv

/-! ### Copies of keys -/

/-- One more cell, with what is in the memory. -/
theorem holds_push (hg : g.Holds (m.withHeap g).Has (m.withHeap g).Has)
    (hc : c.Holds (m.withHeap g).Has (m.withHeap g).Has) :
    (g.push c).Holds (m.withHeap (g.push c)).Has (m.withHeap (g.push c)).Has := by
  have hlasts : (m.withHeap g).Lasts (m.withHeap (g.push c)) :=
    lasts_withHeap_withHeap (g.extends_push c).keepsKinds
  exact (hg.push hc).imp (fun _ hv => hlasts.has hv) fun _ hv => hlasts.has hv

/-- The value that refers to the new cell. -/
theorem has_push (hr : v.ref? = some g.size) (hkind : c.kind = v.kind) :
    (m.withHeap (g.push c)).Has v := by
  refine has_of_ref? hr ⟨c, ?_, hkind⟩
  change (g.push c).cells[g.size]? = some c
  rw [Heap.cell_push, if_pos rfl]

/-- While a copy is made, the heap that grows stays closed. -/
def closedCopying (m : Memory) : m.heap.Copying where
  Source := m.Has
  Inv g := g.Holds (m.withHeap g).Has (m.withHeap g).Has
  Val g v := (m.withHeap g).Has v
  Tab g t := t.Holds (m.withHeap g).Has (m.withHeap g).Has
  val_mono hext hv := (lasts_withHeap_withHeap hext.keepsKinds).has hv
  tab_mono hext _ _ ht := ht.imp
    (fun _ hv => (lasts_withHeap_withHeap hext.keepsKinds).has hv)
    fun _ hv => (lasts_withHeap_withHeap hext.keepsKinds).has hv
  leaf hv hnone := ⟨fun r hr => absurd (hv.cell.lt_size hr) (hnone r hr), hv.scope⟩
  withRoom := Table.holds_withRoom _
  insert _ ht hkey hvalue := Heap.holds_insert _ ht hkey hvalue
  sequence kind {g vs} hg hvs := by
    cases kind with
    | tuple => exact ⟨holds_push hg (Cell.holds_tuple (by simpa using hvs)), has_push rfl rfl⟩
    | list => exact ⟨holds_push hg (Cell.holds_list (by simpa using hvs)), has_push rfl rfl⟩
  map hg ht := ⟨holds_push hg (Cell.holds_map ht), has_push rfl rfl⟩

/-- A detached copy adds what it refers to. -/
theorem Closed.of_detach (hm : m.Closed G) {copy : Value} (hv : m.Has v)
    (hd : m.heap.detach v = .ok (copy, g)) :
    m.Lasts (m.withHeap g) ∧ (m.withHeap g).Closed G ∧ (m.withHeap g).Has copy := by
  have hopens : m.heap.Opens m.closedCopying.Source := Heap.Holds.opens (V := m.Has) hm.cells
  obtain ⟨hext, hholds, hcopy⟩ := m.closedCopying.of_detach hopens hm.cells hv hd
  exact ⟨lasts_withHeap hext.keepsKinds, hm.withHeap hext.keepsKinds hholds, hcopy⟩

/-! ### Other scopes -/

def withScopes (m : Memory) (t : ScopeTree) : Memory := { m with scopes := t }

variable {t : ScopeTree}

/-- Changing the scopes lasts if the old scopes keep their parents. -/
theorem lasts_withScopes (hsize : m.scopes.size ≤ t.size)
    (houter : ∀ s < m.scopes.size, (t.scope s).outer = (m.scopes.scope s).outer) :
    m.Lasts (m.withScopes t) :=
  ⟨.refl _, hsize, houter⟩

/-- Values that are in the cells are still there. -/
theorem Closed.withScopes {G' : ScopeId → Prop} (hm : m.Closed G)
    (hlasts : m.Lasts (m.withScopes t))
    (hbindings : ∀ i name b, (t.scope i).find? name = some b → m.Has b.value)
    (hlinked : t.Linked) (hglobals : ∀ i, G' i ↔ i < t.size ∧ t.parent? i = none)
    (hconstants : ∀ i name v,
      (t.scope i).find? name = some ⟨v, true⟩ ↔ G' i ∧ (name, v) ∈ builtins) :
    (m.withScopes t).Closed G' where
  cells := hm.cells.imp (fun _ hv => hlasts.has hv) fun _ hv => hlasts.has hv
  bindings i _ name b hb := hlasts.has (hbindings i name b hb)
  linked := hlinked
  globals := hglobals
  constants := hconstants

/-- A new scope leaves the old ones. -/
theorem lasts_addChild (m : Memory) (s : ScopeId) :
    m.Lasts (m.withScopes (m.scopes.addChild s)) := by
  refine lasts_withScopes (Nat.le_of_lt ?_) fun i hi => ?_
  · rw [ScopeTree.size_addChild]
    exact Nat.lt_succ_self _
  · unfold ScopeTree.addChild
    rw [ScopeTree.scope_push, if_neg (Nat.ne_of_lt hi)]

/-- A new scope inside one that is there keeps the memory closed. -/
theorem Closed.addChild (hm : m.Closed G) (hs : s < m.scopes.size) :
    (m.withScopes (m.scopes.addChild s)).Closed G := by
  have hscope : ∀ i, (m.scopes.addChild s).scope i =
      if i = m.scopes.size then .bare (m.scopes.chain s) else m.scopes.scope i :=
    m.scopes.scope_push _
  -- before, there was nothing where the new scope is, and now there is a bare scope
  have hfind : ∀ i name, ((m.scopes.addChild s).scope i).find? name =
      (m.scopes.scope i).find? name := by
    intro i name
    rw [hscope]
    split
    · next hi => rw [hi, m.scopes.scope_of_size_le (Nat.le_refl _), Scope.find?_bare,
        Scope.find?_bare]
    · rfl
  refine hm.withScopes (lasts_addChild m s) (fun i name b hb => ?_) (hm.linked.addChild hs)
    (fun i => ?_) fun i name v => ?_
  · rw [hfind] at hb
    exact hm.bindings i trivial name b hb
  · rw [hm.globals, ScopeTree.size_addChild]
    unfold ScopeTree.parent?
    rw [hscope]
    -- the new scope is inside another one, so it is not global
    by_cases hi : i = m.scopes.size
    · rw [if_pos hi]
      simp [hi, Scope.bare, ScopeTree.chain]
    · rw [if_neg hi, Nat.lt_succ_iff_lt_or_eq, or_iff_left hi]
  · rw [hfind]
    exact hm.constants i name v

/-- A binding leaves the parents. -/
theorem lasts_bind (m : Memory) (o : ScopeId) (name : String) (b : Binding) :
    m.Lasts (m.withScopes (m.scopes.bind o name b)) :=
  lasts_withScopes (Nat.le_of_eq (m.scopes.size_bind o name b).symm)
    fun i _ => m.scopes.outer_bind o name b i

/-- A name is bound in a scope that does not have it as a constant. -/
theorem Closed.bind (hm : m.Closed G) (hv : m.Has v)
    (hvariable : ∀ u, (m.scopes.scope o).find? name ≠ some ⟨u, true⟩) :
    (m.withScopes (m.scopes.bind o name ⟨v, false⟩)).Closed G := by
  have hbinds : (m.scopes.bind o name ⟨v, false⟩).Binds (fun _ => True) m.Has :=
    ScopeTree.Binds.bind hm.bindings hv
  refine hm.withScopes (lasts_bind m o name _) (fun i => hbinds i trivial) (hm.linked.bind o name _)
    (fun i => ?_) fun i other u => ?_
  · rw [hm.globals, ScopeTree.size_bind]
    unfold ScopeTree.parent?
    rw [ScopeTree.outer_bind]
  -- no constant is lost, since the name was not one
  · rw [← hm.constants, ScopeTree.find?_scope_bind]
    split
    · next hsame =>
      obtain ⟨⟨rfl, -⟩, rfl⟩ := hsame
      exact iff_of_false (by simp) (hvariable u)
    · rfl

end Memory

/-! ### New global scopes -/

namespace ScopeTree

variable {t : ScopeTree} {i o : ScopeId} {bs : List (String × Value)}

/-- Binding several names leaves the parents. -/
theorem outer_bindAll (i : ScopeId) : ((t.bindAll o bs).scope i).outer = (t.scope i).outer := by
  induction bs generalizing t with
  | nil => rfl
  | cons b bs ih => exact ih.trans (t.outer_bind _ _ _ i)

/-- Binding several names keeps the scopes linked. -/
theorem Linked.bindAll (ht : t.Linked) : (t.bindAll o bs).Linked := by
  induction bs generalizing t with
  | nil => exact ht
  | cons b bs ih => exact ih (ht.bind _ _ _)

/-- A scope with no parent keeps the scopes linked. -/
theorem Linked.addRoot (ht : t.Linked) : t.addRoot.Linked := by
  intro s hs
  unfold ScopeTree.addRoot at hs ⊢
  rw [size_push] at hs
  have hscope : ∀ i < t.size, (t.push (.bare [])).scope i = t.scope i := fun i hi => by
    rw [scope_push, if_neg (Nat.ne_of_lt hi)]
  -- the new scope has no parent, and the parents of the others are there
  by_cases hnew : s = t.size
  · rw [scope_push, if_pos hnew]
    exact .inl rfl
  · have hlt : s < t.size := by omega
    rw [hscope s hlt]
    refine (ht s hlt).imp_right fun ⟨p, hp, hps⟩ => ⟨p, hp, ?_⟩
    unfold chain
    rw [hscope p (Nat.lt_trans hp hlt)]
    exact hps

/-- A global scope is one more scope. -/
theorem size_addGlobal (t : ScopeTree) : t.addGlobal.size = t.size + 1 := by
  rw [addGlobal_eq, size_bindAll]
  exact t.size_push _

/-- A global scope keeps the scopes linked. -/
theorem Linked.addGlobal (ht : t.Linked) : t.addGlobal.Linked := ht.addRoot.bindAll

/-- A global scope leaves all others. -/
theorem scope_addGlobal_of_ne (hi : i ≠ t.size) : t.addGlobal.scope i = t.scope i := by
  rw [addGlobal_eq, scope_bindAll_of_ne hi]
  unfold addRoot
  rw [scope_push, if_neg hi]

/-- A global scope has no parent. -/
theorem outer_addGlobal (t : ScopeTree) : (t.addGlobal.scope t.size).outer = [] := by
  rw [addGlobal_eq, outer_bindAll]
  unfold addRoot
  rw [scope_push, if_pos rfl]
  rfl

/-- The new scope binds what the global scope of a new session binds. -/
theorem find?_addGlobal (t : ScopeTree) (name : String) :
    (t.addGlobal.scope t.size).find? name = (globalScopes.scope globalScope).find? name := by
  -- the new scope is the first global scope moved behind the ones that exist already
  have hshifted : globalScopes.Shifted ⟨0, t.size, 0⟩ t.addGlobal :=
    (ScopeTree.Shifted.empty rfl).addGlobal
  refine (hshifted.find? globalScope name).trans ?_
  cases hfind : (globalScopes.scope globalScope).find? name with
  | none => rfl
  | some b =>
    -- and a built-in is a plain value, which moving leaves as it is
    have hplain := isPlain_builtins _ (mem_builtins_of_find?_globalScopes hfind)
    unfold Shift.binding
    rw [Option.map_some, Shift.value_of_isPlain hplain]

end ScopeTree

namespace Memory

variable {m : Memory} {G G' : ScopeId → Prop}

/-- A memory lasts when a global scope is added. -/
theorem lasts_addGlobal (m : Memory) : m.Lasts (m.withScopes m.scopes.addGlobal) := by
  refine lasts_withScopes (Nat.le_of_lt ?_) fun i hi => ?_
  · rw [ScopeTree.size_addGlobal]
    exact Nat.lt_succ_self _
  · rw [ScopeTree.scope_addGlobal_of_ne (Nat.ne_of_lt hi)]

/-- A new global scope joins the global scopes. -/
theorem Closed.addGlobal (hm : m.Closed G) (hG : ∀ i, G' i ↔ G i ∨ i = m.scopes.size) :
    (m.withScopes m.scopes.addGlobal).Closed G' := by
  refine hm.withScopes (lasts_addGlobal m) (fun i name b hb => ?_) hm.linked.addGlobal
    (fun i => ?_) fun i name v => ?_
  -- the new scope binds the built-in names, and the others bind what they did
  · by_cases hi : i = m.scopes.size
    · rw [hi, ScopeTree.find?_addGlobal] at hb
      exact has_of_isPlain (isPlain_builtins _ (ScopeTree.mem_builtins_of_find?_globalScopes hb))
    · rw [ScopeTree.scope_addGlobal_of_ne hi] at hb
      exact hm.bindings i trivial name b hb
  · rw [hG, hm.globals, ScopeTree.size_addGlobal, Nat.lt_succ_iff_lt_or_eq]
    unfold ScopeTree.parent?
    by_cases hi : i = m.scopes.size
    · rw [hi, ScopeTree.outer_addGlobal]
      simp
    · rw [ScopeTree.scope_addGlobal_of_ne hi, or_iff_left hi, or_iff_left hi]
  · rw [hG]
    by_cases hi : i = m.scopes.size
    · rw [hi, ScopeTree.find?_addGlobal, and_iff_right (.inr rfl)]
      exact ⟨ScopeTree.mem_builtins_of_find?_globalScopes, ScopeTree.find?_globalScopes⟩
    · rw [ScopeTree.scope_addGlobal_of_ne hi, or_iff_left hi]
      exact hm.constants i name v

/-- The memory with nothing in it is closed. -/
theorem closed_empty (hashing : Hashing) :
    (⟨.empty hashing, .empty⟩ : Memory).Closed fun _ => False := by
  have hnone : ∀ i name, (ScopeTree.empty.scope i).find? name = none := fun i name => by
    rw [ScopeTree.scope_of_size_le _ (Nat.zero_le i), Scope.find?_bare]
  refine ⟨Heap.holds_empty hashing, fun i _ name b hb => ?_,
    fun i hi => absurd hi (Nat.not_lt_zero i), fun i => ?_, fun i name v => ?_⟩
  · rw [hnone] at hb
    cases hb
  · exact iff_of_false id fun h => Nat.not_lt_zero i h.1
  · rw [hnone]
    simp

/-- The memory that every session starts with. -/
theorem closed_initial (hashing : Hashing) :
    (State.initial hashing).memory.Closed (· = globalScope) := by
  refine (closed_empty hashing).addGlobal fun i => ?_
  rw [false_or]
  rfl

/-! ### What follows of the scopes -/

/-- A closed memory, with what its scopes allow: from each of them one comes outwards to a global
scope, by way of earlier scopes only. -/
structure InOrder (G : ScopeId → Prop) (m : Memory) : Prop extends m.Closed G where
  parents : ∀ s < m.scopes.size, ∀ p, m.scopes.parent? s = some p → p < s
  chains : ∀ s < m.scopes.size, ∀ i ∈ m.scopes.chain s, i ≤ s
  outermost : ∀ s < m.scopes.size, G (m.scopes.outermost s)
  climbs : ∀ s < m.scopes.size, m.scopes.Climbs s
  /-- What a scope has as a constant is bound in it, and is what the name means there. -/
  bound : ∀ s name v, (m.scopes.scope s).find? name = some ⟨v, true⟩ →
    m.scopes.hasLocal s name = true ∧ m.scopes.lookup s name = .ok v

/-- A closed memory is in order: its parents, chains and bindings are as lookup needs them. -/
theorem Closed.inOrder (hm : m.Closed G) : m.InOrder G where
  toClosed := hm
  parents _ hs _ hp := hm.linked.parent_lt hs hp
  chains _ hs := hm.linked.le_of_mem_chain hs
  outermost s hs := (hm.globals _).2 (hm.linked.outermost_spec hs)
  climbs _ hs := hm.linked.climbs hs
  bound s name v hfind := by
    refine ⟨?_, ScopeTree.lookup_eq_ok_iff.2 ⟨⟨v, true⟩, ?_, rfl⟩⟩
    · unfold ScopeTree.hasLocal
      rw [Scope.owns_eq, hfind]
      rfl
    · unfold ScopeTree.resolve? ScopeTree.chain
      rw [List.findSome?_cons, hfind]

end Memory

end AtomScript

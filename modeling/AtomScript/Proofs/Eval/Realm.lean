import AtomScript.Proofs.Eval.Regime
import AtomScript.Proofs.Heap.Copying

/-!
# Realms

A *realm* is what a run can get hold of: the values at large in it, the cells that they refer to and
the scopes that its code runs in.  A run stays in its realm.  What it reads from a cell or a scope
of the realm is a value of the realm, so what it binds, stores or makes is one as well, and a cell
outside the realm it can neither read nor edit.

Which values, cells and scopes these are is up to the instance; new cells must belong to the realm.
The instance also says what is to be kept up of the scope tree (`Tree`), and proves it for the three
operations on scopes.  The heap is then taken care of.

* `Realm.Keeps` — the heap is as the realm demands;
* `Realm.logic` — the evaluator stays in the realm.
-/

namespace AtomScript

/-- What a run can get hold of. -/
structure Realm where
  /-- The heap at the start of the run. -/
  start : Heap
  /-- The cells of the realm. -/
  Region : Ref → Prop
  /-- The values of the realm. -/
  Val : Value → Prop
  /-- Functions may be made in the scope, and scopes inside it. -/
  Scope : ScopeId → Prop
  /-- Code may run in the scope. -/
  Here : ScopeId → Prop
  /-- The statements may be the body of a function. -/
  Body : List Stmt → Prop
  /-- A run may end with the error. -/
  Fails : Error → Prop
  /-- What is kept up of the scope tree. -/
  Tree : ScopeTree → Prop
  region_of_le : ∀ {r}, start.size ≤ r → Region r
  val_plain : ∀ {v}, v.isPlain = true → Val v
  val_ref : ∀ {v r}, v.ref? = some r → (Val v ↔ Region r)
  val_function : ∀ {f : Function},
    Val (.function f) ↔ Scope f.scope ∧ ∀ body, f.definition.Defines body → Body body
  val_lambda : ∀ {f : Lambda}, Val (.lambda f) ↔ Scope f.scope
  here_scope : ∀ {s}, Here s → Scope s
  fails_of_proper : ∀ {e : Error}, e.isProper = true → Fails e
  fails_of_body : ∀ {body name k}, Body body → BodyExposes body k → k ≠ .returning →
    Fails (.loopControlInFunction name)
  -- the operations on scopes
  lookup : ∀ {t s name v}, Tree t → Here s → t.lookup s name = .ok v → Val v
  addChild : ∀ {t s}, Tree t → Scope s → Tree (t.addChild s) ∧ Here t.size
  declare : ∀ {t s name v o}, Tree t → Here s → Val v → t.declareIn s name = .ok o →
    Tree (t.bind o name ⟨v, false⟩)
  assign : ∀ {t s name v o}, Tree t → Here s → Val v → t.assignIn s name = .ok o →
    Tree (t.bind o name ⟨v, false⟩)

namespace Realm

variable {R : Realm} {h : Heap} {c : Cell} {r : Ref} {v : Value}

/-! ### The heap -/

/-- The cells of the realm hold values of the realm, and all other cells are as they were at the
start. -/
structure Keeps (R : Realm) (h : Heap) : Prop where
  size : R.start.size ≤ h.size
  cells : ∀ (r : Ref) (c : Cell), R.Region r → h.cells[r]? = some c → c.Holds R.Val R.Val
  outside : ∀ r, ¬ R.Region r → h.cells[r]? = R.start.cells[r]?

namespace Keeps

theorem opens (hh : R.Keeps h) : h.Opens R.Val := by
  intro v r hv hr
  have hcell : R.Region r := (R.val_ref hr).1 hv
  cases hc : h.cells[r]? with
  | none =>
    rw [h.items_of_none hc, h.table_of_none hc]
    exact ⟨fun x hx => absurd hx (by simp), Table.holds_withRoom 0⟩
  | some c =>
    rw [h.items_of_cell hc, h.table_of_cell hc]
    exact hh.cells r c hcell hc

/-- Cells may be added, and cells of the realm may change, as long as they hold values of the
realm. -/
theorem of_cells {g : Heap} (hh : R.Keeps h) (hsize : h.size ≤ g.size)
    (hcells : ∀ (r : Ref) (c : Cell), R.Region r → g.cells[r]? = some c →
      h.cells[r]? = some c ∨ c.Holds R.Val R.Val)
    (houtside : ∀ r, ¬ R.Region r → g.cells[r]? = h.cells[r]?) : R.Keeps g where
  size := Nat.le_trans hh.size hsize
  cells := fun r c hr hc => by
    rcases hcells r c hr hc with hold | hholds
    · exact hh.cells r c hr hold
    · exact hholds
  outside := fun r hr => (houtside r hr).trans (hh.outside r hr)

/-- A cell outside the realm is one of those that were there at the start. -/
theorem lt_size (hh : R.Keeps h) (hr : ¬ R.Region r) : r < h.size :=
  Nat.lt_of_lt_of_le (Nat.lt_of_not_le fun hle => hr (R.region_of_le hle)) hh.size

theorem extends_of_new {g : Heap} (hh : R.Keeps h) (hg : h.Extends g)
    (hnew : ∀ (r : Ref) (c : Cell), h.size ≤ r → g.cells[r]? = some c →
      c.Holds R.Val R.Val) : R.Keeps g := by
  refine hh.of_cells hg.size_le (fun r c _ hc => ?_) fun r hr => hg.cell_eq (hh.lt_size hr)
  by_cases hlt : r < h.size
  · rw [hg.cell_eq hlt] at hc
    exact .inl hc
  · exact .inr (hnew r c (Nat.le_of_not_lt hlt) hc)

theorem push (hh : R.Keeps h) (hc : c.Holds R.Val R.Val) : R.Keeps (h.push c) := by
  refine hh.extends_of_new (h.extends_push c) fun r c' hr hc' => ?_
  rw [Heap.cell_push] at hc'
  split at hc'
  · cases hc'
    exact hc
  · exact absurd (h.lt_size_of_cell hc') (Nat.not_lt.2 hr)

theorem editItems {f : Array Value → Array Value} (hh : R.Keeps h) (hr : R.Region r)
    (hf : ∀ xs : Array Value, ∀ x ∈ f xs, x ∈ xs ∨ R.Val x) : R.Keeps (h.editItems r f) := by
  refine hh.of_cells (Nat.le_of_eq (h.size_editItems r f).symm) (fun s c hs hc => ?_)
    fun s hs => ?_
  · rw [Heap.cell_editItems] at hc
    split at hc
    · obtain ⟨c₀, hc₀, rfl⟩ := Option.map_eq_some_iff.1 hc
      exact .inr (Cell.holds_mapItems (hh.cells s c₀ hs hc₀) hf)
    · exact .inl hc
  · rw [Heap.cell_editItems, if_neg fun heq : r = s => hs (heq ▸ hr)]

theorem editTable {f : Table → Table} (hh : R.Keeps h) (hr : R.Region r)
    (hf : ∀ t : Table, t.Holds R.Val R.Val → (f t).Holds R.Val R.Val) :
    R.Keeps (h.editTable r f) := by
  refine hh.of_cells (Nat.le_of_eq (h.size_editTable r f).symm) (fun s c hs hc => ?_)
    fun s hs => ?_
  · rw [Heap.cell_editTable] at hc
    split at hc
    · obtain ⟨c₀, hc₀, rfl⟩ := Option.map_eq_some_iff.1 hc
      exact .inr (Cell.holds_mapTable (hh.cells s c₀ hs hc₀) (hf c₀.table))
    · exact .inl hc
  · rw [Heap.cell_editTable, if_neg fun heq : r = s => hs (heq ▸ hr)]

theorem detach {g : Heap} {copy : Value} (hh : R.Keeps h) (hv : R.Val v)
    (hd : h.detach v = .ok (copy, g)) : R.Keeps g ∧ R.Val copy := by
  -- an aggregate of the copy is new, and so it belongs to the realm
  have hnew : ∀ v r, v.ref? = some r → h.size ≤ r → R.Val v := fun v r hr hle =>
    (R.val_ref hr).2 (R.region_of_le (Nat.le_trans hh.size hle))
  obtain ⟨hext, hcopy, hcells⟩ := Heap.of_detach_values hnew hh.opens hv hd
  exact ⟨hh.extends_of_new hext hcells, hcopy⟩

end Keeps

/-! ### The regime -/

/-- The regime of a realm: there is one world, and runs promise nothing about events. -/
def regime (R : Realm) : Regime where
  World := Unit
  le _ _ := True
  le_refl _ := trivial
  le_trans _ _ := trivial
  Holds _ h t := R.Keeps h ∧ R.Tree t
  Allowed _ _ _ := True
  Done _ _ _ := True
  Fails := R.Fails
  fails_of_proper := R.fails_of_proper

theorem comp_alloc (hc : c.Holds R.Val R.Val) :
    R.regime.Comp () (fun _ r => R.Region r) (Eval.alloc c) :=
  Regime.comp_act_total fun _ hst _ =>
    ⟨trivial, (), trivial, ⟨hst.1.push hc, hst.2⟩, R.region_of_le hst.1.size⟩

/-- A new aggregate, whose cell holds values of the realm. -/
theorem comp_new {make : Ref → Value} (hmake : ∀ r, (make r).ref? = some r)
    (hc : c.Holds R.Val R.Val) :
    R.regime.Comp () (fun _ => R.Val) (Eval.alloc c >>= fun r => pure (make r)) :=
  Regime.comp_bind (comp_alloc hc) fun _ r _ hr => Regime.comp_pure ((R.val_ref (hmake r)).2 hr)

theorem comp_editTable {event : Ref → Event} {f : Heap → Table → Table} (hv : R.Val (.map r))
    (hf : ∀ h t, t.Holds R.Val R.Val → (f h t).Holds R.Val R.Val) :
    R.regime.Comp () (fun _ _ => True) (Eval.editTable event r f) := by
  have hr : R.Region r := (R.val_ref rfl).1 hv
  refine Regime.comp_act_total fun st hst _ => ⟨trivial, (), trivial, ⟨?_, hst.2⟩, trivial⟩
  exact hst.1.editTable hr fun t ht => hf st.heap t ht

theorem comp_editItems {f : Array Value → Array Value} (hv : R.Val v) (hr : v.ref? = some r)
    (hf : ∀ xs : Array Value, ∀ x ∈ f xs, x ∈ xs ∨ R.Val x) :
    R.regime.Comp () (fun _ _ => True) (Eval.editItems r f) := by
  refine Regime.comp_act_total fun st hst _ => ⟨trivial, (), trivial, ⟨?_, hst.2⟩, trivial⟩
  exact hst.1.editItems ((R.val_ref hr).1 hv) hf

theorem comp_lendEntries (hv : R.Val (.map r)) :
    R.regime.Comp () (fun _ es => ∀ e ∈ es, R.Val e.key ∧ R.Val e.key ∧ R.Val e.value)
      (Native.lendEntries r) := by
  refine Regime.comp_act_total fun st hst _ => ⟨trivial, (), trivial, hst, fun e he => ?_⟩
  obtain ⟨hkey, hvalue⟩ := (hst.1.opens _ r hv rfl).2 e (Logic.sortedEntries_mem he)
  exact ⟨hkey, hkey, hvalue⟩

theorem comp_detachKey (hv : R.Val v) :
    R.regime.Comp () (fun _ => R.Val) (Eval.detachKey v) := by
  refine Regime.comp_detachKey fun st copy g hst hd => ?_
  obtain ⟨hheap, hcopy⟩ := hst.1.detach hv hd
  exact ⟨trivial, (), trivial, ⟨hheap, hst.2⟩, hcopy⟩

/-- **The evaluator stays in the realm.** -/
def logic (R : Realm) : Logic where
  World := Unit
  le _ _ := True
  le_refl _ := trivial
  le_trans _ _ := trivial
  Inv := R.regime.Inv
  Val _ := R.Val
  -- keys are handed out to programs, so they are values of the realm like any others
  Key _ := R.Val
  Tab _ := Table.Holds R.Val R.Val
  Scope _ := R.Scope
  Here _ := R.Here
  Body := R.Body
  Fails := R.Fails
  Comp := R.regime.Comp
  val_mono _ hv := hv
  key_mono _ hv := hv
  tab_mono _ ht := ht
  scope_mono _ hs := hs
  here_mono _ hs := hs
  here_scope := R.here_scope
  val_plain := R.val_plain
  val_function := R.val_function
  val_lambda := R.val_lambda
  fails_of_proper := R.fails_of_proper
  fails_of_body := R.fails_of_body
  items hst hv hr := (hst.1.opens _ _ hv hr).1
  entries hst hv := (hst.1.opens _ _ hv rfl).2
  tab_withRoom := Table.holds_withRoom _
  tab_insert _ ht hk hv := Heap.holds_insert _ ht hk hv
  pure := Regime.comp_pure (R := R.regime)
  bind := Regime.comp_bind (R := R.regime)
  fail := Regime.comp_fail (R := R.regime)
  exhausted := Regime.comp_exhausted (R := R.regime)
  reading := Regime.comp_reading (R := R.regime)
  frame := Regime.comp_frame (R := R.regime)
  newTuple hvs := comp_new (fun _ => rfl) (Cell.holds_tuple (by simpa using hvs))
  newList hvs := comp_new (fun _ => rfl) (Cell.holds_list (by simpa using hvs))
  newMap ht := comp_new (fun _ => rfl) (Cell.holds_map ht)
  editItems := comp_editItems
  put hr hk hv := comp_editTable hr fun h _ ht => h.holds_insert ht hk hv
  replace hr _ hv := comp_editTable hr fun h _ ht => h.holds_replace ht hv
  delete hr _ := comp_editTable hr fun h _ ht => h.holds_erase ht
  lendEntries := comp_lendEntries
  detachKey := comp_detachKey
  newScope hs := Regime.comp_act_total fun _ hst _ =>
    ⟨trivial, (), trivial, ⟨hst.1, (R.addChild hst.2 hs).1⟩, (R.addChild hst.2 hs).2⟩
  lookup hs := Regime.comp_lookup fun _ _ hst hv => R.lookup hst.2 hs hv
  declare hs hv := Regime.comp_binding (fun t => t.declareIn _ _)
    (fun _ _ he => R.fails_of_proper (by rw [ScopeTree.error_of_declareIn he]; rfl))
    fun _ _ hst ho => ⟨trivial, (), trivial, hst.1, R.declare hst.2 hs hv ho⟩
  assign hs hv := Regime.comp_binding (fun t => t.assignIn _ _)
    (fun _ _ he => R.fails_of_proper (by
      rcases ScopeTree.error_of_assignIn he with rfl | rfl
      · rfl
      · rfl))
    fun _ _ hst ho => ⟨trivial, (), trivial, hst.1, R.assign hst.2 hs hv ho⟩
  newIdentity := Regime.comp_act_aside (fun _ => rfl) (fun _ => rfl) (fun _ _ _ => trivial)
    fun _ _ => trivial
  print := Regime.comp_act_aside (fun _ => rfl) (fun _ => rfl) (fun _ _ _ => trivial)
    fun _ _ => trivial

/-- What the judgement says of a run, whatever its bounds. -/
theorem comp_run {α : Type} {Q : Unit → α → Prop} {x : Eval α} (hx : R.regime.Comp () Q x)
    (b : Bounds) {st : State} (hheap : R.Keeps st.heap) (htree : R.Tree st.scopes) :
    R.Keeps (x b st).2.heap ∧ R.Tree (x b st).2.scopes ∧ R.regime.Ends () Q (x b st).1 := by
  obtain ⟨_, _, _, hinv, hends⟩ := hx b (fun _ _ _ _ => trivial) st ⟨hheap, htree⟩
  exact ⟨hinv.1, hinv.2, hends⟩

end Realm

end AtomScript

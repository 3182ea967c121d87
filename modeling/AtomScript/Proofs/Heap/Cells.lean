import AtomScript.Heap.Detach
import Mathlib.Logic.Basic

/-!
# What cells hold

A cell holds values in two roles: as elements of a sequence or values of a map, and as keys of a
map. `Cell.Holds V K` says that the former satisfy `V` and the latter `K`; the operations on cells
and tables keep this up as long as what is put in satisfies it.
-/

namespace AtomScript

namespace Table

/-- The keys of the table satisfy `K`, its values `V`. -/
def Holds (V K : Value → Prop) (t : Table) : Prop :=
  ∀ e ∈ t.entries, K e.key ∧ V e.value

variable {V K : Value → Prop} {t : Table}

/-- Weaker conditions on values and keys hold too. -/
theorem Holds.imp {V' K' : Value → Prop} (h : t.Holds V K) (hV : ∀ v, V v → V' v)
    (hK : ∀ v, K v → K' v) : t.Holds V' K' :=
  fun e he => ⟨hK _ (h e he).1, hV _ (h e he).2⟩

/-- A fresh table has no entries to check. -/
theorem holds_withRoom (n : Nat) : (Table.withRoom n).Holds V K :=
  fun _ he => absurd he (by simp [Table.withRoom])

end Table

namespace Heap

variable {V K : Value → Prop} {t : Table} (h : Heap)

theorem mem_entries_makeRoom {e : Entry} (he : e ∈ (h.makeRoom t).entries) :
    ∃ e' ∈ t.entries, e'.key = e.key ∧ e'.value = e.value := by
  -- making room files the entries anew, with the keys and values they have
  unfold makeRoom at he
  split at he
  · exact ⟨e, he, rfl, rfl⟩
  · obtain ⟨e', he', rfl⟩ := List.mem_map.1 he
    exact ⟨e', he', rfl, rfl⟩

/-- Making room changes no key and no value. -/
theorem holds_makeRoom (ht : t.Holds V K) : (h.makeRoom t).Holds V K := by
  intro e he
  obtain ⟨e', he', hk, hv⟩ := h.mem_entries_makeRoom he
  rw [← hk, ← hv]
  exact ht e' he'

/-- Changing a value changes no key. -/
theorem mem_replaceIn {key value : Value} {es : List Entry} {e : Entry}
    (he : e ∈ h.replaceIn key value es) :
    ∃ e' ∈ es, e'.key = e.key ∧ (e'.value = e.value ∨ e.value = value) := by
  induction es with
  | nil => cases he
  | cons a es ih =>
    unfold replaceIn at he
    -- the first entry that answers gets the value, and the walk ends there
    split at he
    · rcases List.mem_cons.1 he with rfl | he
      · exact ⟨a, List.mem_cons_self, rfl, .inr rfl⟩
      · exact ⟨e, List.mem_cons_of_mem a he, rfl, .inl rfl⟩
    · rcases List.mem_cons.1 he with rfl | he
      · exact ⟨e, List.mem_cons_self, rfl, .inl rfl⟩
      · obtain ⟨e', he', hk, hv⟩ := ih he
        exact ⟨e', List.mem_cons_of_mem a he', hk, hv⟩

/-- Replacing a value keeps the conditions if the new value has them. -/
theorem holds_replace {key value : Value} (ht : t.Holds V K) (hv : V value) :
    (h.replace t key value).Holds V K := by
  intro e he
  obtain ⟨e', he', hk, hvalue⟩ := h.mem_replaceIn he
  refine ⟨hk ▸ (ht e' he').1, ?_⟩
  rcases hvalue with heq | heq
  · exact heq ▸ (ht e' he').2
  · exact heq ▸ hv

/-- An insertion keeps the conditions if the key and the value have them. -/
theorem holds_insert {key value : Value} (ht : t.Holds V K) (hk : K key) (hv : V value) :
    (h.insert t key value).Holds V K := by
  unfold insert
  dsimp only
  -- a key that is there keeps its stored form and gets another value; a new one comes last
  split
  · exact h.holds_replace (h.holds_makeRoom ht) hv
  · intro e he
    rcases List.mem_append.1 he with he | he
    · exact h.holds_makeRoom ht e he
    · rw [List.mem_singleton] at he
      subst he
      exact ⟨hk, hv⟩

/-- An erasure keeps the conditions of what stays. -/
theorem holds_erase {key : Value} (ht : t.Holds V K) : (h.erase t key).Holds V K :=
  fun e he => ht e (List.mem_of_mem_eraseP he)

end Heap

/-! ### Cells -/

namespace Cell

/-- The elements of the sequence that the cell holds. -/
def items : Cell → Array Value
  | tuple xs | list xs => xs
  | map _ => #[]

/-- The table of the map that the cell holds. -/
def table : Cell → Table
  | map t => t
  | _ => .empty

/-- Elements and values satisfy `V`, keys satisfy `K`. -/
def Holds (V K : Value → Prop) (c : Cell) : Prop :=
  (∀ v ∈ c.items, V v) ∧ c.table.Holds V K

variable {V K : Value → Prop} {c : Cell}

/-- Weaker conditions on values and keys hold of a cell too. -/
theorem Holds.imp {V' K' : Value → Prop} (h : c.Holds V K) (hV : ∀ v, V v → V' v)
    (hK : ∀ v, K v → K' v) : c.Holds V' K' :=
  ⟨fun v hv => hV v (h.1 v hv), h.2.imp hV hK⟩

/-- A tuple's cell holds values only. -/
theorem holds_tuple {xs : Array Value} (h : ∀ v ∈ xs, V v) : (Cell.tuple xs).Holds V K :=
  ⟨h, Table.holds_withRoom 0⟩

/-- A list's cell holds values only. -/
theorem holds_list {xs : Array Value} (h : ∀ v ∈ xs, V v) : (Cell.list xs).Holds V K :=
  ⟨h, Table.holds_withRoom 0⟩

/-- A map's cell holds a table only. -/
theorem holds_map {t : Table} (h : t.Holds V K) : (Cell.map t).Holds V K :=
  ⟨fun _ hv => absurd hv (by simp [items]), h⟩

/-- An edit of elements that brings in good values only keeps the conditions. -/
theorem holds_mapItems {f : Array Value → Array Value} (h : c.Holds V K)
    (hf : ∀ xs : Array Value, ∀ x ∈ f xs, x ∈ xs ∨ V x) : (c.mapItems f).Holds V K := by
  have hxs : ∀ xs : Array Value, (∀ v ∈ xs, V v) → ∀ v ∈ f xs, V v := by
    intro xs hxs v hv
    rcases hf xs v hv with hv | hv
    · exact hxs v hv
    · exact hv
  -- an edit of elements does nothing to a map
  cases c with
  | tuple xs => exact holds_tuple (hxs xs h.1)
  | list xs => exact holds_list (hxs xs h.1)
  | map t => exact h

/-- An edit of elements leaves the table of a cell. -/
theorem table_mapItems (f : Array Value → Array Value) (c : Cell) :
    (c.mapItems f).table = c.table := by
  cases c <;> rfl

/-- An edit of the table that keeps the conditions of a table keeps those of a cell. -/
theorem holds_mapTable {f : Table → Table} (h : c.Holds V K)
    (hf : c.table.Holds V K → (f c.table).Holds V K) : (c.mapTable f).Holds V K := by
  cases c with
  | tuple xs => exact h
  | list xs => exact h
  | map t => exact holds_map (hf h.2)

end Cell

/-! ### Heaps -/

namespace Heap

variable (h : Heap)

/-- The elements at a place are those of the cell there. -/
theorem items_of_cell {r : Ref} {c : Cell} (hc : h.cells[r]? = some c) : h.items r = c.items := by
  unfold items
  rw [hc]
  cases c <;> rfl

/-- Where no cell is, there are no elements. -/
theorem items_of_none {r : Ref} (hc : h.cells[r]? = none) : h.items r = #[] := by
  unfold items
  rw [hc]

/-- The table at a place is that of the cell there. -/
theorem table_of_cell {r : Ref} {c : Cell} (hc : h.cells[r]? = some c) : h.table r = c.table := by
  unfold table
  rw [hc]
  cases c <;> rfl

/-- Where no cell is, the table is empty. -/
theorem table_of_none {r : Ref} (hc : h.cells[r]? = none) : h.table r = .empty := by
  unfold table
  rw [hc]

/-- The cells after one more is allocated. -/
theorem cell_push (c : Cell) (r : Ref) :
    (h.push c).cells[r]? = if r = h.size then some c else h.cells[r]? := by
  unfold push size
  exact Array.getElem?_push

/-- The cells after an edit of elements. -/
theorem cell_editItems (r : Ref) (f : Array Value → Array Value) (s : Ref) :
    (h.editItems r f).cells[s]? =
      if r = s then (h.cells[s]?).map (·.mapItems f) else h.cells[s]? := by
  unfold editItems
  exact Array.getElem?_modify

/-- The cells after an edit of a table. -/
theorem cell_editTable (r : Ref) (f : Table → Table) (s : Ref) :
    (h.editTable r f).cells[s]? =
      if r = s then (h.cells[s]?).map (·.mapTable f) else h.cells[s]? := by
  unfold editTable
  exact Array.getElem?_modify

/-- An edit of elements leaves every table. -/
theorem table_editItems (r : Ref) (f : Array Value → Array Value) (s : Ref) :
    (h.editItems r f).table s = h.table s := by
  cases hc : h.cells[s]? with
  | none =>
    have hnone : (h.editItems r f).cells[s]? = none := by simp [cell_editItems, hc]
    rw [h.table_of_none hc, table_of_none _ hnone]
  | some c =>
    rw [h.table_of_cell hc]
    by_cases hrs : r = s
    · have hsome : (h.editItems r f).cells[s]? = some (c.mapItems f) := by
        simp [cell_editItems, hc, hrs]
      rw [table_of_cell _ hsome, Cell.table_mapItems]
    · have hsome : (h.editItems r f).cells[s]? = some c := by simp [cell_editItems, hc, hrs]
      rw [table_of_cell _ hsome]

/-- A cell is at a place below the size. -/
theorem lt_size_of_cell {r : Ref} {c : Cell} (hc : h.cells[r]? = some c) : r < h.size :=
  (Array.getElem?_eq_some_iff.1 hc).1

/-- Every place below the size has a cell. -/
theorem exists_cell {r : Ref} (hr : r < h.size) : ∃ c, h.cells[r]? = some c :=
  ⟨h.cells[r], Array.getElem?_eq_getElem hr⟩

/-- Every cell holds values that satisfy `V` and keys that satisfy `K`. -/
def Holds (V K : Value → Prop) : Prop :=
  ∀ (r : Ref) (c : Cell), h.cells[r]? = some c → c.Holds V K

variable {h} {V K : Value → Prop}

/-- Weaker conditions hold of a heap too. -/
theorem Holds.imp {V' K' : Value → Prop} (hh : h.Holds V K) (hV : ∀ v, V v → V' v)
    (hK : ∀ v, K v → K' v) : h.Holds V' K' :=
  fun r c hc => (hh r c hc).imp hV hK

/-- A heap without cells satisfies every condition. -/
theorem holds_empty (hashing : Hashing) : (Heap.empty hashing).Holds V K := fun _ _ hc => by
  cases hc

/-- Every element in a heap has the condition on values. -/
theorem Holds.items (hh : h.Holds V K) {r : Ref} {v : Value} (hv : v ∈ h.items r) : V v := by
  cases hc : h.cells[r]? with
  | none =>
    rw [h.items_of_none hc] at hv
    exact absurd hv (by simp)
  | some c =>
    rw [h.items_of_cell hc] at hv
    exact (hh r c hc).1 v hv

/-- Every table in a heap has the conditions. -/
theorem Holds.table (hh : h.Holds V K) (r : Ref) : (h.table r).Holds V K := by
  cases hc : h.cells[r]? with
  | none =>
    rw [h.table_of_none hc]
    exact Table.holds_withRoom 0
  | some c =>
    rw [h.table_of_cell hc]
    exact (hh r c hc).2

/-- An allocation keeps the conditions if the new cell has them. -/
theorem Holds.push (hh : h.Holds V K) {c : Cell} (hc : c.Holds V K) : (h.push c).Holds V K := by
  intro r c' hc'
  rw [cell_push] at hc'
  split at hc'
  · rw [Option.some.injEq] at hc'
    exact hc' ▸ hc
  · exact hh r c' hc'

/-- An edit of elements that brings in good values only keeps the conditions. -/
theorem Holds.editItems (hh : h.Holds V K) {r : Ref} {f : Array Value → Array Value}
    (hf : ∀ xs : Array Value, ∀ x ∈ f xs, x ∈ xs ∨ V x) : (h.editItems r f).Holds V K := by
  intro s c hc
  rw [cell_editItems] at hc
  split at hc
  · obtain ⟨c₀, hc₀, rfl⟩ := Option.map_eq_some_iff.1 hc
    exact Cell.holds_mapItems (hh s c₀ hc₀) hf
  · exact hh s c hc

/-- An edit of a table that keeps the conditions of tables keeps those of the heap. -/
theorem Holds.editTable (hh : h.Holds V K) {r : Ref} {f : Table → Table}
    (hf : ∀ t : Table, t.Holds V K → (f t).Holds V K) : (h.editTable r f).Holds V K := by
  intro s c hc
  rw [cell_editTable] at hc
  split at hc
  · obtain ⟨c₀, hc₀, rfl⟩ := Option.map_eq_some_iff.1 hc
    exact Cell.holds_mapTable (hh s c₀ hc₀) (hf c₀.table)
  · exact hh s c hc

end Heap

end AtomScript

import AtomScript.Eval.Operator
import AtomScript.Proofs.Heap.Equality
import AtomScript.Proofs.Heap.Visited

/-!
# Moved addresses

Addresses of cells and scopes and identities of functions tell things apart, and nothing else.  A
`Shift` moves all of them by fixed distances, as they are moved when other cells, scopes and
functions come before them.  Whatever is read off a heap — texts, orders, comparisons, the entry
that answers to a key — is the same before and after (`Heap.Shifted`), and whatever is done to a
heap and its shifted copy leaves them a heap and its shifted copy.

The cells in front of the shifted ones are not looked at, so nothing is said about them.

* `Heap.Shifted.equal`, `Heap.Shifted.order`, `Heap.Shifted.inspect` — what is read;
* `Heap.Shifted.insert` — tables;
* `Heap.Shifted.detach` — copies.
-/

namespace AtomScript

/-- How far addresses and identities are moved. -/
structure Shift where
  cells : Nat
  scopes : Nat
  functions : Nat

namespace Shift

variable (σ : Shift)

/-- The value with its address, its scope and its identity moved. -/
def value : Value → Value
  | .tuple r => .tuple (σ.cells + r)
  | .list r => .list (σ.cells + r)
  | .map r => .map (σ.cells + r)
  | .function f => .function { f with id := σ.functions + f.id, scope := σ.scopes + f.scope }
  | .lambda f => .lambda { f with id := σ.functions + f.id, scope := σ.scopes + f.scope }
  | v => v

/-- What is fed to the hasher moves as the identities in it do. -/
def fingerprint : Fingerprint → Fingerprint
  | .function id => .function (σ.functions + id)
  | .lambda id => .lambda (σ.functions + id)
  | f => f

/-- The entry with its key, its value and what it is filed under moved. -/
def entry (e : Entry) : Entry where
  filed := σ.fingerprint e.filed
  key := σ.value e.key
  value := σ.value e.value

/-- The table with its entries moved.  They stay in their order, and the table has the same room. -/
def table (t : Table) : Table where
  capacity := t.capacity
  entries := t.entries.map σ.entry

/-- The cell with all that it holds moved. -/
def cell : Cell → Cell
  | .tuple xs => .tuple (xs.map σ.value)
  | .list xs => .list (xs.map σ.value)
  | .map t => .map (σ.table t)

/-! ### What a shift leaves alone -/

/-- A value is of its kind wherever it is. -/
@[simp] theorem kind_value (v : Value) : (σ.value v).kind = v.kind := by
  cases v <;> rfl

/-- No address is falsy. -/
@[simp] theorem isTruthy_value (v : Value) : (σ.value v).isTruthy = v.isTruthy := by
  cases v <;> rfl

@[simp] theorem isCallable_value (v : Value) : (σ.value v).isCallable = v.isCallable := by
  cases v <;> rfl

@[simp] theorem isNull_value (v : Value) : (σ.value v).isNull = v.isNull := by
  cases v <;> rfl

/-- The address of an aggregate is moved, and what has none gets none. -/
@[simp] theorem ref?_value (v : Value) : (σ.value v).ref? = v.ref?.map (σ.cells + ·) := by
  cases v <;> rfl

theorem ref?_value_of_none {v : Value} (hv : v.ref? = none) : (σ.value v).ref? = none := by
  rw [ref?_value, hv, Option.map_none]

theorem ref?_value_of_some {v : Value} {r : Ref} (hv : v.ref? = some r) :
    (σ.value v).ref? = some (σ.cells + r) := by
  rw [ref?_value, hv, Option.map_some]

theorem mem_path {path : List Ref} {r : Ref} :
    σ.cells + r ∈ path.map (σ.cells + ·) ↔ r ∈ path := by simp

@[simp] theorem size_table (t : Table) : (σ.table t).size = t.size :=
  List.length_map _

@[simp] theorem capacity_table (t : Table) : (σ.table t).capacity = t.capacity := rfl

/-- The items of a moved cell; a map has no items, moved or not. -/
theorem items_cell (c : Cell) : (σ.cell c).items = c.items.map σ.value := by
  cases c with
  | map t => exact Array.map_empty.symm
  | _ => rfl

/-- The table of a moved cell; a sequence has an empty one, moved or not. -/
theorem table_cell (c : Cell) : (σ.cell c).table = σ.table c.table := by
  cases c <;> rfl

/-- No address occurs in a text. -/
theorem inspectPlain_value (v : Value) :
    Heap.inspectPlain (σ.value v) = Heap.inspectPlain v := by
  cases v <;> rfl

/-- The brackets tell the kind only. -/
theorem brackets_value (v : Value) : Heap.brackets (σ.value v) = Heap.brackets v := by
  cases v <;> rfl

/-- Identities that are moved stay apart. -/
theorem equalPlain_value (v w : Value) :
    Heap.equalPlain (σ.value v) (σ.value w) = Heap.equalPlain v w := by
  cases v <;> cases w <;> first | rfl | simp [Heap.equalPlain, value]

/-- What hashed differently before the move does so after it. -/
theorem fingerprint_injective : Function.Injective σ.fingerprint := by
  intro a b h
  cases a <;> cases b <;> simp_all [fingerprint]

end Shift

namespace Heap

/-! ### The text of an aggregate -/

section Text

variable {h : Heap} {path : List Ref} {v : Value} {r : Ref}

/-- The texts inside the brackets of an aggregate, from those of the values in it. -/
def innerTexts (h : Heap) (text : Value → String) (v : Value) (r : Ref) : List String :=
  match v with
  | .map _ => (h.sortedEntries r).map fun e => text e.key ++ " => " ++ text e.value
  | _ => (h.items r).toList.map text

/-- A value that is no aggregate has a text of its own. -/
theorem inspectFrom_of_plain (hv : v.ref? = none) : h.inspectFrom path v = inspectPlain v := by
  rw [inspectFrom]
  simp only [hv]

/-- An aggregate is cut if it is open, and otherwise shown with one more cell open. -/
theorem inspectFrom_of_ref (hv : v.ref? = some r) :
    h.inspectFrom path v =
      if r ∈ path then (brackets v).1 ++ "..." ++ (brackets v).2
      else if r < h.size then
        (brackets v).1 ++ ", ".intercalate (h.innerTexts (h.inspectFrom (r :: path)) v r) ++
          (brackets v).2
      else (brackets v).1 ++ (brackets v).2 := by
  rw [inspectFrom]
  simp only [hv]
  rfl

/-- The text of a value does not depend on where its maps keep their entries. -/
theorem inspectFrom_rehash (h : Heap) (f : Hashing) (path : List Ref) (v : Value) :
    (h.rehash f).inspectFrom path v = h.inspectFrom path v := by
  cases hv : v.ref? with
  | none => rw [inspectFrom_of_plain hv, inspectFrom_of_plain hv]
  | some r =>
    rw [inspectFrom_of_ref hv, inspectFrom_of_ref hv]
    by_cases hp : r ∈ path
    · rw [if_pos hp, if_pos hp]
    rw [if_neg hp, if_neg hp]
    by_cases hr : r < h.size
    -- what is in the cell is the same, and so is its text, one cell further
    · have ih : (h.rehash f).inspectFrom (r :: path) = h.inspectFrom (r :: path) :=
        funext fun w => inspectFrom_rehash h f (r :: path) w
      have hsame : (h.rehash f).innerTexts (h.inspectFrom (r :: path)) v r =
          h.innerTexts (h.inspectFrom (r :: path)) v r := rfl
      rw [if_pos hr, if_pos (show r < (h.rehash f).size from hr), ih, hsame]
    · rw [if_neg hr, if_neg (show ¬ r < (h.rehash f).size from hr)]
termination_by unopened path h.refs
decreasing_by exact unopened_cons_lt (mem_refs.2 hr) hp

/-- No text shows where a map keeps its entries. -/
theorem inspect_rehash (h : Heap) (f : Hashing) (v : Value) :
    (h.rehash f).inspect v = h.inspect v :=
  inspectFrom_rehash h f [] v

end Text

/-! ### The copy of an aggregate -/

/-- A copy of a sequence, from the copies of its elements. -/
def copySequence (kind : SequenceKind) (copy : Value → Copy Value) (vs : List Value) :
    Copy Value := do
  let items ← copyAll copy vs
  return .ofSequence kind (← allocCopy (.ofSequence kind items.toArray))

/-- A copy of a numbered entry, from the copies of its key and its value. -/
def copyEntry (copy : Value → Copy Value) (e : Entry × Nat) : Copy ((Value × Value) × Nat) := do
  let key ← copy e.1.key
  let value ← copy e.1.value
  return ((key, value), e.2)

/-- A copy of a map, from the copies of its entries. -/
def copyMap (copy : Value → Copy Value) (es : List (Entry × Nat)) : Copy Value := do
  let copies ← copyAll (copyEntry copy) es
  let entries := inTurn copies
  let t ← gather (.withRoom entries.length) entries
  return .map (← allocCopy (.map t))

/-- A copy of an aggregate, from the copies of what is in it. -/
def copyContents (h : Heap) (copy : Value → Copy Value) (v : Value) (r : Ref) : Copy Value :=
  match v with
  | .map _ => copyMap copy (h.visited r)
  | .list _ => copySequence .list copy (h.items r).toList
  | _ => copySequence .tuple copy (h.items r).toList

section Detach

variable {h : Heap} {path : List Ref} {v : Value} {r : Ref}

/-- A value that is no aggregate is its own copy. -/
theorem detachFrom_of_plain (hv : v.ref? = none) : h.detachFrom path v = pure v := by
  rw [detachFrom]
  simp only [hv]

/-- An open aggregate has no copy; another is copied with one more cell open. -/
theorem detachFrom_of_ref (hv : v.ref? = some r) :
    h.detachFrom path v =
      if r ∈ path then throw v.kind
      else if r < h.size then h.copyContents (h.detachFrom (r :: path)) v r
      else pure v := by
  rw [detachFrom]
  simp only [hv]
  by_cases hp : r ∈ path
  · rw [dif_pos hp, if_pos hp]
  rw [dif_neg hp, if_neg hp]
  by_cases hr : r < h.size
  · rw [dif_pos hr, if_pos hr]
    cases v <;> rfl
  · rw [dif_neg hr, if_neg hr]

end Detach

/-- The second heap holds the cells of the first one, shifted, behind cells of any kind. -/
structure Shifted (σ : Shift) (h h' : Heap) : Prop where
  size : h'.size = σ.cells + h.size
  cell : ∀ r, h'.cells[σ.cells + r]? = h.cells[r]?.map σ.cell

/-- Maps in the same places have the same places for their entries. -/
def HashedAlike (σ : Shift) (h h' : Heap) : Prop := h'.hashing.behind σ.cells = h.hashing

namespace Shifted

variable {σ : Shift} {h h' : Heap} (hs : h.Shifted σ h')

include hs

/-! ### Reading -/

/-- An address is in use if the moved one is. -/
theorem lt_size {r : Ref} : σ.cells + r < h'.size ↔ r < h.size := by
  rw [hs.size]
  exact Nat.add_lt_add_iff_left

/-- The items behind a moved address; where there is no cell, there are none on both sides. -/
theorem items (r : Ref) : h'.items (σ.cells + r) = (h.items r).map σ.value := by
  have hcell := hs.cell r
  cases hc : h.cells[r]? with
  | none =>
    rw [hc] at hcell
    rw [h'.items_of_none hcell, h.items_of_none hc, Array.map_empty]
  | some c =>
    rw [hc] at hcell
    rw [h'.items_of_cell hcell, h.items_of_cell hc, σ.items_cell]

/-- The table behind a moved address. -/
theorem table (r : Ref) : h'.table (σ.cells + r) = σ.table (h.table r) := by
  have hcell := hs.cell r
  cases hc : h.cells[r]? with
  | none =>
    rw [hc] at hcell
    rw [h'.table_of_none hcell, h.table_of_none hc]
    rfl
  | some c =>
    rw [hc] at hcell
    rw [h'.table_of_cell hcell, h.table_of_cell hc, σ.table_cell]

/-- Where maps keep their entries alike, they are gone through alike. -/
theorem visited (hf : HashedAlike σ h h') (r : Ref) :
    h'.visited (σ.cells + r) = (h.visited r).map (Prod.map σ.entry id) := by
  unfold Heap.visited
  rw [hs.table, Shift.table, List.zipIdx_map]
  refine byPlace_map (fun e => ?_) _
  rw [← hf]
  rfl

/-- What a moved value feeds to the hasher. -/
theorem fingerprint (v : Value) :
    h'.fingerprint (σ.value v) = σ.fingerprint (h.fingerprint v) := by
  -- the fingerprint of an aggregate is that of its size, which is read off the moved cell
  cases v with
  | tuple r => simp [Heap.fingerprint, Shift.value, Shift.fingerprint, hs.items]
  | list r => simp [Heap.fingerprint, Shift.value, Shift.fingerprint, hs.items]
  | map r => simp [Heap.fingerprint, Shift.value, Shift.fingerprint, hs.table]
  | _ => rfl

omit hs in
/-- Fingerprints are compared with the same result after the move. -/
theorem beq_fingerprint (a b : Fingerprint) :
    (σ.fingerprint a == σ.fingerprint b) = (a == b) := by
  rw [Bool.eq_iff_iff, beq_iff_eq, beq_iff_eq]
  exact σ.fingerprint_injective.eq_iff

omit hs in
/-- Comparing two lists element by element after a map, if the elements compare as before. -/
theorem allPairs_map {α β : Type} {f : α → β} {same : α → α → Bool} {same' : β → β → Bool}
    (hsame : ∀ a b, same' (f a) (f b) = same a b) (as bs : List α) :
    allPairs same' (as.map f) (bs.map f) = allPairs same as bs := by
  induction as generalizing bs with
  | nil => cases bs <;> rfl
  | cons a as ih =>
    cases bs with
    | nil => rfl
    | cons b bs => simp only [List.map_cons, allPairs, hsame, ih]

/-- Moved tables compare as the tables do, if the values in them do so. -/
theorem sameTables {same same' : Value → Value → Bool}
    (hsame : ∀ v w, same' (σ.value v) (σ.value w) = same v w) (t u : Table) :
    h'.sameTables same' (σ.table t) (σ.table u) = h.sameTables same t u := by
  -- the partner that is looked for in the other table is the moved partner
  have hfind : ∀ e : Entry,
      (u.entries.map σ.entry).find?
        (fun f => f.filed == h'.fingerprint (σ.value e.key) && same' (σ.value e.key) f.key) =
      (u.entries.find? fun f => f.filed == h.fingerprint e.key && same e.key f.key).map
        σ.entry := by
    intro e
    rw [List.find?_map]
    congr 2
    funext f
    change (σ.fingerprint f.filed == h'.fingerprint (σ.value e.key) &&
      same' (σ.value e.key) (σ.value f.key)) = _
    rw [hs.fingerprint, beq_fingerprint, hsame]
  unfold Heap.sameTables
  rw [σ.size_table, σ.size_table, Shift.table, Shift.table, List.all_map]
  congr 2
  funext e
  dsimp only [Function.comp_apply, Shift.entry]
  rw [hfind]
  cases u.entries.find? fun f => f.filed == h.fingerprint e.key && same e.key f.key with
  | none => rfl
  | some f => exact hsame e.value f.value

/-- Moved cells compare as the cells do, if the values in them do so. -/
theorem sameContents {same same' : Value → Value → Bool}
    (hsame : ∀ v w, same' (σ.value v) (σ.value w) = same v w) (r s : Ref) :
    h'.sameContents same' (σ.cells + r) (σ.cells + s) = h.sameContents same r s := by
  unfold Heap.sameContents
  rw [hs.items, hs.items, hs.table, hs.table, Array.toList_map, Array.toList_map,
    allPairs_map hsame, hs.sameTables hsame]

/-- Where the walk into two shifted values goes is decided by the values themselves. -/
theorem equalFrom_value_of_refs {path : List (Ref × Ref)} {v w : Value} {r s : Ref}
    (hv : v.ref? = some r) (hw : w.ref? = some s) :
    h'.equalFrom (path.map fun p => (σ.cells + p.1, σ.cells + p.2)) (σ.value v) (σ.value w) =
      if v.kind ≠ w.kind then false
      else if r = s then true
      else if (r, s) ∈ path then false
      else if r < h.size ∧ s < h.size then
        h'.sameContents
          (h'.equalFrom (((r, s) :: path).map fun p => (σ.cells + p.1, σ.cells + p.2)))
          (σ.cells + r) (σ.cells + s)
      else h'.sameContents (fun _ _ => false) (σ.cells + r) (σ.cells + s) := by
  -- a shift is injective, so a pair is open behind it exactly when it was open before
  have hpath : (σ.cells + r, σ.cells + s) ∈
      path.map (fun p => (σ.cells + p.1, σ.cells + p.2)) ↔ (r, s) ∈ path := by
    simp
  rw [equalFrom_of_refs (σ.ref?_value_of_some hv) (σ.ref?_value_of_some hw), σ.kind_value,
    σ.kind_value]
  simp only [Nat.add_left_cancel_iff, hpath, hs.lt_size, List.map_cons]

/-- The walk into two values and the walk into the shifted ones go the same way. -/
theorem equalFrom (path : List (Ref × Ref)) (v w : Value) :
    h'.equalFrom (path.map fun p => (σ.cells + p.1, σ.cells + p.2)) (σ.value v) (σ.value w) =
      h.equalFrom path v w := by
  -- one case for each way the walk can go; only the fourth goes deeper
  fun_induction Heap.equalFrom h path v w with
  | case1 path v w r s hw hv hkind =>
    rw [hs.equalFrom_value_of_refs hv hw, if_pos hkind]
  | case2 path v w r hw hkind hv =>
    rw [hs.equalFrom_value_of_refs hv hw, if_neg hkind, if_pos rfl]
  | case3 path v w r s hw hv hkind hrs hp =>
    rw [hs.equalFrom_value_of_refs hv hw, if_neg hkind, if_neg hrs, if_pos hp]
  | case4 path v w r s hw hv hkind hrs hp hr ih =>
    rw [hs.equalFrom_value_of_refs hv hw, if_neg hkind, if_neg hrs, if_neg hp, if_pos hr]
    exact hs.sameContents ih r s
  | case5 path v w r s hw hv hkind hrs hp hr =>
    rw [hs.equalFrom_value_of_refs hv hw, if_neg hkind, if_neg hrs, if_neg hp, if_neg hr]
    exact hs.sameContents (fun _ _ => rfl) r s
  | case6 path v w hnone =>
    have hplain : v.ref? = none ∨ w.ref? = none := by
      cases hv : v.ref? with
      | none => exact .inl rfl
      | some r =>
        cases hw : w.ref? with
        | none => exact .inr rfl
        | some s => exact (hnone r s hv hw).elim
    rw [equalFrom_of_plain, σ.equalPlain_value]
    rw [σ.ref?_value, σ.ref?_value, Option.map_eq_none_iff, Option.map_eq_none_iff]
    exact hplain

/-- **Equality** does not look at addresses, but to see that they are the same. -/
theorem equal (v w : Value) : h'.equal (σ.value v) (σ.value w) = h.equal v w :=
  hs.equalFrom [] v w

/-- **The order of values** does not look at addresses. -/
theorem order (v w : Value) : h'.order (σ.value v) (σ.value w) = h.order v w := by
  -- aggregates are compared by size, and the other kinds have no address that counts
  cases v <;> cases w <;> simp [Heap.order, Shift.value, hs.items, hs.table, Value.kind]

/-- Sorting and moving can be exchanged: the order is the same, and the sort is stable. -/
theorem sortValues (vs : List Value) :
    h'.sortValues (vs.map σ.value) = (h.sortValues vs).map σ.value := by
  unfold Heap.sortValues
  rw [List.map_mergeSort]
  intro v _ w _
  exact congrArg Ordering.isLE (hs.order v w).symm

/-- The entries of a moved map are listed in the same order. -/
theorem sortedEntries (r : Ref) :
    h'.sortedEntries (σ.cells + r) = (h.sortedEntries r).map σ.entry := by
  unfold Heap.sortedEntries
  rw [hs.table, Shift.table, List.map_mergeSort]
  intro e _ f _
  exact congrArg Ordering.isLE (hs.order e.key f.key).symm

/-- The texts inside the brackets are the same, if those of the values are. -/
theorem innerTexts {text text' : Value → String} (htext : ∀ v, text' (σ.value v) = text v)
    (v : Value) (r : Ref) :
    h'.innerTexts text' (σ.value v) (σ.cells + r) = h.innerTexts text v r := by
  have hitems : (h'.items (σ.cells + r)).toList.map text' = (h.items r).toList.map text := by
    rw [hs.items, Array.toList_map, List.map_map]
    exact List.map_congr_left fun v _ => htext v
  -- only a map is listed in an order of its own
  cases v with
  | map _ =>
    change (h'.sortedEntries (σ.cells + r)).map _ = (h.sortedEntries r).map _
    rw [hs.sortedEntries, List.map_map]
    refine List.map_congr_left fun e _ => ?_
    change text' (σ.value e.key) ++ " => " ++ text' (σ.value e.value) = _
    rw [htext, htext]
  | _ => exact hitems

/-- The walk into a value and the walk into the shifted one go the same way. -/
theorem inspectFrom (path : List Ref) (v : Value) :
    h'.inspectFrom (path.map (σ.cells + ·)) (σ.value v) = h.inspectFrom path v := by
  cases hv : v.ref? with
  | none =>
    rw [inspectFrom_of_plain (σ.ref?_value_of_none hv), inspectFrom_of_plain hv,
      σ.inspectPlain_value]
  | some r =>
    rw [inspectFrom_of_ref (σ.ref?_value_of_some hv), inspectFrom_of_ref hv, σ.brackets_value]
    by_cases hp : r ∈ path
    · rw [if_pos hp, if_pos (σ.mem_path.2 hp)]
    rw [if_neg hp, if_neg (mt σ.mem_path.1 hp)]
    by_cases hr : r < h.size
    -- the texts inside are those of the same walk, one cell further
    · have ih : ∀ w, h'.inspectFrom ((σ.cells + r) :: path.map (σ.cells + ·)) (σ.value w) =
          h.inspectFrom (r :: path) w := fun w => inspectFrom (r :: path) w
      rw [if_pos hr, if_pos (hs.lt_size.2 hr), hs.innerTexts ih]
    · rw [if_neg hr, if_neg (mt hs.lt_size.1 hr)]
termination_by unopened path h.refs
decreasing_by exact unopened_cons_lt (mem_refs.2 hr) hp

/-- **The text of a value** does not show addresses. -/
theorem inspect (v : Value) : h'.inspect (σ.value v) = h.inspect v :=
  hs.inspectFrom [] v

/-- Nor does the text that is put into strings. -/
theorem rawText (v : Value) : h'.rawText (σ.value v) = h.rawText v := by
  cases v with
  | string s => rfl
  | _ => exact hs.inspect _

/-- An operator gives the moved result: it makes no aggregates, and only `+` on texts looks at the
heap. -/
theorem apply (op : BinaryOp) (v w : Value) :
    op.apply h' (σ.value v) (σ.value w) = σ.value (op.apply h v w) := by
  -- of all operands only a number next to a string is turned into text
  cases v with
  | number x =>
    cases w with
    | number y => cases op <;> rfl
    | string t =>
      cases op with
      | add => exact congrArg (fun text => Value.string (text ++ t)) (hs.rawText (.number x))
      | _ => rfl
    | _ => rfl
  | atom a =>
    cases w with
    | atom b => cases op <;> rfl
    | _ => rfl
  | string s =>
    cases w with
    | number y =>
      cases op with
      | add => exact congrArg (fun text => Value.string (s ++ text)) (hs.rawText (.number y))
      | _ => rfl
    | string t => cases op <;> rfl
    | _ => rfl
  | _ => rfl

/-! ### Tables -/

/-- A moved entry answers to the moved key. -/
theorem answers (key : Value) (e : Entry) :
    h'.answers (σ.value key) (σ.entry e) = h.answers key e := by
  change (σ.fingerprint e.filed == h'.fingerprint (σ.value key) &&
    h'.equal (σ.value key) (σ.value e.key)) = _
  rw [hs.fingerprint, beq_fingerprint, hs.equal]
  rfl

/-- The same, as it stands in the searches of a table. -/
theorem answers_comp (key : Value) : h'.answers (σ.value key) ∘ σ.entry = h.answers key :=
  funext (hs.answers key)

/-- **Looking up** the moved key gives the moved value. -/
theorem find? (t : Table) (key : Value) :
    h'.find? (σ.table t) (σ.value key) = (h.find? t key).map σ.value := by
  unfold Heap.find?
  rw [Shift.table, List.find?_map, hs.answers_comp, Option.map_map, Option.map_map]
  rfl

/-- The moved key is in the moved table if the key is in the table. -/
theorem contains (t : Table) (key : Value) :
    h'.contains (σ.table t) (σ.value key) = h.contains t key := by
  unfold Heap.contains
  rw [Shift.table, List.any_map, hs.answers_comp]

/-- A moved table grows when the table does. -/
theorem makeRoom (t : Table) : h'.makeRoom (σ.table t) = σ.table (h.makeRoom t) := by
  unfold Heap.makeRoom
  rw [σ.size_table, σ.capacity_table]
  by_cases ht : t.size < t.capacity
  · rw [if_pos ht, if_pos ht]
  -- a table that grows files its entries anew, under the fingerprints that they have now
  · rw [if_neg ht, if_neg ht, Shift.table, Shift.table, List.map_map, List.map_map]
    congr 2
    funext e
    change Entry.mk (h'.fingerprint (σ.value e.key)) _ _ = _
    rw [hs.fingerprint]
    rfl

/-- The first entry that answers is the same one after the move. -/
theorem replaceIn (key value : Value) (es : List Entry) :
    h'.replaceIn (σ.value key) (σ.value value) (es.map σ.entry) =
      (h.replaceIn key value es).map σ.entry := by
  induction es with
  | nil => rfl
  | cons e es ih =>
    rw [List.map_cons, Heap.replaceIn, Heap.replaceIn, hs.answers]
    -- the entry that answers to the key is the same one on both sides
    by_cases he : h.answers key e = true
    · rw [if_pos he, if_pos he]
      rfl
    · rw [if_neg he, if_neg he, ih]
      rfl

/-- Replacing and moving can be exchanged. -/
theorem replace (t : Table) (key value : Value) :
    h'.replace (σ.table t) (σ.value key) (σ.value value) = σ.table (h.replace t key value) := by
  unfold Heap.replace
  rw [Shift.table, hs.replaceIn]
  rfl

/-- **Inserting** and moving can be exchanged: room is made, and the key found or not, alike. -/
theorem insert (t : Table) (key value : Value) :
    h'.insert (σ.table t) (σ.value key) (σ.value value) = σ.table (h.insert t key value) := by
  unfold Heap.insert
  simp only [hs.makeRoom, hs.contains, hs.replace]
  by_cases hkey : h.contains (h.makeRoom t) key = true
  · rw [if_pos hkey, if_pos hkey]
  · rw [if_neg hkey, if_neg hkey, hs.fingerprint, Shift.table, Shift.table, List.map_append]
    rfl

/-- Erasing and moving can be exchanged. -/
theorem erase (t : Table) (key : Value) :
    h'.erase (σ.table t) (σ.value key) = σ.table (h.erase t key) := by
  unfold Heap.erase
  rw [Shift.table, Shift.table, List.eraseP_map, hs.answers_comp]

/-! ### Writing -/

/-- New cells come behind all others on both sides, so they are as far apart as the others. -/
theorem push (c : Cell) : (h.push c).Shifted σ (h'.push (σ.cell c)) where
  size := by rw [size_push, size_push, hs.size, Nat.add_assoc]
  -- the new cell is the last one on both sides
  cell r := by
    rw [cell_push, cell_push, hs.size, hs.cell]
    by_cases hr : r = h.size
    · rw [if_pos hr, if_pos (congrArg _ hr), Option.map_some]
    · rw [if_neg hr, if_neg fun heq => hr (Nat.add_left_cancel heq)]

/-- An edit of one cell, and the same edit of the shifted one. -/
theorem of_edit {g g' : Heap} {r : Ref} {f f' : Cell → Cell}
    (hf : ∀ c, f' (σ.cell c) = σ.cell (f c)) (hsize : g.size = h.size) (hsize' : g'.size = h'.size)
    (hcell : ∀ s, g.cells[s]? = if r = s then h.cells[s]?.map f else h.cells[s]?)
    (hcell' : ∀ s, g'.cells[s]? = if σ.cells + r = s then h'.cells[s]?.map f' else h'.cells[s]?) :
    g.Shifted σ g' where
  size := by rw [hsize, hsize', hs.size]
  cell s := by
    rw [hcell, hcell', hs.cell]
    by_cases hrs : r = s
    · rw [if_pos hrs, if_pos (congrArg _ hrs), Option.map_map, Option.map_map]
      exact congrArg (Option.map · _) (funext hf)
    · rw [if_neg hrs, if_neg fun heq => hrs (Nat.add_left_cancel heq)]

/-- An edit of a sequence that can be exchanged with the move. -/
theorem editItems {f f' : Array Value → Array Value}
    (hf : ∀ xs, f' (xs.map σ.value) = (f xs).map σ.value) (r : Ref) :
    (h.editItems r f).Shifted σ (h'.editItems (σ.cells + r) f') := by
  refine hs.of_edit ?_ (size_editItems _ _ _) (size_editItems _ _ _) (cell_editItems _ r f)
    (cell_editItems _ _ f')
  intro c
  cases c with
  | tuple xs => exact congrArg Cell.tuple (hf xs)
  | list xs => exact congrArg Cell.list (hf xs)
  | map t => rfl

/-- An edit of a map that can be exchanged with the move. -/
theorem editTable {f f' : Table → Table} (hf : ∀ t, f' (σ.table t) = σ.table (f t)) (r : Ref) :
    (h.editTable r f).Shifted σ (h'.editTable (σ.cells + r) f') := by
  refine hs.of_edit ?_ (size_editTable _ _ _) (size_editTable _ _ _) (cell_editTable _ r f)
    (cell_editTable _ _ f')
  intro c
  cases c with
  | tuple xs => rfl
  | list xs => rfl
  | map t => exact congrArg Cell.map (hf t)

end Shifted

/-! ### Copies -/

/-- The two steps of copying do the same to a heap and to its shifted copy. -/
def CopiesAlike {α β : Type} (σ : Shift) (f : α → β) (x : Copy α) (y : Copy β) : Prop :=
  ∀ g g', Shifted σ g g' →
    (∀ a k, x g = .ok (a, k) → ∃ k', y g' = .ok (f a, k') ∧ Shifted σ k k') ∧
    ∀ kind, x g = .error kind → y g' = .error kind

section Copy

variable {σ : Shift} {α β γ δ : Type} {f : α → β} {g : γ → δ}

/-- Giving a result changes no heap. -/
theorem copiesAlike_pure (a : α) : CopiesAlike σ f (pure a) (pure (f a)) := by
  -- a result is no failure, so the second half has nothing to say
  intro k k' hk
  refine ⟨fun b l heq => ?_, fun kind heq => ?_⟩
  · cases heq
    exact ⟨k', rfl, hk⟩
  · cases heq

/-- Failing is the same everywhere: the error names a kind, not an address. -/
theorem copiesAlike_throw (kind : Kind) : CopiesAlike σ f (throw kind) (throw kind) := by
  intro k k' _
  refine ⟨fun b l heq => ?_, fun kind' heq => ?_⟩
  · cases heq
  · cases heq
    rfl

/-- The second step begins where the first one has ended. -/
theorem copy_bind_of_ok {x : Copy α} {p : α → Copy γ} {k l : Heap} {a : α} (h : x k = .ok (a, l)) :
    (x >>= p) k = p a l := by
  change (x k >>= fun r => p r.1 r.2) = _
  rw [h]
  rfl

/-- After a failure nothing more is copied. -/
theorem copy_bind_of_error {x : Copy α} {p : α → Copy γ} {k : Heap} {kind : Kind}
    (h : x k = .error kind) : (x >>= p) k = .error kind := by
  change (x k >>= fun r => p r.1 r.2) = _
  rw [h]
  rfl

/-- **One step after the other.** -/
theorem CopiesAlike.bind {x : Copy α} {y : Copy β} {p : α → Copy γ} {q : β → Copy δ}
    (hxy : CopiesAlike σ f x y) (hpq : ∀ a, CopiesAlike σ g (p a) (q (f a))) :
    CopiesAlike σ g (x >>= p) (y >>= q) := by
  intro k k' hk
  obtain ⟨hok, herror⟩ := hxy k k' hk
  -- the first step decides: after its failure both sides have failed
  cases hx : x k with
  | error kind =>
    rw [copy_bind_of_error hx, copy_bind_of_error (herror kind hx)]
    refine ⟨fun b l heq => ?_, fun kind' heq => ?_⟩
    · cases heq
    · cases heq
      rfl
  | ok r =>
    obtain ⟨l', hy, hl⟩ := hok r.1 r.2 hx
    rw [copy_bind_of_ok hx, copy_bind_of_ok hy]
    exact hpq r.1 r.2 l' hl

/-- The cells of copies are new on both sides. -/
theorem copiesAlike_allocCopy (c : Cell) :
    CopiesAlike σ (σ.cells + ·) (allocCopy c) (allocCopy (σ.cell c)) := by
  intro k k' hk
  refine ⟨fun r l heq => ?_, fun kind heq => ?_⟩
  · cases heq
    refine ⟨k'.push (σ.cell c), ?_, hk.push c⟩
    unfold allocCopy
    rw [hk.size]
  · cases heq

/-- A list of things is copied one by one. -/
theorem copiesAlike_copyAll {copy : α → Copy γ} {copy' : β → Copy δ}
    (hcopy : ∀ a, CopiesAlike σ g (copy a) (copy' (f a))) (as : List α) :
    CopiesAlike σ (List.map g) (copyAll copy as) (copyAll copy' (as.map f)) := by
  induction as with
  | nil => exact copiesAlike_pure []
  | cons a as ih =>
    rw [List.map_cons, copyAll, copyAll]
    refine (hcopy a).bind fun b => ih.bind fun bs => ?_
    exact copiesAlike_pure (b :: bs)

/-- The table of a copied map is built by the heap with the copies in it. -/
theorem copiesAlike_gather (t : Table) (es : List (Value × Value)) :
    CopiesAlike σ σ.table (gather t es)
      (gather (σ.table t) (es.map fun e => (σ.value e.1, σ.value e.2))) := by
  induction es generalizing t with
  | nil => exact copiesAlike_pure t
  | cons e es ih =>
    -- each entry is filed by the heap as it is at that point
    intro k k' hk
    rw [List.map_cons, gather, gather]
    have hrest := ih (k.insert t e.1 e.2) k k' hk
    rw [← hk.insert] at hrest
    exact hrest

/-- The copy of a sequence is a new cell with the copies of its items. -/
theorem copiesAlike_copySequence (kind : SequenceKind) {copy copy' : Value → Copy Value}
    (hcopy : ∀ v, CopiesAlike σ σ.value (copy v) (copy' (σ.value v))) (vs : List Value) :
    CopiesAlike σ σ.value (copySequence kind copy vs)
      (copySequence kind copy' (vs.map σ.value)) := by
  refine (copiesAlike_copyAll hcopy vs).bind fun items => ?_
  -- the copy is of the same kind, and its items are the moved copies
  have hcell : Cell.ofSequence kind (items.map σ.value).toArray =
      σ.cell (.ofSequence kind items.toArray) := by
    cases kind <;> simp [Cell.ofSequence, Shift.cell]
  have hvalue : ∀ r, Value.ofSequence kind (σ.cells + r) = σ.value (.ofSequence kind r) := by
    intro r
    cases kind <;> rfl
  rw [hcell]
  refine (copiesAlike_allocCopy _).bind fun r => ?_
  rw [hvalue]
  exact copiesAlike_pure _

/-- The copy of a map: its entries are copied in the order in which they are met, and put back in
turn. -/
theorem copiesAlike_copyMap {copy copy' : Value → Copy Value}
    (hcopy : ∀ v, CopiesAlike σ σ.value (copy v) (copy' (σ.value v))) (es : List (Entry × Nat)) :
    CopiesAlike σ σ.value (copyMap copy es) (copyMap copy' (es.map (Prod.map σ.entry id))) := by
  -- a key is copied before its value
  have hentry : ∀ e, CopiesAlike σ (Prod.map (Prod.map σ.value σ.value) id) (copyEntry copy e)
      (copyEntry copy' (Prod.map σ.entry id e)) := by
    intro e
    refine (hcopy e.1.key).bind fun key => (hcopy e.1.value).bind fun value => ?_
    exact copiesAlike_pure ((key, value), e.2)
  refine (copiesAlike_copyAll hentry es).bind fun copies => ?_
  rw [inTurn_map]
  dsimp only
  rw [List.length_map]
  refine (copiesAlike_gather (.withRoom (inTurn copies).length) (inTurn copies)).bind fun t => ?_
  refine (copiesAlike_allocCopy (.map t)).bind fun r => ?_
  exact copiesAlike_pure (Value.map r)

/-- The contents of an aggregate are copied alike, if the values in it are. -/
theorem Shifted.copyContents {h h' : Heap} (hs : h.Shifted σ h') (hf : HashedAlike σ h h')
    {copy copy' : Value → Copy Value}
    (hcopy : ∀ v, CopiesAlike σ σ.value (copy v) (copy' (σ.value v))) (v : Value) (r : Ref) :
    CopiesAlike σ σ.value (h.copyContents copy v r)
      (h'.copyContents copy' (σ.value v) (σ.cells + r)) := by
  have hsequence : ∀ kind, CopiesAlike σ σ.value (copySequence kind copy (h.items r).toList)
      (copySequence kind copy' (h'.items (σ.cells + r)).toList) := by
    intro kind
    rw [hs.items, Array.toList_map]
    exact copiesAlike_copySequence kind hcopy _
  -- only a map has an order to go through: the hashes agree, so it is the same one
  cases v with
  | map _ =>
    change CopiesAlike σ σ.value (copyMap copy _) (copyMap copy' (h'.visited (σ.cells + r)))
    rw [hs.visited hf]
    exact copiesAlike_copyMap hcopy _
  | list _ => exact hsequence .list
  | _ => exact hsequence .tuple

/-- The walk that copies a value and the walk that copies the shifted one go the same way. -/
theorem Shifted.detachFrom {h h' : Heap} (hs : h.Shifted σ h') (hf : HashedAlike σ h h')
    (path : List Ref) (v : Value) :
    CopiesAlike σ σ.value (h.detachFrom path v)
      (h'.detachFrom (path.map (σ.cells + ·)) (σ.value v)) := by
  cases hv : v.ref? with
  | none =>
    rw [detachFrom_of_plain hv, detachFrom_of_plain (σ.ref?_value_of_none hv)]
    exact copiesAlike_pure v
  | some r =>
    rw [detachFrom_of_ref (σ.ref?_value_of_some hv), detachFrom_of_ref hv, σ.kind_value]
    by_cases hp : r ∈ path
    · rw [if_pos hp, if_pos (σ.mem_path.2 hp)]
      exact copiesAlike_throw v.kind
    rw [if_neg hp, if_neg (mt σ.mem_path.1 hp)]
    -- the contents are copied by the same walk, one cell further
    by_cases hr : r < h.size
    · have ih : ∀ w, CopiesAlike σ σ.value (h.detachFrom (r :: path) w)
          (h'.detachFrom ((σ.cells + r) :: path.map (σ.cells + ·)) (σ.value w)) :=
        fun w => hs.detachFrom hf (r :: path) w
      rw [if_pos hr, if_pos (hs.lt_size.2 hr)]
      exact hs.copyContents hf ih v r
    · rw [if_neg hr, if_neg (mt hs.lt_size.1 hr)]
      exact copiesAlike_pure v
termination_by unopened path h.refs
decreasing_by exact unopened_cons_lt (mem_refs.2 hr) hp

/-- **Detaching** a moved value gives the moved copy, or fails with the same error. -/
theorem Shifted.detach {h h' : Heap} (hs : h.Shifted σ h') (hf : HashedAlike σ h h') (v : Value) :
    (∀ copy g, h.detach v = .ok (copy, g) →
      ∃ g', h'.detach (σ.value v) = .ok (σ.value copy, g') ∧ g.Shifted σ g') ∧
    ∀ kind, h.detach v = .error kind → h'.detach (σ.value v) = .error kind :=
  hs.detachFrom hf [] v h h' hs

end Copy

end Heap

end AtomScript

import AtomScript.Value

/-!
# The heap

The cells that tuples, lists and maps refer to.  A cell is never freed and never changes its kind;
its contents are edited in place.

A map is a `Table`: entries in the order of their arrival.  Each entry keeps the *fingerprint* of
its key from the time it was filed, and is found only by a key with this fingerprint.  A key that
is an aggregate can still be edited through another reference; its entry then no longer answers to
the old key, and to the new one only after the table has been filed anew, which happens when it
outgrows its capacity.

In which order the entries of a map are gone through is another matter.  Each map draws its hash
function at random, so the order is any order: it is given from outside, as the `Hashing` of the
heap.
-/

namespace AtomScript

/-- What a table files a key under: the kind, and the contents of a plain value, the size of an
aggregate, the identity of a function. -/
inductive Fingerprint where
  | null
  | number (identity : UInt64)
  | string (s : String)
  | boolean (b : Bool)
  | atom (name : String)
  | tuple (size : Nat)
  | list (size : Nat)
  | map (size : Nat)
  | function (id : Nat)
  | lambda (id : Nat)
  | native (f : Native)
  | library (m : Library)
  deriving DecidableEq, Inhabited

/-- An entry of a map. -/
structure Entry where
  /-- The fingerprint of the key when the entry was filed. -/
  filed : Fingerprint
  key : Value
  value : Value
  deriving Inhabited

/-- The contents of a map. -/
structure Table where
  /-- How many entries fit before all are filed anew. -/
  capacity : Nat
  entries : List Entry
  deriving Inhabited

namespace Table

/-- The capacities of tables are 0, 3, 7, 14, 28, 56, …; this is the least one from `c` on that
holds `n` entries. -/
def capacityFrom (n : Nat) : Nat → Nat → Nat
  | 0, c => c
  | steps + 1, c => if n ≤ c then c else capacityFrom n steps (if c = 3 then 7 else 2 * c)

/-- The least capacity that holds `n` entries. -/
def capacityFor (n : Nat) : Nat :=
  if n = 0 then 0 else capacityFrom n n 3

/-- A table with room for `n` entries. -/
def withRoom (n : Nat) : Table := ⟨capacityFor n, []⟩

def empty : Table := withRoom 0

def size (t : Table) : Nat := t.entries.length

end Table

/-- The contents of a cell. -/
inductive Cell where
  | tuple (items : Array Value)
  | list (items : Array Value)
  | map (table : Table)
  deriving Inhabited

namespace Cell

def kind : Cell → Kind
  | tuple _ => .tuple
  | list _ => .list
  | map _ => .map

/-- A cell that holds a sequence of the given kind. -/
def ofSequence : SequenceKind → Array Value → Cell
  | .tuple => tuple
  | .list => list

/-- Edits the elements of a sequence. -/
def mapItems (f : Array Value → Array Value) : Cell → Cell
  | tuple items => tuple (f items)
  | list items => list (f items)
  | map table => map table

/-- Edits the table of a map. -/
def mapTable (f : Table → Table) : Cell → Cell
  | map table => map (f table)
  | c => c

end Cell

/-- Where maps keep their entries: of the map at an address, the place of each of its entries, which
are counted in the order of their arrival.  A map is gone through from place to place. -/
def Hashing := Ref → Nat → Nat

namespace Hashing

/-- Maps are gone through in the order in which their entries have arrived. -/
def arrival : Hashing := fun _ k => k

instance : Inhabited Hashing := ⟨arrival⟩

/-- The places in the maps that come after the first `n` cells. -/
def behind (n : Nat) (f : Hashing) : Hashing := fun r => f (n + r)

end Hashing

/-- The cells of a session, and the places that the maps among them have for their entries. -/
structure Heap where
  cells : Array Cell
  hashing : Hashing := .arrival
  deriving Inhabited

namespace Heap

def empty (hashing : Hashing := .arrival) : Heap := ⟨#[], hashing⟩

def size (h : Heap) : Nat := h.cells.size

/-- Adds a cell; its address is the size of the heap before. -/
def push (h : Heap) (c : Cell) : Heap :=
  { h with cells := h.cells.push c }

/-- The elements of a sequence. -/
def items (h : Heap) (r : Ref) : Array Value :=
  match h.cells[r]? with
  | some (.tuple xs) | some (.list xs) => xs
  | _ => #[]

/-- The table of a map. -/
def table (h : Heap) (r : Ref) : Table :=
  match h.cells[r]? with
  | some (.map t) => t
  | _ => .empty

/-- Edits the elements of a sequence in place. -/
def editItems (h : Heap) (r : Ref) (f : Array Value → Array Value) : Heap :=
  { h with cells := h.cells.modify r (·.mapItems f) }

/-- Edits the table of a map in place. -/
def editTable (h : Heap) (r : Ref) (f : Table → Table) : Heap :=
  { h with cells := h.cells.modify r (·.mapTable f) }

@[simp]
theorem size_push (h : Heap) (c : Cell) : (h.push c).size = h.size + 1 := by
  simp [push, size]

@[simp]
theorem size_editItems (h : Heap) (r : Ref) (f : Array Value → Array Value) :
    (h.editItems r f).size = h.size := by
  simp [editItems, size]

@[simp]
theorem size_editTable (h : Heap) (r : Ref) (f : Table → Table) :
    (h.editTable r f).size = h.size := by
  simp [editTable, size]

/-! ### Walking into aggregates

A walk keeps the cells that are open on its path.  It never opens a cell twice, so it ends: each
opening leaves fewer cells to open. -/

/-- How many members of a list are not on a path. -/
def unopened {α : Type} [DecidableEq α] (path : List α) : List α → Nat
  | [] => 0
  | a :: all => (if a ∈ path then 0 else 1) + unopened path all

theorem unopened_cons_le {α : Type} [DecidableEq α] (path all : List α) (a : α) :
    unopened (a :: path) all ≤ unopened path all := by
  induction all with
  | nil => simp [unopened]
  | cons b bs ih =>
    by_cases hb : b ∈ path <;> by_cases hba : b = a <;> simp [unopened, hb, hba] <;> omega

theorem unopened_cons_lt {α : Type} [DecidableEq α] {path all : List α} {a : α} (ha : a ∈ all)
    (hp : a ∉ path) : unopened (a :: path) all < unopened path all := by
  induction all with
  | nil => simp at ha
  | cons b bs ih =>
    have hle := unopened_cons_le path bs a
    rcases List.mem_cons.1 ha with rfl | hb
    · simp [unopened, hp]
      omega
    · have hlt := ih hb
      by_cases hb : b ∈ path <;> by_cases hba : b = a <;> simp [unopened, hb, hba] <;> omega

/-- The addresses of the heap. -/
def refs (h : Heap) : List Ref := List.range h.size

theorem mem_refs {h : Heap} {r : Ref} : r ∈ h.refs ↔ r < h.size := by
  simp [refs]

/-- The pairs of addresses of the heap. -/
def refPairs (h : Heap) : List (Ref × Ref) :=
  h.refs.flatMap fun r => h.refs.map fun s => (r, s)

theorem mem_refPairs {h : Heap} {r s : Ref} : (r, s) ∈ h.refPairs ↔ r < h.size ∧ s < h.size := by
  simp [refPairs, mem_refs]

end Heap

end AtomScript

import AtomScript.Heap.Equality

/-!
# Maps

Finding, adding, changing and removing the entries of a table.  A key finds the first entry that was
filed under its fingerprint and whose key is equal to it.

* `Heap.insert` keeps the key of an entry that is already there, and changes only its value.
-/

namespace AtomScript.Heap

/-- The entry answers to the key. -/
def answers (h : Heap) (key : Value) (e : Entry) : Bool :=
  e.filed == h.fingerprint key && h.equal key e.key

/-- The value filed under a key. -/
def find? (h : Heap) (t : Table) (key : Value) : Option Value :=
  (t.entries.find? (h.answers key)).map (·.value)

def contains (h : Heap) (t : Table) (key : Value) : Bool :=
  t.entries.any (h.answers key)

/-- Makes room for one more entry.  A full table grows, and its entries are filed anew under the
present fingerprints of their keys. -/
def makeRoom (h : Heap) (t : Table) : Table :=
  if t.size < t.capacity then t
  else
    { capacity := Table.capacityFor (t.capacity + 1)
      entries := t.entries.map fun e => { e with filed := h.fingerprint e.key } }

/-- Changes the value of the first entry that answers to the key. -/
def replaceIn (h : Heap) (key value : Value) : List Entry → List Entry
  | [] => []
  | e :: es =>
    if h.answers key e then { e with value := value } :: es else e :: h.replaceIn key value es

/-- The table with the value of a present key changed. -/
def replace (h : Heap) (t : Table) (key value : Value) : Table :=
  { t with entries := h.replaceIn key value t.entries }

/-- The table with the key bound to the value. -/
def insert (h : Heap) (t : Table) (key value : Value) : Table :=
  let t := h.makeRoom t
  if h.contains t key then h.replace t key value
  else { t with entries := t.entries ++ [⟨h.fingerprint key, key, value⟩] }

/-- The table without the entry that answers to the key. -/
def erase (h : Heap) (t : Table) (key : Value) : Table :=
  { t with entries := t.entries.eraseP (h.answers key) }

end AtomScript.Heap

import AtomScript.Heap.Table

/-!
# Detached copies

A map stores a copy of its key that shares no cell with the value it was given, so that later edits
of that value leave the map alone.  A value that contains itself has no such copy.

* `Heap.visited` — the entries of a map in the order in which it is gone through, which decides what
  is reported of a key in which several aggregates contain themselves.
-/

namespace AtomScript.Heap

/-- The outcome of copying: the copy and the heap that holds it, or the kind of the aggregate that
turned out to contain itself. -/
abbrev Copy (α : Type) := StateT Heap (Except Kind) α

/-- A new cell for a copy. -/
def allocCopy (c : Cell) : Copy Ref := fun h => .ok (h.size, h.push c)

/-- Copies the members of a list in order. -/
def copyAll {α β : Type} (copy : α → Copy β) : List α → Copy (List β)
  | [] => return []
  | a :: as => do
    let b ← copy a
    let bs ← copyAll copy as
    return b :: bs

/-- Puts a member in front of the first one that has no lower place. -/
def putInPlace {α : Type} (place : α → Nat) (a : α) : List α → List α
  | [] => [a]
  | b :: bs => if place a ≤ place b then a :: b :: bs else b :: putInPlace place a bs

/-- The members from place to place. -/
def byPlace {α : Type} (place : α → Nat) : List α → List α
  | [] => []
  | a :: as => putInPlace place a (byPlace place as)

/-- The entries of a map, numbered, in the order in which the map is gone through. -/
def visited (h : Heap) (r : Ref) : List (Entry × Nat) :=
  byPlace (fun e => h.hashing r e.2) (h.table r).entries.zipIdx

/-- Numbered things in the order of their numbers. -/
def inTurn {α : Type} (as : List (α × Nat)) : List α :=
  (byPlace Prod.snd as).map Prod.fst

/-- The copies of a map's entries, gathered in a table. -/
def gather (t : Table) : List (Value × Value) → Copy Table
  | [] => return t
  | (key, value) :: es => do
    let h ← get
    gather (h.insert t key value) es

set_option linter.unusedVariables false in
/-- Copies a value met inside the aggregates of `path`.  Contents are read from the heap `h`; the
cells of the copy are new. -/
def detachFrom (h : Heap) (path : List Ref) (v : Value) : Copy Value :=
  match v.ref? with
  | none => return v
  | some r =>
    if hp : r ∈ path then throw v.kind
    else if hr : r < h.size then
      match v with
      | .map _ => do
        let copies ← copyAll
          (fun e => do
            let key ← detachFrom h (r :: path) e.1.key
            let value ← detachFrom h (r :: path) e.1.value
            return ((key, value), e.2))
          (h.visited r)
        -- the copy lists its entries as the map does, whatever way the map was gone through
        let entries := inTurn copies
        let t ← gather (.withRoom entries.length) entries
        return .map (← allocCopy (.map t))
      | .list _ => do
        let items ← copyAll (fun item => detachFrom h (r :: path) item) (h.items r).toList
        return .list (← allocCopy (.list items.toArray))
      | _ => do
        let items ← copyAll (fun item => detachFrom h (r :: path) item) (h.items r).toList
        return .tuple (← allocCopy (.tuple items.toArray))
    else return v
termination_by unopened path h.refs
decreasing_by all_goals exact unopened_cons_lt (mem_refs.2 hr) hp

/-- A copy of the value that shares no cell with it, and the heap that holds it; or the kind of an
aggregate that contains itself. -/
def detach (h : Heap) (v : Value) : Except Kind (Value × Heap) :=
  (h.detachFrom [] v).run h

end AtomScript.Heap

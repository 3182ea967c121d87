import AtomScript.Heap.Basic

/-!
# The order of values

Values of any kinds are ordered: numbers, atoms, tuples, lists, maps, strings, and then all other
values, which are not told apart.  Numbers are ordered by value, atoms and strings by their
characters, aggregates by size.  Sorting is stable.
-/

namespace AtomScript

/-- The place of a kind in the order of values. -/
def Kind.rank : Kind → Nat
  | .number => 0
  | .atom => 1
  | .tuple => 2
  | .list => 3
  | .map => 4
  | .string => 5
  | _ => 6

namespace Heap

/-- The order of two values. -/
def order (h : Heap) : Value → Value → Ordering
  | .number x, .number y => x.order y
  | .atom a, .atom b => compare a b
  | .string s, .string t => compare s t
  | .tuple r, .tuple s => compare (h.items r).size (h.items s).size
  | .list r, .list s => compare (h.items r).size (h.items s).size
  | .map r, .map s => compare (h.table r).size (h.table s).size
  | v, w => compare v.kind.rank w.kind.rank

/-- The values in order; equal ones keep their places. -/
def sortValues (h : Heap) (vs : List Value) : List Value :=
  vs.mergeSort fun v w => (h.order v w).isLE

/-- The entries of a map in the order of their keys. -/
def sortedEntries (h : Heap) (r : Ref) : List Entry :=
  (h.table r).entries.mergeSort fun e f => (h.order e.key f.key).isLE

end Heap

end AtomScript

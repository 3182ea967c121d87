import AtomScript.Library.Arguments

/-!
# Maps

Keys are stored as detached copies.  Listings are in the order of the keys, and give the stored keys
themselves.
-/

namespace AtomScript.Native

open Eval

/-- The values of a map in the order of their keys. -/
def sortedValues (r : Ref) : Eval (List Value) :=
  reading fun st => (st.heap.sortedEntries r).map (·.value)

/-- The entries of a map in the order of their keys, to be given out with the stored keys. -/
def lendEntries (r : Ref) : Eval (List Entry) := act (.lend r) fun st =>
  (.value (st.heap.sortedEntries r), st)

/-- The operations of maps. -/
def runMap (op : MapOp) (args : List Value) : Eval Value := do
  let f := Native.map op
  f.checkArity args
  match op, args with
  | .delete, [.map r, k] =>
    let key ← detachKey k
    if ← reading fun st => st.heap.contains (st.heap.table r) key then
      editTable .delete r fun h t => h.erase t key
      return .map r
    else fail (.missingKey f (← inspect key))
  | .fetch, [.map r, k] =>
    return (← reading fun st => st.heap.find? (st.heap.table r) k).getD .null
  | .replace, [.map r, k, v] =>
    let key ← detachKey k
    if ← reading fun st => st.heap.contains (st.heap.table r) key then
      editTable .replace r fun h t => h.replace t key v
      return .map r
    else fail (.missingKey f (← inspect key))
  | .put, [.map r, k, v] =>
    let key ← detachKey k
    editTable .put r fun h t => h.insert t key v
    return .map r
  | .keys, [.map r] => newList ((← lendEntries r).map (·.key))
  | .values, [.map r] => newList (← sortedValues r)
  | .toList, [.map r] =>
    newList (← mapAll (fun e => newTuple [e.key, e.value]) (← lendEntries r))
  | _, _ => f.invalid args

end AtomScript.Native

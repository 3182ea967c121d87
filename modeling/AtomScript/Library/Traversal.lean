import AtomScript.Library.Dictionary

/-!
# Walking lists and maps

A walk works on the elements (for a map: the entries, in the order of their keys) that the
collection holds when it starts; what the callback does to the collection does not disturb it.  It
stops at the first error of the callback.
-/

namespace AtomScript.Native

open Eval

/-- Calls a function value with arguments. -/
abbrev Caller := Value → List Value → Eval Value

/-- The two members of a pair that a callback gives for an entry of a map. -/
def asPair (f : Native) (v : Value) : Eval (Value × Value) := do
  match v with
  | .tuple r =>
    match (← items r).toList with
    | [key, value] => return (key, value)
    | _ => fail (.notPair f (← inspect v))
  | _ => fail (.notPair f (← inspect v))

/-- Adds an entry to a table that is being built. -/
def addEntry (t : Table) (key value : Value) : Eval Table :=
  reading fun st => st.heap.insert t key value

/-- The elements for which a test holds. -/
def filterAll {α : Type} (test : α → Eval Bool) : List α → Eval (List α)
  | [] => return []
  | a :: as => do
    let keep ← test a
    let rest ← filterAll test as
    return if keep then a :: rest else rest

/-- The sum of the numbers of a list, from the left. -/
def sumNumbers (f : Native) : Number → List Value → Eval Number
  | total, [] => return total
  | total, .number x :: vs => sumNumbers f (total.add x) vs
  | _, v :: _ => do fail (.notNumbers f (← inspect v))

/-- The operations on lists and maps. -/
def runEnum (call : Caller) (op : EnumOp) (args : List Value) : Eval Value := do
  let f := Native.enum op
  f.checkArity args
  match op, args with
  | .map, [.list r, callback] =>
    if callback.isCallable then
      newList (← mapAll (fun v => call callback [v]) (← items r).toList)
    else f.invalid args
  | .map, [.map r, callback] =>
    if callback.isCallable then
      let t ← foldAll
        (fun t (e : Entry) => do
          let (k, v) ← asPair f (← call callback [e.key, e.value])
          addEntry t (← detachKey k) v)
        Table.empty (← lendEntries r)
      newMap t
    else f.invalid args
  | .filter, [.list r, callback] =>
    if callback.isCallable then
      newList (← filterAll (fun v => do return (← call callback [v]).isTruthy) (← items r).toList)
    else f.invalid args
  | .filter, [.map r, callback] =>
    if callback.isCallable then
      let t ← foldAll
        (fun t (e : Entry) => do
          if (← call callback [e.key, e.value]).isTruthy then addEntry t e.key e.value
          else return t)
        Table.empty (← lendEntries r)
      newMap t
    else f.invalid args
  | .reduce, [.list r, start, callback] =>
    if callback.isCallable then
      foldAll (fun acc v => call callback [v, acc]) start (← items r).toList
    else f.invalid args
  | .reduce, [.map r, start, callback] =>
    if callback.isCallable then
      let pairs ← mapAll (fun e => newTuple [e.key, e.value]) (← lendEntries r)
      foldAll (fun acc v => call callback [v, acc]) start pairs
    else f.invalid args
  | .sum, [.list r] => return .number (← sumNumbers f .zero (← items r).toList)
  | .sort, [.list r] =>
    newList (← reading fun st => st.heap.sortValues (st.heap.items r).toList)
  | _, _ => f.invalid args

end AtomScript.Native

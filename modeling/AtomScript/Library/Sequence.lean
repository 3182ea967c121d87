import AtomScript.Library.Arguments

/-!
# Tuples and lists

The two kinds of sequences have the same operations.  Those that change a sequence do so in place
and give it back, so that every reference to it sees the change.
-/

namespace AtomScript.Native

open Eval

/-- The cell of a sequence of the given kind. -/
def sequenceRef? : SequenceKind → Value → Option Ref
  | .tuple, .tuple r => some r
  | .list, .list r => some r
  | _, _ => none

/-- A new sequence of the given kind. -/
def newSequence : SequenceKind → List Value → Eval Value
  | .tuple, items => newTuple items
  | .list, items => newList items

/-- The operations that tuples and lists share. -/
def runSequence (kind : SequenceKind) (op : SequenceOp) (args : List Value) : Eval Value := do
  let f := Native.sequence kind op
  f.checkArity args
  match op, args with
  | .get, [s, .number i] =>
    match sequenceRef? kind s with
    | some r =>
      let xs ← items r
      let p ← f.checkIndex i xs.size
      return xs.getD p .null
    | none => f.invalid args
  | .append, [s, v] =>
    match sequenceRef? kind s with
    | some r =>
      editItems r (·.push v)
      return s
    | none => f.invalid args
  | .deleteAt, [s, .number i] =>
    match sequenceRef? kind s with
    | some r =>
      let p ← f.checkIndex i (← items r).size
      editItems r (·.eraseIdxIfInBounds p)
      return s
    | none => f.invalid args
  | .insertAt, [s, .number i, v] =>
    match sequenceRef? kind s with
    | some r =>
      let p ← f.checkGap i (← items r).size
      editItems r (·.insertIdxIfInBounds p v)
      return s
    | none => f.invalid args
  | .convert, [s] =>
    match sequenceRef? kind s with
    | some r => newSequence kind.other (← items r).toList
    | none => f.invalid args
  | _, _ => f.invalid args

/-- The number of elements of a tuple. -/
def runTupleSize (args : List Value) : Eval Value := do
  tupleSize.checkArity args
  match args with
  | [.tuple r] => return .number (.ofNat (← items r).size)
  | _ => tupleSize.invalid args

/-- Takes the last element off a list, and gives it together with the list. -/
def runListPop (args : List Value) : Eval Value := do
  listPop.checkArity args
  match args with
  | [.list r] =>
    match (← items r).back? with
    | some last =>
      editItems r (·.pop)
      newTuple [last, .list r]
    | none => fail .emptyPop
  | _ => listPop.invalid args

end AtomScript.Native

import AtomScript.Eval.Monad

/-!
# Arguments of built-in functions

A built-in function first checks the number of its arguments, and then their kinds.
-/

namespace AtomScript.Native

/-- Fails unless the number of arguments is right. -/
def checkArity (f : Native) (args : List Value) : Eval Unit :=
  if args.length = f.arity then return () else Eval.fail (.arity f.name f.arity args.length)

/-- Fails because the arguments are of the wrong kinds. -/
def invalid {α : Type} (f : Native) (args : List Value) : Eval α :=
  Eval.fail (.argumentFormat f (args.map Value.kind))

/-- The position of an existing element. -/
def checkIndex (f : Native) (index : Number) (size : Nat) : Eval Nat :=
  match index.position? with
  | some i => if i < size then return i else Eval.fail (.outOfRange f index size)
  | none => Eval.fail (.outOfRange f index size)

/-- The position for a new element; the size itself is the place at the end. -/
def checkGap (f : Native) (index : Number) (size : Nat) : Eval Nat :=
  match index.position? with
  | some i => if i ≤ size then return i else Eval.fail (.outOfRange f index size)
  | none => Eval.fail (.outOfRange f index size)

end AtomScript.Native

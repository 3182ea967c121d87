import AtomScript.Heap.Inspect

/-!
# Binary operators on values

The operators are defined on two numbers, on two atoms (comparisons) and, for `+`, on texts and on a
text with a number.  Every other combination gives `null`, never an error.
-/

namespace AtomScript.BinaryOp

/-- The operator on two numbers. -/
def onNumbers (op : BinaryOp) (x y : Number) : Value :=
  match op with
  | add => .number (x.add y)
  | subtract => .number (x.sub y)
  | multiply => .number (x.mul y)
  | divide => .number (x.div y)
  | modulo => .number (x.rem y)
  | equal => .boolean (x.equals y)
  | notEqual => .boolean (!x.equals y)
  | less => .boolean (x.less y)
  | greater => .boolean (y.less x)
  | lessEqual => .boolean (x.lessEq y)
  | greaterEqual => .boolean (y.lessEq x)
  | and | or => .null

/-- The operator on two atoms. -/
def onAtoms (op : BinaryOp) (a b : String) : Value :=
  match op with
  | equal => .boolean (a == b)
  | notEqual => .boolean (a != b)
  | less => .boolean (compare a b).isLT
  | greater => .boolean (compare a b).isGT
  | lessEqual => .boolean (compare a b).isLE
  | greaterEqual => .boolean (compare a b).isGE
  | _ => .null

/-- The operator on two values. -/
def apply (h : Heap) (op : BinaryOp) : Value → Value → Value
  | .number x, .number y => op.onNumbers x y
  | .atom a, .atom b => op.onAtoms a b
  | .string s, .string t => if op = add then .string (s ++ t) else .null
  | .number x, .string t => if op = add then .string (h.rawText (.number x) ++ t) else .null
  | .string s, .number y => if op = add then .string (s ++ h.rawText (.number y)) else .null
  | _, _ => .null

end AtomScript.BinaryOp

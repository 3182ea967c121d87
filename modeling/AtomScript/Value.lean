import AtomScript.Library.Native
import AtomScript.Program.Basic

/-!
# Values

Numbers, texts, atoms and the like are plain data.  Tuples, lists and maps are *references* to cells
of a heap: two bindings that hold the same aggregate see each other's edits.  Functions carry the
scope they were made in, and an identity of their own.
-/

namespace AtomScript

/-- The address of a tuple, list or map in the heap. -/
abbrev Ref := Nat

/-- The address of a scope in the scope tree. -/
abbrev ScopeId := Nat

/-- A function made by `def`. -/
structure Function where
  /-- Tells the functions of a session apart: no two evaluations of a `def` give the same. -/
  id : Nat
  name : String
  params : List String
  body : List Stmt
  /-- The scope that the definition stands in. -/
  scope : ScopeId
  deriving Inhabited

/-- A function made by `fn`. -/
structure Lambda where
  /-- Tells the functions of a session apart: no two evaluations of an `fn` give the same. -/
  id : Nat
  params : List String
  body : Expr
  /-- The scope that the expression stands in. -/
  scope : ScopeId
  deriving Inhabited

/-- The values of the language. -/
inductive Value where
  | null
  | number (x : Number)
  | string (s : String)
  | boolean (b : Bool)
  | atom (name : String)
  | tuple (ref : Ref)
  | list (ref : Ref)
  | map (ref : Ref)
  | function (f : Function)
  | lambda (f : Lambda)
  | native (f : Native)
  | library (m : Library)
  deriving Inhabited

/-- The kinds of values. -/
inductive Kind where
  | null | number | string | boolean | atom | tuple | list | map
  | function | lambda | native | library
  deriving DecidableEq, Inhabited, Repr

/-- The kind as messages name it.  The two kinds of functions have one name. -/
def Kind.name : Kind → String
  | null => "null" | number => "number" | string => "string" | boolean => "boolean"
  | atom => "atom" | tuple => "tuple" | list => "list" | map => "map"
  | function | lambda => "function"
  | native => "native_function"
  | library => "module"

namespace Value

def kind : Value → Kind
  | null => .null
  | number _ => .number
  | string _ => .string
  | boolean _ => .boolean
  | atom _ => .atom
  | tuple _ => .tuple
  | list _ => .list
  | map _ => .map
  | function _ => .function
  | lambda _ => .lambda
  | native _ => .native
  | library _ => .library

/-- A sequence of the given kind. -/
def ofSequence : SequenceKind → Ref → Value
  | .tuple => tuple
  | .list => list

/-- `null` and `false` are falsy, everything else is truthy. -/
def isTruthy : Value → Bool
  | null | boolean false => false
  | _ => true

def isCallable : Value → Bool
  | function _ | lambda _ | native _ => true
  | _ => false

def isNull : Value → Bool
  | null => true
  | _ => false

/-- The cell that an aggregate refers to. -/
def ref? : Value → Option Ref
  | tuple r | list r | map r => some r
  | _ => none

end Value

end AtomScript

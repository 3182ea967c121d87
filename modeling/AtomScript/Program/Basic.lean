import AtomScript.Number.Basic

/-!
# Programs

A program is a list of statements.  Statements steer the control flow; expressions have values.
-/

namespace AtomScript

/-- The binary operators. -/
inductive BinaryOp where
  | add | subtract | multiply | divide | modulo
  | equal | notEqual | less | greater | lessEqual | greaterEqual
  | and | or
  deriving DecidableEq, Inhabited, Repr

namespace BinaryOp

/-- Every binary operator. -/
def all : List BinaryOp :=
  [add, subtract, multiply, divide, modulo, equal, notEqual, less, greater, lessEqual,
   greaterEqual, and, or]

/-- How the operator is written. -/
def symbol : BinaryOp → String
  | add => "+" | subtract => "-" | multiply => "*" | divide => "/" | modulo => "%"
  | equal => "==" | notEqual => "!=" | less => "<" | greater => ">"
  | lessEqual => "<=" | greaterEqual => ">="
  | and => "and" | or => "or"

/-- The operator written by a text. -/
def ofSymbol? (s : String) : Option BinaryOp :=
  all.find? fun op => op.symbol == s

theorem ofSymbol?_symbol (op : BinaryOp) : ofSymbol? op.symbol = some op := by
  cases op <;> decide +kernel

end BinaryOp

/-- The expressions. -/
inductive Expr where
  | number (x : Number)
  /-- A string with its holes.  The value of each expression replaces the fragment at its place,
  which is the text of a marker. -/
  | string (raw : String) (fragments : List String) (expressions : List Expr)
  | identifier (name : String)
  | atom (name : String)
  | binary (op : BinaryOp) (left right : Expr)
  | not (operand : Expr)
  /-- `pattern = value`. -/
  | bind (pattern value : Expr)
  /-- `let name = value`: always binds in the current scope. -/
  | declare (name : String) (value : Expr)
  | call (callee : Expr) (args : List Expr)
  /-- `object.property`, or `object[property]` when it is computed. -/
  | member (object property : Expr) (computed : Bool)
  | tuple (items : List Expr)
  | list (items : List Expr)
  | map (entries : List (Expr × Expr))
  /-- `fn (params) -> body end`. -/
  | lambda (params : List String) (body : Expr)
  deriving Inhabited

namespace Expr

/-- The name, when the expression is a bare identifier. -/
def name? : Expr → Option String
  | identifier name => some name
  | _ => none

/-- The negation that a leading minus stands for: a literal changes its sign, anything else is
subtracted from zero. -/
def negated : Expr → Expr
  | number x => number x.neg
  | e => binary .subtract (number .zero) e

end Expr

mutual

/-- The statements. -/
inductive Stmt where
  | expression (e : Expr)
  /-- The clauses of `if … elif … else … end`, in order. -/
  | conditional (clauses : List Clause)
  | whileLoop (condition : Expr) (body : List Stmt)
  /-- `def name(params) do body end`. -/
  | define (name : String) (params : List String) (body : List Stmt)
  /-- A bare `return` has no expression. -/
  | returning (e : Option Expr)
  | breaking
  | continuing

/-- One clause of a conditional.  Nothing here ties the mark of the `else` clause to the condition:
the two are data that the parser writes. -/
inductive Clause where
  | mk (condition : Option Expr) (body : List Stmt) (isElse : Bool)

end

instance : Inhabited Stmt := ⟨.breaking⟩

instance : Inhabited Clause := ⟨.mk none [] true⟩

namespace Clause

def condition : Clause → Option Expr
  | mk condition _ _ => condition

def body : Clause → List Stmt
  | mk _ body _ => body

/-- The clause is marked as the `else` clause. -/
def isElse : Clause → Bool
  | mk _ _ isElse => isElse

end Clause

/-- A program: its statements in order. -/
abbrev Program := List Stmt

end AtomScript

import AtomScript.Program.Basic
import AtomScript.Number.Printer

/-!
# The text of a program

Expressions are written in full, with parentheses around every binary operation; statements are
written on one line, with their blocks elided.
-/

namespace AtomScript

namespace Expr

mutual

/-- The expression as source text. -/
def print : Expr → String
  | number x => x.literal
  | string raw _ _ => "\"" ++ raw ++ "\""
  | identifier name => name
  | atom name => ":" ++ name
  | binary op left right => "(" ++ print left ++ " " ++ op.symbol ++ " " ++ print right ++ ")"
  | not operand => "not " ++ print operand
  | bind pattern value => print pattern ++ " = " ++ print value
  | declare name value => "let " ++ name ++ " = " ++ print value
  | call callee args => print callee ++ "(" ++ ", ".intercalate (printAll args) ++ ")"
  | member object property false => print object ++ "." ++ print property
  | member object property true => print object ++ "[" ++ print property ++ "]"
  | tuple items => "\x7b" ++ ", ".intercalate (printAll items) ++ "\x7d"
  | list items => "[" ++ ", ".intercalate (printAll items) ++ "]"
  | map entries => "%\x7b" ++ ", ".intercalate (printEntries entries) ++ "\x7d"
  | lambda params body => "fn (" ++ ", ".intercalate params ++ ") -> " ++ print body ++ " end"

/-- The expressions of a sequence. -/
def printAll : List Expr → List String
  | [] => []
  | e :: es => print e :: printAll es

/-- The entries of a map. -/
def printEntries : List (Expr × Expr) → List String
  | [] => []
  | (key, value) :: es => (print key ++ " => " ++ print value) :: printEntries es

end

end Expr

/-- The statement on one line. -/
def Stmt.print : Stmt → String
  | .expression e => e.print
  | .conditional clauses => s!"if ... end ({clauses.length} clauses)"
  | .whileLoop condition _ => "while " ++ condition.print ++ " do ... end"
  | .define name params _ => "def " ++ name ++ "(" ++ ", ".intercalate params ++ ") do ... end"
  | .returning (some e) => "return " ++ e.print
  | .returning none => "return"
  | .breaking => "break"
  | .continuing => "continue"

/-- The program, one statement a line. -/
def Program.print (p : Program) : String :=
  String.join (p.map fun s => s.print ++ "\n")

end AtomScript

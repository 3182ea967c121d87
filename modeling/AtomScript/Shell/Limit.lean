import AtomScript.Text.Blank

/-!
# The limit on active calls

The limit is 4096 unless the environment or the command line says otherwise.  It is never less than
one.
-/

namespace AtomScript.Limit

/-- The limit when nothing else is said. -/
def standard : Nat := 4096

/-- The environment variable that changes the limit. -/
def variableName : String := "DEX_MAX_CALL_DEPTH"

/-- Reads an unsigned 64-bit number: decimal digits, with a plus in front if one likes. -/
def readWord? (s : String) : Option Nat :=
  let digits := match s.toList with
    | '+' :: cs => cs
    | cs => cs
  if digits.isEmpty || !digits.all Char.isDigit then none
  else
    let n := digits.foldl (fun n c => 10 * n + (c.toNat - '0'.toNat)) 0
    if n < Nat.pow 2 64 then some n else none

/-- The limit asked for; at least one call is always possible. -/
def ofRequest (n : Nat) : Nat := max n 1

/-- The limit under the given value of the environment variable.  Anything but a positive number,
blanks around it aside, is ignored. -/
def ofVariable : Option String → Nat
  | none => standard
  | some raw =>
    match readWord? (Text.trim raw) with
    | some n => if 0 < n then ofRequest n else standard
    | none => standard

/-- The limit under the given value of the environment variable and the given option. -/
def choose (raw : Option String) (option : Option Nat) : Nat :=
  match option with
  | some n => ofRequest n
  | none => ofVariable raw

end AtomScript.Limit

import AtomScript.Number.Basic

/-!
# Reading numerals

A numeral is a run of ASCII digits, optionally followed by a point and another run; the value is
the double nearest to the decimal written.  `Number.read?` also accepts one leading minus.
-/

namespace AtomScript.Number

/-- The value of a run of decimal digits. -/
def digitsValue (cs : List Char) : Nat :=
  cs.foldl (fun n c => 10 * n + (c.toNat - '0'.toNat)) 0

/-- The double nearest to `whole.fraction`. -/
def ofDigits (whole fraction : List Char) : Number :=
  ofFloat (Float.ofScientific (digitsValue (whole ++ fraction)) true fraction.length)

/-- A run of digits that is not empty. -/
def isDigitRun (cs : List Char) : Bool :=
  !cs.isEmpty && cs.all Char.isDigit

/-- Reads digits with an optional fraction. -/
def readUnsigned? (cs : List Char) : Option Number :=
  match cs.span (· != '.') with
  | (whole, []) => if isDigitRun whole then some (ofDigits whole []) else none
  | (whole, _ :: fraction) =>
    if isDigitRun whole && isDigitRun fraction then some (ofDigits whole fraction) else none

/-- Reads an optional minus, digits and an optional fraction. -/
def readSigned? : List Char → Option Number
  | '-' :: cs => (readUnsigned? cs).map neg
  | cs => readUnsigned? cs

/-- The number written by the text, if it is a numeral. -/
def read? (s : String) : Option Number :=
  readSigned? s.toList

/-- The value of the text of a numeral token. -/
def ofNumeral (s : String) : Number :=
  (read? s).getD zero

end AtomScript.Number

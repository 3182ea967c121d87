import AtomScript.Number.Shortest

/-!
# The text of a number

Numbers are written positionally, never with an exponent, with the fewest digits that read back.
There are two dialects: `Number.literal` is the form of a literal in a program, `Number.inspect` the
form of a value, in which integers below `10^15` carry no sign of their representation (negative
zero is `0`).
-/

namespace AtomScript

/-- A positive decimal in positional notation. -/
def Decimal.positional (d : Decimal) : String :=
  let ds := Nat.toDigits 10 d.digits
  String.ofList <|
    if 0 ≤ d.exponent then ds ++ List.replicate d.exponent.toNat '0'
    else
      let places := (-d.exponent).toNat
      if places < ds.length then
        ds.take (ds.length - places) ++ '.' :: ds.drop (ds.length - places)
      else '0' :: '.' :: List.replicate (places - ds.length) '0' ++ ds

namespace Number

/-- The digits of a finite number without its sign. -/
def unsignedText (x : Number) : String :=
  if x.isZero then "0" else x.shortest.positional

def signText (x : Number) : String :=
  if x.isNegative then "-" else ""

/-- The number as a literal of a program is shown. -/
def literal (x : Number) : String :=
  if x.isNaN then "NaN"
  else if x.isInfinite then x.signText ++ "inf"
  else x.signText ++ x.unsignedText

/-- The number as a value is shown: `NaN`, `Infinity`, integers below `10^15` without fraction or
negative zero, and the shortest decimal otherwise. -/
def inspect (x : Number) : String :=
  if x.isNaN then "NaN"
  else if x.isInfinite then x.signText ++ "Infinity"
  else
    match x.wholePart? with
    | some n =>
      if n = 0 then "0"
      else if n < Nat.pow 10 15 then x.signText ++ Nat.repr n
      else x.signText ++ x.unsignedText
    | none => x.signText ++ x.unsignedText

end Number

end AtomScript

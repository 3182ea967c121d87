import AtomScript.Number.Basic

/-!
# The shortest decimal that reads back

Every real number close enough to a double is read as that double.  Among the decimals in this
interval, `Number.shortest` takes one with the fewest digits, of these the nearest to the exact
value, and of two equally near ones the larger.

The search works in exact integers.  For 1, 2, … 17 digits it looks at the value's two neighbours on
the grid of decimals with that many digits; seventeen always suffice.
-/

namespace AtomScript

/-- The decimal `digits · 10^exponent`. -/
structure Decimal where
  digits : Nat
  exponent : Int
  deriving DecidableEq, Inhabited

namespace Number

/-- An interval of positive reals around a value, over a common denominator. -/
structure Interval where
  low : Nat
  value : Nat
  high : Nat
  denominator : Nat
  /-- The two ends belong to the interval. -/
  closed : Bool

/-- The reals that are read as the given positive finite number.  Below a power of two the
neighbour is only half as far away, save where the numbers thin out no further; the ends are
included when the mantissa is even. -/
def interval (x : Number) : Interval :=
  let m := x.mantissa
  let below := if m = Nat.pow 2 52 ∧ 1 < x.exponentField then 1 else 2
  let q := x.scale - 2
  let factor := Nat.pow 2 q.toNat
  { low := (4 * m - below) * factor
    value := 4 * m * factor
    high := (4 * m + 2) * factor
    denominator := Nat.pow 2 (-q).toNat
    closed := m % 2 = 0 }

namespace Interval

/-- Both sides of the comparison of `d · 10^k` with `n / denominator`, cleared of fractions. -/
def scaled (i : Interval) (n d : Nat) (k : Int) : Nat × Nat :=
  (d * Nat.pow 10 k.toNat * i.denominator, n * Nat.pow 10 (-k).toNat)

/-- `d · 10^k` lies in the interval. -/
def contains (i : Interval) (d : Nat) (k : Int) : Bool :=
  let (x, low) := i.scaled i.low d k
  let (_, high) := i.scaled i.high d k
  if i.closed then low ≤ x && x ≤ high else low < x && x < high

/-- The greatest `d` with `d · 10^k` not above the value. -/
def floorAt (i : Interval) (k : Int) : Nat :=
  (i.value * Nat.pow 10 (-k).toNat) / (Nat.pow 10 k.toNat * i.denominator)

/-- `d · 10^k` is nearer to the value than `(d + 1) · 10^k`. -/
def nearerBelow (i : Interval) (d : Nat) (k : Int) : Bool :=
  let (x, v) := i.scaled i.value d k
  let (y, _) := i.scaled i.value (d + 1) k
  v - x < y - v

/-- The best decimal of the interval on the grid `10^k`, if there is one. -/
def onGrid? (i : Interval) (k : Int) : Option Decimal :=
  let d := i.floorAt k
  match i.contains d k, i.contains (d + 1) k with
  | true, true => some ⟨if i.nearerBelow d k then d else d + 1, k⟩
  | true, false => some ⟨d, k⟩
  | false, true => some ⟨d + 1, k⟩
  | false, false => none

end Interval

/-- The exponent of the leading decimal digit of a positive finite number.  The binary exponent
gives it up to one. -/
def leadingExponent (x : Number) : Int :=
  let e := x.scale + Nat.log2 x.mantissa
  let p := (e * 78913) / 262144
  let i := x.interval
  let (power, v) := i.scaled i.value 1 (p + 1)
  if power ≤ v then p + 1 else p

/-- Drops a final zero: `10 · 10^k` is `1 · 10^(k+1)`. -/
def Decimal.dropZero (d : Decimal) : Decimal :=
  if d.digits % 10 = 0 then ⟨d.digits / 10, d.exponent + 1⟩ else d

/-- The shortest decimal that is read as the given positive finite number. -/
def shortest (x : Number) : Decimal :=
  let i := x.interval
  let p := x.leadingExponent
  match (List.range 17).findSome? fun n : Nat => i.onGrid? (p - n) with
  | some d => Decimal.dropZero d
  | none => ⟨i.floorAt (p - 16), p - 16⟩

end Number

end AtomScript

/-!
# Numbers

The one kind of number is the IEEE 754 double.  A number is kept as its 64 bits, so that equality,
order and the text of a number are questions about natural numbers; only the four basic operations
go through the machine's floating-point unit.

An invalid operation (`0 / 0`, `∞ - ∞`, …) gives the one NaN `Number.nan`; an operation on a NaN
gives that NaN back.

A finite number is `(-1)^s · mantissa · 2^scale` (`mantissa`, `scale`), and `ofScaled` goes the
other way for values that a double holds exactly.
-/

namespace AtomScript

/-- A double-precision number, as its bit pattern. -/
structure Number where
  bits : UInt64
  deriving DecidableEq, Inhabited, Hashable

namespace Number

/-- The bit that holds the sign. -/
def signBit : UInt64 := 0x8000000000000000

/-- The bit pattern of positive infinity: all ones in the exponent, nothing below. -/
def infinityBits : UInt64 := 0x7ff0000000000000

/-- The sign bit is set. -/
def isNegative (x : Number) : Bool :=
  x.bits &&& signBit != 0

/-- The bit pattern without its sign. -/
def magnitude (x : Number) : UInt64 :=
  x.bits &&& 0x7fffffffffffffff

def isNaN (x : Number) : Bool :=
  infinityBits < x.magnitude

def isInfinite (x : Number) : Bool :=
  x.magnitude == infinityBits

def isFinite (x : Number) : Bool :=
  x.magnitude < infinityBits

/-- Positive or negative zero. -/
def isZero (x : Number) : Bool :=
  x.magnitude == 0

/-- Positive zero. -/
def zero : Number := ⟨0⟩

/-- What an invalid operation gives: the quiet NaN with its sign bit set. -/
def nan : Number := ⟨0xfff8000000000000⟩

instance : Zero Number := ⟨zero⟩

/-- The number with the opposite sign. -/
def neg (x : Number) : Number :=
  ⟨x.bits ^^^ signBit⟩

/-- The number without its sign. -/
def abs (x : Number) : Number :=
  ⟨x.magnitude⟩

/-! ### The parts of a finite number -/

/-- The eleven exponent bits. -/
def exponentField (x : Number) : Nat :=
  (x.magnitude >>> 52).toNat

/-- The fifty-two fraction bits. -/
def fractionField (x : Number) : Nat :=
  (x.bits &&& 0xfffffffffffff).toNat

/-- The integer `m` of the value `m · 2^scale`. -/
def mantissa (x : Number) : Nat :=
  if x.exponentField = 0 then x.fractionField else x.fractionField + Nat.pow 2 52

/-- The exponent `q` of the value `mantissa · 2^q`. -/
def scale (x : Number) : Int :=
  if x.exponentField = 0 then -1074 else (x.exponentField : Int) - 1075

/-- The number `± m · 2^q`, for a value that a double holds exactly. -/
def ofScaled (negative : Bool) (m : Nat) (q : Int) : Number :=
  let sign : Nat := if negative then Nat.pow 2 63 else 0
  if m = 0 then ⟨UInt64.ofNat sign⟩
  else
    let q' : Int := max (q + Nat.log2 m - 52) (-1074)
    let m' : Nat := if q ≤ q' then m >>> (q' - q).toNat else m <<< (q - q').toNat
    let hidden : Nat := Nat.pow 2 52
    let field : Nat := if m' < hidden then m' else (q' + 1075).toNat * hidden + (m' - hidden)
    ⟨UInt64.ofNat (sign + field)⟩

/-- A count as a number (exact below `2^53`). -/
def ofNat (n : Nat) : Number :=
  ofScaled false n 0

/-! ### Arithmetic -/

def toFloat (x : Number) : Float :=
  Float.ofBits x.bits

/-- The number that holds a machine result; an invalid result is `nan`. -/
def ofFloat (f : Float) : Number :=
  if f.isNaN then nan else ⟨f.toBits⟩

/-- An operation of the machine.  A NaN operand is the result; of two, the left one. -/
@[inline]
def machine (op : Float → Float → Float) (x y : Number) : Number :=
  if x.isNaN then x else if y.isNaN then y else ofFloat (op x.toFloat y.toFloat)

def add (x y : Number) : Number := machine (· + ·) x y

def sub (x y : Number) : Number := machine (· - ·) x y

def mul (x y : Number) : Number := machine (· * ·) x y

def div (x y : Number) : Number := machine (· / ·) x y

/-- The remainder of the division truncated toward zero: exact, with the sign of the dividend. -/
def rem (x y : Number) : Number :=
  if x.isNaN then x else if y.isNaN then y
  else if x.isInfinite || y.isZero then nan
  else if y.isInfinite then x
  else
    let q := min x.scale y.scale
    let m := x.mantissa <<< (x.scale - q).toNat
    let n := y.mantissa <<< (y.scale - q).toNat
    ofScaled x.isNegative (m % n) q

/-- Rounds a finite number to an integer.  `up` decides, from the sign, the remainder and the
divisor, whether the magnitude goes to the next integer. -/
def roundBy (up : Bool → Nat → Nat → Bool) (x : Number) : Number :=
  if !x.isFinite || 0 ≤ x.scale then x
  else
    let d := Nat.pow 2 (-x.scale).toNat
    let whole := x.mantissa / d
    let rest := x.mantissa % d
    ofScaled x.isNegative (if up x.isNegative rest d then whole + 1 else whole) 0

/-- The greatest integer not above the number. -/
def floor : Number → Number :=
  roundBy fun negative rest _ => negative && rest != 0

/-- The least integer not below the number. -/
def ceil : Number → Number :=
  roundBy fun negative rest _ => !negative && rest != 0

/-- The nearest integer; a half goes away from zero. -/
def round : Number → Number :=
  roundBy fun _ rest d => d ≤ 2 * rest

/-! ### Integral values -/

/-- The magnitude of an integral number, as a natural number. -/
def wholePart? (x : Number) : Option Nat :=
  if !x.isFinite then none
  else if 0 ≤ x.scale then some (x.mantissa <<< x.scale.toNat)
  else
    let d := Nat.pow 2 (-x.scale).toNat
    if x.mantissa % d = 0 then some (x.mantissa / d) else none

/-- The position in a sequence that the number stands for: it must be integral and not below
zero. -/
def position? (x : Number) : Option Nat :=
  if x.isNegative && !x.isZero then none else x.wholePart?

/-! ### Comparison -/

/-- Equality of the language: the two zeros are equal, and a NaN equals nothing. -/
def equals (x y : Number) : Bool := x.toFloat == y.toFloat

def less (x y : Number) : Bool := x.toFloat < y.toFloat

def lessEq (x y : Number) : Bool := x.toFloat ≤ y.toFloat

/-- What identifies a number as a map key: its bits, with the two zeros taken together. -/
def identity (x : Number) : UInt64 :=
  if x.isZero then 0 else x.bits

/-- The place of a number in the total order of all bit patterns: negative NaNs first, then the
negative numbers, the two zeros, the positive numbers, and positive NaNs last. -/
def rank (x : Number) : Int :=
  if x.isNegative then -(x.magnitude.toNat : Int) - 1 else x.magnitude.toNat

/-- The total order by `rank`. -/
def order (x y : Number) : Ordering :=
  compare x.rank y.rank

end Number

end AtomScript

import MessageSchema.Number.Double

namespace MessageSchema.Number

/-!
The shortest decimal that reads back.

A finite double stands for the reals that are nearer to it than to its
neighbours (the ends of the interval included when its significand is even).  Of
the decimals in there with the fewest digits the nearest to the double is taken,
in exact arithmetic on quotients.
-/

/-- A positive decimal `0.d₁d₂… * 10 ^ point` without zeros at either end; no digits
stand for zero. -/
structure Decimal where
  digits : List Nat
  point : Int
deriving DecidableEq, Repr, Inhabited

/-- A closed or open interval of quotients over one denominator, around the
quotient `value`. -/
structure Rounding where
  low : Nat
  value : Nat
  high : Nat
  denominator : Nat
  closed : Bool

/-- The interval of reals that round to `significand * 2 ^ exponent`.  At a power of two
the lower half is smaller, which the quotients over four times the unit show. -/
def Rounding.ofParts (significand : Nat) (exponent : Int) : Rounding :=
  let scale := if exponent < 0 then 1 else Nat.pow 2 exponent.natAbs
  let below := if significand = Nat.pow 2 52 ∧ -1074 < exponent then 1 else 2
  { low := (4 * significand - below) * scale
    value := 4 * significand * scale
    high := (4 * significand + 2) * scale
    denominator := if exponent < 0 then 4 * Nat.pow 2 exponent.natAbs else 4
    closed := significand % 2 = 0 }

def Rounding.holds (interval : Rounding) (number : Nat) (place : Int) : Bool :=
  let scaled := if place < 0 then number else number * Nat.pow 10 place.natAbs
  let unit := if place < 0 then Nat.pow 10 place.natAbs else 1
  let candidate := scaled * interval.denominator
  if interval.closed then
    interval.low * unit <= candidate && candidate <= interval.high * unit
  else
    interval.low * unit < candidate && candidate < interval.high * unit

/-- The largest `e` with `10 ^ e <= value / denominator`, by steps from an estimate that
is never too large. -/
def Rounding.floorLog10 (interval : Rounding) : Int :=
  let binary := floorLog2 interval.value interval.denominator
  let guess := Int.fdiv (binary * 30103) 100000 - 1
  let reaches (e : Int) : Bool :=
    if e < 0 then interval.denominator <= interval.value * Nat.pow 10 e.natAbs
    else interval.denominator * Nat.pow 10 e.natAbs <= interval.value
  if reaches (guess + 2) then guess + 2
  else if reaches (guess + 1) then guess + 1
  else guess

/-- The integer part of `value / 10 ^ place`, and whether the value is nearer to the
next integer; a tie goes to the even one. -/
def Rounding.floorAt (interval : Rounding) (place : Int) : Nat × Bool :=
  let numerator :=
    if place < 0 then interval.value * Nat.pow 10 place.natAbs else interval.value
  let denominator :=
    if place < 0 then interval.denominator else interval.denominator * Nat.pow 10 place.natAbs
  (numerator / denominator,
    roundHalfEven numerator denominator = numerator / denominator + 1)

/-- The decimal of the interval on the grid of `10 ^ place` nearest to the value, which
is one of its two neighbours on the grid. -/
def Rounding.onGrid? (interval : Rounding) (place : Int) : Option Nat :=
  let (floor, upper) := interval.floorAt place
  match interval.holds floor place, interval.holds (floor + 1) place with
  | true, true => some (if upper then floor + 1 else floor)
  | true, false => some floor
  | false, true => some (floor + 1)
  | false, false => none

/-- Tries grids of one more digit at a time; seventeen digits always suffice. -/
def Rounding.shortestFrom (interval : Rounding) (top : Int) : Nat -> Nat × Int
  | 0 => ((interval.floorAt (top - 16)).1, top - 16)
  | tries + 1 =>
    let place := top - (16 - tries : Nat)
    match interval.onGrid? place with
    | some number => (number, place)
    | none => interval.shortestFrom top tries

def digitsOf (number : Nat) : List Nat :=
  (Nat.toDigits 10 number).map digitValue

def Decimal.ofScaled (number : Nat) (place : Int) : Decimal :=
  if number = 0 then ⟨[], 0⟩
  else
    let digits := digitsOf number
    ⟨(digits.reverse.dropWhile (· == 0)).reverse, digits.length + place⟩

/-- The shortest decimal that reads back as the finite double, without its
sign. -/
def Double.shortest (value : Double) : Decimal :=
  if value.isZero then ⟨[], 0⟩
  else
    let (significand, exponent) := value.parts
    let interval := Rounding.ofParts significand exponent
    let (number, place) := interval.shortestFrom interval.floorLog10 17
    Decimal.ofScaled number place

/-!
How a decimal is laid out as text.  `Double.shortest` gives the digits; a layout
decides which numbers are written out in full and how exponents look.
-/

/-- The decisions of a number format.  The exponent is that of the first digit: `1.5`
has `0`. -/
structure Layout where
  leastFull : Int
  pastFull : Int
  exponentWidth : Nat
  /-- The texts of the two infinities and of an undefined result. -/
  positiveInfinity : String
  negativeInfinity : String
  undefined : String

def digitChars (digits : List Nat) : List Char :=
  digits.map Nat.digitChar

namespace Decimal

def exponent (value : Decimal) : Int :=
  if value.digits.isEmpty then 0 else value.point - 1

def full (value : Decimal) : List Char :=
  if value.point <= 0 then
    match value.digits with
    | [] => ['0']
    | digits => '0' :: '.' :: List.replicate value.point.natAbs '0' ++ digitChars digits
  else
    let whole := value.digits.take value.point.toNat
    let fraction := value.digits.drop value.point.toNat
    let filled := digitChars whole ++ List.replicate (value.point.toNat - whole.length) '0'
    if fraction.isEmpty then filled else filled ++ '.' :: digitChars fraction

def scientific (exponentWidth : Nat) (value : Decimal) : List Char :=
  let mantissa :=
    match value.digits with
    | [] => ['0']
    | [digit] => digitChars [digit]
    | digit :: fraction => digitChars [digit] ++ '.' :: digitChars fraction
  let sign := if value.exponent < 0 then '-' else '+'
  mantissa ++ 'e' :: sign :: padded exponentWidth (Nat.toDigits 10 value.exponent.natAbs)

end Decimal

def Layout.write (layout : Layout) (value : Double) : String :=
  if value.isNaN then layout.undefined
  else if !value.isFinite then
    if value.isNegative then layout.negativeInfinity else layout.positiveInfinity
  else
    let decimal := value.shortest
    let body :=
      if layout.leastFull <= decimal.exponent ∧ decimal.exponent < layout.pastFull then
        decimal.full
      else
        decimal.scientific layout.exponentWidth
    String.ofList (if value.isNegative then '-' :: body else body)

end MessageSchema.Number

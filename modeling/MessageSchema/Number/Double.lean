namespace MessageSchema.Number

/-!
Numbers in base sixteen, filled up with zeros to a least width.
-/

def padded (width : Nat) (digits : List Char) : List Char :=
  List.replicate (width - digits.length) '0' ++ digits

def hex (width number : Nat) : String :=
  String.ofList (padded width (Nat.toDigits 16 number))

def hexUpper (width number : Nat) : String :=
  String.ofList (padded width ((Nat.toDigits 16 number).map Char.toUpper))

def hexDigit? (digit : Char) : Option Nat :=
  if '0' <= digit ∧ digit <= '9' then some (digit.toNat - '0'.toNat)
  else if 'a' <= digit ∧ digit <= 'f' then some (digit.toNat - 'a'.toNat + 10)
  else if 'A' <= digit ∧ digit <= 'F' then some (digit.toNat - 'A'.toNat + 10)
  else none

/-- The value of a digit in a base of up to 36, with letters of either case. -/
def alphaDigit? (digit : Char) : Option Nat :=
  if '0' <= digit ∧ digit <= '9' then some (digit.toNat - '0'.toNat)
  else if 'a' <= digit ∧ digit <= 'z' then some (digit.toNat - 'a'.toNat + 10)
  else if 'A' <= digit ∧ digit <= 'Z' then some (digit.toNat - 'A'.toNat + 10)
  else none

def digitValue (digit : Char) : Nat :=
  digit.toNat - '0'.toNat

def ofDigits (digits : List Char) : Nat :=
  digits.foldl (fun value digit => 10 * value + digitValue digit) 0

def ofHexDigits (digits : List Char) : Nat :=
  digits.foldl (fun value digit => 16 * value + (hexDigit? digit).getD 0) 0

/-!
Double precision numbers, as 64 bits.

A finite double is an integer `significand` below `2^53` times a power of two.
Reading a decimal finds the nearest double in exact arithmetic; a tie goes to
the even significand, and what lies past the largest finite double becomes
infinite.
-/

/-- A double by its bits: the sign, eleven bits of exponent and 52 of fraction. -/
structure Double where
  bits : UInt64
deriving DecidableEq, Repr, Inhabited

/-- The quotient rounded to the nearest integer, a half to the even one. -/
def roundHalfEven (numerator denominator : Nat) : Nat :=
  let quotient := numerator / denominator
  let remainder := numerator % denominator
  if 2 * remainder < denominator then quotient
  else if 2 * remainder = denominator then quotient + quotient % 2
  else quotient + 1

/-- The largest `e` with `2^e <= numerator / denominator`, for positive
arguments. -/
def floorLog2 (numerator denominator : Nat) : Int :=
  let guess : Int := (numerator.log2 : Int) - denominator.log2
  let reached : Bool :=
    if guess < 0 then denominator <= numerator * Nat.pow 2 guess.natAbs
    else denominator * Nat.pow 2 guess.natAbs <= numerator
  if reached then guess else guess - 1

namespace Double

/-- Positive infinity, the first pattern of bits past the finite numbers. -/
def infinityBits : Nat := 0x7FF0000000000000

def ofMagnitude (negative : Bool) (magnitude : Nat) : Double :=
  ⟨UInt64.ofNat (magnitude + if negative then Nat.pow 2 63 else 0)⟩

/-- The bits, without sign, of the double nearest to a positive quotient.  The
significand is rounded at its 53rd bit, or at `2^-1074` where that is coarser; the carry
of one that rounds up to `2^53` runs into the exponent by itself. -/
def nearestMagnitude (numerator denominator : Nat) : Nat :=
  let place : Int := max (-1074) (floorLog2 numerator denominator - 52)
  let significand :=
    if place < 0 then roundHalfEven (numerator * Nat.pow 2 place.natAbs) denominator
    else roundHalfEven numerator (denominator * Nat.pow 2 place.natAbs)
  min infinityBits ((place + 1074).toNat * Nat.pow 2 52 + significand)

/-- The bits, without sign, of the double nearest to `digits * 10 ^ exponent`.  What is
surely infinite or zero is not multiplied out: `digits` is below `10 ^ (log2 digits / 3
+ 1)`. -/
def decimalMagnitude (digits : Nat) (exponent : Int) : Nat :=
  if digits = 0 then 0
  else if 400 < exponent then infinityBits
  else if exponent + ((digits.log2 / 3 + 1 : Nat) : Int) < -330 then 0
  else if exponent < 0 then nearestMagnitude digits (Nat.pow 10 exponent.natAbs)
  else nearestMagnitude (digits * Nat.pow 10 exponent.natAbs) 1

/-- The double nearest to `digits * 10 ^ exponent`, with a sign of its own. -/
def ofDecimal (negative : Bool) (digits : Nat) (exponent : Int) : Double :=
  ofMagnitude negative (decimalMagnitude digits exponent)

def magnitude (value : Double) : Nat :=
  value.bits.toNat % Nat.pow 2 63

def isNegative (value : Double) : Bool :=
  Nat.pow 2 63 <= value.bits.toNat

def isFinite (value : Double) : Bool :=
  value.magnitude < infinityBits

def isNaN (value : Double) : Bool :=
  infinityBits < value.magnitude

def isZero (value : Double) : Bool :=
  value.magnitude = 0

def infinity (negative : Bool) : Double :=
  ofMagnitude negative infinityBits

def ofInt (value : Int) : Double :=
  ofDecimal (value < 0) value.natAbs 0

/-- The integer `significand` and the exponent of two of a finite double,
without its sign. -/
def parts (value : Double) : Nat × Int :=
  let exponent : Nat := value.magnitude / Nat.pow 2 52
  let fraction : Nat := value.magnitude % Nat.pow 2 52
  if exponent = 0 then (fraction, -1074)
  else (Nat.pow 2 52 + fraction, (exponent : Int) - 1075)

end Double

/-!
Reading numbers.
-/

/-- Appends a digit to a number of 64 bits, unless the number gets too large. -/
def appendDigit? (base number : UInt64) (digit : Nat) : Option UInt64 :=
  -- From here on a number has no room for another place.
  let cutoff := 18446744073709551615 / base + 1
  if cutoff <= number then none
  else
    let shifted := number * base
    let longer := shifted + UInt64.ofNat digit
    if longer < shifted then none else some longer

def readUnsigned? (base : UInt64) (digits : List Nat) : Option UInt64 :=
  digits.foldlM (appendDigit? base) 0

/-- The exponent that digits stand for.  Those behind a value of ten thousand are
dropped. -/
def readExponent (digits : List Char) : Nat :=
  digits.foldl (fun value digit => if value < 10000 then 10 * value + digitValue digit else value) 0

def spanDigits (source : List Char) : List Char × List Char :=
  source.span Char.isDigit

def readSignedExponent : List Char -> Int
  | '-' :: digits => -(readExponent (spanDigits digits).1 : Int)
  | '+' :: digits => readExponent (spanDigits digits).1
  | digits => readExponent (spanDigits digits).1

/-- Reads a decimal with an optional sign, fraction and exponent as the nearest double.
Its form is taken for granted. -/
def Double.read (source : List Char) : Double :=
  let (negative, unsigned) :=
    match source with
    | '-' :: rest => (true, rest)
    | '+' :: rest => (false, rest)
    | _ => (false, source)
  let (whole, afterWhole) := spanDigits unsigned
  let (fraction, afterFraction) :=
    match afterWhole with
    | '.' :: rest => spanDigits rest
    | _ => ([], afterWhole)
  let exponent :=
    match afterFraction with
    | _ :: rest => readSignedExponent rest
    | [] => 0
  Double.ofDecimal negative (ofDigits (whole ++ fraction)) (exponent - fraction.length)

end MessageSchema.Number

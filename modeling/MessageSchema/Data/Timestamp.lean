import MessageSchema.Number.Double

namespace MessageSchema.Data

/-!
Moments in time in plain text.

A date has a year of four digits and a month and a day of one or two; a time of
day may follow, with a fraction and, behind a `T`, an offset from universal
time.
-/

/-- A moment in time with the offset, in minutes, of the clock that shows it. -/
structure Timestamp where
  year : Nat
  month : Nat
  day : Nat
  hour : Nat := 0
  minute : Nat := 0
  second : Nat := 0
  nanoseconds : Nat := 0
  offset : Int := 0
deriving DecidableEq, Repr

namespace Timestamp

def isLeapYear (year : Nat) : Bool :=
  year % 4 == 0 && (year % 100 != 0 || year % 400 == 0)

def daysIn (year month : Nat) : Nat :=
  match month with
  | 2 => if isLeapYear year then 29 else 28
  | 4 | 6 | 9 | 11 => 30
  | _ => 31

def shortNumber? : List Char -> Option (Nat × List Char)
  | a :: b :: rest =>
    if a.isDigit then
      if b.isDigit then some (10 * Number.digitValue a + Number.digitValue b, rest)
      else some (Number.digitValue a, b :: rest)
    else none
  | [a] => if a.isDigit then some (Number.digitValue a, []) else none
  | [] => none

def numberBelow? (limit : Nat) (source : List Char) : Option (Nat × List Char) := do
  let (number, rest) ← shortNumber? source
  if number < limit then some (number, rest) else none

def mark? (mark : Char) : List Char -> Option (List Char)
  | value :: rest => if value = mark then some rest else none
  | [] => none

def date? (source : List Char) : Option (Timestamp × List Char) := do
  let yearDigits := source.take 4
  guard (yearDigits.length = 4 ∧ yearDigits.all Char.isDigit)
  let rest ← mark? '-' (source.drop 4)
  let (month, rest) ← shortNumber? rest
  let rest ← mark? '-' rest
  let (day, rest) ← shortNumber? rest
  let year := Number.ofDigits yearDigits
  guard (1 <= month ∧ month <= 12)
  guard (1 <= day ∧ day <= daysIn year month)
  some (⟨year, month, day, 0, 0, 0, 0, 0⟩, rest)

/-- Reads the fraction of a second, if there is one.  Digits past the ninth are
dropped. -/
def fraction (source : List Char) : Nat × List Char :=
  match source with
  | point :: digit :: rest =>
    if (point == '.' || point == ',') && digit.isDigit then
      let digits := (digit :: rest).takeWhile Char.isDigit
      let shown := digits.take 9
      (Number.ofDigits shown * Nat.pow 10 (9 - shown.length),
        (digit :: rest).dropWhile Char.isDigit)
    else (0, source)
  | _ => (0, source)

def timeOfDay? (date : Timestamp) (source : List Char) : Option (Timestamp × List Char) := do
  let (hour, rest) ← numberBelow? 24 source
  let rest ← mark? ':' rest
  let (minute, rest) ← numberBelow? 60 rest
  let rest ← mark? ':' rest
  let (second, rest) ← numberBelow? 60 rest
  let (nanoseconds, rest) := fraction rest
  some ({ date with hour, minute, second, nanoseconds }, rest)

def offset? : List Char -> Option Int
  | ['Z'] => some 0
  | [sign, a, b, ':', c, d] =>
    if [a, b, c, d].all Char.isDigit then
      let hours := Number.ofDigits [a, b]
      let minutes := Number.ofDigits [c, d]
      if 24 < hours ∨ 60 < minutes then none
      else if sign = '+' then some (60 * hours + minutes)
      else if sign = '-' then some (-(60 * hours + minutes))
      else none
    else none
  | _ => none

/-- Reads a date and possibly a time: behind the letter `T`, in either case, with an
offset, and behind blanks without one. -/
def parse? (source : List Char) : Option Timestamp := do
  let (date, rest) ← date? source
  match rest with
  | [] => some date
  | separator :: rest =>
    if separator = 'T' ∨ separator = 't' then do
      let (moment, rest) ← timeOfDay? date rest
      let offset ← offset? rest
      some { moment with offset }
    else if separator = ' ' then do
      let (moment, rest) ← timeOfDay? date (rest.dropWhile (· == ' '))
      if rest.isEmpty then some moment else none
    else none

def fixed (width number : Nat) : String :=
  String.ofList (Number.padded width (Nat.toDigits 10 number))

/-- The moment as date, time, fraction without final zeros, and offset, which is `Z` for
universal time. -/
def render (moment : Timestamp) : String :=
  let fraction := ((fixed 9 moment.nanoseconds).toList.reverse.dropWhile (· == '0')).reverse
  fixed 4 moment.year ++ "-" ++ fixed 2 moment.month ++ "-" ++ fixed 2 moment.day ++ "T"
    ++ fixed 2 moment.hour ++ ":" ++ fixed 2 moment.minute ++ ":" ++ fixed 2 moment.second
    ++ (if fraction.isEmpty then "" else "." ++ String.ofList fraction)
    ++ (if moment.offset = 0 then "Z"
        else (if moment.offset < 0 then "-" else "+") ++ fixed 2 (moment.offset.natAbs / 60)
          ++ ":" ++ fixed 2 (moment.offset.natAbs % 60))

end Timestamp
end MessageSchema.Data

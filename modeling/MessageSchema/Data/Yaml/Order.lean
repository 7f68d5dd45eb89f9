import MessageSchema.Data.Value

namespace MessageSchema.Data
namespace Yaml

/-!
The order of keys whose record gives them none.

Numbers inside keys count by their value, so `a2` comes before `a10`, and digits
come before letters unless a number goes on.  Of several kinds, numbers and
truth values come first, then null, texts and moments.
-/

/-- Letters are those of the alphabet and all characters outside ASCII. -/
def isLetter (value : Char) : Bool :=
  value.isAlpha || 0x80 <= value.toNat

def leadingNumber (start : Nat) (text : List Char) : Nat :=
  (text.takeWhile Char.isDigit).foldl (fun value digit => 10 * value + (digit.toNat - '0'.toNat))
    start

/-- Does the first of two different keys come first?  What they share is given in
reverse. -/
def comesFirst (shared : List Char) : List Char -> List Char -> Bool
  | [], [] => false
  | [], _ :: _ => true
  | _ :: _, [] => false
  | a :: as, b :: bs =>
    if a = b then comesFirst (a :: shared) as bs
    else if isLetter a && isLetter b then decide (a < b)
    else if isLetter a || isLetter b then
      if shared.head?.any Char.isDigit then isLetter a else isLetter b
    else
      let start :=
        if (a == '0' || b == '0') && (shared.takeWhile Char.isDigit).any (· != '0') then 1 else 0
      let left := leadingNumber start (a :: as)
      let right := leadingNumber start (b :: bs)
      let leftDigits := ((a :: as).takeWhile Char.isDigit).length
      let rightDigits := ((b :: bs).takeWhile Char.isDigit).length
      if left ≠ right then decide (left < right)
      else if leftDigits ≠ rightDigits then decide (leftDigits < rightDigits)
      else decide (a < b)

def doubleRank (value : Number.Double) : Int :=
  if value.isNegative then -(value.magnitude : Int) else value.magnitude

/-- The place of a key: its group, its size, and its kind and value for equal sizes. -/
def keyRank : Value -> Nat × (Int × (Nat × Int))
  | .bool value => (0, (doubleRank (.read [if value then '1' else '0']), (1, 0)))
  | .int value =>
    (0, (doubleRank (.read (toString value).toList),
      (if value < Nat.pow 2 63 then 2 else 11, value)))
  | .double value => (0, (doubleRank value, (14, 0)))
  | .null => (20, (0, (0, 0)))
  | .text _ => (24, (0, (0, 0)))
  | .time _ => (25, (0, (0, 0)))
  | _ => (21, (0, (0, 0)))

def rankComesFirst (a b : Nat × (Int × (Nat × Int))) : Bool :=
  if a.1 ≠ b.1 then decide (a.1 < b.1)
  else if a.2.1 ≠ b.2.1 then decide (a.2.1 < b.2.1)
  else if a.2.2.1 ≠ b.2.2.1 then decide (a.2.2.1 < b.2.2.1)
  else decide (a.2.2.2 < b.2.2.2)

def keyComesFirst : Value -> Value -> Bool
  | .text a, .text b =>
    comesFirst [] ((Text.chars? a).getD []) ((Text.chars? b).getD [])
  | a, b => rankComesFirst (keyRank a) (keyRank b)

mutual

def arranged : Value -> Value
  | .list items => .list (arrangedItems items)
  | .record members =>
    .record ((arrangedMembers members).mergeSort fun a b =>
      !comesFirst [] b.1.toList a.1.toList)
  | .table entries =>
    .table ((arrangedEntries entries).mergeSort fun a b => !keyComesFirst b.1 a.1)
  | value => value

def arrangedItems : List Value -> List Value
  | [] => []
  | item :: rest => arranged item :: arrangedItems rest

def arrangedMembers : List (String × Value) -> List (String × Value)
  | [] => []
  | (name, value) :: rest => (name, arranged value) :: arrangedMembers rest

def arrangedEntries : List (Value × Value) -> List (Value × Value)
  | [] => []
  | (key, value) :: rest => (key, arranged value) :: arrangedEntries rest

end

end Yaml
end MessageSchema.Data

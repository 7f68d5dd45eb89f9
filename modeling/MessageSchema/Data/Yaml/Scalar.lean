import MessageSchema.Data.Timestamp
import MessageSchema.Data.Value

namespace MessageSchema.Data
namespace Yaml

/-!
What a plain scalar means: text that looks like null, a truth value, a number or
a moment is read as such.
-/

def digitsInBase? (base : Nat) (digits : List Char) : Option Nat :=
  digits.foldlM (fun value digit => do
    let number ← Number.alphaDigit? digit
    if number < base then some (base * value + number) else none) 0

def inRange64 (value : Int) : Bool :=
  -(Nat.pow 2 63 : Int) <= value && value < (Nat.pow 2 64 : Int)

def signedInBase? (base : Nat) (text : List Char) : Option Int :=
  let (negative, digits) :=
    match text with
    | '-' :: rest => (true, rest)
    | '+' :: rest => (false, rest)
    | _ => (false, text)
  if digits.isEmpty then none
  else (digitsInBase? base digits).map fun value => if negative then -(value : Int) else value

/-- Reads digits whose base is told by `0b`, `0o` or `0x`, or is 8 behind any other
leading zero. -/
def prefixedDigits? (digits : List Char) : Option Nat :=
  match digits with
  | [] => none
  | '0' :: mark :: first :: rest =>
    if mark == 'b' || mark == 'B' then digitsInBase? 2 (first :: rest)
    else if mark == 'o' || mark == 'O' then digitsInBase? 8 (first :: rest)
    else if mark == 'x' || mark == 'X' then digitsInBase? 16 (first :: rest)
    else digitsInBase? 8 (mark :: first :: rest)
  | '0' :: rest => digitsInBase? 8 rest
  | _ => digitsInBase? 10 digits

/-- Reads an integer of 64 bits.  A number past the signed ones has no sign. -/
def integer? (text : List Char) : Option Int :=
  let (sign, digits) :=
    match text with
    | '-' :: rest => (some '-', rest)
    | '+' :: rest => (some '+', rest)
    | _ => (none, text)
  match prefixedDigits? digits with
  | none => none
  | some value =>
    match sign with
    | some '-' => if value <= Nat.pow 2 63 then some (-(value : Int)) else none
    | some _ => if value < Nat.pow 2 63 then some value else none
    | none => if value < Nat.pow 2 64 then some value else none

def markedInteger? (mark : Char) (base : Nat) (text : List Char) : Option Int :=
  match text with
  | '0' :: m :: rest =>
    if m = mark then (signedInBase? base rest).filter inRange64 else none
  | '-' :: '0' :: m :: rest =>
    if m = mark then (signedInBase? base ('-' :: rest)).filter inRange64 else none
  | _ => none

/-- The end of a decimal behind its digits: nothing, or an exponent. -/
def isExponentEnd : List Char -> Bool
  | [] => true
  | mark :: rest =>
    let digits :=
      match rest with
      | '+' :: digits => digits
      | '-' :: digits => digits
      | _ => rest
    (mark == 'e' || mark == 'E') && !digits.isEmpty && digits.all Char.isDigit

def isDecimal (text : List Char) : Bool :=
  let unsigned :=
    match text with
    | '+' :: rest => rest
    | '-' :: rest => rest
    | _ => text
  match unsigned with
  | '.' :: digits =>
    (digits.head?.any Char.isDigit) && isExponentEnd (digits.dropWhile Char.isDigit)
  | _ =>
    (unsigned.head?.any Char.isDigit) &&
      match unsigned.dropWhile Char.isDigit with
      | '.' :: rest => isExponentEnd (rest.dropWhile Char.isDigit)
      | rest => isExponentEnd rest

def decimal? (text : List Char) : Option Number.Double :=
  if isDecimal text then
    let value := Number.Double.read text
    if value.isFinite then some value else none
  else none

def underscoresSeparate : List Char -> Bool
  | a :: '_' :: b :: rest => a.isDigit && b.isDigit && underscoresSeparate (b :: rest)
  | '_' :: _ => false
  | [_, '_'] => false
  | _ :: rest => underscoresSeparate rest
  | [] => true

def named? (text : String) : Option Value :=
  if ["true", "True", "TRUE"].contains text then some (.bool true)
  else if ["false", "False", "FALSE"].contains text then some (.bool false)
  else if ["", "~", "null", "Null", "NULL"].contains text then some .null
  else if [".nan", ".NaN", ".NAN"].contains text then some (.double ⟨0x7FF8000000000001⟩)
  else if [".inf", ".Inf", ".INF", "+.inf", "+.Inf", "+.INF"].contains text then
    some (.double (.infinity false))
  else if ["-.inf", "-.Inf", "-.INF"].contains text then some (.double (.infinity true))
  else none

def number? (text : List Char) : Option Value :=
  let digits := text.filter (· != '_')
  match integer? digits with
  | some value => some (.int value)
  | none =>
    match decimal? digits with
    | some value => some (.double value)
    | none =>
      match markedInteger? 'b' 2 digits with
      | some value => some (.int value)
      | none => (markedInteger? 'o' 8 digits).map .int

/-- What a text that starts with a digit or a sign stands for: a number, or perhaps a
moment. -/
def numeric? (mayBeMoment : Bool) (text : List Char) : Option Value :=
  match if mayBeMoment then Timestamp.parse? text else none with
  | some moment => some (.time moment.render)
  | none => number? text

/-- What a scalar would mean if it were plain.  It is a moment only if there may
be one. -/
def meaningWith (mayBeMoment : Bool) (text : String) : Value :=
  match named? text with
  | some value => value
  | none =>
    match text.toList with
    | [] => .null
    | first :: rest =>
      let found :=
        if first == '.' then
          if underscoresSeparate rest then
            (decimal? (first :: rest.filter (· != '_'))).map .double
          else none
        else if first.isDigit || first == '+' || first == '-' then
          numeric? mayBeMoment (first :: rest)
        else none
      found.getD (.ofString text)

def meaning (text : String) : Value :=
  meaningWith true text

def tagOf : Value -> String
  | .null => "!!null"
  | .bool _ => "!!bool"
  | .int _ => "!!int"
  | .double _ => "!!float"
  | .time _ => "!!timestamp"
  | _ => "!!str"

def scalarTags : List String :=
  ["!!null", "!!bool", "!!int", "!!float", "!!timestamp"]

/-- The meaning of a scalar with a tag, which must agree with the tag; an integer serves
as a number as well.  With an unknown tag a scalar is text. -/
def taggedMeaning? (tag text : String) : Option Value :=
  if scalarTags.contains tag then
    let value := meaningWith (tag == "!!timestamp") text
    if tagOf value = tag then some value
    else
      match value with
      | .int number =>
        if tag = "!!float" ∧ number < Nat.pow 2 63 then
          some (.double (Number.Double.read (toString number).toList))
        else none
      | _ => none
  else some (.ofString text)

def isTextual (text : String) : Bool :=
  match meaning text with
  | .text _ => true
  | _ => false

def isOldBool (text : String) : Bool :=
  ["y", "Y", "yes", "Yes", "YES", "on", "On", "ON", "n", "N", "no", "No", "NO", "off", "Off",
    "OFF"].contains text

/-- Groups of one or two digits below sixty, each behind a colon, and then
possibly a fraction. -/
def isSexagesimalRest : List Char -> Bool
  | ':' :: a :: b :: rest =>
    if a.isDigit && b.isDigit && a.toNat < '6'.toNat then
      rest.isEmpty || isSexagesimalRest rest || isFraction rest
    else a.isDigit && (isSexagesimalRest (b :: rest) || isFraction (b :: rest))
  | [':', a] => a.isDigit
  | _ => false
where
  isFraction : List Char -> Bool
    | '.' :: digits => digits.all fun digit => digit.isDigit || digit == '_'
    | _ => false

/-- Numbers in base sixty, such as `12:30`, of an older version of the format. -/
def isSexagesimal (text : List Char) : Bool :=
  let unsigned :=
    match text with
    | '+' :: rest => rest
    | '-' :: rest => rest
    | _ => text
  (unsigned.head?.any Char.isDigit)
    && isSexagesimalRest (unsigned.dropWhile fun value => value.isDigit || value == '_')

/-!
How a text is written as a scalar: plain, between single quotes, between double
quotes with escapes, or as a block.  A text is plain whenever it is read back as
the same text, and quoted no more than it has to be.
-/

inductive Style where
  | plain
  | single
  | double
  | block
deriving DecidableEq, Repr

def isBreak (value : Char) : Bool :=
  value == '\n' || value == '\r' || value.toNat == 0x85 || value.toNat == 0x2028
    || value.toNat == 0x2029

def isWritable (value : Char) : Bool :=
  let code := value.toNat
  code == 0x0A || (0x20 <= code && code <= 0x7E) || (0xA0 <= code && code <= 0xD7FF)
    || (0xE000 <= code && code <= 0xFFFD && code != 0xFEFF)

def isBlank (value : Char) : Bool :=
  value == ' ' || value == '\t'

def blankFollows : List Char -> Bool
  | [] => true
  | value :: _ => isBlank value

def indicators : List Char :=
  ['#', ',', '[', ']', '\x7b', '\x7d', '&', '*', '!', '|', '>', '\'', '"', '%', '@', '\x60']

def startsAsStructure : List Char -> Bool
  | '-' :: '-' :: '-' :: _ => true
  | '.' :: '.' :: '.' :: _ => true
  | first :: rest =>
    indicators.contains first
      || ((first == '?' || first == ':' || first == '-') && blankFollows rest)
  | [] => false

/-- Would a colon behind the first character, or a hash behind a blank, be
taken for structure? -/
def holdsStructure : List Char -> Bool
  | before :: value :: rest =>
    (value == ':' && blankFollows rest)
      || (value == '#' && (isBlank before || isBreak before || before.toNat == 0))
      || holdsStructure (value :: rest)
  | _ => false

def breaksAfterSpace : List Char -> Bool
  | before :: value :: rest =>
    (before == ' ' && isBreak value) || breaksAfterSpace (value :: rest)
  | _ => false

def spaceAfterBreak : List Char -> Bool
  | before :: value :: rest =>
    (isBreak before && value == ' ') || spaceAfterBreak (value :: rest)
  | _ => false

def hasBareEnds (text : List Char) : Bool :=
  let isBare (value : Char) : Bool := value == ' ' || isBreak value
  !(text.head?.any isBare) && !(text.getLast?.any isBare)

def needsEscapes (text : List Char) : Bool :=
  text.any fun value => value != '\t' && !isWritable value

def allowsSingle (text : List Char) : Bool :=
  !(needsEscapes text || text.contains '\t' || breaksAfterSpace text || spaceAfterBreak text)

def allowsPlain (text : List Char) : Bool :=
  allowsSingle text && hasBareEnds text && !(text.any isBreak) && !startsAsStructure text
    && !holdsStructure text

def allowsBlock (text : List Char) : Bool :=
  !text.isEmpty && !(needsEscapes text || breaksAfterSpace text || text.getLast? == some ' ')

def readsAsText (text : List Char) : Bool :=
  let whole := String.ofList text
  isTextual whole && !isOldBool whole && !isSexagesimal text

def style (text : List Char) : Style :=
  if text.contains '\n' then if allowsBlock text then .block else .double
  else if readsAsText text then
    if allowsPlain text then .plain else if allowsSingle text then .single else .double
  else .double

end Yaml
end MessageSchema.Data

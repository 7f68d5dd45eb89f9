import MessageSchema.Data.Timestamp
import MessageSchema.Data.Toml.Table

namespace MessageSchema.Data
namespace Toml

/-!
Numbers and moments in a settings file.

Single underscores may stand between digits.  A decimal whole number has no
leading zero and may have a sign; other bases are named by a zero and a letter.
Whole numbers have 64 bits, others lie in the range of doubles.
-/

/-- The digits of a group without the underscores, each of which must stand
between two digits. -/
def grouped? (isDigit : Char -> Bool) : List Char -> Option (List Char)
  | [] => none
  | [value] => if isDigit value then some [value] else none
  | value :: '_' :: rest =>
    if isDigit value then (grouped? isDigit rest).map (value :: ·) else none
  | value :: rest =>
    if isDigit value then (grouped? isDigit rest).map (value :: ·) else none

/-- A text without the sign it may start with, and whether that is a minus. -/
def unsigned : List Char -> Bool × List Char
  | '-' :: rest => (true, rest)
  | '+' :: rest => (false, rest)
  | source => (false, source)

/-- Decimal digits that start with a zero only if that is all. -/
def decimal? (source : List Char) : Option (List Char) := do
  let digits ← grouped? Char.isDigit source
  if digits.head? = some '0' ∧ digits.length ≠ 1 then none else some digits

def valueIn (base : Nat) (digits : List Char) : Nat :=
  digits.foldl (fun value digit => base * value + (Number.hexDigit? digit).getD 0) 0

def isInteger (token : List Char) : Bool :=
  let inBase (base : Nat) (digits : List Char) : Bool :=
    match grouped? (fun digit => (Number.hexDigit? digit).any (· < base)) digits with
    | none => false
    | some plain => valueIn base plain < Nat.pow 2 63
  match token with
  | '0' :: 'x' :: digits => inBase 16 digits
  | '0' :: 'o' :: digits => inBase 8 digits
  | '0' :: 'b' :: digits => inBase 2 digits
  | _ =>
    let (negative, digits) := unsigned token
    match decimal? digits with
    | none => false
    | some plain => valueIn 10 plain < Nat.pow 2 63 + if negative then 1 else 0

def behind? (test : Char -> Bool) (source : List Char) : List Char × Option (List Char) :=
  match source.span (!test ·) with
  | (before, _ :: after) => (before, some after)
  | (before, []) => (before, none)

/-- Has the token a fraction or an exponent, or is it infinite or undefined? -/
def isReal (token : List Char) : Bool :=
  let (_, body) := unsigned token
  if body = ['i', 'n', 'f'] ∨ body = ['n', 'a', 'n'] then true
  else
    let (mantissa, exponent) := behind? (fun value => value == 'e' || value == 'E') body
    let (whole, fraction) := behind? (· == '.') mantissa
    let groupOrAbsent (part : Option (List Char)) : Option (List Char) :=
      match part with
      | none => some []
      | some digits => grouped? Char.isDigit digits
    let power := exponent.map (unsigned · |>.2)
    match decimal? whole, groupOrAbsent fraction, groupOrAbsent power with
    | some digits, some places, some power =>
      if fraction.isNone && exponent.isNone then false
      else
        let scale : Int :=
          let size : Int := Number.readExponent power
          if (exponent.bind List.head?) = some '-' then -size else size
        (Number.Double.ofDecimal false (Number.ofDigits (digits ++ places))
          (scale - places.length)).isFinite
    | _, _, _ => false

def twoDigits? (limit : Nat) : List Char -> Option (Nat × List Char)
  | a :: b :: rest =>
    if a.isDigit && b.isDigit && decide (Number.ofDigits [a, b] < limit) then
      some (Number.ofDigits [a, b], rest)
    else none
  | _ => none

def behindDate? : List Char -> Option (List Char)
  | a :: b :: c :: d :: '-' :: rest => do
      if [a, b, c, d].all Char.isDigit then pure () else none
      let (month, rest) ← twoDigits? 13 rest
      match rest with
      | '-' :: rest =>
        let (day, rest) ← twoDigits? 32 rest
        if month = 0 ∨ day = 0
            ∨ Timestamp.daysIn (Number.ofDigits [a, b, c, d]) month < day then none
        else some rest
      | _ => none
  | _ => none

def behindTime? (source : List Char) : Option (List Char) := do
  let (_, rest) ← twoDigits? 24 source
  match rest with
  | ':' :: rest =>
    let (_, rest) ← twoDigits? 60 rest
    match rest with
    | ':' :: rest =>
      let (_, rest) ← twoDigits? 60 rest
      match rest with
      | '.' :: digit :: rest =>
        if digit.isDigit then some (rest.dropWhile Char.isDigit) else none
      | _ => some rest
    | _ => some rest
  | _ => none

def isZone : List Char -> Bool
  | [] => true
  | ['Z'] => true
  | ['z'] => true
  | sign :: rest =>
    if sign = '+' ∨ sign = '-' then
      match twoDigits? 25 rest with
      | some (_, ':' :: minutes) => (twoDigits? 60 minutes).any (·.2.isEmpty)
      | _ => false
    else false

def isMoment (token : List Char) : Bool :=
  match behindDate? token with
  | some [] => true
  | some (mark :: time) =>
    if mark = 'T' ∨ mark = 't' ∨ mark = ' ' then (behindTime? time).any isZone else false
  | none => (behindTime? token).any (·.isEmpty)

/-!
Reading a settings file.

Each function gives what it has read and the characters behind it, or nothing.
Every call takes a character before it calls again, so the length of the text is
enough fuel.
-/

def isBlank (value : Char) : Bool :=
  value == ' ' || value == '\t' || value == '\r'

/-- Is every control character a tab or part of a line end? -/
def isClean : List Char -> Bool
  | [] => true
  | '\r' :: rest => rest.head? == some '\n' && isClean rest
  | value :: rest =>
    (value == '\t' || value == '\n' || (0x20 <= value.toNat && value.toNat != 0x7F)) &&
      isClean rest

def skipBlanks (source : List Char) : List Char :=
  source.dropWhile isBlank

def skipLines : Nat -> List Char -> List Char
  | 0, source => source
  | fuel + 1, source =>
    match source with
    | '#' :: rest => skipLines fuel (rest.dropWhile (· != '\n'))
    | value :: rest =>
      if isBlank value || value == '\n' then skipLines fuel rest else source
    | [] => []

/-- What follows a statement, behind blanks and a comment at most on its line. -/
def endOfLine? (source : List Char) : Option (List Char) :=
  match skipBlanks source with
  | [] => some []
  | '\n' :: rest => some rest
  | '#' :: rest => some (rest.dropWhile (· != '\n'))
  | _ => none

def numbered? (count : Nat) (source : List Char) : Option (Char × List Char) :=
  let digits := source.take count
  let number := Number.ofHexDigits digits
  if digits.length = count ∧ digits.all (fun digit => (Number.hexDigit? digit).isSome)
      ∧ number.isValidChar then
    some (Char.ofNat number, source.drop count)
  else none

def escape? : List Char -> Option (Char × List Char)
  | 'b' :: rest => some ('\x08', rest)
  | 't' :: rest => some ('\t', rest)
  | 'n' :: rest => some ('\n', rest)
  | 'f' :: rest => some ('\x0c', rest)
  | 'r' :: rest => some ('\r', rest)
  | 'e' :: rest => some ('\x1b', rest)
  | '"' :: rest => some ('"', rest)
  | '\\' :: rest => some ('\\', rest)
  | 'x' :: rest => numbered? 2 rest
  | 'u' :: rest => numbered? 4 rest
  | 'U' :: rest => numbered? 8 rest
  | _ => none

def before (chars : List Char) (reading : Option (List Char × List Char)) :
    Option (List Char × List Char) :=
  reading.map fun (text, rest) => (chars ++ text, rest)

def escapedText : Nat -> List Char -> Option (List Char × List Char)
  | fuel + 1, value :: rest =>
    if value = '"' then some ([], rest)
    else if value = '\n' then none
    else if value = '\\' then do
      let (meant, rest) ← escape? rest
      before [meant] (escapedText fuel rest)
    else before [value] (escapedText fuel rest)
  | _, _ => none

def rawText (source : List Char) : Option (List Char × List Char) :=
  match source.span (fun value => value != '\'' && value != '\n') with
  | (text, '\'' :: rest) => some (text, rest)
  | _ => none

/-- A run of quotes in a long text.  Three close it, after one or two that belong to it.
-/
inductive QuoteRun where
  | inside
  | closing
  | tooLong

def QuoteRun.ofLength (length : Nat) : QuoteRun :=
  if length < 3 then .inside else if length < 6 then .closing else .tooLong

/-- A text of several lines behind its three quotes.  With escapes, a backslash at the
end of a line skips the blanks and line ends behind it. -/
def longText (quote : Char) (escapes : Bool) : Nat -> List Char -> Option (List Char × List Char)
  | fuel + 1, value :: rest =>
    if value = quote then
      let run := (value :: rest).takeWhile (· == quote)
      let left := (value :: rest).dropWhile (· == quote)
      match QuoteRun.ofLength run.length with
      | .inside => before run (longText quote escapes fuel left)
      | .closing => some (run.drop 3, left)
      | .tooLong => none
    else if escapes && value == '\\' then
      match rest.dropWhile isBlank with
      | '\n' :: next =>
        longText quote escapes fuel (next.dropWhile fun c => isBlank c || c == '\n')
      | _ => do
          let (meant, rest) ← escape? rest
          before [meant] (longText quote escapes fuel rest)
    else before [value] (longText quote escapes fuel rest)
  | _, _ => none

/-- A text of several lines does not hold the line end that it starts with. -/
def dropLineEnd : List Char -> List Char
  | '\n' :: rest => rest
  | '\r' :: '\n' :: rest => rest
  | source => source

def isBareKeyChar (value : Char) : Bool :=
  value.isAlphanum || value == '_' || value == '-'

def keyName (source : List Char) : Option (String × List Char) :=
  let found : Option (List Char × List Char) :=
    match source with
    | '"' :: rest => escapedText (rest.length + 1) rest
    | '\'' :: rest => rawText rest
    | _ =>
      match source.span isBareKeyChar with
      | ([], _) => none
      | (name, rest) => some (name, rest)
  found.map fun (name, rest) => (String.ofList name, rest)

def key : Nat -> List Char -> Option (List String × List Char)
  | 0, _ => none
  | fuel + 1, source => do
      let (name, rest) ← keyName source
      match skipBlanks rest with
      | '.' :: next => do
          let (names, rest) ← key fuel (skipBlanks next)
          some (name :: names, rest)
      | next => some ([name], next)

def isTokenChar (value : Char) : Bool :=
  value.isAlphanum || value == '+' || value == '-' || value == '_' || value == '.' || value == ':'

/-- A number, a moment or a truth value.  A date takes the time of day behind
a space. -/
def plain (source : List Char) : Option (Value × List Char) :=
  let (token, rest) := source.span isTokenChar
  match rest with
  | ' ' :: digit :: _ =>
    if (behindDate? token).any (·.isEmpty) && digit.isDigit then
      let (time, left) := rest.tail.span isTokenChar
      if isMoment (token ++ ' ' :: time) then some (.moment, left) else none
    else single token rest
  | _ => single token rest
where
  single (token rest : List Char) : Option (Value × List Char) :=
    if token = ['t', 'r', 'u', 'e'] then some (.bool true, rest)
    else if token = ['f', 'a', 'l', 's', 'e'] then some (.bool false, rest)
    else if isInteger token || isReal token then some (.number, rest)
    else if isMoment token then some (.moment, rest)
    else none

mutual

def value : Nat -> List Char -> Option (Value × List Char)
  | 0, _ => none
  | fuel + 1, source =>
    let text (found : Option (List Char × List Char)) : Option (Value × List Char) :=
      found.map fun (chars, rest) => (.text (String.ofList chars), rest)
    match source with
    | '"' :: '"' :: '"' :: rest => text (longText '"' true (rest.length + 1) (dropLineEnd rest))
    | '\'' :: '\'' :: '\'' :: rest =>
      text (longText '\'' false (rest.length + 1) (dropLineEnd rest))
    | '"' :: rest => text (escapedText (rest.length + 1) rest)
    | '\'' :: rest => text (rawText rest)
    | '[' :: rest => do
        let (items, rest) ← items fuel rest
        some (.array items, rest)
    | '\x7b' :: rest => do
        let (entries, rest) ← entries fuel rest
        some (.inline entries, rest)
    | _ => plain source

def items : Nat -> List Char -> Option (List Value × List Char)
  | 0, _ => none
  | fuel + 1, source =>
    match skipLines source.length source with
    | ']' :: rest => some ([], rest)
    | start => do
        let (item, rest) ← value fuel start
        match skipLines rest.length rest with
        | ',' :: rest => do
            let (more, rest) ← items fuel rest
            some (item :: more, rest)
        | ']' :: rest => some ([item], rest)
        | _ => none

def entries : Nat -> List Char -> Option ((List (List String × Value)) × List Char)
  | 0, _ => none
  | fuel + 1, source =>
    match skipLines source.length source with
    | '\x7d' :: rest => some ([], rest)
    | start => do
        let (path, rest) ← key start.length start
        match rest with
        | '=' :: rest => do
            let (item, rest) ← value fuel (skipBlanks rest)
            match skipLines rest.length rest with
            | ',' :: rest => do
                let (more, rest) ← entries fuel rest
                some ((path, item) :: more, rest)
            | '\x7d' :: rest => some ([(path, item)], rest)
            | _ => none
        | _ => none

end

def statement (source : List Char) : Option (Statement × List Char) :=
  match source with
  | '[' :: '[' :: rest => do
      let (path, rest) ← key rest.length (skipBlanks rest)
      match rest with
      | ']' :: ']' :: rest => (endOfLine? rest).map (.nextTable path, ·)
      | _ => none
  | '[' :: rest => do
      let (path, rest) ← key rest.length (skipBlanks rest)
      match rest with
      | ']' :: rest => (endOfLine? rest).map (.table path, ·)
      | _ => none
  | _ => do
      let (path, rest) ← key source.length source
      match rest with
      | '=' :: rest => do
          let (item, rest) ← value (rest.length + 1) (skipBlanks rest)
          (endOfLine? rest).map (.assign path item, ·)
      | _ => none

def statements : Nat -> List Char -> Option (List Statement)
  | 0, _ => none
  | fuel + 1, source =>
    match skipLines source.length source with
    | [] => some []
    | start => do
        let (first, rest) ← statement start
        return first :: (← statements fuel rest)

/-- The statements of a settings file, without a byte order mark in front. -/
def read? (text : List Char) : Option (List Statement) :=
  let source :=
    match text with
    | '\uFEFF' :: rest => rest
    | _ => text
  if isClean source then statements (source.length + 1) source else none

end Toml
end MessageSchema.Data

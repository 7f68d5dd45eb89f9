import MessageSchema.Number.Double
import MessageSchema.Text.Glyph

namespace MessageSchema.Data
namespace Json

/-!
The tokens of a JSON text.

A token takes its first character and a number of those behind it.  A token that
is cut off is told apart from one that is wrong.
-/

inductive Token where
  | openList
  | closeList
  | openRecord
  | closeRecord
  | comma
  | colon
  | null
  | bool (value : Bool)
  | number (digits : List Char)
  | text (value : String)
deriving DecidableEq, Repr

inductive Fault where
  | truncated
  | malformed
deriving DecidableEq, Repr

def isSpace (value : Char) : Bool :=
  value == ' ' || value == '\t' || value == '\n' || value == '\r'

def isHighHalf (code : Nat) : Bool :=
  0xD800 <= code && code < 0xDC00

def isLowHalf (code : Nat) : Bool :=
  0xDC00 <= code && code < 0xE000

/-- Puts the halves of pairs together.  A lone half is shown as a replacement mark. -/
def joinHalves : List Nat -> List Char
  | high :: low :: rest =>
    if isHighHalf high && isLowHalf low then
      Char.ofNat (0x10000 + (high - 0xD800) * 0x400 + (low - 0xDC00)) :: joinHalves rest
    else if isHighHalf high || isLowHalf high then '\uFFFD' :: joinHalves (low :: rest)
    else Char.ofNat high :: joinHalves (low :: rest)
  | [code] => [if isHighHalf code || isLowHalf code then '\uFFFD' else Char.ofNat code]
  | [] => []

def escaped? : Char -> Option Nat
  | '"' => some 0x22
  | '\\' => some 0x5C
  | '/' => some 0x2F
  | 'b' => some 0x08
  | 'f' => some 0x0C
  | 'n' => some 0x0A
  | 'r' => some 0x0D
  | 't' => some 0x09
  | _ => none

/-- The text behind an opening quote: the numbers of its characters, onto those so far
in reverse, and how many characters it takes. -/
def textBody (codes : List Nat) (count : Nat) : List Char -> Except Fault (List Nat × Nat)
  | '"' :: _ => .ok (codes.reverse, count + 1)
  | '\\' :: 'u' :: a :: b :: c :: d :: rest =>
    match [a, b, c, d].mapM Number.hexDigit? with
    | some digits => textBody (digits.foldl (fun value digit => 16 * value + digit) 0 :: codes)
        (count + 6) rest
    | none => .error .malformed
  | '\\' :: 'u' :: rest =>
    if rest.all fun digit => (Number.hexDigit? digit).isSome then .error .truncated
    else .error .malformed
  | '\\' :: letter :: rest =>
    match escaped? letter with
    | some code => textBody (code :: codes) (count + 2) rest
    | none => .error .malformed
  | ['\\'] => .error .truncated
  | value :: rest =>
    if value.toNat < 0x20 then .error .malformed
    else textBody (value.toNat :: codes) (count + 1) rest
  | [] => .error .truncated

def digitsPart (source : List Char) : Except Fault (List Char) :=
  match source with
  | [] => .error .truncated
  | first :: _ => if first.isDigit then .ok (source.takeWhile Char.isDigit) else .error .malformed

def fractionPart : List Char -> Except Fault (List Char)
  | '.' :: rest => (digitsPart rest).map ('.' :: ·)
  | _ => .ok []

def exponentPart : List Char -> Except Fault (List Char)
  | mark :: rest =>
    if mark == 'e' || mark == 'E' then
      match rest with
      | '+' :: digits => (digitsPart digits).map (mark :: '+' :: ·)
      | '-' :: digits => (digitsPart digits).map (mark :: '-' :: ·)
      | _ => (digitsPart rest).map (mark :: ·)
    else .ok []
  | [] => .ok []

/-- The characters of a number without sign.  A zero stands alone in front of
the point. -/
def unsignedNumber (source : List Char) : Except Fault (List Char) := do
  let whole ← match source with
    | '0' :: _ => .ok ['0']
    | _ => digitsPart source
  let fraction ← fractionPart (source.drop whole.length)
  let exponent ← exponentPart (source.drop (whole.length + fraction.length))
  return whole ++ fraction ++ exponent

def word (token : Token) (expected rest : List Char) : Except Fault (Token × Nat) :=
  if expected.isPrefixOf rest then .ok (token, expected.length)
  else if rest.isPrefixOf expected then .error .truncated
  else .error .malformed

/-- The token at the start of a text and how many characters it takes besides
the first. -/
def nextToken (first : Char) (rest : List Char) : Except Fault (Token × Nat) :=
  match first with
  | '[' => .ok (.openList, 0)
  | ']' => .ok (.closeList, 0)
  | '\x7b' => .ok (.openRecord, 0)
  | '\x7d' => .ok (.closeRecord, 0)
  | ',' => .ok (.comma, 0)
  | ':' => .ok (.colon, 0)
  | 'n' => word .null ['u', 'l', 'l'] rest
  | 't' => word (.bool true) ['r', 'u', 'e'] rest
  | 'f' => word (.bool false) ['a', 'l', 's', 'e'] rest
  | '"' => do
      let (codes, count) ← textBody [] 0 rest
      return (.text (String.ofList (joinHalves codes)), count)
  | '-' => do
      let digits ← unsignedNumber rest
      return (.number ('-' :: digits), digits.length)
  | _ =>
    if first.isDigit then do
      let digits ← unsignedNumber (first :: rest)
      return (.number digits, digits.length - 1)
    else .error .malformed

/-- The tokens of a text, in reverse onto those so far, up to the end or the first
fault. -/
def scanOnto (seen : List Token) : List Char -> List Token × Option Fault
  | [] => (seen.reverse, none)
  | first :: rest =>
    if isSpace first then scanOnto seen rest
    else
      match nextToken first rest with
      | .error fault => (seen.reverse, some fault)
      | .ok (token, further) => scanOnto (token :: seen) (rest.drop further)
termination_by source => source.length
decreasing_by
  · simp only [List.length_cons]; omega
  · simp only [List.length_drop, List.length_cons]; omega

def scan (source : List Char) : List Token × Option Fault :=
  scanOnto [] source

/-!
Reading JSON.

A machine with a stack of the open lists and records takes the tokens.  Numbers
keep their digits, since the reader of the value says which kind is wanted.
-/

inductive Node where
  | null
  | bool (value : Bool)
  | number (digits : List Char)
  | text (value : String)
  | list (items : List Node)
  | record (members : List (String × Node))
deriving Repr

instance : Inhabited Node := ⟨.null⟩

/-- An open list or record with its contents in reverse; a record also has the name of
the member being read. -/
inductive Frame where
  | list (items : List Node)
  | record (members : List (String × Node)) (name : String)

inductive Awaiting where
  | value
  | firstItem
  | firstName
  | name
  | colon
  | separator

/-- The machine while a value is incomplete, or the complete value. -/
inductive Machine where
  | running (frames : List Frame) (awaiting : Awaiting)
  | finished (node : Node)

namespace Machine

def maxDepth : Nat := 10000

def complete (frames : List Frame) (node : Node) : Machine :=
  match frames with
  | [] => .finished node
  | .list items :: rest => .running (.list (node :: items) :: rest) .separator
  | .record members name :: rest =>
    .running (.record ((name, node) :: members) "" :: rest) .separator

def opening (frames : List Frame) (frame : Frame) (awaiting : Awaiting) : Option Machine :=
  if frames.length < maxDepth then some (.running (frame :: frames) awaiting) else none

def startValue (frames : List Frame) : Token -> Option Machine
  | .null => some (complete frames .null)
  | .bool value => some (complete frames (.bool value))
  | .number digits => some (complete frames (.number digits))
  | .text value => some (complete frames (.text value))
  | .openList => opening frames (.list []) .firstItem
  | .openRecord => opening frames (.record [] "") .firstName
  | _ => none

def takeName (frames : List Frame) (name : String) : Option Machine :=
  match frames with
  | .record members _ :: rest => some (.running (.record members name :: rest) .colon)
  | _ => none

def closeList : List Frame -> Option Machine
  | .list items :: rest => some (complete rest (.list items.reverse))
  | _ => none

def closeRecord : List Frame -> Option Machine
  | .record members _ :: rest => some (complete rest (.record members.reverse))
  | _ => none

def takeComma (frames : List Frame) : Option Machine :=
  match frames with
  | .list _ :: _ => some (.running frames .value)
  | .record _ _ :: _ => some (.running frames .name)
  | [] => none

/-- Takes a token; there is no machine after a token that does not fit. -/
def step (frames : List Frame) (awaiting : Awaiting) (token : Token) : Option Machine :=
  match awaiting, token with
  | .value, token => startValue frames token
  | .firstItem, .closeList => closeList frames
  | .firstItem, token => startValue frames token
  | .firstName, .closeRecord => closeRecord frames
  | .firstName, .text name => takeName frames name
  | .name, .text name => takeName frames name
  | .colon, .colon => some (.running frames .value)
  | .separator, .comma => takeComma frames
  | .separator, .closeList => closeList frames
  | .separator, .closeRecord => closeRecord frames
  | _, _ => none

/-- Takes tokens until a value is complete.  The result holds the value and the tokens
behind it, or the given fault if there are too few. -/
def run (stop : Fault) : Machine -> List Token -> Except Fault (Node × List Token)
  | .finished node, rest => .ok (node, rest)
  | .running _ _, [] => .error stop
  | .running frames awaiting, token :: rest =>
    match step frames awaiting token with
    | some machine => run stop machine rest
    | none => .error .malformed

end Machine

def sourceText (source : List UInt8) : List Char :=
  (Text.decode source).map Text.Glyph.shown

def readTokens (tokens : List Token) (stop : Option Fault) : Except Fault (Node × List Token) :=
  Machine.run (stop.getD .truncated) (.running [] .value) tokens

/-- Reads the first value of a text.  What follows it does not matter. -/
def readFirst (source : List UInt8) : Except Fault Node :=
  let (tokens, stop) := scan (sourceText source)
  (readTokens tokens stop).map Prod.fst

def readWhole (source : List UInt8) : Except Fault Node :=
  let (tokens, stop) := scan (sourceText source)
  match readTokens tokens stop with
  | .error fault => .error fault
  | .ok (node, rest) => if rest.isEmpty && stop.isNone then .ok node else .error .malformed

end Json
end MessageSchema.Data

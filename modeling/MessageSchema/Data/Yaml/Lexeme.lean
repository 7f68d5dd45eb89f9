import MessageSchema.Data.Yaml.Cursor

namespace MessageSchema.Data
namespace Yaml

/-!
The scalars, names and tags of a YAML document.

Each reader gives what it finds and the place behind it, and holds texts in
reverse.
-/

/-! ## Quoted text -/

def numbered? (count : Nat) (cursor : Cursor) : Option (Char × Cursor) :=
  let digits := cursor.rest.take count
  let number := Number.ofHexDigits digits
  if digits.length = count ∧ digits.all (fun digit => (Number.hexDigit? digit).isSome)
      ∧ number.isValidChar then
    some (Char.ofNat number, cursor.steps count)
  else none

def escapes : List (Char × Char) :=
  [('0', '\x00'), ('a', '\x07'), ('b', '\x08'), ('t', '\t'), ('\t', '\t'), ('n', '\n'),
    ('v', '\x0b'), ('f', '\x0c'), ('r', '\r'), ('e', '\x1b'), (' ', ' '), ('"', '"'),
    ('\'', '\''), ('/', '/'), ('\\', '\\'), ('N', '\u0085'), ('_', '\u00A0'), ('L', '\u2028'),
    ('P', '\u2029')]

def escape? (cursor : Cursor) : Option (Char × Cursor) :=
  match cursor.rest with
  | [] => none
  | 'x' :: _ => numbered? 2 cursor.step
  | 'u' :: _ => numbered? 4 cursor.step
  | 'U' :: _ => numbered? 8 cursor.step
  | mark :: _ => (escapes.lookup mark).map (·, cursor.step)

/-- The rest of a text between quotes.  Gaps are folded, and no line may start with a
marker.  A single quote is written twice between single quotes; between double quotes
there are escapes, and a backslash joins two lines. -/
def readQuoted (quote : Char) : Nat -> List Char -> Cursor -> Option (List Char × Cursor)
  | 0, _, _ => none
  | fuel + 1, text, cursor =>
    match cursor.rest with
    | [] => none
    | value :: rest =>
      if isGap value then
        let (gap, next) := cursor.span isGap
        if next.atMarker then none
        else readQuoted quote fuel ((folded gap).reverse ++ text) next
      else if value == '\'' && quote == '\'' && rest.head? == some '\'' then
        readQuoted quote fuel ('\'' :: text) cursor.step.step
      else if value == quote then some (text.reverse, cursor.step)
      else if value == '\\' && quote == '"' then
        if rest.head?.any isBreak then
          let (gap, next) := cursor.step.step.span isGap
          if next.atMarker then none
          else readQuoted quote fuel ((gap.filter isBreak).reverse ++ text) next
        else
          match escape? cursor.step with
          | none => none
          | some (meant, next) => readQuoted quote fuel (meant :: text) next
      else readQuoted quote fuel (value :: text) cursor.step

/-! ## Plain text -/

def isFlowIndicator (value : Char) : Bool :=
  [',', '?', '[', ']', '\x7b', '\x7d'].contains value

def startsPlain (inFlow : Bool) : List Char -> Bool
  | [] => false
  | first :: rest =>
    if first == '-' then !(rest.head?.any isBlank)
    else if first == '?' || first == ':' then !inFlow && !blankOrEnd rest
    else !(isGap first || indicators.contains first)

/-- How many characters come before the next gap or mark that ends a plain text, on top
of the count. -/
def wordSize (inFlow : Bool) (count : Nat) : List Char -> Nat
  | [] => count
  | value :: rest =>
    if isGap value || (value == ':' && blankOrEnd rest)
        || (inFlow && isFlowIndicator value) then
      count
    else wordSize inFlow (count + 1) rest

/-- Is there a tab in the indentation of a line?  The mark says that a line has been
ended. -/
def tabsIndent (least : Int) (column : Nat) (ended : Bool) : List Char -> Bool
  | [] => false
  | value :: rest =>
    if isBreak value then tabsIndent least 0 true rest
    else (ended && value == '\t' && column < least) || tabsIndent least (column + 1) ended rest

/-- A plain text: words and gaps.  It goes on in the next line if that is indented far
enough, or inside brackets.  The mark says that a line has been ended behind the text.
-/
def readPlain (inFlow : Bool) (least : Int) :
    Nat -> List Char -> List Char -> Cursor -> Option ((List Char × Bool) × Cursor)
  | 0, _, _, _ => none
  | fuel + 1, text, gap, cursor =>
    if cursor.atMarker || cursor.sees '#' then
      some ((text.reverse, gap.any isBreak), cursor)
    else
      let count := wordSize inFlow 0 cursor.rest
      if count = 0 then some ((text.reverse, gap.any isBreak), cursor)
      else
        let text := (cursor.rest.take count).reverse ++ ((folded gap).reverse ++ text)
        let ending := cursor.steps count
        let (gap, next) := ending.span isGap
        if tabsIndent least ending.column false gap then none
        else if gap.isEmpty || (!inFlow && next.column < least) then
          some ((text.reverse, gap.any isBreak), next)
        else readPlain inFlow least fuel text gap next

/-! ## Blocks -/

inductive Chomping where
  | strip
  | clip
  | keep

def chomping? (cursor : Cursor) : Option Chomping :=
  if cursor.sees '-' then some .strip else if cursor.sees '+' then some .keep else none

def depth? (cursor : Cursor) : Option Nat :=
  match cursor.rest with
  | value :: _ => if value.isDigit then some (value.toNat - '0'.toNat) else none
  | [] => none

/-- Reads the marks of a block, in either order, up to the start of the next line.  A
depth is not zero. -/
def blockHead? (cursor : Cursor) : Option ((Chomping × Option Nat) × Cursor) :=
  let (chomping, depth, next) :=
    match chomping? cursor with
    | some chomping =>
      match depth? cursor.step with
      | some depth => (chomping, some depth, cursor.step.step)
      | none => (chomping, none, cursor.step)
    | none =>
      match depth? cursor with
      | some depth =>
        match chomping? cursor.step with
        | some chomping => (chomping, some depth, cursor.step.step)
        | none => (.clip, some depth, cursor.step)
      | none => (.clip, none, cursor)
  let ending := next.skip isBlank
  let ending := if ending.sees '#' then ending.lineEnd else ending
  if depth = some 0 || !ending.atLineEnd then none else some ((chomping, depth), ending.step)

/-- Skips empty lines and the indentation of the line behind them.  Gives the breaks, in
reverse, and the deepest column.  If the depth is not known, all spaces are indentation.
-/
def emptyLines (depth : Option Nat) :
    Nat -> List Char -> Nat -> Cursor -> Option ((List Char × Nat) × Cursor)
  | 0, _, _, _ => none
  | fuel + 1, breaks, deepest, cursor =>
    let spaces := (cursor.rest.takeWhile (· == ' ')).length
    let next := cursor.steps (depth.elim spaces fun depth => min spaces (depth - cursor.column))
    let deepest := max deepest next.column
    match next.rest with
    | [] => some ((breaks, deepest), next)
    | value :: _ =>
      if value == '\t' && depth.all (next.column < ·) then none
      else if isBreak value then emptyLines depth fuel (value :: breaks) deepest next.step
      else some ((breaks, deepest), next)

/-- A block so far, in reverse: the text, the break behind its last line and the empty
lines.  The mark says that the last line started with a blank. -/
structure BlockText where
  text : List Char
  ending : List Char
  empties : List Char
  afterBlank : Bool

/-- Adds a line to a block.  In a folded block a newline becomes a space between lines
that do not start with a blank. -/
def BlockText.add (held : BlockText) (literal : Bool) (line : List Char) : BlockText :=
  let startsBlank := line.head?.any isBlank
  let joint :=
    if !literal && held.ending == ['\n'] && !held.afterBlank && !startsBlank then
      if held.empties.isEmpty then [' '] else []
    else held.ending
  { text := line.reverse ++ (held.empties ++ (joint ++ held.text))
    ending := [], empties := [], afterBlank := startsBlank }

def blockLines (literal : Bool) (depth : Nat) :
    Nat -> BlockText -> Cursor -> Option (BlockText × Cursor)
  | 0, _, _ => none
  | fuel + 1, held, cursor =>
    if cursor.column != depth || cursor.rest.isEmpty then some (held, cursor)
    else
      let (line, ending) := cursor.span fun value => !isBreak value
      match emptyLines (some depth) cursor.size [] 0 ending.step with
      | none => none
      | some ((breaks, _), next) =>
        blockLines literal depth fuel
          { held.add literal line with ending := ending.rest.take 1, empties := breaks } next

/-- A block from behind its first mark on.  It is deeper than the column of its node. -/
def readBlock (literal : Bool) (indent : Int) (cursor : Cursor) :
    Option (List Char × Cursor) := do
  let ((chomping, told), lines) ← blockHead? cursor
  let told := told.map fun depth => indent.toNat + depth
  let ((breaks, deepest), first) ← emptyLines told cursor.size [] 0 lines
  let depth := told.getD (max 1 (max (indent + 1).toNat deepest))
  let (held, rest) ← blockLines literal depth cursor.size ⟨[], [], breaks, false⟩ first
  let ending :=
    match chomping with
    | .strip => []
    | .clip => held.ending
    | .keep => held.empties ++ held.ending
  return ((ending ++ held.text).reverse, rest)

/-! ## Names and tags -/

def isNameChar (value : Char) : Bool :=
  value.isAlphanum || value == '_' || value == '-'

def readName (cursor : Cursor) : Option (String × Cursor) :=
  let (name, next) := cursor.span isNameChar
  let isEnded :=
    next.atGap || next.rest.head?.any fun value =>
      ['?', ':', ',', ']', '\x7d', '%', '@', '\x60'].contains value
  if name.isEmpty || !isEnded then none else some (String.ofList name, next)

def isTagChar (value : Char) : Bool :=
  isNameChar value
    || [';', '/', '?', ':', '@', '&', '=', '+', '$', ',', '.', '!', '~', '*', '\'', '(', ')', '[',
      ']', '%'].contains value

def octet? (cursor : Cursor) : Option (UInt8 × Cursor) :=
  match cursor.rest with
  | '%' :: high :: low :: _ => do
      let high ← Number.hexDigit? high
      let low ← Number.hexDigit? low
      return (UInt8.ofNat (16 * high + low), cursor.steps 3)
  | _ => none

def octetCount? (first : UInt8) : Option Nat :=
  if first < 0x80 then some 1
  else if first &&& 0xE0 == 0xC0 then some 2
  else if first &&& 0xF0 == 0xE0 then some 3
  else if first &&& 0xF8 == 0xF0 then some 4
  else none

def moreOctets : Nat -> List UInt8 -> Cursor -> Option (List UInt8 × Cursor)
  | 0, held, cursor => some (held, cursor)
  | count + 1, held, cursor => do
      let (octet, next) ← octet? cursor
      if octet &&& 0xC0 == 0x80 then moreOctets count (octet :: held) next else none

def octets? (cursor : Cursor) : Option (List UInt8 × Cursor) := do
  let (first, next) ← octet? cursor
  let count ← octetCount? first
  moreOctets (count - 1) [first] next

def tagText : Nat -> List Char -> Cursor -> Option (List Char × Cursor)
  | 0, _, _ => none
  | fuel + 1, text, cursor =>
    match cursor.rest with
    | [] => some (text.reverse, cursor)
    | value :: _ =>
      if !isTagChar value then some (text.reverse, cursor)
      else if value == '%' then
        match octets? cursor with
        | none => none
        | some (octets, next) =>
          let meant := (Text.shownBytes octets.reverse).toList
          tagText fuel (meant.reverse ++ text) next
      else tagText fuel (value :: text) cursor.step

def someTagText (cursor : Cursor) : Option (String × Cursor) := do
  let (text, next) ← tagText (cursor.size + 1) [] cursor
  if text.isEmpty then none else some (String.ofList text, next)

/-- A handle in front of a tag: an exclamation mark, possibly with a name and another
one. -/
def readHandle (cursor : Cursor) : List Char × Cursor :=
  let (name, next) := cursor.step.span isNameChar
  if next.sees '!' then ('!' :: name ++ ['!'], next.step) else ('!' :: name, next)

/-- The tag of a node: its handle and the rest.  A tag in angle brackets has no handle,
and neither has a lone exclamation mark. -/
def readTag (cursor : Cursor) : Option ((String × String) × Cursor) := do
  let (tag, next) ←
    if cursor.step.sees '<' then do
      let (text, next) ← someTagText cursor.step.step
      if next.sees '>' then some (("", text), next.step) else none
    else
      let (handle, next) := readHandle cursor
      if 1 < handle.length && handle.getLast? == some '!' then do
        let (text, next) ← someTagText next
        some ((String.ofList handle, text), next)
      else do
        let (text, next) ← tagText (cursor.size + 1) handle.tail.reverse next
        some (if text.isEmpty then ("", "!") else ("!", String.ofList text), next)
  if next.atGap then some (tag, next) else none

end Yaml
end MessageSchema.Data

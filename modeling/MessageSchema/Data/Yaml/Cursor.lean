import MessageSchema.Data.Yaml.Scalar

namespace MessageSchema.Data
namespace Yaml

/-!
Places in the text of a YAML document.

The usual ends of lines all become a newline; the separators of lines and
paragraphs stay what they are.  Columns tell the structure, so a place knows
where it is.
-/

def isReadable (value : Char) : Bool :=
  let code := value.toNat
  code == 0x09 || code == 0x0A || code == 0x0D || (0x20 <= code && code <= 0x7E) || code == 0x85
    || (0xA0 <= code && code != 0xFFFE && code != 0xFFFF)

/-- The characters with newlines at the ends of lines, onto those done already, in
reverse. -/
def withNewlines (done : List Char) : List Char -> List Char
  | '\r' :: '\n' :: rest => withNewlines ('\n' :: done) rest
  | value :: rest =>
    withNewlines ((if value == '\r' || value.toNat == 0x85 then '\n' else value) :: done) rest
  | [] => done.reverse

def isGap (value : Char) : Bool :=
  isBlank value || isBreak value

def blankOrEnd : List Char -> Bool
  | [] => true
  | value :: _ => isGap value

/-- A place in a text: the characters behind it, the number of those in front of it, its
line and its column.  The size of the whole text is enough fuel for whatever takes a
character in each step. -/
structure Cursor where
  rest : List Char
  size : Nat
  index : Nat := 0
  line : Nat := 0
  column : Nat := 0

namespace Cursor

def start (text : List Char) : Cursor where
  rest := text
  size := text.length

def step (cursor : Cursor) : Cursor :=
  match cursor.rest with
  | [] => cursor
  | value :: rest =>
    if isBreak value then ⟨rest, cursor.size, cursor.index + 1, cursor.line + 1, 0⟩
    else ⟨rest, cursor.size, cursor.index + 1, cursor.line, cursor.column + 1⟩

def steps : Nat -> Cursor -> Cursor
  | 0, cursor => cursor
  | count + 1, cursor => steps count cursor.step

def span (test : Char -> Bool) (cursor : Cursor) : List Char × Cursor :=
  let taken := cursor.rest.takeWhile test
  (taken, cursor.steps taken.length)

def skip (test : Char -> Bool) (cursor : Cursor) : Cursor :=
  (cursor.span test).2

def sees (cursor : Cursor) (value : Char) : Bool :=
  cursor.rest.head? == some value

def atGap (cursor : Cursor) : Bool :=
  blankOrEnd cursor.rest

def atLineEnd (cursor : Cursor) : Bool :=
  cursor.rest.head?.all isBreak

def lineEnd (cursor : Cursor) : Cursor :=
  cursor.skip fun value => !isBreak value

def endLine (cursor : Cursor) : Cursor :=
  if cursor.column = 0 then cursor else { cursor with line := cursor.line + 1, column := 0 }

def atDocumentStart (cursor : Cursor) : Bool :=
  cursor.column == 0 &&
    match cursor.rest with
    | '-' :: '-' :: '-' :: rest => blankOrEnd rest
    | _ => false

def atDocumentEnd (cursor : Cursor) : Bool :=
  cursor.column == 0 &&
    match cursor.rest with
    | '.' :: '.' :: '.' :: rest => blankOrEnd rest
    | _ => false

def atMarker (cursor : Cursor) : Bool :=
  cursor.atDocumentStart || cursor.atDocumentEnd

/-- How far a comment is looked for behind a token or another comment. -/
def commentReach : Nat := 512

def skipLineComment (cursor : Cursor) : Cursor :=
  let (blanks, next) := cursor.span isBlank
  if blanks.length < commentReach && next.sees '#' then next.lineEnd else cursor

def skipComments : Nat -> Cursor -> Cursor
  | 0, cursor => cursor
  | fuel + 1, cursor =>
    let ending := cursor.lineEnd
    let (gap, next) := ending.span isGap
    if gap.length < commentReach && next.sees '#' then skipComments fuel next else ending

end Cursor

/-- What a gap between two words stands for.  A single newline is a space, more of them
are one fewer, and blanks are kept. -/
def folded (gap : List Char) : List Char :=
  match gap.filter isBreak with
  | [] => gap
  | ['\n'] => [' ']
  | '\n' :: others => others
  | breaks => breaks

end Yaml
end MessageSchema.Data

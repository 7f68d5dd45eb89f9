import MessageSchema.Data.Yaml.Lexeme

namespace MessageSchema.Data
namespace Yaml

/-!
The tokens of a YAML document, found on demand.

A key is known by the colon behind it, so a place where one may start is kept as
a candidate, and its token is put in later.  In the block style columns alone
open and close lists and records.
-/

inductive Token where
  | streamStart
  | streamEnd
  | version (major minor : Nat)
  | handle (name expansion : String)
  | documentStart
  | documentEnd
  | blockList
  | blockRecord
  | blockEnd
  | openList
  | closeList
  | openRecord
  | closeRecord
  | dash
  | comma
  | key
  | value
  | reference (name : String)
  | anchor (name : String)
  | tag (handle text : String)
  | scalar (text : List Char) (isPlain : Bool)
deriving DecidableEq, Repr

/-- A place where a key may have started: the number of its token, and whether there has
to be one. -/
structure Candidate where
  number : Nat
  isRequired : Bool
  index : Nat
  line : Nat
  column : Nat

/-- The tokens of a text: those found and not taken, how many have been taken, and where
more are found.  There is a candidate for a key outside of brackets and one for each
open bracket, the innermost first, and the indentation of the innermost block. -/
structure Tokens where
  cursor : Cursor
  found : List Token := [.streamStart]
  taken : Nat := 0
  candidates : List (Option Candidate) := [none]
  indent : Int := -1
  outer : List Int := []
  allowsKey : Bool := true

namespace Tokens

/-- The deepest that blocks and brackets may each be nested. -/
def depthLimit : Nat := 10000

def keyReach : Nat := 1024

def lookahead : Nat := 3

def inFlow (tokens : Tokens) : Bool :=
  1 < tokens.candidates.length

def push (tokens : Tokens) (token : Token) : Tokens :=
  { tokens with found := tokens.found ++ [token] }

def pushSteps (tokens : Tokens) (count : Nat) (token : Token) : Tokens :=
  { tokens.push token with cursor := tokens.cursor.steps count }

def insert (tokens : Tokens) (number : Nat) (token : Token) : Tokens :=
  let (before, after) := tokens.found.splitAt (number - tokens.taken)
  { tokens with found := before ++ token :: after }

/-! ## Blocks -/

/-- The number of blocks that are deeper than a column, and the indentation that
is left. -/
def closing (column : Int) (count : Nat) : Int -> List Int -> Nat × (Int × List Int)
  | indent, [] => (count, (indent, []))
  | indent, next :: outer =>
    if column < indent then closing column (count + 1) next outer
    else (count, (indent, next :: outer))

def unroll (tokens : Tokens) (column : Int) : Tokens :=
  if tokens.inFlow then tokens
  else
    let (count, (indent, outer)) := closing column 0 tokens.indent tokens.outer
    { tokens with
      found := tokens.found ++ List.replicate count .blockEnd, indent := indent, outer := outer }

/-- Opens a block at a column, unless one is open there.  Its token stands in front of
the one with the number. -/
def roll? (tokens : Tokens) (column : Nat) (number : Option Nat) (token : Token) :
    Option Tokens :=
  if tokens.inFlow || column <= tokens.indent then some tokens
  else if depthLimit <= tokens.outer.length then none
  else
    let opened :=
      { tokens with indent := column, outer := tokens.indent :: tokens.outer }
    some (number.elim (opened.push token) (opened.insert · token))

/-! ## Candidates for keys -/

/-- Drops the candidate at the current level.  It must not be one that has to be
a key. -/
def dropCandidate? (tokens : Tokens) : Option Tokens :=
  match tokens.candidates with
  | some candidate :: rest =>
    if candidate.isRequired then none else some { tokens with candidates := none :: rest }
  | _ => some tokens

def addCandidate? (tokens : Tokens) : Option Tokens :=
  if tokens.allowsKey then do
    let cursor := tokens.cursor
    let candidate : Candidate :=
      { number := tokens.taken + tokens.found.length
        isRequired := !tokens.inFlow && tokens.indent == cursor.column
        index := cursor.index, line := cursor.line, column := cursor.column }
    let dropped ← tokens.dropCandidate?
    return { dropped with candidates := some candidate :: dropped.candidates.tail }
  else some tokens

def isNear (tokens : Tokens) (candidate : Candidate) : Bool :=
  tokens.cursor.line <= candidate.line && tokens.cursor.index <= candidate.index + keyReach

/-- The candidate at the current level, if it is still near.  One that has to be
a key must be. -/
def candidate? (tokens : Tokens) : Option (Option Candidate) :=
  match tokens.candidates with
  | some candidate :: _ =>
    if tokens.isNear candidate then some (some candidate)
    else if candidate.isRequired then none
    else some none
  | _ => some none

/-! ## Finding the next token -/

/-- Skips what stands between tokens.  Behind a line end there may be a key again, and
then no tabs, unless in brackets. -/
def skipGap (inFlow : Bool) : Nat -> Bool -> Cursor -> Bool × Cursor
  | 0, allowsKey, cursor => (allowsKey, cursor)
  | fuel + 1, allowsKey, cursor =>
    let start :=
      if cursor.column == 0 && cursor.rest.head?.any (·.toNat == 0xFEFF) then cursor.step
      else cursor
    let next := start.skip fun value => value == ' ' || (value == '\t' && (inFlow || !allowsKey))
    let next := if next.sees '#' then next.skipComments next.size else next
    if next.rest.head?.any isBreak then skipGap inFlow fuel (allowsKey || !inFlow) next.step
    else (allowsKey, next)

def leaveBlocks? (tokens : Tokens) : Option Tokens := do
  let dropped ← (tokens.unroll (-1)).dropCandidate?
  return { dropped with allowsKey := false }

def versionNumber? (cursor : Cursor) : Option (Nat × Cursor) :=
  let (digits, next) := cursor.span Char.isDigit
  if digits.isEmpty || 2 < digits.length then none
  else some (digits.foldl (fun value digit => 10 * value + (digit.toNat - '0'.toNat)) 0, next)

/-- A directive, from its percent sign on: the version of the format, or a handle
for tags. -/
def directive? (cursor : Cursor) : Option (Token × Cursor) := do
  let (name, next) := cursor.step.span isNameChar
  let start := next.skip isBlank
  let (token, ending) ←
    if !next.atGap then none
    else if name == "YAML".toList then do
      let (major, point) ← versionNumber? start
      if point.sees '.' then
        let (minor, ending) ← versionNumber? point.step
        some (Token.version major minor, ending)
      else none
    else if name == "TAG".toList then
      if start.sees '!' then do
        let (handle, next) := readHandle start
        if (handle.length = 1 || handle.getLast? == some '!') && next.rest.head?.any isBlank then
          let (expansion, ending) ← someTagText (next.skip isBlank)
          if ending.atGap then some (Token.handle (String.ofList handle) expansion, ending)
          else none
        else none
      else none
    else none
  let ending := ending.skip isBlank
  let ending := if ending.sees '#' then ending.lineEnd else ending
  if ending.atLineEnd then some (token, ending.step) else none

/-- Adds a token that is a candidate for a key, and behind which there is none. -/
def pushCandidate? (tokens : Tokens) (token : Token) (next : Cursor) : Option Tokens := do
  let saved ← tokens.addCandidate?
  return { saved.push token with cursor := next, allowsKey := false }

def open? (tokens : Tokens) (token : Token) : Option Tokens := do
  let saved ← tokens.addCandidate?
  if depthLimit < saved.candidates.length then none
  else
    return { saved.pushSteps 1 token with
      candidates := none :: saved.candidates, allowsKey := true }

def close? (tokens : Tokens) (token : Token) : Option Tokens := do
  let dropped ← tokens.dropCandidate?
  return { dropped.pushSteps 1 token with
    candidates := if dropped.inFlow then dropped.candidates.tail else dropped.candidates
    allowsKey := false }

def comma? (tokens : Tokens) : Option Tokens := do
  let dropped ← tokens.dropCandidate?
  return { dropped.pushSteps 1 .comma with allowsKey := true }

def dash? (tokens : Tokens) : Option Tokens := do
  if !tokens.inFlow && !tokens.allowsKey then none
  else
    let rolled ← tokens.roll? tokens.cursor.column none .blockList
    let dropped ← rolled.dropCandidate?
    return { dropped.pushSteps 1 .dash with allowsKey := true }

def key? (tokens : Tokens) : Option Tokens := do
  if !tokens.inFlow && !tokens.allowsKey then none
  else
    let rolled ← tokens.roll? tokens.cursor.column none .blockRecord
    let dropped ← rolled.dropCandidate?
    return { dropped.pushSteps 1 .key with allowsKey := !dropped.inFlow }

/-- Adds a colon, which makes a key of the candidate, or belongs to a marked key. -/
def value? (tokens : Tokens) : Option Tokens := do
  match ← tokens.candidate? with
  | some candidate =>
    let keyed := tokens.insert candidate.number .key
    let rolled ← keyed.roll? candidate.column (some candidate.number) .blockRecord
    return { rolled.pushSteps 1 .value with
      candidates := none :: rolled.candidates.tail, allowsKey := false }
  | none =>
    if !tokens.inFlow && !tokens.allowsKey then none
    else
      let rolled ← tokens.roll? tokens.cursor.column none .blockRecord
      return { rolled.pushSteps 1 .value with
        candidates := none :: rolled.candidates.tail, allowsKey := !rolled.inFlow }

/-- Adds a block.  Behind it there may be a key. -/
def block? (tokens : Tokens) (isLiteral : Bool) : Option Tokens := do
  let dropped ← tokens.dropCandidate?
  let (text, next) ← readBlock isLiteral dropped.indent dropped.cursor.step
  return { dropped.push (.scalar text false) with cursor := next, allowsKey := true }

/-- Adds a plain text.  If a line ends behind it, there may be a key. -/
def plain? (tokens : Tokens) : Option Tokens := do
  let cursor := tokens.cursor
  let ((text, ended), next) ←
    readPlain tokens.inFlow (tokens.indent + 1) (cursor.size + 1) [] [] cursor
  let pushed ← tokens.pushCandidate? (.scalar text true) next
  return { pushed with allowsKey := ended }

def skipComment (tokens : Tokens) : Tokens :=
  { tokens with cursor := tokens.cursor.skipLineComment }

def byFirst? (tokens : Tokens) (first : Char) (rest : List Char) : Option Tokens :=
  let cursor := tokens.cursor
  if first == '[' then (tokens.open? .openList).map skipComment
  else if first == '\x7b' then (tokens.open? .openRecord).map skipComment
  else if first == ']' then (tokens.close? .closeList).map skipComment
  else if first == '\x7d' then (tokens.close? .closeRecord).map skipComment
  else if first == ',' then tokens.comma?.map skipComment
  else if first == '-' && blankOrEnd rest then tokens.dash?
  else if first == '?' && (tokens.inFlow || blankOrEnd rest) then tokens.key?.map skipComment
  else if first == ':' && (tokens.inFlow || blankOrEnd rest) then tokens.value?.map skipComment
  else if first == '*' then do
    let (name, next) ← readName cursor.step
    (tokens.pushCandidate? (.reference name) next).map skipComment
  else if first == '&' then do
    let (name, next) ← readName cursor.step
    (tokens.pushCandidate? (.anchor name) next).map skipComment
  else if first == '!' then do
    let ((handle, text), next) ← readTag cursor
    (tokens.pushCandidate? (.tag handle text) next).map skipComment
  else if first == '|' && !tokens.inFlow then tokens.block? true
  else if first == '>' && !tokens.inFlow then tokens.block? false
  else if first == '\'' || first == '"' then do
    let (text, next) ← readQuoted first (cursor.size + 1) [] cursor.step
    (tokens.pushCandidate? (.scalar text false) next).map skipComment
  else if startsPlain tokens.inFlow (first :: rest) then
    tokens.plain?.map fun pushed =>
      if pushed.allowsKey then pushed else pushed.skipComment
  else none

/-- Finds the next token, with the ends of blocks in front of it and what a colon makes
known. -/
def next? (tokens : Tokens) : Option Tokens :=
  let (allowsKey, cursor) := skipGap tokens.inFlow (tokens.cursor.size + 1) tokens.allowsKey
    tokens.cursor
  let reached := { tokens with cursor := cursor, allowsKey := allowsKey }.unroll cursor.column
  match cursor.rest with
  | [] => do
      let left ← { reached with cursor := cursor.endLine }.leaveBlocks?
      return left.push .streamEnd
  | first :: rest =>
    if cursor.column == 0 && first == '%' then do
      let left ← reached.leaveBlocks?
      let (token, next) ← directive? cursor
      return { left.push token with cursor := next }
    else if cursor.atDocumentStart then do
      let left ← reached.leaveBlocks?
      return left.pushSteps 3 .documentStart
    else if cursor.atDocumentEnd then do
      let left ← reached.leaveBlocks?
      return left.pushSteps 3 .documentEnd
    else reached.byFirst? first rest

/-- Might the first token turn out to be a key?  Candidates that have to be keys
must be near. -/
def firstIsCandidate? (tokens : Tokens) : Option Bool :=
  match tokens.candidates.find? fun held => held.any (·.number == tokens.taken) with
  | some (some candidate) =>
    if tokens.isNear candidate then some true
    else if candidate.isRequired then none
    else some false
  | _ => some false

def fill? : Nat -> Tokens -> Option Tokens
  | 0, _ => none
  | fuel + 1, tokens => do
      let isOpen ←
        if tokens.found.length < lookahead then some true else tokens.firstIsCandidate?
      if isOpen then
        let more ← tokens.next?
        fill? fuel more
      else return tokens

/-- The next token.  Almost every token takes a character, so the size of the text
bounds their number. -/
def peek? (tokens : Tokens) : Option (Token × Tokens) := do
  let filled ← fill? (tokens.cursor.size + 2 * lookahead) tokens
  let first ← filled.found.head?
  return (first, filled)

def drop (tokens : Tokens) : Tokens :=
  { tokens with found := tokens.found.tail, taken := tokens.taken + 1 }

def ofText (text : List Char) : Tokens where
  cursor := .start text

end Tokens
end Yaml
end MessageSchema.Data

import MessageSchema.Syntax.Token

namespace MessageSchema.Syntax

/-!
Cutting a source into tokens.

A source that is too long or not in UTF-8 is refused as a whole.  Then every
token is the longest stretch that its first characters allow.  It takes its
first character and a number of those behind, so what remains gets shorter.
-/

/-- What was recognised at the start of a source: the kind of the token and how many
characters follow the first. -/
structure Match where
  kind : TokenKind
  further : Nat
  escapes : Bool := false
deriving DecidableEq, Repr

def isWordChar (value : Char) : Bool :=
  value.isAlphanum || value == '_'

def isBlankChar (value : Char) : Bool :=
  value == ' ' || value == '\t' || value == '\u00a0'

def isControl (value : Char) : Bool :=
  value.toNat < 0x20 || value.toNat == 0x7F

def isHexDigit (value : Char) : Bool :=
  (Number.hexDigit? value).isSome

def isExponentMark (value : Char) : Bool :=
  value == 'e' || value == 'E'

def emit (kind : TokenKind) (first : Char) (further : List Char)
    (escapes : Bool := false) : Except Error Match :=
  let size := byteLength (first :: further)
  if maxTokenSize < size then
    .error ⟨.tokenTooLong size, ⟨0, storedLength size⟩⟩
  else
    .ok ⟨kind, further.length, escapes⟩

/-- Counts the characters up to the end of a block comment, its mark
included. -/
def commentEnd? (count : Nat) : List Char -> Option Nat
  | '*' :: '/' :: _ => some (count + 2)
  | _ :: rest => commentEnd? (count + 1) rest
  | [] => none

/-- Where a text literal ends, given the characters behind its opening quote.  `offset`
counts the bytes so far, `count` the characters.  An escaped character is passed over.
-/
def textEnd (offset count : Nat) (escapes : Bool) : List Char -> Except Error (Nat × Bool)
  | '"' :: _ => .ok (count + 1, escapes)
  | '\\' :: escaped :: rest =>
    textEnd (offset + 1 + escaped.utf8Size) (count + 2) true rest
  | ['\\'] => .error ⟨.textUnterminated, ⟨0, offset + 1⟩⟩
  | '\n' :: _ => .error ⟨.textNewline, ⟨offset, 1⟩⟩
  | '\r' :: '\n' :: _ => .error ⟨.textNewline, ⟨offset, 2⟩⟩
  | value :: rest =>
    if isControl value && value != '\t' then
      .error ⟨.forbiddenControl value, ⟨offset, 1⟩⟩
    else
      textEnd (offset + value.utf8Size) (count + 1) escapes rest
  | [] => .error ⟨.textUnterminated, ⟨0, offset⟩⟩

/-- The parts of a number, as far as its characters reach.  They need not hold digits
only. -/
structure NumberParts where
  whole : List Char
  fraction : Option (List Char)
  exponent : Option (Option Char × List Char)

/-- Cuts a number into its parts.  A point belongs to the number only if a
digit follows. -/
def NumberParts.of (source : List Char) : NumberParts :=
  let inMantissa := fun value => isWordChar value && !isExponentMark value
  let whole := source.takeWhile inMantissa
  let afterWhole := source.dropWhile inMantissa
  let (fraction, afterFraction) :=
    match afterWhole with
    | '.' :: digit :: rest =>
      if digit.isDigit then
        (some ((digit :: rest).takeWhile inMantissa), (digit :: rest).dropWhile inMantissa)
      else (none, afterWhole)
    | _ => (none, afterWhole)
  let exponent :=
    match afterFraction with
    | mark :: rest =>
      if isExponentMark mark then
        match rest with
        | sign :: digits =>
          if sign == '+' || sign == '-' then some (some sign, digits.takeWhile isWordChar)
          else some (none, rest.takeWhile isWordChar)
        | [] => some (none, [])
      else none
    | [] => none
  ⟨whole, fraction, exponent⟩

namespace NumberParts

def length (parts : NumberParts) : Nat :=
  parts.whole.length
    + (parts.fraction.elim 0 fun digits => digits.length + 1)
    + (parts.exponent.elim 0 fun (sign, digits) =>
        1 + (sign.elim 0 fun _ => 1) + digits.length)

def isFloat (parts : NumberParts) : Bool :=
  parts.fraction.isSome || parts.exponent.isSome

/-- Digits only, no superfluous zero in front, and at least one digit in an
exponent. -/
def isValid (parts : NumberParts) : Bool :=
  parts.whole.all Char.isDigit
    && !(1 < parts.whole.length && parts.whole.head? == some '0')
    && parts.fraction.all (·.all Char.isDigit)
    && parts.exponent.all fun (_, digits) => !digits.isEmpty && digits.all Char.isDigit

end NumberParts

def numberToken (first : Char) (rest : List Char) : Except Error Match :=
  let digits := if first == '-' then rest else first :: rest
  let signLength := if first == '-' then 1 else 0
  if !(digits.head?.any Char.isDigit) then
    .error ⟨.intLiteralInvalid [first], ⟨0, 1⟩⟩
  else
    match digits with
    | '0' :: 'x' :: afterMark =>
      let hexDigits := afterMark.takeWhile isWordChar
      let further := rest.take (signLength + 1 + hexDigits.length)
      if hexDigits.isEmpty || !hexDigits.all isHexDigit then
        .error ⟨.intLiteralInvalid (first :: further),
          ⟨0, storedLength (byteLength (first :: further))⟩⟩
      else
        emit .hexLiteral first further
    | _ =>
      let parts := NumberParts.of digits
      let further := rest.take (signLength + parts.length - 1)
      let span : Span := ⟨0, storedLength (byteLength (first :: further))⟩
      if parts.isValid then
        emit (if parts.isFloat then .floatLiteral else .intLiteral) first further
      else if parts.isFloat then
        .error ⟨.floatLiteralInvalid (first :: further), span⟩
      else
        .error ⟨.intLiteralInvalid (first :: further), span⟩

def markKind? : Char -> Option TokenKind
  | '\n' => some .newline
  | ',' => some .comma
  | '.' => some .dot
  | '=' => some .equals
  | ';' => some .semicolon
  | '\x7b' => some .openCurl
  | '\x7d' => some .closeCurl
  | '[' => some .openSquare
  | ']' => some .closeSquare
  | _ => none

def nextToken (first : Char) (rest : List Char) : Except Error Match :=
  match markKind? first with
  | some kind => .ok ⟨kind, 0, false⟩
  | none =>
    if isBlankChar first then
      emit .space first (rest.takeWhile isBlankChar)
    else if first == '/' then
      match rest with
      | '/' :: _ => emit .comment first (rest.takeWhile fun value => value != '\n' && value != '\r')
      | '*' :: body =>
        match commentEnd? 1 body with
        | some further => emit .comment first (rest.take further)
        | none => .error ⟨.commentUnterminated, ⟨0, storedLength (byteLength (first :: rest))⟩⟩
      | _ => .error ⟨.unexpectedCharacter first, ⟨0, 1⟩⟩
    else if first == '"' then
      match textEnd 1 0 false rest with
      | .ok (further, escapes) => emit .textLiteral first (rest.take further) escapes
      | .error error => .error error
    else if first == '\r' then
      match rest with
      | '\n' :: _ => .ok ⟨.newline, 1, false⟩
      | _ => .error ⟨.forbiddenControl first, ⟨0, 1⟩⟩
    else if first.isDigit || first == '-' then
      numberToken first rest
    else if isWordChar first then
      let further := rest.takeWhile isWordChar
      if first == '_' && further.isEmpty then
        .error ⟨.wordInvalid [first], ⟨0, 1⟩⟩
      else
        emit .word first further
    else if isControl first then
      .error ⟨.forbiddenControl first, ⟨0, 1⟩⟩
    else
      .error ⟨.unexpectedCharacter first, ⟨0, first.utf8Size⟩⟩

/-- The tokens of a source up to its end or the first fault.  Without fault the last one
is the empty token at the end. -/
structure Scan where
  tokens : List Token
  error : Option Error
deriving DecidableEq, Repr

def scanFrom (offset : Nat) (seen : List Token) : List Char -> Scan
  | [] => ⟨(⟨.final, [], offset, false⟩ :: seen).reverse, none⟩
  | first :: rest =>
    match nextToken first rest with
    | .error error => ⟨seen.reverse, some (error.shift offset)⟩
    | .ok found =>
      let token : Token :=
        ⟨found.kind, first :: rest.take found.further, offset, found.escapes⟩
      scanFrom (offset + token.length) (token :: seen) (rest.drop found.further)
termination_by source => source.length
decreasing_by simp only [List.length_drop, List.length_cons]; omega

def scan (source : List Char) : Scan :=
  scanFrom 0 [] source

/-- The offset at which a source that is not in UTF-8 is reported.  The search also
stops at a replacement character. -/
def invalidOffset (glyphs : List Text.Glyph) : Nat :=
  let sound := glyphs.takeWhile fun glyph =>
    match glyph with
    | .char value => value != Text.Glyph.replacement
    | .stray _ => false
  (sound.map Text.Glyph.width).foldr (· + ·) 0

def sizeError? (size : Nat) : Option Error :=
  if maxSourceSize < size then
    some ⟨.sourceTooLong size, ⟨0, storedLength size⟩⟩
  else
    none

/-- The characters of a source, provided that it has an allowed size and is in
UTF-8. -/
def sourceChars (source : List UInt8) : Except Error (List Char) :=
  match sizeError? source.length with
  | some error => .error error
  | none =>
    let glyphs := Text.decode source
    match Text.chars? glyphs with
    | some chars => .ok chars
    | none => .error ⟨.invalidUtf8, ⟨invalidOffset glyphs, 1⟩⟩

def tokenize (source : List UInt8) : Except Error Scan :=
  match sourceChars source with
  | .ok chars => .ok (scan chars)
  | .error error => .error error

/-- What is left to read of a source, and the offset at which it starts. -/
structure Cursor where
  offset : Nat
  rest : List Char
deriving DecidableEq, Repr

namespace Cursor

/-- Reads a token and moves behind it.  At the end of the source and at a fault the
cursor stays where it is. -/
def next (cursor : Cursor) : Except Error Token × Cursor :=
  match cursor.rest with
  | [] => (.ok ⟨.final, [], cursor.offset, false⟩, cursor)
  | first :: rest =>
    match nextToken first rest with
    | .error error => (.error (error.shift cursor.offset), cursor)
    | .ok found =>
      let token : Token :=
        ⟨found.kind, first :: rest.take found.further, cursor.offset, found.escapes⟩
      (.ok token, ⟨cursor.offset + token.length, rest.drop found.further⟩)

/-- The cursor at the start of a source, unless the source is refused. -/
def ofSource (source : List UInt8) : Except Error Cursor :=
  (sourceChars source).map (Cursor.mk 0)

end Cursor
end MessageSchema.Syntax

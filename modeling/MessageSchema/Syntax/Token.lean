import MessageSchema.Schema.Error

namespace MessageSchema.Syntax

/-!
Places in a source.

A span counts bytes; a position counts lines and characters from one.
-/

def maxOffset : Nat := 4294967295

structure Span where
  start : Nat
  length : Nat
deriving DecidableEq, Repr, Inhabited

namespace Span

def stop (span : Span) : Nat :=
  (span.start + span.length) % (maxOffset + 1)

def shift (offset : Nat) (span : Span) : Span :=
  ⟨offset + span.start, span.length⟩

end Span

def storedLength (length : Nat) : Nat :=
  min length maxOffset

/-- A place in the source for a reader: line and column, counted from one. -/
structure Position where
  line : Nat
  column : Nat
deriving DecidableEq, Repr, Inhabited

def lastLine (bytes : List UInt8) : List UInt8 :=
  bytes.foldl (fun line byte => if byte = 10 then [] else byte :: line) [] |>.reverse

/-- The position of an offset, at most that of the end.  Columns count characters, and a
stray byte counts as one. -/
def Position.ofOffset (source : List UInt8) (offset : Nat) : Position :=
  let before := source.take offset
  ⟨before.count 10 + 1, (Text.decode (lastLine before)).length + 1⟩

/-!
The tokens of the schema language.
-/

inductive TokenKind where
  | final
  | space
  | newline
  | comment
  | comma
  | dot
  | equals
  | semicolon
  | openCurl
  | closeCurl
  | openSquare
  | closeSquare
  | intLiteral
  | hexLiteral
  | floatLiteral
  | textLiteral
  | word
deriving DecidableEq, Repr, Inhabited

namespace TokenKind

def all : List TokenKind :=
  [final, space, newline, comment, comma, dot, equals, semicolon, openCurl, closeCurl,
    openSquare, closeSquare, intLiteral, hexLiteral, floatLiteral, textLiteral, word]

def code (kind : TokenKind) : Nat :=
  all.idxOf kind

def name : TokenKind -> String
  | final => "EOF"
  | space => "SPACE"
  | newline => "NEWLINE"
  | comment => "COMMENT"
  | comma => "COMMA"
  | dot => "DOT"
  | equals => "EQ"
  | semicolon => "SEMICOLON"
  | openCurl => "OPEN_CURL"
  | closeCurl => "CLOSE_CURL"
  | openSquare => "OPEN_SQUARE"
  | closeSquare => "CLOSE_SQUARE"
  | intLiteral => "INT_LIT"
  | hexLiteral => "HEX_INT_LIT"
  | floatLiteral => "FLOAT_LIT"
  | textLiteral => "TEXT_LIT"
  | word => "IDENT"

def nameOfCode (code : Nat) : String :=
  match all[code]? with
  | some kind => kind.name
  | none => "TokenKind(" ++ toString code ++ ")"

/-- Blanks, line ends and comments separate tokens and mean nothing else. -/
def isTrivia : TokenKind -> Bool
  | space | newline | comment => true
  | _ => false

end TokenKind

def byteLength (chars : List Char) : Nat :=
  (chars.map Char.utf8Size).foldr (· + ·) 0

/-- A token of a source.  `escapes` says that a text literal holds an escape, so its
value is not the text between the quotes. -/
structure Token where
  kind : TokenKind
  text : List Char
  start : Nat
  escapes : Bool := false
deriving DecidableEq, Repr, Inhabited

namespace Token

def length (token : Token) : Nat :=
  byteLength token.text

def span (token : Token) : Span :=
  ⟨token.start, token.length⟩

def isKeyword (token : Token) (keyword : String) : Bool :=
  token.kind == .word && token.text == keyword.toList

end Token

inductive Sigil where
  | openCurl
  | closeCurl
  | openSquare
  | closeSquare
  | equals
  | semicolon
  | comma
  | dot
deriving DecidableEq, Repr, Inhabited

namespace Sigil

def kind : Sigil -> TokenKind
  | openCurl => .openCurl
  | closeCurl => .closeCurl
  | openSquare => .openSquare
  | closeSquare => .closeSquare
  | equals => .equals
  | semicolon => .semicolon
  | comma => .comma
  | dot => .dot

def mark : Sigil -> Char
  | openCurl => '\x7b'
  | closeCurl => '\x7d'
  | openSquare => '['
  | closeSquare => ']'
  | equals => '='
  | semicolon => ';'
  | comma => ','
  | dot => '.'

end Sigil

/-!
What can be wrong with a source.

A syntax error is a fault and the stretch of the source where it was found.
Faults of the first group are found while cutting tokens, those of the second
while reading declarations.
-/

def maxSourceSize : Nat := 2147483647

def maxTokenSize : Nat := 65535

inductive Fault where
  | sourceTooLong (size : Nat)
  | invalidUtf8
  | unexpectedCharacter (value : Char)
  | forbiddenControl (value : Char)
  | tokenTooLong (size : Nat)
  | intLiteralInvalid (text : List Char)
  | textUnterminated
  | textNewline
  | wordInvalid (text : List Char)
  | commentUnterminated
  | floatLiteralInvalid (text : List Char)
  | expectedSigil (sigil : Sigil) (found : Token)
  | expectedInt (found : Token)
  | expectedLiteral (found : Token)
  | expectedWord (found : Token)
  | expectedDeclaration (found : Token)
  | expectedMessage (found : Token)
  | expectedDefault (found : Token)
  | intOutOfRange (found : Token)
  | expectedType (found : Token)
  | fieldInvalid (name : String) (cause : DefinitionError)
  | scopeInMessage
  | textLiteralInvalid (found : Token)
  | contentInvalid (cause : DefinitionError)
deriving DecidableEq, Repr, Inhabited

namespace Fault

def code : Fault -> Nat
  | sourceTooLong _ => 1000
  | invalidUtf8 => 1001
  | unexpectedCharacter _ => 1002
  | forbiddenControl _ => 1003
  | tokenTooLong _ => 1004
  | intLiteralInvalid _ => 1005
  | textUnterminated => 1006
  | textNewline => 1007
  | wordInvalid _ => 1008
  | commentUnterminated => 1009
  | floatLiteralInvalid _ => 1010
  | expectedSigil .openCurl _ => 2000
  | expectedSigil .closeCurl _ => 2001
  | expectedSigil .openSquare _ => 2002
  | expectedSigil .closeSquare _ => 2003
  | expectedSigil .equals _ => 2004
  | expectedSigil .semicolon _ => 2005
  | expectedSigil .comma _ => 2006
  | expectedSigil .dot _ => 2007
  | expectedInt _ => 2010
  | expectedLiteral _ => 2011
  | expectedWord _ => 2012
  | expectedDeclaration _ => 2013
  | expectedMessage _ => 2014
  | expectedDefault _ => 2015
  | intOutOfRange _ => 2016
  | expectedType _ => 2017
  | fieldInvalid _ _ => 2018
  | scopeInMessage => 2019
  | textLiteralInvalid _ => 2020
  | contentInvalid _ => 2021

def cause? : Fault -> Option DefinitionError
  | fieldInvalid _ cause => some cause
  | contentInvalid cause => some cause
  | _ => none

/-- A fault has the blame of its cause; any other lies in the source. -/
def blame (fault : Fault) : Blame :=
  match fault.cause? with
  | some cause => cause.blame
  | none => .semantic

def got (found : Token) : String :=
  ", got (" ++ found.kind.name ++ " " ++ Text.quote (String.ofList found.text) ++ ")"

def message : Fault -> String
  | sourceTooLong size =>
    "Source file size (" ++ toString size ++ " bytes) exceeds maximum (" ++
      toString maxSourceSize ++ " bytes)"
  | invalidUtf8 => "Source file contains invalid UTF-8"
  | unexpectedCharacter value =>
    "Unexpected character '" ++ String.ofList [value] ++ "' (U+" ++
      Number.hexUpper 4 value.toNat ++ ")"
  | forbiddenControl value =>
    "Forbidden control character U+" ++ Number.hexUpper 4 value.toNat
  | tokenTooLong size =>
    "Token size (" ++ toString size ++ " bytes) exceeds maximum (" ++
      toString maxTokenSize ++ " bytes)"
  | intLiteralInvalid text => "Invalid integer literal " ++ Text.quote (String.ofList text)
  | textUnterminated => "Unterminated text literal"
  | textNewline => "Text literal contains unescaped newline"
  | wordInvalid text => "Invalid identifier " ++ Text.quote (String.ofList text)
  | commentUnterminated => "Unterminated block comment"
  | floatLiteralInvalid text =>
    "Invalid floating point literal " ++ Text.quote (String.ofList text)
  | expectedSigil sigil found =>
    "Expected sigil '" ++ String.ofList [sigil.mark] ++ "'" ++ got found
  | expectedInt found => "Expected integer literal" ++ got found
  | expectedLiteral found => "Expected default value literal" ++ got found
  | expectedWord found => "Expected identifier" ++ got found
  | expectedDeclaration found => "Expected declaration keyword" ++ got found
  | expectedMessage found => "Expected keyword 'message' after 'extern'" ++ got found
  | expectedDefault found => "Expected keyword 'default'" ++ got found
  | intOutOfRange found =>
    "Integer literal " ++ String.ofList found.text ++
      " out of range (must be between -2147483648 and 2147483647)"
  | expectedType found => "Expected field type" ++ got found
  | fieldInvalid name cause => "Invalid field '" ++ name ++ "': " ++ cause.message
  | scopeInMessage => "Namespaces cannot be declared inside a message"
  | textLiteralInvalid found => "Invalid text literal " ++ String.ofList found.text
  | contentInvalid cause => cause.message

end Fault

structure Error where
  fault : Fault
  span : Span
deriving DecidableEq, Repr, Inhabited

namespace Error

def shift (offset : Nat) (error : Error) : Error :=
  ⟨error.fault, error.span.shift offset⟩

def render (error : Error) : String :=
  "E" ++ toString error.fault.code ++ ": " ++ error.fault.message

end Error

end MessageSchema.Syntax

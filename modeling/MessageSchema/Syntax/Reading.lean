import MessageSchema.Schema.Declaration
import MessageSchema.Syntax.Lexer

namespace MessageSchema.Syntax

/-!
The values of literal tokens.
-/

/-- Is there a minus sign in front?  And what stands behind it. -/
def cutSign : List Char -> Bool × List Char
  | '-' :: rest => (true, rest)
  | text => (false, text)

/-- Reads an integer literal of 32 bits.  The digits are first read without sign, with
64 bits; their form is taken for granted. -/
def readInt32? (token : Token) : Option Int :=
  let (negative, digits) := cutSign token.text
  let magnitude :=
    if token.kind = .hexLiteral then
      Number.readUnsigned? 16 ((digits.drop 2).map fun digit => (Number.hexDigit? digit).getD 0)
    else Number.readUnsigned? 10 (digits.map Number.digitValue)
  magnitude.bind fun magnitude =>
    if negative then
      if 2147483648 < magnitude then none else some (-(magnitude.toNat : Int))
    else if 2147483647 < magnitude then none
    else some magnitude.toNat

def int32Value (token : Token) : Except Error Int :=
  if token.kind = .intLiteral ∨ token.kind = .hexLiteral then
    match readInt32? token with
    | some value => .ok value
    | none => .error ⟨.intOutOfRange token, token.span⟩
  else
    .error ⟨.expectedInt token, token.span⟩

def unquoted (text : List Char) : List Char :=
  text.tail.dropLast

/-- Replaces the five escapes of a text.  Others, and a backslash at the end, are
refused. -/
def unescape? : List Char -> Option (List Char)
  | [] => some []
  | '\\' :: '"' :: rest => (unescape? rest).map ('"' :: ·)
  | '\\' :: '\\' :: rest => (unescape? rest).map ('\\' :: ·)
  | '\\' :: 'n' :: rest => (unescape? rest).map ('\n' :: ·)
  | '\\' :: 'r' :: rest => (unescape? rest).map ('\r' :: ·)
  | '\\' :: 't' :: rest => (unescape? rest).map ('\t' :: ·)
  | '\\' :: _ => none
  | value :: rest => (unescape? rest).map (value :: ·)

/-- The value of a text literal.  Without escapes it is the text between the
quotes as it stands. -/
def textValue? (token : Token) : Option (List Char) :=
  if token.escapes then unescape? (unquoted token.text) else some (unquoted token.text)

def literalValue (token : Token) : Except Error Literal :=
  match token.kind with
  | .intLiteral | .hexLiteral => (int32Value token).map .int
  | .floatLiteral =>
    let value := Number.Double.read token.text
    if value.isFinite then .ok (.double value)
    else .error ⟨.floatLiteralInvalid token.text, token.span⟩
  | .textLiteral =>
    match textValue? token with
    | some value => .ok (.text (value.map .char))
    | none => .error ⟨.textLiteralInvalid token, token.span⟩
  | _ =>
    if token.isKeyword "true" then .ok (.bool true)
    else if token.isKeyword "false" then .ok (.bool false)
    else .error ⟨.expectedLiteral token, token.span⟩

/-!
Reading the small parts of declarations.

A reader takes what it needs from the front of the tokens and returns the rest.
Where the tokens run out, the empty token `final` was found.
-/

section
variable (final : Token)

def peek (tokens : List Token) : Token :=
  tokens.headD final

/-- The error of finding the next token where something else was expected. -/
def unexpected (fault : Token -> Fault) (tokens : List Token) : Error :=
  ⟨fault (peek final tokens), (peek final tokens).span⟩

def sigil (expected : Sigil) : List Token -> Except Error (List Token)
  | [] => .error (unexpected final (.expectedSigil expected) [])
  | token :: rest =>
    if token.kind = expected.kind then .ok rest
    else .error (unexpected final (.expectedSigil expected) (token :: rest))

def afterSigil? (optional : Sigil) : List Token -> Option (List Token)
  | [] => none
  | token :: rest => if token.kind = optional.kind then some rest else none

def skipSigil (optional : Sigil) (tokens : List Token) : List Token :=
  (afterSigil? optional tokens).getD tokens

def afterKeyword? (keyword : String) : List Token -> Option (List Token)
  | [] => none
  | token :: rest => if token.isKeyword keyword then some rest else none

def readWord : List Token -> Except Error (String × List Token)
  | [] => .error (unexpected final .expectedWord [])
  | token :: rest =>
    if token.kind = .word then .ok (String.ofList token.text, rest)
    else .error (unexpected final .expectedWord (token :: rest))

def readSegments : List Token -> Except Error (List String × List Token)
  | [] => .ok ([], [])
  | dot :: rest =>
    if dot.kind = .dot then
      match rest with
      | [] => .error (unexpected final .expectedWord [])
      | name :: rest =>
        if name.kind = .word then
          match readSegments rest with
          | .ok (segments, rest) => .ok (String.ofList name.text :: segments, rest)
          | .error error => .error error
        else .error (unexpected final .expectedWord (name :: rest))
    else .ok ([], dot :: rest)

def readName (tokens : List Token) : Except Error (Identifier × List Token) :=
  match readWord final tokens with
  | .error error => .error error
  | .ok (first, rest) =>
    match readSegments final rest with
    | .error error => .error error
    | .ok (segments, rest) => .ok (⟨first :: segments⟩, rest)

def readInt : List Token -> Except Error (Int × List Token)
  | [] => .error (unexpected final .expectedInt [])
  | token :: rest =>
    match int32Value token with
    | .ok value => .ok (value, rest)
    | .error error => .error error

def readLiteral : List Token -> Except Error (Literal × List Token)
  | [] => .error (unexpected final .expectedLiteral [])
  | token :: rest =>
    match literalValue token with
    | .ok value => .ok (value, rest)
    | .error error => .error error

variable {tokens rest : List Token}

theorem length_of_sigil {expected : Sigil} (read : sigil final expected tokens = .ok rest) :
    rest.length < tokens.length := by
  revert read
  fun_cases sigil final expected tokens with
  | case2 => rintro ⟨⟩; simp
  | case1 | case3 => rintro ⟨⟩

theorem length_of_afterSigil? {optional : Sigil} (read : afterSigil? optional tokens = some rest) :
    rest.length < tokens.length := by
  revert read
  fun_cases afterSigil? optional tokens with
  | case2 => rintro ⟨⟩; simp
  | case1 | case3 => rintro ⟨⟩

theorem length_skipSigil (optional : Sigil) (tokens : List Token) :
    (skipSigil optional tokens).length <= tokens.length := by
  unfold skipSigil
  cases read : afterSigil? optional tokens with
  | none => simp
  | some rest => exact Nat.le_of_lt (length_of_afterSigil? read)

theorem length_of_afterKeyword? {keyword : String}
    (read : afterKeyword? keyword tokens = some rest) :
    rest.length < tokens.length := by
  revert read
  fun_cases afterKeyword? keyword tokens with
  | case2 => rintro ⟨⟩; simp
  | case1 | case3 => rintro ⟨⟩

theorem length_of_readWord {name : String} (read : readWord final tokens = .ok (name, rest)) :
    rest.length < tokens.length := by
  revert read
  fun_cases readWord final tokens with
  | case2 => rintro ⟨⟩; simp
  | case1 | case3 => rintro ⟨⟩

theorem length_of_readSegments {segments : List String}
    (read : readSegments final tokens = .ok (segments, rest)) :
    rest.length <= tokens.length := by
  fun_induction readSegments final tokens generalizing segments rest with
  | case1 => cases read; simp
  | case2 => cases read
  | case3 dot isDot name tail isWord segments' rest' found ih =>
    cases read
    have body := ih found
    simp only [List.length_cons]
    omega
  | case4 => cases read
  | case5 => cases read
  | case6 => cases read; simp

theorem length_of_readName {name : Identifier} (read : readName final tokens = .ok (name, rest)) :
    rest.length < tokens.length := by
  revert read
  fun_cases readName final tokens with
  | case3 first _ foundFirst _ _ foundRest =>
    rintro ⟨⟩
    have head := length_of_readWord final foundFirst
    have body := length_of_readSegments final foundRest
    omega
  | case1 | case2 => rintro ⟨⟩

theorem length_of_readInt {value : Int} (read : readInt final tokens = .ok (value, rest)) :
    rest.length < tokens.length := by
  revert read
  fun_cases readInt final tokens with
  | case2 => rintro ⟨⟩; simp
  | case1 | case3 => rintro ⟨⟩

theorem length_of_readLiteral {value : Literal}
    (read : readLiteral final tokens = .ok (value, rest)) : rest.length < tokens.length := by
  revert read
  fun_cases readLiteral final tokens with
  | case2 => rintro ⟨⟩; simp
  | case1 | case3 => rintro ⟨⟩

def readParents (tokens : List Token) : Except Error (List Identifier × List Token) :=
  match comma : afterSigil? .comma tokens with
  | none => .ok ([], tokens)
  | some rest =>
    have := length_of_afterSigil? comma
    match name : readName final rest with
    | .error error => .error error
    | .ok (parent, rest) =>
      have := length_of_readName final name
      match readParents rest with
      | .error error => .error error
      | .ok (parents, rest) => .ok (parent :: parents, rest)
termination_by tokens.length
decreasing_by omega

def readExtends (tokens : List Token) : Except Error (List Identifier × List Token) :=
  match afterKeyword? "extends" tokens with
  | none => .ok ([], tokens)
  | some rest =>
    match readName final rest with
    | .error error => .error error
    | .ok (parent, rest) =>
      match readParents final rest with
      | .error error => .error error
      | .ok (parents, rest) => .ok (parent :: parents, rest)

theorem length_of_readParents {parents : List Identifier}
    (read : readParents final tokens = .ok (parents, rest)) :
    rest.length <= tokens.length := by
  fun_induction readParents final tokens generalizing parents rest with
  | case1 => cases read; simp
  | case2 => cases read
  | case3 => cases read
  | case4 tokens behind comma _ parent behindName name _ parents' rest' found ih =>
    cases read
    have := length_of_afterSigil? comma
    have shorter := length_of_readName final name
    have body := ih found
    omega

theorem length_of_readExtends {parents : List Identifier}
    (read : readExtends final tokens = .ok (parents, rest)) :
    rest.length <= tokens.length := by
  revert read
  fun_cases readExtends final tokens with
  | case1 => rintro ⟨⟩; simp
  | case4 _ keyword _ _ name _ _ more =>
    rintro ⟨⟩
    have afterKeyword := length_of_afterKeyword? keyword
    have afterName := length_of_readName final name
    have afterParents := length_of_readParents final more
    omega
  | case2 | case3 => rintro ⟨⟩

end

end MessageSchema.Syntax

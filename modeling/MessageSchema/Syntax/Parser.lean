import MessageSchema.Syntax.Members

namespace MessageSchema.Syntax

/-!
Reading messages, namespaces and whole documents.

The readers of what nests call each other.  Each returns that it took at least
one token, so the loops come to an end on every source.
-/

/-- What was read from the front of the tokens `before`, of which fewer
remain. -/
structure Progress (α : Type) (before : List Token) where
  value : α
  rest : List Token
  shorter : rest.length < before.length

inductive Member where
  | enum (decl : EnumDecl)
  | message (decl : Message Identifier)
  | field (decl : Field Identifier)

namespace Member

def enum? : Member -> Option EnumDecl
  | enum decl => some decl
  | _ => none

def message? : Member -> Option (Message Identifier)
  | message decl => some decl
  | _ => none

def field? : Member -> Option (Field Identifier)
  | .field decl => some decl
  | _ => none

end Member

/-- A message with its members sorted by what they are, each sort in the order
of the source. -/
def messageOf (name : String) (parents : List Identifier) (members : List Member) :
    Message Identifier :=
  .defined ⟨.single name, none⟩ parents (members.filterMap Member.enum?)
    (members.filterMap Member.message?) (members.filterMap Member.field?)

/-- Does a nested message start here?  A name and its body or parents follow; otherwise
the keyword is a field type. -/
def startsMessage : List Token -> Bool
  | keyword :: name :: next :: _ =>
    keyword.isKeyword "message" && name.kind == .word
      && (next.kind == .openCurl || next.isKeyword "extends")
  | _ => false

section
variable (final : Token)

def readHeader (tokens : List Token) :
    Except Error ((String × List Identifier) × List Token) :=
  match readWord final tokens with
  | .error error => .error error
  | .ok (name, rest) =>
    match readExtends final rest with
    | .error error => .error error
    | .ok (parents, rest) =>
      match sigil final .openCurl rest with
      | .error error => .error error
      | .ok rest => .ok ((name, parents), rest)

variable {final} in
theorem readHeader_ok {tokens rest : List Token} {name : String} {parents : List Identifier}
    (read : readHeader final tokens = .ok ((name, parents), rest)) :
    ∃ behindName behindParents,
      readWord final tokens = .ok (name, behindName) ∧
      readExtends final behindName = .ok (parents, behindParents) ∧
      sigil final .openCurl behindParents = .ok rest := by
  revert read
  fun_cases readHeader final tokens with
  | case4 name behindName word parents behindParents found _ mark =>
    rintro ⟨⟩
    exact ⟨behindName, behindParents, word, found, mark⟩
  | case1 | case2 | case3 => rintro ⟨⟩

theorem length_of_readHeader {tokens rest : List Token} {header : String × List Identifier}
    (read : readHeader final tokens = .ok (header, rest)) :
    rest.length < tokens.length := by
  rcases readHeader_ok read with
    ⟨_, _, word, found, mark⟩
  have := length_of_readWord final word
  have := length_of_readExtends final found
  have := length_of_sigil final mark
  omega

mutual

def readMessage (tokens : List Token) : Except Error (Progress (Message Identifier) tokens) :=
  match header : readHeader final tokens with
  | .error error => .error error
  | .ok ((name, parents), rest) =>
    have := length_of_readHeader final header
    match readMembers rest with
    | .error error => .error error
    | .ok ⟨members, rest, shorter⟩ =>
      .ok ⟨messageOf name parents members, skipSigil .semicolon rest, by
        have := length_skipSigil .semicolon rest
        omega⟩
termination_by 3 * tokens.length
decreasing_by all_goals omega

def readMember (tokens : List Token) : Except Error (Progress Member tokens) :=
  match tokens with
  | [] => .error (unexpected final (.expectedSigil .closeCurl) [])
  | token :: rest =>
    if token.isKeyword "namespace" then .error ⟨.scopeInMessage, token.span⟩
    else if token.isKeyword "extern" then
      match read : readExternal final rest with
      | .error error => .error error
      | .ok (decl, behind) =>
        .ok ⟨.message decl, behind, by
          have := length_of_readExternal final read
          simp only [List.length_cons]
          omega⟩
    else if token.isKeyword "enum" then
      match read : readEnum final rest with
      | .error error => .error error
      | .ok (decl, behind) =>
        .ok ⟨.enum decl, behind, by
          have := length_of_readEnum final read
          simp only [List.length_cons]
          omega⟩
    else if startsMessage (token :: rest) then
      match readMessage rest with
      | .error error => .error error
      | .ok ⟨decl, behind, shorter⟩ =>
        .ok ⟨.message decl, behind, by simp only [List.length_cons]; omega⟩
    else
      match read : readField final (token :: rest) with
      | .error error => .error error
      | .ok (field, behind) => .ok ⟨.field field, behind, length_of_readField final read⟩
termination_by 3 * tokens.length + 1
decreasing_by all_goals simp only [List.length_cons]; omega

def readMembers (tokens : List Token) : Except Error (Progress (List Member) tokens) :=
  match close : afterSigil? .closeCurl tokens with
  | some rest => .ok ⟨[], rest, length_of_afterSigil? close⟩
  | none =>
    match readMember tokens with
    | .error error => .error error
    | .ok ⟨member, rest, shorter⟩ =>
      match readMembers rest with
      | .error error => .error error
      | .ok ⟨members, rest, shorterRest⟩ => .ok ⟨member :: members, rest, by omega⟩
termination_by 3 * tokens.length + 2
decreasing_by all_goals omega

end

mutual

def readDeclaration (tokens : List Token) : Except Error (Progress Declaration tokens) :=
  match tokens with
  | [] => .error (unexpected final .expectedDeclaration [])
  | token :: rest =>
    if token.isKeyword "namespace" then
      match readName : readName final rest with
      | .error error => .error error
      | .ok (name, behindName) =>
        have := length_of_readName final readName
        match mark : sigil final .openCurl behindName with
        | .error error => .error error
        | .ok behindMark =>
          have := length_of_sigil final mark
          match readContent behindMark with
          | .error error => .error error
          | .ok ⟨content, behind, shorter⟩ =>
            .ok ⟨.scope name content, skipSigil .semicolon behind, by
              have := length_skipSigil .semicolon behind
              simp only [List.length_cons]
              omega⟩
    else if token.isKeyword "extern" then
      match read : readExternal final rest with
      | .error error => .error error
      | .ok (decl, behind) =>
        .ok ⟨.type (.message decl), behind, by
          have := length_of_readExternal final read
          simp only [List.length_cons]
          omega⟩
    else if token.isKeyword "message" then
      match readMessage final rest with
      | .error error => .error error
      | .ok ⟨decl, behind, shorter⟩ =>
        .ok ⟨.type (.message decl), behind, by simp only [List.length_cons]; omega⟩
    else if token.isKeyword "enum" then
      match read : readEnum final rest with
      | .error error => .error error
      | .ok (decl, behind) =>
        .ok ⟨.type (.enum decl), behind, by
          have := length_of_readEnum final read
          simp only [List.length_cons]
          omega⟩
    else .error (unexpected final .expectedDeclaration (token :: rest))
termination_by 3 * tokens.length
decreasing_by all_goals simp only [List.length_cons]; omega

def readContent (tokens : List Token) : Except Error (Progress (List Declaration) tokens) :=
  match close : afterSigil? .closeCurl tokens with
  | some rest => .ok ⟨[], rest, length_of_afterSigil? close⟩
  | none =>
    if tokens.isEmpty then .error (unexpected final (.expectedSigil .closeCurl) tokens)
    else
      match readDeclaration tokens with
      | .error error => .error error
      | .ok ⟨declaration, rest, shorter⟩ =>
        match readContent rest with
        | .error error => .error error
        | .ok ⟨content, rest, shorterRest⟩ =>
          .ok ⟨declaration :: content, rest, by omega⟩
termination_by 3 * tokens.length + 1
decreasing_by all_goals omega

end

def readDocument (tokens : List Token) : Except Error Document :=
  match tokens with
  | [] => .ok []
  | token :: rest =>
    match readDeclaration final (token :: rest) with
    | .error error => .error error
    | .ok ⟨declaration, behind, _⟩ =>
      match readDocument behind with
      | .error error => .error error
      | .ok document => .ok (declaration :: document)
termination_by tokens.length
decreasing_by assumption

end

def significant (tokens : List Token) : List Token :=
  tokens.filter fun token => !token.kind.isTrivia

/-- Reads the tokens of a scan that came to the end of its source. -/
def parseTokens (tokens : List Token) : Except Error Document :=
  let lexemes := significant tokens
  readDocument (lexemes.getLastD default) lexemes.dropLast

def parse (source : List UInt8) : Except Error Document :=
  match tokenize source with
  | .error error => .error error
  | .ok scanned =>
    match scanned.error with
    | some error => .error error
    | none => parseTokens scanned.tokens

end MessageSchema.Syntax

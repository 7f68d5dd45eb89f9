import MessageSchema.Syntax.Reading

namespace MessageSchema.Syntax

/-!
Reading enums, fields and announcements of messages.
-/

section
variable (final : Token)

/-- Reads the modifiers of a field.  A keyword is one only if another word follows;
otherwise it is the type or the name. -/
def readModifiers (modifiers : Modifiers) : List Token -> Modifiers × List Token
  | [] => (modifiers, [])
  | token :: rest =>
    if token.kind = .word ∧ rest.head?.any (·.kind = .word) then
      match Modifier.ofKeyword? (String.ofList token.text) with
      | some modifier => readModifiers (modifiers.add modifier) rest
      | none => (modifiers, token :: rest)
    else (modifiers, token :: rest)

/-- Reads a field type: the keyword of a primitive type, or the name of a type of the
schema.  What cannot be built as a type is reported at its first token. -/
def readType (tokens : List Token) : Except Error (FieldType Identifier × List Token) :=
  match tokens with
  | [] => .error (unexpected final .expectedType [])
  | token :: rest =>
    if token.kind = .word then
      match Primitive.ofKeyword? (String.ofList token.text) with
      | some keyword =>
        match Primitive.ofCode? keyword.code with
        | some primitive => .ok (.primitive primitive, rest)
        | none => .error ⟨.contentInvalid (.notPrimitive (typeName keyword.code)), token.span⟩
      | none =>
        match readName final tokens with
        | .error error => .error error
        | .ok (name, rest) =>
          if name.isBlank then .error ⟨.contentInvalid .userTypeBlank, token.span⟩
          else .ok (.user name, rest)
    else .error (unexpected final .expectedType (token :: rest))

def readBound (tokens : List Token) : Except Error (Int × List Token) :=
  match afterSigil? .closeSquare tokens with
  | some rest => .ok (unbounded, rest)
  | none =>
    match readInt final tokens with
    | .error error => .error error
    | .ok (bound, rest) =>
      match sigil final .closeSquare rest with
      | .error error => .error error
      | .ok rest => .ok (bound, rest)

variable {tokens rest : List Token}

theorem length_of_readBound {bound : Int} (read : readBound final tokens = .ok (bound, rest)) :
    rest.length < tokens.length := by
  revert read
  fun_cases readBound final tokens with
  | case1 behind mark =>
    rintro ⟨⟩
    exact length_of_afterSigil? mark
  | case4 _ value behind number behindBound mark =>
    rintro ⟨⟩
    have afterNumber := length_of_readInt final number
    have afterMark := length_of_sigil final mark
    omega
  | case2 | case3 => rintro ⟨⟩

def readBounds (tokens : List Token) : Except Error (List Int × List Token) :=
  match mark : afterSigil? .openSquare tokens with
  | none => .ok ([], tokens)
  | some rest =>
    have := length_of_afterSigil? mark
    match read : readBound final rest with
    | .error error => .error error
    | .ok (bound, rest) =>
      have := length_of_readBound final read
      match readBounds rest with
      | .error error => .error error
      | .ok (bounds, rest) => .ok (bound :: bounds, rest)
termination_by tokens.length
decreasing_by omega

def readOrdinal (tokens : List Token) : Except Error (Option Int × List Token) :=
  match afterSigil? .equals tokens with
  | none => .ok (none, tokens)
  | some rest =>
    match readInt final rest with
    | .error error => .error error
    | .ok (ordinal, rest) => .ok (some ordinal, rest)

def readDefault (tokens : List Token) : Except Error (Option Literal × List Token) :=
  match afterSigil? .openSquare tokens with
  | none => .ok (none, tokens)
  | some rest =>
    match afterKeyword? "default" rest with
    | none => .error (unexpected final .expectedDefault rest)
    | some rest =>
      match sigil final .equals rest with
      | .error error => .error error
      | .ok rest =>
        match readLiteral final rest with
        | .error error => .error error
        | .ok (value, rest) =>
          match sigil final .closeSquare rest with
          | .error error => .error error
          | .ok rest => .ok (some value, rest)

structure FieldParts where
  name : String
  type : FieldType Identifier
  modifiers : Modifiers
  bounds : List Int
  ordinal : Option Int
  default : Option Literal

def readFieldParts (tokens : List Token) : Except Error (FieldParts × List Token) := do
  let (modifiers, rest) := readModifiers .none tokens
  let (type, rest) ← readType final rest
  let (bounds, rest) ← readBounds final rest
  let (name, rest) ← readWord final rest
  let (ordinal, rest) ← readOrdinal final rest
  let (default, rest) ← readDefault final rest
  .ok (⟨name, type, modifiers, bounds, ordinal, default⟩, rest)

/-- Reads and checks a field.  What is wrong with it as a whole is reported from its
first token to its semicolon. -/
def readField (tokens : List Token) : Except Error (Field Identifier × List Token) :=
  match readFieldParts final tokens with
  | .error error => .error error
  | .ok (parts, atEnd) =>
    match sigil final .semicolon atEnd with
    | .error error => .error error
    | .ok rest =>
      match Field.make parts.name parts.type parts.modifiers parts.bounds parts.ordinal
          parts.default with
      | .ok field => .ok (field, rest)
      | .error cause =>
        -- The semicolon stands behind the first token, so nothing is cut off at zero.
        let start := (peek final tokens).start
        .error ⟨.fieldInvalid parts.name cause,
          ⟨start, (peek final atEnd).span.stop - start⟩⟩

theorem length_readModifiers (modifiers : Modifiers) (tokens : List Token) :
    (readModifiers modifiers tokens).2.length <= tokens.length := by
  fun_induction readModifiers modifiers tokens with
  | case1 => simp
  | case2 modifiers token rest isWord modifier found ih =>
    simp only [List.length_cons]
    omega
  | case3 => simp
  | case4 => simp

theorem length_of_readType {type : FieldType Identifier}
    (read : readType final tokens = .ok (type, rest)) : rest.length < tokens.length := by
  unfold readType at read
  split at read
  · cases read
  · next token tail =>
    split at read
    · split at read
      · split at read
        · cases read; simp
        · cases read
      · split at read
        · cases read
        · next name behind found =>
          split at read
          · cases read
          · cases read
            exact length_of_readName final found
    · cases read

theorem length_of_readBounds {bounds : List Int}
    (read : readBounds final tokens = .ok (bounds, rest)) : rest.length <= tokens.length := by
  fun_induction readBounds final tokens generalizing bounds rest with
  | case1 => cases read; simp
  | case2 => cases read
  | case3 => cases read
  | case4 tokens behind mark _ bound behindBound found _ bounds' rest' more ih =>
    cases read
    have body := ih more
    omega

theorem length_of_readOrdinal {ordinal : Option Int}
    (read : readOrdinal final tokens = .ok (ordinal, rest)) :
    rest.length <= tokens.length := by
  revert read
  fun_cases readOrdinal final tokens with
  | case1 => rintro ⟨⟩; simp
  | case2 => rintro ⟨⟩
  | case3 behind mark value behindValue number =>
    rintro ⟨⟩
    have afterMark := length_of_afterSigil? mark
    have afterNumber := length_of_readInt final number
    omega

theorem length_of_readDefault {default : Option Literal}
    (read : readDefault final tokens = .ok (default, rest)) :
    rest.length <= tokens.length := by
  revert read
  fun_cases readDefault final tokens with
  | case1 => rintro ⟨⟩; simp
  | case6 _ mark _ keyword _ equals _ _ found _ close =>
    rintro ⟨⟩
    have := length_of_afterSigil? mark
    have := length_of_afterKeyword? keyword
    have := length_of_sigil final equals
    have := length_of_readLiteral final found
    have := length_of_sigil final close
    omega
  | case2 | case3 | case4 | case5 => rintro ⟨⟩

variable {final} in
/-- A field is read as its modifiers, type, bounds, name, ordinal and default in turn.
-/
theorem readFieldParts_ok {parts : FieldParts}
    (read : readFieldParts final tokens = .ok (parts, rest)) :
    ∃ afterType afterBounds afterName afterOrdinal,
      readType final (readModifiers .none tokens).2 = .ok (parts.type, afterType) ∧
      readBounds final afterType = .ok (parts.bounds, afterBounds) ∧
      readWord final afterBounds = .ok (parts.name, afterName) ∧
      readOrdinal final afterName = .ok (parts.ordinal, afterOrdinal) ∧
      readDefault final afterOrdinal = .ok (parts.default, rest) ∧
      parts.modifiers = (readModifiers .none tokens).1 := by
  simp only [readFieldParts, bind, Except.bind] at read
  split at read
  · cases read
  · next type foundType =>
    split at read
    · cases read
    · next bounds foundBounds =>
      split at read
      · cases read
      · next name foundName =>
        split at read
        · cases read
        · next ordinal foundOrdinal =>
          split at read
          · cases read
          · next default foundDefault =>
            cases read
            exact ⟨_, _, _, _, foundType, foundBounds, foundName, foundOrdinal,
              foundDefault, rfl⟩

theorem length_of_readFieldParts {parts : FieldParts}
    (read : readFieldParts final tokens = .ok (parts, rest)) :
    rest.length < tokens.length := by
  rcases readFieldParts_ok read with
    ⟨_, _, _, _, foundType, foundBounds, foundName, foundOrdinal, foundDefault, _⟩
  have afterModifiers := length_readModifiers .none tokens
  have := length_of_readType final foundType
  have := length_of_readBounds final foundBounds
  have := length_of_readWord final foundName
  have := length_of_readOrdinal final foundOrdinal
  have := length_of_readDefault final foundDefault
  omega

variable {final} in
theorem readField_ok {field : Field Identifier}
    (read : readField final tokens = .ok (field, rest)) :
    ∃ parts atEnd, readFieldParts final tokens = .ok (parts, atEnd) ∧
      sigil final .semicolon atEnd = .ok rest ∧
      Field.make parts.name parts.type parts.modifiers parts.bounds parts.ordinal
        parts.default = .ok field := by
  revert read
  fun_cases readField final tokens with
  | case3 parts atEnd foundParts _ semicolon _ made =>
    rintro ⟨⟩
    exact ⟨parts, atEnd, foundParts, semicolon, made⟩
  | case1 | case2 | case4 => rintro ⟨⟩

theorem length_of_readField {field : Field Identifier}
    (read : readField final tokens = .ok (field, rest)) : rest.length < tokens.length := by
  rcases readField_ok read with
    ⟨parts, atEnd, foundParts, semicolon, _⟩
  have := length_of_readFieldParts final foundParts
  have := length_of_sigil final semicolon
  omega

def readItem (enum : String) (seen : List EnumItem) (tokens : List Token) :
    Except Error (EnumItem × List Token) :=
  match readWord final tokens with
  | .error error => .error error
  | .ok (name, rest) =>
    match afterSigil? .equals rest with
    | some rest =>
      match readInt final rest with
      | .error error => .error error
      | .ok (value, rest) => .ok (⟨name, value⟩, rest)
    | none =>
      match EnumItem.nextValue enum name seen with
      | .ok value => .ok (⟨name, value⟩, rest)
      | .error cause => .error ⟨.contentInvalid cause, (peek final tokens).span⟩

theorem length_of_readItem {enum : String} {seen : List EnumItem} {item : EnumItem}
    (read : readItem final enum seen tokens = .ok (item, rest)) :
    rest.length < tokens.length := by
  revert read
  fun_cases readItem final enum seen tokens with
  | case3 _ _ word _ equals _ _ number =>
    rintro ⟨⟩
    have := length_of_readWord final word
    have := length_of_afterSigil? equals
    have := length_of_readInt final number
    omega
  | case4 _ _ word =>
    rintro ⟨⟩
    exact length_of_readWord final word
  | case1 | case2 | case5 => rintro ⟨⟩

def afterSeparator? (tokens : List Token) : Option (List Token) :=
  match afterSigil? .comma tokens with
  | some rest => some rest
  | none => afterSigil? .semicolon tokens

theorem length_of_afterSeparator? (read : afterSeparator? tokens = some rest) :
    rest.length < tokens.length := by
  revert read
  fun_cases afterSeparator? tokens with
  | case1 _ comma =>
    rintro ⟨⟩
    exact length_of_afterSigil? comma
  | case2 => exact length_of_afterSigil?

/-- Reads the items of an enum and its closing bracket.  The last needs no separator. -/
def readItems (enum : String) (seen : List EnumItem) (tokens : List Token) :
    Except Error (List EnumItem × List Token) :=
  match afterSigil? .closeCurl tokens with
  | some rest => .ok (seen, rest)
  | none =>
    match read : readItem final enum seen tokens with
    | .error error => .error error
    | .ok (item, rest) =>
      have := length_of_readItem final read
      match separator : afterSeparator? rest with
      | some rest =>
        have := length_of_afterSeparator? separator
        readItems enum (seen ++ [item]) rest
      | none =>
        match sigil final .closeCurl rest with
        | .error error => .error error
        | .ok rest => .ok (seen ++ [item], rest)
termination_by tokens.length
decreasing_by omega

theorem length_of_readItems {enum : String} {seen items : List EnumItem}
    (read : readItems final enum seen tokens = .ok (items, rest)) :
    rest.length < tokens.length := by
  fun_induction readItems final enum seen tokens with
  | case1 seen tokens behind close =>
    cases read
    exact length_of_afterSigil? close
  | case2 => cases read
  | case3 seen tokens notClosed item behindItem found shorter behind separator _ ih =>
    have := ih read
    omega
  | case4 => cases read
  | case5 seen tokens notClosed item behindItem found shorter noSeparator behind close =>
    cases read
    have := length_of_sigil final close
    omega

def readEnum (tokens : List Token) : Except Error (EnumDecl × List Token) :=
  match readWord final tokens with
  | .error error => .error error
  | .ok (name, rest) =>
    match sigil final .openCurl rest with
    | .error error => .error error
    | .ok rest =>
      match readItems final name [] rest with
      | .error error => .error error
      | .ok (items, rest) => .ok (⟨.single name, items⟩, skipSigil .semicolon rest)

variable {final} in
theorem readEnum_ok {decl : EnumDecl} (read : readEnum final tokens = .ok (decl, rest)) :
    ∃ name behindName behindOpen behindItems,
      readWord final tokens = .ok (name, behindName) ∧
      sigil final .openCurl behindName = .ok behindOpen ∧
      readItems final name [] behindOpen = .ok (decl.items, behindItems) ∧
      decl.name = .single name ∧ rest = skipSigil .semicolon behindItems := by
  revert read
  fun_cases readEnum final tokens with
  | case4 name behindName word behindOpen mark items behindItems found =>
    rintro ⟨⟩
    exact ⟨name, behindName, behindOpen, behindItems, word, mark, found, rfl, rfl⟩
  | case1 | case2 | case3 => rintro ⟨⟩

theorem length_of_readEnum {decl : EnumDecl} (read : readEnum final tokens = .ok (decl, rest)) :
    rest.length < tokens.length := by
  rcases readEnum_ok read with
    ⟨_, _, _, behindItems, word, mark, found, _, isRest⟩
  have := length_of_readWord final word
  have := length_of_sigil final mark
  have := length_of_readItems final found
  have := length_skipSigil .semicolon behindItems
  rw [isRest]
  omega

def readExternal (tokens : List Token) : Except Error (Message Identifier × List Token) :=
  match afterKeyword? "message" tokens with
  | none => .error (unexpected final .expectedMessage tokens)
  | some rest =>
    match readWord final rest with
    | .error error => .error error
    | .ok (name, rest) =>
      match sigil final .semicolon rest with
      | .error error => .error error
      | .ok rest => .ok (.external ⟨.single name, none⟩, rest)

variable {final} in
theorem readExternal_ok {message : Message Identifier}
    (read : readExternal final tokens = .ok (message, rest)) :
    ∃ name behindKeyword behindName,
      afterKeyword? "message" tokens = some behindKeyword ∧
      readWord final behindKeyword = .ok (name, behindName) ∧
      sigil final .semicolon behindName = .ok rest ∧
      message = .external ⟨.single name, none⟩ := by
  revert read
  fun_cases readExternal final tokens with
  | case4 behindKeyword keyword name behindName word _ mark =>
    rintro ⟨⟩
    exact ⟨name, behindKeyword, behindName, keyword, word, mark, rfl⟩
  | case1 | case2 | case3 => rintro ⟨⟩

theorem length_of_readExternal {message : Message Identifier}
    (read : readExternal final tokens = .ok (message, rest)) :
    rest.length < tokens.length := by
  rcases readExternal_ok read with
    ⟨_, _, _, keyword, word, mark, _⟩
  have := length_of_afterKeyword? keyword
  have := length_of_readWord final word
  have := length_of_sigil final mark
  omega

end
end MessageSchema.Syntax

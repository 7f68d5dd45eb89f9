import MessageSchema.Proofs.Number.Unsigned
import MessageSchema.Syntax.Parser

namespace MessageSchema.Syntax

/-!
The grammar of schema documents.

A rule relates the tokens in front of it, the value that it stands for and the
tokens left behind it.  It says which sequences are phrases and not how they are
found: a repetition may stop anywhere, and an optional part may be absent although
it could be taken.  Where two readings are possible, the rule itself carries the
condition that decides.

* A modifier's keyword is a modifier if and only if a word follows it.
* A type that starts with the keyword of a primitive type is that type alone.
* In a message, `namespace`, `extern` and `enum` start no field, and neither does
  `message` where a name and then a body or parents follow.
-/

/-- The phrases of a rule: the tokens at which one starts, its value and the
tokens behind it. -/
abbrev Phrase (α : Type) := List Token -> α -> List Token -> Prop

/-- `{ phrase }` -/
inductive Many {α : Type} (phrase : Phrase α) : Phrase (List α)
  | none (tokens : List Token) : Many phrase tokens [] tokens
  | more {tokens middle rest : List Token} {first : α} {others : List α}
      (head : phrase tokens first middle) (tail : Many phrase middle others rest) :
      Many phrase tokens (first :: others) rest

/-- `[ phrase ]` -/
inductive Maybe {α : Type} (phrase : Phrase α) : Phrase (Option α)
  | absent (tokens : List Token) : Maybe phrase tokens none tokens
  | present {tokens rest : List Token} {value : α} (found : phrase tokens value rest) :
      Maybe phrase tokens (some value) rest

/-! ## Words and marks -/

def Mark (sigil : Sigil) (tokens rest : List Token) : Prop :=
  ∃ token, token.kind = sigil.kind ∧ tokens = token :: rest

def Keyword (keyword : String) (tokens rest : List Token) : Prop :=
  ∃ token, token.isKeyword keyword = true ∧ tokens = token :: rest

/-- `IDENT`, which a keyword is too. -/
def Word : Phrase String :=
  fun tokens name rest =>
    ∃ token, token.kind = .word ∧ tokens = token :: rest ∧ name = String.ofList token.text

/-- `[";"]` -/
inductive Closing (tokens : List Token) : List Token -> Prop
  | absent : Closing tokens tokens
  | present {rest : List Token} (mark : Mark .semicolon tokens rest) : Closing tokens rest

/-- `"." IDENT` -/
inductive SegmentPhrase : Phrase String
  | segment {tokens behindDot rest : List Token} {name : String}
      (dot : Mark .dot tokens behindDot) (word : Word behindDot name rest) :
      SegmentPhrase tokens name rest

/-- `qname = IDENT { "." IDENT }` -/
inductive NamePhrase : Phrase Identifier
  | name {tokens behindFirst rest : List Token} {first : String} {segments : List String}
      (word : Word tokens first behindFirst)
      (further : Many SegmentPhrase behindFirst segments rest) :
      NamePhrase tokens ⟨first :: segments⟩ rest

/-! ## Literals -/

def hexDigits : List Char :=
  "0123456789abcdef".toList

/-- The number that an integer literal stands for: decimal digits, or those behind `0x`
by their places in the row of digits, and a minus sign in front of them. -/
def intValue (token : Token) : Int :=
  let isNegative := token.text.head? = some '-'
  let digits := token.text.drop (if isNegative then 1 else 0)
  let magnitude :=
    if token.kind = .hexLiteral then
      Number.ofPlaces 16 0 ((digits.drop 2).map fun digit =>
        (hexDigits.findIdx? (· == digit.toLower)).getD 0)
    else Nat.ofDigitChars 10 digits 0
  if isNegative then -(magnitude : Int) else magnitude

/-- An integer literal, whose value fits in 32 bits. -/
structure Token.IsInt (token : Token) (value : Int) : Prop where
  kind : token.kind = .intLiteral ∨ token.kind = .hexLiteral
  stands : intValue token = value
  least : minInt32 <= value
  largest : value <= maxInt32

/-- `INT` -/
def IntPhrase : Phrase Int :=
  fun tokens value rest => ∃ token, token.IsInt value ∧ tokens = token :: rest

/-- The escapes of a text literal: the character behind the backslash, and the
one that both stand for. -/
def escapeTable : List (Char × Char) :=
  [('"', '"'), ('\\', '\\'), ('n', '\n'), ('r', '\r'), ('t', '\t')]

/-- How a text is written between quotes. -/
inductive Spelled : List Char -> List Char -> Prop
  | nil : Spelled [] []
  | plain {value : Char} {text values : List Char} (notEscape : value ≠ '\\')
      (further : Spelled text values) : Spelled (value :: text) (value :: values)
  | escape {mark value : Char} {text values : List Char} (escape : (mark, value) ∈ escapeTable)
      (further : Spelled text values) : Spelled ('\\' :: mark :: text) (value :: values)

/-- `literal = INT | FLOAT | STRING | "true" | "false"` -/
inductive Token.IsLiteral (token : Token) : Literal -> Prop
  | int {value : Int} (int : token.IsInt value) : token.IsLiteral (.int value)
  | float (kind : token.kind = .floatLiteral)
      (finite : (Number.Double.read token.text).isFinite = true) :
      token.IsLiteral (.double (Number.Double.read token.text))
  | text {value : List Char} (kind : token.kind = .textLiteral)
      (spelled : Spelled (unquoted token.text) value) :
      token.IsLiteral (.text (value.map .char))
  | yes (keyword : token.isKeyword "true" = true) : token.IsLiteral (.bool true)
  | no (keyword : token.isKeyword "false" = true) : token.IsLiteral (.bool false)

def LiteralPhrase : Phrase Literal :=
  fun tokens value rest => ∃ token, token.IsLiteral value ∧ tokens = token :: rest

/-- `"=" INT` -/
inductive AssignedPhrase : Phrase Int
  | assigned {tokens behindEquals rest : List Token} {value : Int}
      (equals : Mark .equals tokens behindEquals) (int : IntPhrase behindEquals value rest) :
      AssignedPhrase tokens value rest

/-! ## Fields -/

/-- A modifier is a modifier's keyword with a word behind it. -/
def ModifierPhrase : Phrase Modifier :=
  fun tokens modifier rest =>
    Keyword modifier.keyword tokens rest ∧ ∃ next behind, Word rest next behind

/-- `type = primitive | qname` -/
inductive TypePhrase : Phrase (FieldType Identifier)
  | primitive {tokens rest : List Token} {type : Primitive}
      (keyword : Keyword type.keyword tokens rest) : TypePhrase tokens (.primitive type) rest
  | user {tokens rest : List Token} {name : Identifier}
      (notPrimitive : ∀ (type : Primitive) (behind : List Token),
        ¬ Keyword type.keyword tokens behind)
      (named : NamePhrase tokens name rest) : TypePhrase tokens (.user name) rest

/-- `"[" [ INT ] "]"` -/
inductive BoundPhrase : Phrase Int
  | free {tokens behindOpen rest : List Token} (opened : Mark .openSquare tokens behindOpen)
      (closed : Mark .closeSquare behindOpen rest) : BoundPhrase tokens unbounded rest
  | fixed {tokens behindOpen atClose rest : List Token} {bound : Int}
      (opened : Mark .openSquare tokens behindOpen)
      (int : IntPhrase behindOpen bound atClose)
      (closed : Mark .closeSquare atClose rest) : BoundPhrase tokens bound rest

/-- `"[" "default" "=" literal "]"` -/
inductive DefaultPhrase : Phrase Literal
  | default {tokens behindOpen behindKeyword behindEquals atClose rest : List Token}
      {value : Literal} (opened : Mark .openSquare tokens behindOpen)
      (keyword : Keyword "default" behindOpen behindKeyword)
      (equals : Mark .equals behindKeyword behindEquals)
      (literal : LiteralPhrase behindEquals value atClose)
      (closed : Mark .closeSquare atClose rest) : DefaultPhrase tokens value rest

/-- The set of the given modifiers. -/
def modifierSet (modifiers : List Modifier) : Modifiers :=
  modifiers.foldl Modifiers.add .none

/-- The modifiers that are written agree with each other, and a field that is
not required is optional. -/
structure Settles (written : List Modifier) (settled : Modifiers) : Prop where
  supported : Modifier.repeated ∉ written
  presence : ¬ (Modifier.required ∈ written ∧ Modifier.optional ∈ written)
  access : ¬ (Modifier.mutable ∈ written ∧ Modifier.readonly ∈ written)
  settled : settled =
    modifierSet (if .required ∈ written then written else written ++ [.optional])

/-- What a field has to obey besides the form in which it is written. -/
structure Allowed (written : List Modifier) (field : Field Identifier) : Prop where
  modifiers : Settles written field.modifiers
  bounds : ∀ bound ∈ field.bounds, bound = unbounded ∨ 0 < bound
  default : ∀ value ∈ field.default, field.type.accepts value = true

/-- `field = { modifier } type { bound } IDENT [ "=" INT ] [ default ] ";"`,
where the type does not start with what could be one more modifier. -/
inductive FieldPhrase : Phrase (Field Identifier)
  | field {tokens afterModifiers afterType afterBounds afterName afterOrdinal atEnd rest :
        List Token} {written : List Modifier} {field : Field Identifier}
      (modifiers : Many ModifierPhrase tokens written afterModifiers)
      (noFurther : ∀ modifier behind, ¬ ModifierPhrase afterModifiers modifier behind)
      (type : TypePhrase afterModifiers field.type afterType)
      (bounds : Many BoundPhrase afterType field.bounds afterBounds)
      (name : Word afterBounds field.name afterName)
      (ordinal : Maybe AssignedPhrase afterName field.ordinal afterOrdinal)
      (default : Maybe DefaultPhrase afterOrdinal field.default atEnd)
      (closed : Mark .semicolon atEnd rest)
      (allowed : Allowed written field) : FieldPhrase tokens field rest

/-! ## Enums -/

/-- An item as it is written, possibly without a value. -/
abbrev WrittenItem := String × Option Int

/-- `item = IDENT [ "=" INT ]` -/
inductive ItemPhrase : Phrase WrittenItem
  | item {tokens behindName rest : List Token} {name : String} {value : Option Int}
      (word : Word tokens name behindName)
      (assigned : Maybe AssignedPhrase behindName value rest) :
      ItemPhrase tokens (name, value) rest

/-- `sep = "," | ";"` -/
def Separator (tokens rest : List Token) : Prop :=
  Mark .comma tokens rest ∨ Mark .semicolon tokens rest

/-- `sep item` -/
inductive FurtherItemPhrase : Phrase WrittenItem
  | further {tokens behindSeparator rest : List Token} {item : WrittenItem}
      (separator : Separator tokens behindSeparator)
      (found : ItemPhrase behindSeparator item rest) : FurtherItemPhrase tokens item rest

/-- `[ item { sep item } [ sep ] ]` -/
inductive ItemsPhrase : Phrase (List WrittenItem)
  | none (tokens : List Token) : ItemsPhrase tokens [] tokens
  | some {tokens behindFirst rest : List Token} {first : WrittenItem}
      {others : List WrittenItem} (item : ItemPhrase tokens first behindFirst)
      (further : Many FurtherItemPhrase behindFirst others rest) :
      ItemsPhrase tokens (first :: others) rest
  | separated {tokens behindFirst behindOthers rest : List Token} {first : WrittenItem}
      {others : List WrittenItem} (item : ItemPhrase tokens first behindFirst)
      (further : Many FurtherItemPhrase behindFirst others behindOthers)
      (separator : Separator behindOthers rest) :
      ItemsPhrase tokens (first :: others) rest

/-- The value of an item, given that of the item before it: the written one, or else zero
for the first and one more for any other. -/
inductive ItemValue : Option Int -> Option Int -> Int -> Prop
  | given (previous : Option Int) (value : Int) : ItemValue previous (some value) value
  | first : ItemValue none none 0
  | next {previous : Int} (fits : previous + 1 <= maxInt32) :
      ItemValue (some previous) none (previous + 1)

/-- The items of an enum, from the way in which they are written. -/
inductive Numbered : Option Int -> List WrittenItem -> List EnumItem -> Prop
  | nil (previous : Option Int) : Numbered previous [] []
  | cons {previous written : Option Int} {name : String} {value : Int}
      {others : List WrittenItem} {items : List EnumItem}
      (valued : ItemValue previous written value)
      (further : Numbered (some value) others items) :
      Numbered previous ((name, written) :: others) (⟨name, value⟩ :: items)

/-- `enum = "enum" IDENT "{" items "}" [";"]` -/
inductive EnumPhrase : Phrase EnumDecl
  | enum {tokens behindKeyword behindName behindOpen atClose behindClose rest : List Token}
      {name : String} {written : List WrittenItem} {items : List EnumItem}
      (keyword : Keyword "enum" tokens behindKeyword)
      (word : Word behindKeyword name behindName)
      (opened : Mark .openCurl behindName behindOpen)
      (listed : ItemsPhrase behindOpen written atClose)
      (closed : Mark .closeCurl atClose behindClose)
      (closing : Closing behindClose rest)
      (numbered : Numbered none written items) :
      EnumPhrase tokens ⟨.single name, items⟩ rest

/-! ## Messages -/

/-- `"," qname` -/
inductive FurtherParentPhrase : Phrase Identifier
  | further {tokens behindComma rest : List Token} {parent : Identifier}
      (comma : Mark .comma tokens behindComma) (named : NamePhrase behindComma parent rest) :
      FurtherParentPhrase tokens parent rest

/-- `[ "extends" qname { "," qname } ]` -/
inductive ParentsPhrase : Phrase (List Identifier)
  | absent (tokens : List Token) : ParentsPhrase tokens [] tokens
  | present {tokens behindKeyword behindFirst rest : List Token} {first : Identifier}
      {others : List Identifier} (keyword : Keyword "extends" tokens behindKeyword)
      (named : NamePhrase behindKeyword first behindFirst)
      (further : Many FurtherParentPhrase behindFirst others rest) :
      ParentsPhrase tokens (first :: others) rest

/-- `"message" IDENT` with a body or parents behind it. -/
inductive MessageAhead (tokens : List Token) : Prop
  | message {behindKeyword behindName : List Token} {name : String}
      (keyword : Keyword "message" tokens behindKeyword)
      (word : Word behindKeyword name behindName)
      (further : (∃ rest, Mark .openCurl behindName rest) ∨
        ∃ rest, Keyword "extends" behindName rest)

/-- A member that starts here can be a field. -/
structure FieldAhead (tokens : List Token) : Prop where
  notScope : ∀ rest, ¬ Keyword "namespace" tokens rest
  notExtern : ∀ rest, ¬ Keyword "extern" tokens rest
  notEnum : ∀ rest, ¬ Keyword "enum" tokens rest
  notMessage : ¬ MessageAhead tokens

mutual

/-- `message = "extern" "message" IDENT ";" | "message" IDENT parents "{" { member } "}" [";"]`.
The enums, messages and fields of a body keep the order in which they are
written. -/
inductive MessagePhrase : Phrase (Message Identifier)
  | announced {tokens behindExtern behindKeyword behindName rest : List Token} {name : String}
      (announcing : Keyword "extern" tokens behindExtern)
      (keyword : Keyword "message" behindExtern behindKeyword)
      (word : Word behindKeyword name behindName)
      (closed : Mark .semicolon behindName rest) :
      MessagePhrase tokens (.external ⟨.single name, none⟩) rest
  | defined {tokens behindKeyword behindName behindParents behindOpen atClose behindClose rest :
        List Token} {name : String} {parents : List Identifier} {members : List Member}
      (keyword : Keyword "message" tokens behindKeyword)
      (word : Word behindKeyword name behindName)
      (extending : ParentsPhrase behindName parents behindParents)
      (opened : Mark .openCurl behindParents behindOpen)
      (body : Many MemberPhrase behindOpen members atClose)
      (closed : Mark .closeCurl atClose behindClose)
      (closing : Closing behindClose rest) :
      MessagePhrase tokens
        (.defined ⟨.single name, none⟩ parents (members.filterMap Member.enum?)
          (members.filterMap Member.message?) (members.filterMap Member.field?)) rest

/-- `member = field | message | enum` -/
inductive MemberPhrase : Phrase Member
  | field {tokens rest : List Token} {decl : Field Identifier} (ahead : FieldAhead tokens)
      (phrase : FieldPhrase tokens decl rest) : MemberPhrase tokens (.field decl) rest
  | message {tokens rest : List Token} {decl : Message Identifier}
      (phrase : MessagePhrase tokens decl rest) : MemberPhrase tokens (.message decl) rest
  | enum {tokens rest : List Token} {decl : EnumDecl} (phrase : EnumPhrase tokens decl rest) :
      MemberPhrase tokens (.enum decl) rest

end

/-! ## Documents -/

/-- `decl = namespace | message | enum` with
`namespace = "namespace" qname "{" { decl } "}" [";"]` -/
inductive DeclarationPhrase : Phrase Declaration
  | scope {tokens behindKeyword behindName behindOpen atClose behindClose rest : List Token}
      {name : Identifier} {content : List Declaration}
      (keyword : Keyword "namespace" tokens behindKeyword)
      (named : NamePhrase behindKeyword name behindName)
      (opened : Mark .openCurl behindName behindOpen)
      (body : Many DeclarationPhrase behindOpen content atClose)
      (closed : Mark .closeCurl atClose behindClose)
      (closing : Closing behindClose rest) : DeclarationPhrase tokens (.scope name content) rest
  | message {tokens rest : List Token} {decl : Message Identifier}
      (phrase : MessagePhrase tokens decl rest) :
      DeclarationPhrase tokens (.type (.message decl)) rest
  | enum {tokens rest : List Token} {decl : EnumDecl} (phrase : EnumPhrase tokens decl rest) :
      DeclarationPhrase tokens (.type (.enum decl)) rest

/-- `document = { decl } EOF`: the lexemes of a source derive the document. -/
inductive Derives : List Token -> Document -> Prop
  | document {declared : List Token} {atEnd : Token} {document : Document}
      (content : Many DeclarationPhrase declared document [])
      (final : atEnd.kind = .final) : Derives (declared ++ [atEnd]) document

end MessageSchema.Syntax

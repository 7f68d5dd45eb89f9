import MessageSchema.Schema.Error

namespace MessageSchema

/-!
Field modifiers, a set of flags.
-/

inductive Modifier where
  | mutable
  | optional
  | readonly
  | repeated
  | required
deriving DecidableEq, Repr, Inhabited

namespace Modifier

def all : List Modifier :=
  [mutable, optional, readonly, repeated, required]

def keyword : Modifier -> String
  | mutable => "mutable"
  | optional => "optional"
  | readonly => "readonly"
  | repeated => "repeated"
  | required => "required"

def flag : Modifier -> UInt8
  | mutable => 1
  | optional => 2
  | readonly => 4
  | repeated => 8
  | required => 16

def ofKeyword? (keyword : String) : Option Modifier :=
  all.find? (·.keyword == keyword)

end Modifier

/-- A set of modifiers.  Flags that belong to no modifier are kept. -/
structure Modifiers where
  flags : UInt8
deriving DecidableEq, Repr, Inhabited

namespace Modifiers

def none : Modifiers := ⟨0⟩

def has (modifiers : Modifiers) (modifier : Modifier) : Bool :=
  modifiers.flags &&& modifier.flag == modifier.flag

def add (modifiers : Modifiers) (modifier : Modifier) : Modifiers :=
  ⟨modifiers.flags ||| modifier.flag⟩

/-- The keywords of the modifiers in the set, in the order of their flags. -/
def keywords (modifiers : Modifiers) : List String :=
  (Modifier.all.filter modifiers.has).map Modifier.keyword

def render (modifiers : Modifiers) : String :=
  String.intercalate " " modifiers.keywords

end Modifiers

/-!
Fields of messages.

A field type is primitive or defined by the schema.  `ρ` stands for the latter:
its name as written, or, once resolved, what the name refers to.
-/

/-- The settled modifiers of a field, optional unless required.  Contradictory sets and
the unsupported `repeated` are refused. -/
def Modifiers.clean (modifiers : Modifiers) : Except DefinitionError Modifiers :=
  let settled := if modifiers.has .required then modifiers else modifiers.add .optional
  if settled.has .required && settled.has .optional then .error .requiredAndOptional
  else if settled.has .mutable && settled.has .readonly then .error .mutableAndReadonly
  else if settled.has .repeated then .error .repeatedUnsupported
  else .ok settled

inductive FieldType (ρ : Type) where
  | primitive (type : Primitive)
  | user (reference : ρ)
deriving DecidableEq, Repr

namespace FieldType

def render {ρ : Type} (shown : ρ -> String) : FieldType ρ -> String
  | primitive type => type.keyword
  | user reference => shown reference

/-- Can the literal be a default of this type?  Types of a schema have no literals. -/
def accepts {ρ : Type} (type : FieldType ρ) (value : Literal) : Bool :=
  match type with
  | primitive type => value.fits type
  | user _ => false

end FieldType

def unbounded : Int := -1

/-- A field: one bound for each array dimension, and possibly an ordinal and a default.
-/
structure Field (ρ : Type) where
  name : String
  type : FieldType ρ
  modifiers : Modifiers
  bounds : List Int
  ordinal : Option Int
  default : Option Literal
deriving DecidableEq, Repr

namespace Field

/-- Checks what can be told from the field alone: name, modifiers, bounds and default,
in this order.  The type is known by `accepts` and shown as `typeText`; the result is
the settled modifiers. -/
def check (name : String) (accepts : Literal -> Bool) (typeText : String)
    (modifiers : Modifiers) (bounds : List Int) (default : Option Literal) :
    Except DefinitionError Modifiers :=
  if name = "" then .error .fieldNameEmpty
  else
    match modifiers.clean with
    | .error error => .error error
    | .ok settled =>
      match bounds.find? fun bound => bound != unbounded && bound <= 0 with
      | some bound => .error (.boundNotPositive name bound)
      | none =>
        match default with
        | none => .ok settled
        | some value =>
          if accepts value then .ok settled
          else .error (.defaultMismatch name typeText value)

def make (name : String) (type : FieldType Identifier) (modifiers : Modifiers)
    (bounds : List Int) (ordinal : Option Int) (default : Option Literal) :
    Except DefinitionError (Field Identifier) :=
  match check name type.accepts (type.render Identifier.text) modifiers bounds default with
  | .error error => .error error
  | .ok settled => .ok ⟨name, type, settled, bounds, ordinal, default⟩

end Field

/-!
The declarations of a schema: enums, messages, and namespaces of further
declarations.  A message holds enums, fields and messages of its own.  An extern
message only announces that there is a message of its name.
-/

structure EnumItem where
  name : String
  value : Int
deriving DecidableEq, Repr, Inhabited

structure EnumDecl where
  name : Identifier
  items : List EnumItem
deriving DecidableEq, Repr, Inhabited

def maxInt32 : Int := 2147483647

def minInt32 : Int := -2147483648

/-- The value of an item without one of its own: one more than the last, or zero. -/
def EnumItem.nextValue (enum item : String) (items : List EnumItem) :
    Except DefinitionError Int :=
  match items.getLast? with
  | none => .ok 0
  | some last =>
    if last.value = maxInt32 then .error (.enumOverflow enum item)
    else .ok (last.value + 1)

/-- The names of a message: the current one, and the one before aliasing if there was
any. -/
structure MessageName where
  current : Identifier
  declared : Option Identifier := none
deriving DecidableEq, Repr, Inhabited

def MessageName.wire (name : MessageName) : Identifier :=
  name.declared.getD name.current

/-- A message, either announced only or defined with its body. -/
inductive Message (ρ : Type) where
  | external (name : MessageName)
  | defined (name : MessageName) (parents : List Identifier) (enums : List EnumDecl)
      (messages : List (Message ρ)) (fields : List (Field ρ))
deriving Repr

namespace Message

variable {ρ : Type}

instance : Inhabited (Message ρ) := ⟨external default⟩

def name : Message ρ -> MessageName
  | external name => name
  | defined name _ _ _ _ => name

def id (message : Message ρ) : Identifier :=
  message.name.current

def isExtern : Message ρ -> Bool
  | external _ => true
  | defined _ _ _ _ _ => false

def parents : Message ρ -> List Identifier
  | external _ => []
  | defined _ parents _ _ _ => parents

def enums : Message ρ -> List EnumDecl
  | external _ => []
  | defined _ _ enums _ _ => enums

def messages : Message ρ -> List (Message ρ)
  | external _ => []
  | defined _ _ _ messages _ => messages

def fields : Message ρ -> List (Field ρ)
  | external _ => []
  | defined _ _ _ _ fields => fields

end Message

/-- An enum or a message, the declarations that define a type. -/
inductive TypeDecl (ρ : Type) where
  | enum (decl : EnumDecl)
  | message (decl : Message ρ)
deriving Repr

instance {ρ : Type} : Inhabited (TypeDecl ρ) := ⟨.enum default⟩

namespace TypeDecl

variable {ρ : Type}

def id : TypeDecl ρ -> Identifier
  | enum decl => decl.name
  | message decl => decl.id

def kind : TypeDecl ρ -> DefinitionKind
  | enum _ => .enum
  | message _ => .message

end TypeDecl

inductive Declaration where
  | type (decl : TypeDecl Identifier)
  | scope (name : Identifier) (content : List Declaration)
deriving Repr

/-- A parsed schema, in source order. -/
abbrev Document := List Declaration

mutual

/-- A message, its enums, and each message nested in it in the same way. -/
def Message.definitions {ρ : Type} : Message ρ -> List (TypeDecl ρ)
  | .external name => [.message (.external name)]
  | .defined name parents enums messages fields =>
    .message (.defined name parents enums messages fields) ::
      (enums.map .enum ++ Message.definitionsOf messages)

def Message.definitionsOf {ρ : Type} : List (Message ρ) -> List (TypeDecl ρ)
  | [] => []
  | message :: rest => message.definitions ++ Message.definitionsOf rest

end

def TypeDecl.definitions {ρ : Type} : TypeDecl ρ -> List (TypeDecl ρ)
  | .enum decl => [.enum decl]
  | .message decl => decl.definitions

/-- Every enum and message at any depth, in the order in which they are
visited. -/
def definitionsOf {ρ : Type} (types : List (TypeDecl ρ)) : List (TypeDecl ρ) :=
  types.flatMap TypeDecl.definitions

end MessageSchema

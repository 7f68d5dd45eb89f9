import MessageSchema.Compile.Pipeline
import MessageSchema.Data.Value
import MessageSchema.Text.Lowercase

namespace MessageSchema.Export

/-!
The description of a compiled schema for other programs: enums and messages by
their final names, with all that a code generator needs.  A list that was not
given is `none`.
-/

structure ItemInfo where
  name : String := ""
  value : Int := 0

structure EnumInfo where
  name : String := ""
  items : Option (List ItemInfo) := none

/-- A field.  The kind says what the type names: a primitive type, an enum or
a message. -/
structure FieldInfo where
  name : String := ""
  type : String := ""
  kind : String := ""
  modifiers : List String := []
  bounds : List Int := []
  ordinal : Option Int := none
  default : Data.Value := .null

/-- A message.  The wire name is the one before aliasing, the file stem names the
generated file. -/
structure MessageInfo where
  name : String := ""
  wireName : String := ""
  fileStem : String := ""
  announced : Bool := false
  parents : List String := []
  fields : List FieldInfo := []
  enums : List String := []
  messages : List String := []
  dependencies : List String := []

structure Description where
  enums : Option (List EnumInfo) := none
  messages : Option (List MessageInfo) := none

/-- The name of the file for a message: its segments joined by underscores, in
lower case. -/
def fileStem (name : Identifier) : String :=
  Text.lower (name.join "_")

def literalValue : Literal -> Data.Value
  | .missing => .null
  | .int value => .int value
  | .double value => .double value
  | .text value => .text value
  | .bool value => .bool value

def typeKind : FieldType Reference -> String
  | .primitive _ => "primitive"
  | .user reference => reference.symbol.kind.name

def describeField (field : Field Reference) : FieldInfo where
  name := field.name
  type := field.type.render fun reference => reference.name.text
  kind := typeKind field.type
  modifiers := field.modifiers.keywords
  bounds := field.bounds
  ordinal := field.ordinal
  default := field.default.elim .null literalValue

def describeEnum (name : String) (items : List EnumItem) : EnumInfo where
  name := name
  items := some (items.map fun item => ⟨item.name, item.value⟩)

def describeMessage (references : References) (name : String)
    (message : Message Reference) : MessageInfo where
  name := name
  wireName := message.name.wire.text
  fileStem := fileStem message.id
  announced := message.isExtern
  parents := message.parents.map Identifier.text
  fields := message.fields.map describeField
  enums := message.enums.map fun decl => decl.name.text
  messages := message.messages.map fun nested => nested.id.text
  dependencies := (references.closure? name).getD []

def enumAt? (definitions : Array (TypeDecl Reference)) (name : String) (handle : Nat) :
    Option EnumInfo :=
  match definitions[handle]? with
  | some (.enum decl) => some (describeEnum name decl.items)
  | _ => none

def messageAt? (references : References) (definitions : Array (TypeDecl Reference))
    (name : String) (handle : Nat) : Option MessageInfo :=
  match definitions[handle]? with
  | some (.message message) => some (describeMessage references name message)
  | _ => none

/-- Describes a compiled schema.  Enums and messages are in the order of their
names. -/
def describe (compiled : Compiled) : Description :=
  let definitions := (definitionsOf compiled.types).toArray
  { enums := some (compiled.table.enums.entries.filterMap fun entry =>
      enumAt? definitions entry.1 entry.2)
    messages := some (compiled.table.messages.entries.filterMap fun entry =>
      messageAt? compiled.references definitions entry.1 entry.2.handle) }

/-- A member of a record that is left out if there is nothing to say. -/
def optionalMember (present : Bool) (name : String) (value : Data.Value) :
    List (String × Data.Value) :=
  if present then [(name, value)] else []

def namesMember (name : String) (names : List String) : List (String × Data.Value) :=
  optionalMember (!names.isEmpty) name (.ofStrings names)

def isGiven : Data.Value -> Bool
  | .null => false
  | _ => true

namespace FieldInfo

def value (field : FieldInfo) : Data.Value :=
  .record
    ([("name", .ofString field.name), ("type", .ofString field.type),
        ("kind", .ofString field.kind)]
      ++ namesMember "modifiers" field.modifiers
      ++ optionalMember (!field.bounds.isEmpty) "bounds" (.list (field.bounds.map .int))
      ++ optionalMember field.ordinal.isSome "ordinal" (.int (field.ordinal.getD 0))
      ++ optionalMember (isGiven field.default) "default" field.default)

end FieldInfo

namespace MessageInfo

def value (message : MessageInfo) : Data.Value :=
  .record
    ([("name", .ofString message.name), ("original_name", .ofString message.wireName),
        ("file_stem", .ofString message.fileStem)]
      ++ optionalMember message.announced "extern" (.bool true)
      ++ namesMember "parents" message.parents
      ++ optionalMember (!message.fields.isEmpty) "fields"
          (.list (message.fields.map FieldInfo.value))
      ++ namesMember "enums" message.enums
      ++ namesMember "messages" message.messages
      ++ namesMember "dependencies" message.dependencies)

end MessageInfo

def ItemInfo.data (item : ItemInfo) : Data.Value :=
  .record [("name", .ofString item.name), ("value", .int item.value)]

def listOr {α : Type} (absent : Data.Value) (data : α -> Data.Value) (items : Option (List α)) :
    Data.Value :=
  items.elim absent fun items => .list (items.map data)

def EnumInfo.data (absent : Data.Value) (enum : EnumInfo) : Data.Value :=
  .record [("name", .ofString enum.name), ("items", listOr absent ItemInfo.data enum.items)]

def Description.data (absent : Data.Value) (description : Description) : Data.Value :=
  .record
    [("enums", listOr absent (EnumInfo.data absent) description.enums),
      ("messages", listOr absent MessageInfo.value description.messages)]

end MessageSchema.Export

import MessageSchema.Data.Json.Reader
import MessageSchema.Export.Description

namespace MessageSchema.Export
namespace FromJson

/-!
Descriptions read from JSON.

A member sets the part that it names, in letters of either case; others are
passed over, and null changes nothing.  A second member is read onto what the
first has set.
-/

open Data.Json (Node)
open Text (isNamed)

/-- Reads a value onto an earlier one. -/
abbrev Onto (α : Type) := α -> Node -> Option α

def text : Onto String
  | prior, .null => some prior
  | _, .text value => some value
  | _, _ => none

def bool : Onto Bool
  | prior, .null => some prior
  | _, .bool value => some value
  | _, _ => none

/-- The integer that digits stand for, if there is neither fraction nor
exponent. -/
def integer? (digits : List Char) : Option Int :=
  match digits with
  | '-' :: rest => if rest.all Char.isDigit then some (-(Number.ofDigits rest : Int)) else none
  | _ => if digits.all Char.isDigit then some (Number.ofDigits digits) else none

def int (bits : Nat) : Onto Int
  | prior, .null => some prior
  | _, .number digits =>
    (integer? digits).filter fun value =>
      -(Nat.pow 2 (bits - 1) : Int) <= value && value < Nat.pow 2 (bits - 1)
  | _, _ => none

def optional {α : Type} (fresh : α) (read : Onto α) : Onto (Option α)
  | _, .null => some none
  | prior, node => (read (prior.getD fresh) node).map some

/-- Items, each read onto the item in its place before. -/
def items {α : Type} (fresh : α) (read : Onto α) : List α -> List Node -> Option (List α)
  | _, [] => some []
  | prior, node :: rest => do
      let item ← read (prior.head?.getD fresh) node
      let others ← items fresh read prior.tail rest
      return item :: others

def list {α : Type} (fresh : α) (read : Onto α) : Onto (Option (List α))
  | _, .null => some none
  | prior, .list nodes => (items fresh read (prior.getD []) nodes).map some
  | _, _ => none

/-- A list where an absent one is as good as an empty one. -/
def plainList {α : Type} (fresh : α) (read : Onto α) : Onto (List α) := fun prior node =>
  (list fresh read (some prior) node).map fun items => items.getD []

def record {α : Type} (member : α -> String -> Node -> Option α) : Onto α
  | prior, .null => some prior
  | prior, .record members => members.foldlM (fun value entry => member value entry.1 entry.2) prior
  | _, _ => none

mutual

/-- Data of any kind.  Numbers are doubles, and members are in the order of
their names. -/
def data : Node -> Option Data.Value
  | .null => some .null
  | .bool value => some (.bool value)
  | .number digits =>
    let value := Number.Double.read digits
    if value.isFinite then some (.double value) else none
  | .text value => some (.ofString value)
  | .list nodes => (dataItems nodes).map .list
  | .record members =>
    (dataMembers members).map fun entries => .record (Name.Table.ofList entries).entries

def dataItems : List Node -> Option (List Data.Value)
  | [] => some []
  | node :: rest => do
      let item ← data node
      let others ← dataItems rest
      return item :: others

def dataMembers : List (String × Node) -> Option (List (String × Data.Value))
  | [] => some []
  | (name, node) :: rest => do
      let value ← data node
      let others ← dataMembers rest
      return (name, value) :: others

end

def item : Onto ItemInfo := record fun item name node =>
  if isNamed "name" name then (text item.name node).map ({ item with name := · })
  else if isNamed "value" name then (int 32 item.value node).map ({ item with value := · })
  else some item

def enum : Onto EnumInfo := record fun enum name node =>
  if isNamed "name" name then (text enum.name node).map ({ enum with name := · })
  else if isNamed "items" name then
    (list {} item enum.items node).map ({ enum with items := · })
  else some enum

def texts : Onto (List String) := plainList "" text

def field : Onto FieldInfo := record fun field name node =>
  if isNamed "name" name then (text field.name node).map ({ field with name := · })
  else if isNamed "type" name then (text field.type node).map ({ field with type := · })
  else if isNamed "kind" name then (text field.kind node).map ({ field with kind := · })
  else if isNamed "modifiers" name then
    (texts field.modifiers node).map ({ field with modifiers := · })
  else if isNamed "bounds" name then
    (plainList 0 (int 64) field.bounds node).map ({ field with bounds := · })
  else if isNamed "ordinal" name then
    (optional 0 (int 64) field.ordinal node).map ({ field with ordinal := · })
  else if isNamed "default" name then (data node).map ({ field with default := · })
  else some field

def message : Onto MessageInfo := record fun message name node =>
  if isNamed "name" name then (text message.name node).map ({ message with name := · })
  else if isNamed "original_name" name then
    (text message.wireName node).map ({ message with wireName := · })
  else if isNamed "file_stem" name then
    (text message.fileStem node).map ({ message with fileStem := · })
  else if isNamed "extern" name then
    (bool message.announced node).map ({ message with announced := · })
  else if isNamed "parents" name then
    (texts message.parents node).map ({ message with parents := · })
  else if isNamed "fields" name then
    (plainList {} field message.fields node).map ({ message with fields := · })
  else if isNamed "enums" name then
    (texts message.enums node).map ({ message with enums := · })
  else if isNamed "messages" name then
    (texts message.messages node).map ({ message with messages := · })
  else if isNamed "dependencies" name then
    (texts message.dependencies node).map ({ message with dependencies := · })
  else some message

def description : Onto Description := record fun description name node =>
  if isNamed "enums" name then
    (list {} enum description.enums node).map ({ description with enums := · })
  else if isNamed "messages" name then
    (list {} message description.messages node).map ({ description with messages := · })
  else some description

end FromJson

def Description.ofJson? (source : List UInt8) : Option Description :=
  match Data.Json.readFirst source with
  | .ok node => FromJson.description {} node
  | .error _ => none

end MessageSchema.Export

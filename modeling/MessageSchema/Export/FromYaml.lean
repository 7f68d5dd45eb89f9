import MessageSchema.Data.Yaml.Node
import MessageSchema.Export.Description
import MessageSchema.Text.Base64

namespace MessageSchema.Export
namespace FromYaml

/-!
Descriptions read from YAML.

A member sets the part with exactly its name; others are passed over, and no key
comes twice.  Null sets nothing, and is left out of a list.  A text takes any
scalar as written, an integer a number without its fraction, and a truth value
some more words.  A reference stands for its node, unless it is inside of it.
The key `<<` brings in members of other records that are not there already.
-/

open Data (Value)
open Data.Yaml (Node)

/-- How many nodes have been visited, and how many of them by way of a
reference. -/
structure Visits where
  all : Nat := 0
  referred : Nat := 0

/-- Up to the first number of visits nearly all may be by reference, from the second on
only a tenth. -/
def Visits.lenient : Nat := 400000

@[inherit_doc Visits.lenient]
def Visits.strict : Nat := 4000000

/-- Are there too many references?  Their share may fall from 99 to 10 percent as visits
grow in number. -/
def Visits.areExcessive (visits : Visits) : Bool :=
  let spread := Visits.strict - Visits.lenient
  let past := min (visits.all - Visits.lenient) spread
  100 < visits.referred && 1000 < visits.all
    && visits.all * (99 * spread - 89 * past) < visits.referred * (100 * spread)

/-- Where a node is read: the named nodes, the references that led to it, and how deep
reading may go. -/
structure Context where
  named : List (Nat × Node)
  places : List Nat := []
  depth : Nat

abbrev Read := ReaderT Context (StateT Visits Option)

abbrev Reads (α : Type) := Node -> Read (Option α)

def count : Read Unit := do
  let isReferred := !(← read).places.isEmpty
  let visits ← get
  let visits : Visits :=
    ⟨visits.all + 1, if isReferred then visits.referred + 1 else visits.referred⟩
  if visits.areExcessive then failure else set visits

def visit {α : Type} (reads : Node -> Read α) (node : Node) : Read α := do
  count
  match node with
  | .reference place _ target =>
    let context ← read
    if context.places.contains place then failure
    else
      match context.named.lookup target with
      | none => failure
      | some found =>
        withReader (fun context => { context with places := place :: context.places }) do
          count
          reads found
  | _ => reads node

/-! ## Scalars -/

def bytes? (text : String) : Option (List UInt8) :=
  Text.base64Decode? (String.ofList (text.toList.filter (· != '\n')))

def meaning? (tag : Option String) (isPlain : Bool) (text : String) : Option Value :=
  match tag with
  | some "!!binary" => (bytes? text).map fun bytes => .text (Text.decode bytes)
  | some tag => Data.Yaml.taggedMeaning? tag text
  | none => some (if isPlain then Data.Yaml.meaning text else .ofString text)

def scalar {α : Type} (ofMeaning : Value -> String -> Option (Option α)) : Reads α
  | .scalar tag isPlain text => do
      let some value := meaning? tag isPlain text | failure
      let some found := ofMeaning value text | failure
      return found
  | _ => failure

/-- A text is taken as it is written, but for bytes. -/
def text : Reads String := scalar fun
  | .null, _ => some none
  | .text glyphs, _ => some (some (Text.shownBytes (Text.encode glyphs)))
  | _, written => some (some written)

def truncated (value : Number.Double) : Int :=
  let (significand, exponent) := value.parts
  let size : Nat :=
    if 0 <= exponent then significand * Nat.pow 2 exponent.toNat
    else significand / Nat.pow 2 (-exponent).toNat
  if value.isNegative then -(size : Int) else size

/-- The least integer of 64 bits, which stands for all numbers below it. -/
def leastInteger : Int := -(Nat.pow 2 63)

def integerOf? (value : Number.Double) : Option Int :=
  if value.isNaN then none
  else if value = .infinity true then some leastInteger
  else if value = .infinity false then none
  else
    let whole := truncated value
    if Nat.pow 2 63 < whole then none
    else if whole < leastInteger ∨ whole = Nat.pow 2 63 then some leastInteger
    else some whole

def int (bits : Nat) : Reads Int :=
  let within (value : Int) : Option (Option Int) :=
    if -(Nat.pow 2 (bits - 1) : Int) <= value ∧ value < Nat.pow 2 (bits - 1) then some (some value)
    else none
  scalar fun
    | .null, _ => some none
    | .int value, _ => within value
    | .double value, _ => (integerOf? value).bind within
    | _, _ => none

def wordTruth? (word : String) : Option Bool :=
  if ["y", "Y", "yes", "Yes", "YES", "on", "On", "ON"].contains word then some true
  else if ["n", "N", "no", "No", "NO", "off", "Off", "OFF"].contains word then some false
  else none

def bool : Reads Bool := scalar fun
  | .null, _ => some none
  | .bool value, _ => some (some value)
  | .text glyphs, _ => (wordTruth? (Text.shownBytes (Text.encode glyphs))).map some
  | _, _ => none

def nothing {α : Type} : Reads α := scalar fun
  | .null, _ => some none
  | _, _ => none

/-! ## Lists and records -/

def list {α : Type} (reads : Reads α) : Reads (List α)
  | .list nodes => do
      let items ← nodes.mapM (visit reads)
      return some (items.filterMap id)
  | node => nothing node

def isMerge : Node -> Bool
  | .scalar none isPlain text => isPlain && text == "<<"
  | .scalar (some tag) _ text => tag == "!!merge" && text == "<<"
  | _ => false

def isSameWritten : Node -> Node -> Bool
  | .scalar _ _ a, .scalar _ _ b => a == b
  | .reference _ a _, .reference _ b _ => a == b
  | .list _, .list _ => true
  | .record _, .record _ => true
  | _, _ => false

def keysDiffer : List (Node × Node) -> Bool
  | [] => true
  | (key, _) :: rest => !rest.any (isSameWritten key ·.1) && keysDiffer rest

def membersOf (node : Node) : Read (List (Node × Node)) := do
  match node with
  | .record members => return members
  | .reference _ _ target =>
    match (← read).named.lookup target with
    | some (.record members) => return members
    | _ => failure
  | _ => failure

/-- The records that a value brings in: it is one, refers to one or lists some. -/
def mergedNodes (value : Node) : Read (List Node) := do
  match value with
  | .list items =>
    for item in items do
      discard (membersOf item)
    return items
  | _ =>
    discard (membersOf value)
    return [value]

structure Gathering (σ : Type) where
  key : Node -> Read (Option Value)
  isPart : Value -> Bool
  add : σ -> Value -> Node -> Read σ
  anyKey : Node -> Read Value

/-- What has been gathered, the keys that are not brought in any more, and those of the
record itself. -/
structure Gathered (σ : Type) where
  held : σ
  settled : Option (List Value)
  own : List Value := []

namespace Gathering

variable {σ : Type}

def step (gathering : Gathering σ) (gathered : Gathered σ) (member : Node × Node) :
    Read (Gathered σ) := do
  if isMerge member.1 then return gathered
  else
    match ← gathering.key member.1 with
    | none => return gathered
    | some key =>
      let isSettled := gathered.settled.any fun keys => keys.any (Value.isSameKey key)
      if isSettled then return gathered
      else if gathering.isPart key && gathered.own.any (Value.isSameKey key) then failure
      else
        return {
          held := ← gathering.add gathered.held key member.2
          settled := gathered.settled.map (key :: ·)
          own := key :: gathered.own }

def members (gathering : Gathering σ) :
    Nat -> Option (List Value) -> σ -> List (Node × Node) -> Read (σ × Option (List Value))
  | 0, _, _, _ => failure
  | fuel + 1, settled, held, members => do
      if !keysDiffer members then failure
      else
        let gathered ← members.foldlM gathering.step { held := held, settled := settled }
        match members.find? (isMerge ·.1) with
        | none => return (gathered.held, gathered.settled)
        | some (_, value) =>
          let keys ←
            match gathered.settled with
            | some keys => pure keys
            | none => members.mapM fun member => visit gathering.anyKey member.1
          let nodes ← mergedNodes value
          let (held, keys) ← nodes.foldlM (fun (held, keys) node => do
              let found ← visit (fun
                | .record members =>
                  gathering.members fuel (some keys) held members
                | _ => failure) node
              return (found.1, found.2.getD keys)) (gathered.held, keys)
          return (held, gathered.settled.map fun _ => keys)

end Gathering

/-! ## Data of any kind -/

def setKey (entries : List (Value × Value)) (key value : Value) : List (Value × Value) :=
  if entries.any fun entry => key.isSameKey entry.1 then
    entries.map fun entry => if key.isSameKey entry.1 then (entry.1, value) else entry
  else entries ++ [(key, value)]

def isKey : Value -> Bool
  | .list _ => false
  | .record _ => false
  | .table _ => false
  | _ => true

def isTextKey : Node -> Bool
  | .scalar (some tag) _ text => tag == "!!str" || (tag == "!!merge" && text == "<<")
  | .scalar none isPlain text => !isPlain || text == "<<" || Data.Yaml.isTextual text
  | _ => false

def keyName : Value -> String
  | .text glyphs => Text.shownBytes (Text.encode glyphs)
  | _ => ""

def textKey (node : Node) : Read (Option Value) := do
  return (← visit text node).map .ofString

/-- Data of any kind.  Keys that are all texts make a record, in the order of their
names. -/
def data : Nat -> Node -> Read Value
  | 0, _ => failure
  | _ + 1, .scalar tag isPlain text => do
      let some value := meaning? tag isPlain text | failure
      return value
  | fuel + 1, .list nodes => do
      return .list (← nodes.mapM (visit (data fuel)))
  | fuel + 1, .record members => do
      let named := (← read).named
      let isRecord := members.all fun member =>
        match member.1 with
        | .reference _ _ target => (named.lookup target).any isTextKey
        | key => isTextKey key
      let gathering : Gathering (List (Value × Value)) := {
        key := fun node =>
          if isRecord then textKey node
          else do
            let key ← visit (data fuel) node
            if isKey key then return some key else failure
        isPart := fun _ => false
        add := fun entries key node => do
          return setKey entries key (← visit (data fuel) node)
        anyKey := data fuel }
      let (entries, _) ← gathering.members fuel none [] members
      if isRecord then
        return .record
          (Name.Table.ofList (entries.map fun entry => (keyName entry.1, entry.2))).entries
      else return .table entries
  | _ + 1, .reference .. => failure

/-! ## Descriptions -/

/-- The parts of a record by their names, and how each of them is set. -/
abbrev Parts (α : Type) := List (String × (α -> Node -> Read α))

def record {α : Type} (fresh : α) (parts : Parts α) : Reads α
  | .record members => do
      let depth := (← read).depth
      let gathering : Gathering α := {
        key := textKey
        isPart := fun key => parts.any (·.1 == keyName key)
        add := fun held key node =>
          match parts.lookup (keyName key) with
          | some set => set held node
          | none => return held
        anyKey := data depth }
      let (held, _) ← gathering.members depth none fresh members
      return some held
  | node => nothing node

def part {α β : Type} (reads : Reads β) (set : α -> β -> α) (held : α) (node : Node) : Read α := do
  return (← visit reads node).elim held (set held)

def item : Reads ItemInfo := record {} [
  ("name", part text fun held name => { held with name := name }),
  ("value", part (int 32) fun held value => { held with value := value })]

def enum : Reads EnumInfo := record {} [
  ("name", part text fun held name => { held with name := name }),
  ("items", part (list item) fun held items => { held with items := some items })]

def fieldDefault (held : FieldInfo) (node : Node) : Read FieldInfo := do
  let depth := (← read).depth
  return { held with default := ← visit (data depth) node }

def field : Reads FieldInfo := record {} [
  ("name", part text fun held name => { held with name := name }),
  ("type", part text fun held type => { held with type := type }),
  ("kind", part text fun held kind => { held with kind := kind }),
  ("modifiers", part (list text) fun held names => { held with modifiers := names }),
  ("bounds", part (list (int 64)) fun held bounds => { held with bounds := bounds }),
  ("ordinal", part (int 64) fun held ordinal => { held with ordinal := some ordinal }),
  ("default", fieldDefault)]

def message : Reads MessageInfo := record {} [
  ("name", part text fun held name => { held with name := name }),
  ("original_name", part text fun held name => { held with wireName := name }),
  ("file_stem", part text fun held stem => { held with fileStem := stem }),
  ("extern", part bool fun held announced => { held with announced := announced }),
  ("parents", part (list text) fun held names => { held with parents := names }),
  ("fields", part (list field) fun held fields => { held with fields := fields }),
  ("enums", part (list text) fun held names => { held with enums := names }),
  ("messages", part (list text) fun held names => { held with messages := names }),
  ("dependencies", part (list text) fun held names => { held with dependencies := names })]

def description : Reads Description := record {} [
  ("enums", part (list enum) fun held enums => { held with enums := some enums }),
  ("messages", part (list message) fun held messages => { held with messages := some messages })]

end FromYaml

/-- Reads a description from the first document of a YAML text; null describes nothing.
A way to a node passes each reference once and each node once between two of them, so
the square of the size bounds its depth. -/
def Description.ofYaml? (source : List UInt8) : Option Description := do
  let document ← Data.Yaml.Document.ofBytes? source
  let context : FromYaml.Context :=
    { named := document.named, depth := Nat.pow (4 * source.length + 16) 2 }
  let reading : FromYaml.Read (Option Description) := do
    FromYaml.count
    FromYaml.visit FromYaml.description document.root
  let (found, _) ← (reading context).run {}
  return found.getD {}

end MessageSchema.Export

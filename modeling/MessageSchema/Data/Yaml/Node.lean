import MessageSchema.Data.Yaml.Token

namespace MessageSchema.Data
namespace Yaml

/-!
The nodes of a YAML document.

A node may be named and referred to from further on, even from inside.  So the
tree has references as leaves, and the named nodes are kept beside it.
-/

/-- A scalar has its tag, and is plain or not.  A reference has its own place among all
references, its name and the number of its node. -/
inductive Node where
  | scalar (tag : Option String) (isPlain : Bool) (text : String)
  | list (items : List Node)
  | record (members : List (Node × Node))
  | reference (place : Nat) (name : String) (target : Nat)
deriving Repr

def Node.empty : Node :=
  .scalar none true ""

structure Document where
  root : Node
  named : List (Nat × Node)

/-- A document while it is read: the tokens to come, the handles of tags, and the named
nodes.  The count of names and references gives the next number. -/
structure Reading where
  tokens : Tokens
  handles : List (String × String) := []
  names : List (String × Nat) := []
  named : List (Nat × Node) := []
  count : Nat := 0

namespace Reading

def peek? (reading : Reading) : Option (Token × Reading) :=
  reading.tokens.peek?.map fun (token, tokens) => (token, { reading with tokens := tokens })

def drop (reading : Reading) : Reading :=
  { reading with tokens := reading.tokens.drop }

/-- Gives the next node a number if it has a name.  The last node with a name
counts. -/
def name (reading : Reading) (anchor : Option String) : Option Nat × Reading :=
  match anchor with
  | none => (none, reading)
  | some anchor =>
    (some reading.count,
      { reading with
        names := (anchor, reading.count) :: reading.names, count := reading.count + 1 })

def keep (reading : Reading) (number : Option Nat) (node : Node) : Node × Reading :=
  (node, { reading with named := (number.map (·, node)).toList ++ reading.named })

def refer? (reading : Reading) (name : String) : Option (Node × Reading) :=
  (reading.names.lookup name).map fun target =>
    (.reference reading.count name target, { reading with count := reading.count + 1 })

end Reading

/-! ## Tags and names in front of a node -/

def commonTags : String := "tag:yaml.org,2002:"

def commonHandles : List (String × String) :=
  [("!", "!"), ("!!", commonTags)]

/-- A tag in short: those of the format start with two exclamation marks.  One on its
own is no tag. -/
def shortTag (tag : String) : Option String :=
  if tag = "" ∨ tag = "!" then none
  else if tag.startsWith commonTags then
    some ("!!" ++ String.ofList (tag.toList.drop commonTags.length))
  else some tag

def expandTag? (handles : List (String × String)) (handle text : String) : Option String :=
  if handle.isEmpty then some text
  else
    ((handles ++ commonHandles).lookup handle).bind fun expansion =>
      if (expansion ++ text).isEmpty then none else some (expansion ++ text)

/-- What stands in front of a node: its name and its tag, which is expanded. -/
structure Properties where
  anchor : Option String := none
  tag : Option String := none

def readProperties? (reading : Reading) : Option (Properties × Reading) := do
  let (first, reading) ← reading.peek?
  match first with
  | .anchor anchor =>
    let (second, reading) ← reading.drop.peek?
    match second with
    | .tag handle text =>
      let tag ← expandTag? reading.handles handle text
      return (⟨some anchor, some tag⟩, reading.drop)
    | _ => return (⟨some anchor, none⟩, reading)
  | .tag handle text =>
    let (second, reading) ← reading.drop.peek?
    let tag ← expandTag? reading.handles handle text
    match second with
    | .anchor anchor => return (⟨some anchor, some tag⟩, reading.drop)
    | _ => return (⟨none, some tag⟩, reading)
  | _ => return ({}, reading)

/-! ## Nodes -/

/-- Does the token end an item of a list that stands at the indentation of its
record? -/
def endsBareItem (token : Token) : Bool :=
  token = .dash || token = .key || token = .value || token = .blockEnd

def endsItem (token : Token) : Bool :=
  token = .dash || token = .blockEnd

def endsMember (token : Token) : Bool :=
  token = .key || token = .value || token = .blockEnd

mutual

/-- A node.  It may be a block unless in brackets, and in a record its items may stand
at the record's indentation. -/
def readNode (inBlock isBare : Bool) : Nat -> Reading -> Option (Node × Reading)
  | 0, _ => none
  | fuel + 1, reading => do
      let (first, reading) ← reading.peek?
      match first with
      | .reference name => reading.drop.refer? name
      | _ =>
        let (properties, reading) ← readProperties? reading
        let (token, reading) ← reading.peek?
        let (number, reading) := reading.name properties.anchor
        let (node, reading) ←
          match token with
          | .scalar text isPlain =>
            some (.scalar (properties.tag.bind shortTag) isPlain (String.ofList text),
              reading.drop)
          | .openList => readFlowItems true [] fuel reading.drop
          | .openRecord => readFlowMembers true [] fuel reading.drop
          | _ =>
            if isBare && token = .dash then readBareItems [] fuel reading
            else if inBlock && token = .blockList then readItems [] fuel reading.drop
            else if inBlock && token = .blockRecord then readMembers [] fuel reading.drop
            else if properties.anchor.isSome || properties.tag.isSome then
              some (.scalar (properties.tag.bind shortTag) true "", reading)
            else none
        return reading.keep number node
termination_by structural fuel => fuel

def readItems (items : List Node) : Nat -> Reading -> Option (Node × Reading)
  | 0, _ => none
  | fuel + 1, reading => do
      let (token, reading) ← reading.peek?
      if token = .dash then
        let (next, reading) ← reading.drop.peek?
        let (item, reading) ←
          if endsItem next then some (.empty, reading) else readNode true false fuel reading
        readItems (item :: items) fuel reading
      else if token = .blockEnd then some (.list items.reverse, reading.drop)
      else none
termination_by structural fuel => fuel

def readBareItems (items : List Node) : Nat -> Reading -> Option (Node × Reading)
  | 0, _ => none
  | fuel + 1, reading => do
      let (token, reading) ← reading.peek?
      if token = .dash then
        let (next, reading) ← reading.drop.peek?
        let (item, reading) ←
          if endsBareItem next then some (.empty, reading) else readNode true false fuel reading
        readBareItems (item :: items) fuel reading
      else some (.list items.reverse, reading)
termination_by structural fuel => fuel

def readMembers (members : List (Node × Node)) : Nat -> Reading -> Option (Node × Reading)
  | 0, _ => none
  | fuel + 1, reading => do
      let (token, reading) ← reading.peek?
      if token = .key then
        let (next, reading) ← reading.drop.peek?
        let (name, reading) ←
          if endsMember next then some (.empty, reading) else readNode true true fuel reading
        let (token, reading) ← reading.peek?
        let (value, reading) ←
          if token = .value then do
            let (next, reading) ← reading.drop.peek?
            if endsMember next then some (Node.empty, reading) else readNode true true fuel reading
          else some (.empty, reading)
        readMembers ((name, value) :: members) fuel reading
      else if token = .blockEnd then some (.record members.reverse, reading.drop)
      else none
termination_by structural fuel => fuel

/-- The items of a list in brackets; the mark says that none has been read.  A key is a
record with one member. -/
def readFlowItems (isFirst : Bool) (items : List Node) : Nat -> Reading -> Option (Node × Reading)
  | 0, _ => none
  | fuel + 1, reading => do
      let (token, reading) ← reading.peek?
      if token = .closeList then some (.list items.reverse, reading.drop)
      else
        let (token, reading) ←
          if isFirst then some (token, reading)
          else if token = .comma then reading.drop.peek?
          else none
        if token = .closeList then some (.list items.reverse, reading.drop)
        else if token = .key then
          let (member, reading) ← readFlowMember fuel reading.drop
          readFlowItems false (.record [member] :: items) fuel reading
        else
          let (item, reading) ← readNode false false fuel reading
          readFlowItems false (item :: items) fuel reading
termination_by structural fuel => fuel

/-- A member as an item of a list, from behind the mark of its key on.  A colon right
there is passed over. -/
def readFlowMember : Nat -> Reading -> Option ((Node × Node) × Reading)
  | 0, _ => none
  | fuel + 1, reading => do
      let (token, reading) ← reading.peek?
      let (name, reading) ←
        if token = .value || token = .comma || token = .closeList then some (.empty, reading.drop)
        else readNode false false fuel reading
      let (token, reading) ← reading.peek?
      if token = .value then
        let (next, reading) ← reading.drop.peek?
        if next = .comma || next = .closeList then some ((name, .empty), reading)
        else
          let (value, reading) ← readNode false false fuel reading
          some ((name, value), reading)
      else some ((name, .empty), reading)
termination_by structural fuel => fuel

/-- The members of a record in brackets; the mark says that none has been read.  A key
may have no value. -/
def readFlowMembers (isFirst : Bool) (members : List (Node × Node)) :
    Nat -> Reading -> Option (Node × Reading)
  | 0, _ => none
  | fuel + 1, reading => do
      let (token, reading) ← reading.peek?
      if token = .closeRecord then some (.record members.reverse, reading.drop)
      else
        let (token, reading) ←
          if isFirst then some (token, reading)
          else if token = .comma then reading.drop.peek?
          else none
        if token = .closeRecord then some (.record members.reverse, reading.drop)
        else if token = .key then
          let (next, reading) ← reading.drop.peek?
          let (name, reading) ←
            if next = .value || next = .comma || next = .closeRecord then some (.empty, reading)
            else readNode false false fuel reading
          let (token, reading) ← reading.peek?
          let (value, reading) ←
            if token = .value then do
              let (next, reading) ← reading.drop.peek?
              if next = .comma || next = .closeRecord then some (Node.empty, reading)
              else readNode false false fuel reading
            else some (.empty, reading)
          readFlowMembers false ((name, value) :: members) fuel reading
        else
          let (name, reading) ← readNode false false fuel reading
          let (_, reading) ← reading.peek?
          readFlowMembers false ((name, .empty) :: members) fuel reading
termination_by structural fuel => fuel

end

/-! ## Documents -/

def isKnownVersion (major minor : Nat) : Bool :=
  major == 1 && (minor == 1 || minor == 2)

/-- Reads the directives in front of a document: at most one version, and no handle
twice. -/
def readDirectives (hasVersion : Bool) : Nat -> Reading -> Option Reading
  | 0, _ => none
  | fuel + 1, reading => do
      let (token, reading) ← reading.peek?
      match token with
      | .version major minor =>
        if hasVersion || !isKnownVersion major minor then none
        else readDirectives true fuel reading.drop
      | .handle name expansion =>
        if (reading.handles.lookup name).isSome then none
        else
          readDirectives hasVersion fuel
            { reading.drop with handles := (name, expansion) :: reading.handles }
      | _ => some reading

def isOutside : Token -> Bool
  | .version .. => true
  | .handle .. => true
  | .documentStart => true
  | .documentEnd => true
  | .streamEnd => true
  | _ => false

/-- Reads the root of the first document.  A document without a start may not be
empty. -/
def readRoot (fuel : Nat) (reading : Reading) : Option (Node × Reading) := do
  let (first, reading) ← reading.peek?
  if first = .streamEnd then none
  else if isOutside first && first ≠ .documentEnd then
    let reading ← readDirectives false fuel reading
    let (start, reading) ← reading.peek?
    if start = .documentStart then
      let (token, reading) ← reading.drop.peek?
      if isOutside token then some (.empty, reading) else readNode true false fuel reading
    else none
  else readNode true false fuel reading

/-- Reads the first document of a text.  What follows is only looked at as tokens.  Each
node and each list takes a token, so the size of the text bounds them. -/
def Document.ofChars? (text : List Char) : Option Document := do
  let tokens := Tokens.ofText (withNewlines [] text)
  let fuel := 4 * tokens.cursor.size + 16
  let (_, reading) ← Reading.peek? { tokens := tokens }
  let (root, reading) ← readRoot fuel reading.drop
  let (_, reading) ← reading.peek?
  return ⟨root, reading.named⟩

def Document.ofBytes? (source : List UInt8) : Option Document := do
  let chars ← Text.chars? (Text.decode source)
  let text := if chars.head?.any (·.toNat == 0xFEFF) then chars.tail else chars
  if text.all isReadable then Document.ofChars? text else none

end Yaml
end MessageSchema.Data

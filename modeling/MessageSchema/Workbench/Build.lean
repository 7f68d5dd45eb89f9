import MessageSchema.Workbench.Store

namespace MessageSchema.Workbench

/-!
Building and changing definitions on the workbench.
-/

def popSegment (key : Key) : Work Unit := do
  let name := (← get).nameAt key
  if name.segments.isEmpty then failDefinition .identifierEmpty
  setNameAt key ⟨name.segments.dropLast⟩

def nameDefinition (key : Key) (name : Option Key) : Work Unit := do
  let store ← get
  let node := store.node key
  if node.name.isSome then failDefinition (.identifierAlreadySet (store.idText key))
  setNode key (node.withName name)

def renameDefinition (key : Key) (name : Option Key) : Work Unit := do
  let node := (← get).node key
  if node.name.isNone then failDefinition .identifierNotSet
  setNode key (node.withName name)

def addItemValue (key : Key) (name : String) (value : Int) : Work Unit := do
  match (← get).node key with
  | .enum node => setNode key (.enum { node with items := node.items ++ [⟨name, value⟩] })
  | _ => return

def addItem (key : Key) (name : String) : Work Unit := do
  let store ← get
  match store.node key with
  | .enum node =>
    match EnumItem.nextValue (store.idText key) name node.items with
    | .ok value => addItemValue key name value
    | .error error => failDefinition error
  | _ => return

def primitiveType (code : Nat) : Work Key :=
  match Primitive.ofCode? code with
  | some primitive => newType { primitive := some primitive }
  | none => failDefinition (.notPrimitive (typeName code))

def Store.isNamed (store : Store) (name : Option Key) : Bool :=
  (store.name? name).any fun name => !name.isBlank

def userType (name : Option Key) : Work Key := do
  if !(← get).isNamed name then failDefinition .userTypeBlank
  newType { primitive := none, name }

def renameType (key : Key) (name : Option Key) : Work Unit := do
  let store ← get
  let type := store.type key
  if type.primitive.isSome then failDefinition (.notPrimitive (store.typeText key))
  if !store.isNamed name then failDefinition .userTypeBlank
  setType key { type with name }

def resolveType (key : Key) (target : Option Key) : Work Unit := do
  let store ← get
  let type := store.type key
  let shown := store.nameText type.name
  if type.target.isSome then failDefinition (.typeAlreadyResolved shown)
  match target with
  | none => failDefinition (.typeTargetInvalid shown none)
  | some definition =>
    match (store.node definition).kind with
    | .enum => setType key { type with target }
    | .message => setType key { type with target }
    | _ => failDefinition (.typeTargetInvalid shown (some (store.mention definition)))

def TypeNode.accepts (type : TypeNode) (value : Literal) : Bool :=
  type.primitive.any value.fits

def newField (name : String) (type : Key) (modifiers : Modifiers) (bounds : List Int)
    (ordinal : Option Int) (default : Option Literal) : Work Key := do
  let store ← get
  match Field.check name (store.type type).accepts (store.typeText type) modifiers bounds
      default with
  | .error error => failDefinition error
  | .ok settled =>
    let key ← newName (.single name)
    newNode (.field ⟨some key, type, settled, bounds, ordinal, default⟩)

def addToMessage (key : Key) (content : Option Key) : Work Unit := do
  let store ← get
  match store.node key, content with
  | .message _, none => failDefinition (.contentMissing (store.mention key))
  | .message message, some child =>
    if message.announced then failDefinition (.externBody (store.idText key))
    match store.node child with
    | .enum _ => setNode key (.message { message with enums := message.enums ++ [child] })
    | .field _ => setNode key (.message { message with fields := message.fields ++ [child] })
    | .message _ =>
      if child = key then
        failDefinition (.contentInvalid (store.mention key) (store.mention child))
      setNode key (.message { message with messages := message.messages ++ [child] })
    | .scope _ => failDefinition (.contentInvalid (store.mention key) (store.mention child))
  | _, _ => return

def addParents (key : Key) (parents : List (Option Key)) : Work Unit := do
  let store ← get
  match store.node key with
  | .message message =>
    if message.announced then failDefinition (.externParents (store.idText key))
    setNode key (.message { message with parents := message.parents ++ parents })
  | _ => return

def replaceParent (key : Key) (index : Int) (parent : Option Key) : Work Unit := do
  let store ← get
  match store.node key with
  | .message message =>
    if index < 0 ∨ (message.parents.length : Int) <= index then
      failDefinition (.parentIndex (store.idText key) index message.parents.length)
    setNode key (.message { message with parents := message.parents.set index.toNat parent })
  | _ => return

/-- Keeps the current name of a message as its declared one, unless it has one
already. -/
def keepDeclaredName (key : Key) : Work Unit := do
  let store ← get
  match store.node key with
  | .message message =>
    if message.declared.isNone then
      setNode key (.message { message with declared := store.id key })
  | _ => return

def addToScope (key : Key) (content : Option Key) : Work Unit := do
  let store ← get
  match store.node key, content with
  | .scope _, none => failDefinition (.contentMissing (store.mention key))
  | .scope scope, some child =>
    let allowed :=
      match store.node child with
      | .enum _ => true
      | .message _ => true
      | .scope _ => child != key
      | .field _ => false
    if !allowed then failDefinition (.contentInvalid (store.mention key) (store.mention child))
    setNode key (.scope { scope with content := scope.content ++ [child] })
  | _, _ => return

def clearScope (key : Key) : Work Unit := do
  match (← get).node key with
  | .scope scope => setNode key (.scope { scope with content := [] })
  | _ => return

def removeFromScope (key : Key) (kind : DefinitionKind) : Work Unit := do
  let store ← get
  match store.node key with
  | .scope scope =>
    setNode key (.scope
      { scope with content := scope.content.filter fun child => (store.node child).kind != kind })
  | _ => return

section
open MessageSchema (Message)

def placeEnum (decl : EnumDecl) : Work Key := do
  let name ← newName decl.name
  newNode (.enum ⟨some name, decl.items⟩)

def placeType : FieldType Identifier -> Work Key
  | .primitive primitive => primitiveType primitive.code
  | .user name => do
      -- A name has been found not to be blank when it was read.
      let key ← newName name
      newType { primitive := none, name := some key }

def placeField (field : Field Identifier) : Work Key := do
  let type ← placeType field.type
  let name ← newName (.single field.name)
  newNode (.field ⟨some name, type, field.modifiers, field.bounds, field.ordinal, field.default⟩)

/-- Builds a message from its parts, each of which has to pass its guard. -/
def buildMessage (node : MessageNode) : Work Key := do
  let key ← newNode (.message { name := node.name, announced := false, declared := node.declared })
  addParents key node.parents
  let add := fun child => addToMessage key (some child)
  node.enums.forM add
  node.messages.forM add
  node.fields.forM add
  return key

def buildScope (node : ScopeNode) : Work Key := do
  let key ← newNode (.scope { name := node.name })
  node.content.forM fun child => addToScope key (some child)
  return key

mutual

def placeMessage : Message Identifier -> Work Key
  | .external name => do
      let key ← newName name.current
      newNode (.message { name := some key, announced := true, declared := name.declared })
  | .defined name parents enums messages fields => do
      let key ← newName name.current
      let parents ← parents.mapM fun parent => return some (← newName parent)
      let enums ← enums.mapM placeEnum
      let messages ← placeMessages messages
      let fields ← fields.mapM placeField
      buildMessage
        { name := some key, announced := false, declared := name.declared, parents, enums,
          messages, fields }

def placeMessages : List (Message Identifier) -> Work (List Key)
  | [] => return []
  | message :: rest => do
      let key ← placeMessage message
      let others ← placeMessages rest
      return key :: others

end

mutual

def placeDeclaration : Declaration -> Work Key
  | .type (.enum decl) => placeEnum decl
  | .type (.message message) => placeMessage message
  | .scope name content => do
      let key ← newName name
      let content ← placeDeclarations content
      buildScope { name := some key, content }

def placeDeclarations : List Declaration -> Work (List Key)
  | [] => return []
  | declaration :: rest => do
      let key ← placeDeclaration declaration
      let others ← placeDeclarations rest
      return key :: others

end

def placeDocument (document : Document) : Work Key := do
  let content ← placeDeclarations document
  buildScope { name := none, content }

end

end MessageSchema.Workbench

import MessageSchema.Compile.Aliases
import MessageSchema.Compile.Dependencies

namespace MessageSchema.Workbench

/-!
A workbench for schemas, where definitions are built and changed piece by piece.

They hold each other by key in a store, so that places can share a definition, a
field type or a name, and see each other's changes.  The stages of compilation
work on the same store.  An action that fails keeps the changes made up to then.
-/

abbrev Key := Nat

/-- An enum, which is anonymous if it has no name. -/
structure EnumNode where
  name : Option Key
  items : List EnumItem := []

structure FieldNode where
  name : Option Key
  type : Key
  modifiers : Modifiers
  bounds : List Int
  ordinal : Option Int
  default : Option Literal

/-- A message with the names of its parents and the keys of what it holds.  The declared
name is that before aliasing. -/
structure MessageNode where
  name : Option Key
  announced : Bool
  declared : Option Identifier := none
  parents : List (Option Key) := []
  enums : List Key := []
  messages : List Key := []
  fields : List Key := []

structure ScopeNode where
  name : Option Key
  content : List Key := []

inductive Node where
  | enum (node : EnumNode)
  | field (node : FieldNode)
  | message (node : MessageNode)
  | scope (node : ScopeNode)

instance : Inhabited Node := ⟨.enum ⟨none, []⟩⟩

namespace Node

def kind : Node -> DefinitionKind
  | enum _ => .enum
  | field _ => .field
  | message _ => .message
  | scope _ => .scope

def name : Node -> Option Key
  | enum node => node.name
  | field node => node.name
  | message node => node.name
  | scope node => node.name

def withName (name : Option Key) : Node -> Node
  | enum node => .enum { node with name := name }
  | field node => .field { node with name := name }
  | message node => .message { node with name := name }
  | scope node => .scope { node with name := name }

end Node

/-- A field type: a primitive one, or a name that is resolved to a target once. -/
structure TypeNode where
  primitive : Option Primitive
  name : Option Key := none
  target : Option Key := none
deriving Inhabited

/-- A stage of compilation with the keys of its symbol table, aliases and references.
At work it keeps the definitions that it is inside of, the innermost first; for
aliasing, the messages visited and how entries of the table move; and for dependencies,
the messages to start from. -/
structure Runner where
  stage : Stage
  table : Key := 0
  aliases : Key := 0
  references : Key := 0
  stack : List Key := []
  messages : List Key := []
  renames : List (String × String) := []
  roots : List String := []

instance : Inhabited Runner := ⟨{ stage := .rename }⟩

def Runner.cleared (runner : Runner) : Runner :=
  { runner with stack := [], messages := [], renames := [], roots := [] }

/-- All that lies on the workbench. -/
structure Store where
  names : Array Identifier := #[]
  nodes : Array Node := #[]
  types : Array TypeNode := #[]
  tables : Array (SymbolTable Key) := #[]
  references : Array References := #[]
  aliases : Array Aliases := #[]
  runners : Array Runner := #[]

/-- Why an action failed.  A walk is endless if definitions hold each other in
a circle. -/
inductive Failure where
  | definition (error : DefinitionError)
  | compile (error : CompileError)
  | endless
deriving DecidableEq, Repr

def Failure.render : Failure -> String
  | definition error => error.render
  | compile error => error.render
  | endless => "endless definition"

abbrev Work := ExceptT Failure (StateM Store)

namespace Store

def node (store : Store) (key : Key) : Node :=
  store.nodes.getD key default

def type (store : Store) (key : Key) : TypeNode :=
  store.types.getD key default

def table (store : Store) (key : Key) : SymbolTable Key :=
  store.tables.getD key default

def referencesAt (store : Store) (key : Key) : References :=
  store.references.getD key default

def aliasesAt (store : Store) (key : Key) : Aliases :=
  store.aliases.getD key default

def runner (store : Store) (key : Key) : Runner :=
  store.runners.getD key default

def nameAt (store : Store) (key : Key) : Identifier :=
  store.names.getD key default

def name? (store : Store) (key : Option Key) : Option Identifier :=
  key.map store.nameAt

def nameText (store : Store) (key : Option Key) : String :=
  Identifier.textOf (store.name? key)

def id (store : Store) (key : Key) : Option Identifier :=
  store.name? (store.node key).name

def idText (store : Store) (key : Key) : String :=
  Identifier.textOf (store.id key)

def mention (store : Store) (key : Key) : Mention :=
  ⟨(store.node key).kind, store.idText key⟩

def stem (store : Store) (key : Key) : String :=
  (store.node key).kind.name ++ " " ++ store.idText key

def fieldName (store : Store) (field : FieldNode) : String :=
  (((store.name? field.name).map Identifier.segments).bind List.getLast?).getD ""

def typeText (store : Store) (key : Key) : String :=
  match (store.type key).primitive with
  | some primitive => primitive.keyword
  | none => store.nameText (store.type key).name

/-- A bound on the depth of what the store holds, unless something holds
itself. -/
def depth (store : Store) : Nat :=
  store.nodes.size + 1

end Store

def failDefinition {α : Type} (error : DefinitionError) : Work α :=
  throw (.definition error)

def failCompile {α : Type} (error : CompileError) : Work α :=
  throw (.compile error)

def liftCompile {α : Type} : Except CompileError α -> Work α
  | .ok value => return value
  | .error error => failCompile error

def newName (name : Identifier) : Work Key :=
  modifyGet fun store => (store.names.size, { store with names := store.names.push name })

def newNode (node : Node) : Work Key :=
  modifyGet fun store => (store.nodes.size, { store with nodes := store.nodes.push node })

def newType (type : TypeNode) : Work Key :=
  modifyGet fun store => (store.types.size, { store with types := store.types.push type })

def newTable : Work Key :=
  modifyGet fun store => (store.tables.size, { store with tables := store.tables.push .empty })

def newReferences : Work Key :=
  modifyGet fun store =>
    (store.references.size, { store with references := store.references.push .empty })

def newAliases (aliases : Aliases) : Work Key :=
  modifyGet fun store => (store.aliases.size, { store with aliases := store.aliases.push aliases })

def newRunner (runner : Runner) : Work Key :=
  modifyGet fun store => (store.runners.size, { store with runners := store.runners.push runner })

def setNameAt (key : Key) (name : Identifier) : Work Unit :=
  modify fun store => { store with names := store.names.setIfInBounds key name }

def setNode (key : Key) (node : Node) : Work Unit :=
  modify fun store => { store with nodes := store.nodes.setIfInBounds key node }

def setType (key : Key) (type : TypeNode) : Work Unit :=
  modify fun store => { store with types := store.types.setIfInBounds key type }

def setTable (key : Key) (table : SymbolTable Key) : Work Unit :=
  modify fun store => { store with tables := store.tables.setIfInBounds key table }

def setReferences (key : Key) (references : References) : Work Unit :=
  modify fun store => { store with references := store.references.setIfInBounds key references }

def setAliases (key : Key) (aliases : Aliases) : Work Unit :=
  modify fun store => { store with aliases := store.aliases.setIfInBounds key aliases }

def setRunner (key : Key) (runner : Runner) : Work Unit :=
  modify fun store => { store with runners := store.runners.setIfInBounds key runner }

end MessageSchema.Workbench

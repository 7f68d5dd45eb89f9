import MessageSchema.Compile.SymbolTable
import MessageSchema.Schema.Declaration

namespace MessageSchema

/-!
Entering the types of a flat schema in the symbol table.

The handle of a definition is its index in the order of visits, which stays the
same while names change.
-/

def SymbolTable.addDefinition {ρ : Type} (table : SymbolTable Nat) (handle : Nat) :
    TypeDecl ρ -> Except CompileError (SymbolTable Nat)
  | .enum decl => table.addEnum decl.name.text handle
  | .message decl =>
    match table.addMessage decl.id.text decl.isExtern handle with
    | .ok entered => .ok (entered.getD table)
    | .error error => .error error

def SymbolTable.addDefinitions {ρ : Type} (table : SymbolTable Nat) (handle : Nat) :
    List (TypeDecl ρ) -> Except CompileError (SymbolTable Nat)
  | [] => .ok table
  | definition :: rest =>
    match table.addDefinition handle definition with
    | .ok table => table.addDefinitions (handle + 1) rest
    | .error error => .error error

def Message.fieldKeys {ρ : Type} (message : Message ρ) : List (String × Option Int) :=
  message.fields.map fun field => (field.name, field.ordinal)

def checkMessages {ρ : Type} (definitions : List (TypeDecl ρ)) :
    List (String × MessageEntry Nat) -> Except CompileError Unit
  | [] => .ok ()
  | (name, entry) :: rest =>
    let fields :=
      match definitions[entry.handle]? with
      | some (.message message) => message.fieldKeys
      | _ => []
    match checkFields name fields with
    | .ok () => checkMessages definitions rest
    | .error error => .error error

/-- The symbol table of a flat schema.  Fields are checked in the order of the messages'
names. -/
def index {ρ : Type} (types : List (TypeDecl ρ)) : Except CompileError (SymbolTable Nat) :=
  let definitions := definitionsOf types
  match SymbolTable.empty.addDefinitions 0 definitions with
  | .error error => .error error
  | .ok table =>
    match checkMessages definitions table.messages.entries with
    | .ok () => .ok table
    | .error error => .error error

/-!
Resolving the names of types and parents.

A name is looked up as it stands, and then in the message and each scope around
it.  The full name replaces it; a field keeps the symbol as well.
-/

/-- A type of the schema that a field refers to: the full name and the
symbol. -/
structure Reference where
  name : Identifier
  symbol : Symbol Nat
deriving DecidableEq, Repr

/-- What names are resolved against: the symbol table, and the full names by handle. -/
structure Scope where
  table : SymbolTable Nat
  names : Array Identifier

namespace Scope

def of {ρ : Type} (types : List (TypeDecl ρ)) (table : SymbolTable Nat) : Scope :=
  ⟨table, ((definitionsOf types).map TypeDecl.id).toArray⟩

def nameOf (scope : Scope) (symbol : Symbol Nat) : Identifier :=
  scope.names.getD symbol.handle ⟨[]⟩

def reference? (scope : Scope) (name message : Identifier) : Option Reference :=
  (scope.table.resolve? name message).map fun symbol => ⟨scope.nameOf symbol, symbol⟩

def resolveParents (scope : Scope) (message : Identifier) :
    List Identifier -> Except CompileError (List Identifier)
  | [] => .ok []
  | parent :: rest =>
    match scope.reference? parent message with
    | none => .error (.parentUnresolved message.text parent.text)
    | some found =>
      if found.symbol.kind ≠ .message then
        .error (.parentNotMessage message.text ⟨found.symbol.kind, found.name.text⟩)
      else
        match scope.resolveParents message rest with
        | .ok parents => .ok (found.name :: parents)
        | .error error => .error error

def resolveType (scope : Scope) (message : Identifier) (field : String) :
    FieldType Identifier -> Except CompileError (FieldType Reference)
  | .primitive type => .ok (.primitive type)
  | .user name =>
    match scope.reference? name message with
    | some found => .ok (.user found)
    | none => .error (.typeUnresolved message.text field name.text)

def ordinalInRange (ordinal : Int) : Bool :=
  minOrdinal <= ordinal && ordinal <= maxOrdinal

def resolveField (scope : Scope) (message : Identifier) (field : Field Identifier) :
    Except CompileError (Field Reference) :=
  match field.ordinal.filter fun ordinal => !ordinalInRange ordinal with
  | some ordinal => .error (.ordinalOutOfRange message.text field.name ordinal)
  | none =>
    match scope.resolveType message field.name field.type with
    | .error error => .error error
    | .ok type =>
      .ok ⟨field.name, type, field.modifiers, field.bounds, field.ordinal, field.default⟩

def resolveFields (scope : Scope) (message : Identifier) :
    List (Field Identifier) -> Except CompileError (List (Field Reference))
  | [] => .ok []
  | field :: rest =>
    match scope.resolveField message field with
    | .error error => .error error
    | .ok resolved =>
      match scope.resolveFields message rest with
      | .error error => .error error
      | .ok fields => .ok (resolved :: fields)

mutual

def resolveMessage (scope : Scope) :
    Message Identifier -> Except CompileError (Message Reference)
  | .external name => .ok (.external name)
  | .defined name parents enums messages fields =>
    match scope.resolveParents name.current parents with
    | .error error => .error error
    | .ok parents =>
      match resolveMessages scope messages with
      | .error error => .error error
      | .ok messages =>
        match scope.resolveFields name.current fields with
        | .error error => .error error
        | .ok fields => .ok (.defined name parents enums messages fields)

def resolveMessages (scope : Scope) :
    List (Message Identifier) -> Except CompileError (List (Message Reference))
  | [] => .ok []
  | message :: rest =>
    match resolveMessage scope message with
    | .error error => .error error
    | .ok message =>
      match resolveMessages scope rest with
      | .error error => .error error
      | .ok messages => .ok (message :: messages)

end

def resolveTypes (scope : Scope) :
    List (TypeDecl Identifier) -> Except CompileError (List (TypeDecl Reference))
  | [] => .ok []
  | .enum decl :: rest =>
    match scope.resolveTypes rest with
    | .error error => .error error
    | .ok types => .ok (.enum decl :: types)
  | .message decl :: rest =>
    match scope.resolveMessage decl with
    | .error error => .error error
    | .ok message =>
      match scope.resolveTypes rest with
      | .error error => .error error
      | .ok types => .ok (.message message :: types)

end Scope

def resolve (types : List (TypeDecl Identifier)) (table : SymbolTable Nat) :
    Except CompileError (List (TypeDecl Reference)) :=
  (Scope.of types table).resolveTypes types

end MessageSchema

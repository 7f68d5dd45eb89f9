import MessageSchema.Compile.Error
import MessageSchema.Name.Table

namespace MessageSchema

/-!
The symbol table of a schema.

Enums and messages are entered under their qualified names, with a handle `δ`
that leads to the definition.  A name has one kind only, and the announcement of
a message gives way to its definition.
-/

/-- The entry of a message: its handle, and whether the message is announced
only. -/
structure MessageEntry (δ : Type) where
  handle : δ
  announced : Bool
deriving DecidableEq, Repr

inductive Symbol (δ : Type) where
  | enum (handle : δ)
  | message (handle : δ)
deriving DecidableEq, Repr

namespace Symbol

variable {δ : Type}

def kind : Symbol δ -> DefinitionKind
  | enum _ => .enum
  | message _ => .message

def handle : Symbol δ -> δ
  | enum handle => handle
  | message handle => handle

end Symbol

structure SymbolTable (δ : Type) where
  enums : Name.Table δ
  messages : Name.Table (MessageEntry δ)

namespace SymbolTable

variable {δ : Type}

def empty : SymbolTable δ := ⟨.empty, .empty⟩

instance : Inhabited (SymbolTable δ) := ⟨empty⟩

def find? (table : SymbolTable δ) (name : String) : Option (Symbol δ) :=
  match table.enums.find? name with
  | some handle => some (.enum handle)
  | none => (table.messages.find? name).map fun entry => .message entry.handle

def addEnum (table : SymbolTable δ) (name : String) (handle : δ) :
    Except CompileError (SymbolTable δ) :=
  match table.find? name with
  | some existing => .error (.typeNameConflict name existing.kind .enum)
  | none => .ok { table with enums := table.enums.insert name handle }

/-- Enters a message.  Its name must be free, or one of the two messages of the name
only announced; an announcement of a known message enters nothing. -/
def addMessage (table : SymbolTable δ) (name : String) (announced : Bool) (handle : δ) :
    Except CompileError (Option (SymbolTable δ)) :=
  if table.enums.contains name then
    .error (.typeNameConflict name .enum .message)
  else
    let entered := { table with messages := table.messages.insert name ⟨handle, announced⟩ }
    match table.messages.find? name with
    | none => .ok (some entered)
    | some existing =>
      if announced then .ok none
      else if existing.announced then .ok (some entered)
      else .error (.messageAlreadyDefined name)

/-- A scope and the scopes around it, from the innermost outwards. -/
def scopesOutward (scope : Identifier) : List Identifier :=
  (List.range scope.segments.length).reverse.map fun depth =>
    ⟨scope.segments.take (depth + 1)⟩

/-- The names that a name may stand for, as seen from a scope: as written, and then in
the scope and each scope around it. -/
def candidates (name scope : Identifier) : List String :=
  name.text :: (scopesOutward scope).map fun outer => (outer.append name).text

def resolve? (table : SymbolTable δ) (name scope : Identifier) : Option (Symbol δ) :=
  (candidates name scope).findSome? table.find?

/-- Gives each of the old names its new one.  The error is the first name that would
have to share its new name; of the two, the one that was moved is reported. -/
def claimNames (renamed : String -> String) (owners : Name.Table String) :
    List String -> Except CompileError (Name.Table String)
  | [] => .ok owners
  | name :: rest =>
    match owners.find? (renamed name) with
    | some earlier =>
      .error (.aliasedNameConflict (if name = renamed name then earlier else name)
        (renamed name))
    | none => claimNames renamed (owners.insert (renamed name) name) rest

/-- Renames entries in one step, by `renames`.  Only the names afterwards must differ,
so the order of the moves does not matter. -/
def rekey (table : SymbolTable δ) (renames : Name.Table String) :
    Except CompileError (SymbolTable δ) :=
  let renamed := fun name => (renames.find? name).getD name
  match claimNames renamed .empty (table.enums.names ++ table.messages.names) with
  | .error error => .error error
  | .ok _ =>
    .ok
      { enums := .ofList (table.enums.entries.map fun entry => (renamed entry.1, entry.2))
        messages :=
          .ofList (table.messages.entries.map fun entry => (renamed entry.1, entry.2)) }

def listing (table : SymbolTable δ) : List (String × DefinitionKind) :=
  (Name.Table.ofList
    (table.enums.names.map (·, DefinitionKind.enum)
      ++ table.messages.names.map (·, DefinitionKind.message))).entries

end SymbolTable

/-- Checks that fields differ in their names and ordinals, given those so far. -/
def checkFieldsFrom (message : String) (names : List String) (ordinals : List (Int × String)) :
    List (String × Option Int) -> Except CompileError Unit
  | [] => .ok ()
  | (name, ordinal) :: rest =>
    if names.contains name then .error (.fieldNameConflict message name)
    else
      match ordinal with
      | none => checkFieldsFrom message (name :: names) ordinals rest
      | some number =>
        match ordinals.lookup number with
        | some earlier => .error (.ordinalConflict message number earlier name)
        | none => checkFieldsFrom message (name :: names) ((number, name) :: ordinals) rest

def checkFields (message : String) (fields : List (String × Option Int)) :
    Except CompileError Unit :=
  checkFieldsFrom message [] [] fields

end MessageSchema

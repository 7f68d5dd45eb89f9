import MessageSchema.Compile.Aliases
import MessageSchema.Compile.Resolved

namespace MessageSchema

/-!
Giving the types of a resolved schema their aliased names, in the schema and in
the symbol table.  A message remembers the name it had.
-/

section
variable (aliases : Aliases)

def EnumDecl.alias (decl : EnumDecl) : EnumDecl :=
  { decl with name := aliases.applyScope decl.name }

def MessageName.alias (name : MessageName) : MessageName :=
  ⟨aliases.applyScope name.current, some (name.declared.getD name.current)⟩

def Reference.alias (reference : Reference) : Reference :=
  { reference with name := aliases.applyScope reference.name }

def FieldType.alias : FieldType Reference -> FieldType Reference
  | .primitive type => .primitive type
  | .user reference => .user (reference.alias aliases)

def Field.alias (field : Field Reference) : Field Reference :=
  { field with type := field.type.alias aliases }

mutual

def Message.alias : Message Reference -> Message Reference
  | .external name => .external (name.alias aliases)
  | .defined name parents enums messages fields =>
    .defined (name.alias aliases) (parents.map aliases.applyScope)
      (enums.map (EnumDecl.alias aliases)) (Message.aliasAll messages)
      (fields.map (Field.alias aliases))

def Message.aliasAll : List (Message Reference) -> List (Message Reference)
  | [] => []
  | message :: rest => Message.alias message :: Message.aliasAll rest

end

def TypeDecl.alias : TypeDecl Reference -> TypeDecl Reference
  | .enum decl => .enum (decl.alias aliases)
  | .message decl => .message (Message.alias aliases decl)

def renamesOf (scope : Scope) : Name.Table String :=
  let renamed := fun (symbol : Symbol Nat) => (aliases.applyScope (scope.nameOf symbol)).text
  .ofList
    (scope.table.enums.entries.map (fun entry => (entry.1, renamed (.enum entry.2)))
      ++ scope.table.messages.entries.map fun entry =>
          (entry.1, renamed (.message entry.2.handle)))

end

/-- Renames the types of a schema and the entries of its symbol table.  No two types may
end up with the same name. -/
def aliasNames (aliases : Aliases) (types : List (TypeDecl Reference))
    (table : SymbolTable Nat) :
    Except CompileError (List (TypeDecl Reference) × SymbolTable Nat) :=
  match table.rekey (renamesOf aliases (Scope.of types table)) with
  | .ok table => .ok (types.map (TypeDecl.alias aliases), table)
  | .error error => .error error

end MessageSchema

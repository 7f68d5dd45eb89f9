import MessageSchema.Schema.Error

namespace MessageSchema

/-!
The stages of compilation and what can go wrong in them.
-/

/-- The stages of compilation in their order: names are qualified, namespaces dissolved,
types indexed, references resolved, names aliased, dependencies collected. -/
inductive Stage where
  | rename
  | flatten
  | index
  | resolve
  | substitute
  | depend
deriving DecidableEq, Repr, Inhabited

def Stage.name : Stage -> String
  | rename => "RENAME"
  | flatten => "FLATTEN"
  | index => "INDEX"
  | resolve => "RESOLVE"
  | substitute => "ALIAS"
  | depend => "EXTRESOLVE"

def minOrdinal : Int := 1

def maxOrdinal : Int := 32767

inductive CompileError where
  | typeNameConflict (name : String) (existing incoming : DefinitionKind)
  | messageAlreadyDefined (name : String)
  | fieldNameConflict (message field : String)
  | ordinalConflict (message : String) (ordinal : Int) (earlier field : String)
  | typeUnresolved (message field type : String)
  | parentUnresolved (message parent : String)
  | parentNotMessage (message : String) (parent : Mention)
  | ordinalOutOfRange (message field : String) (ordinal : Int)
  | aliasCollision (path : String) (index : Nat) (segment : String)
  | aliasEmpty
  | aliasedNameConflict (source target : String)
  | outerScopeAlreadySet (current : String)
  | rootNamed (stage : Stage) (root : Mention)
  | notFlattened (stage : Stage) (name : String)
  | anonymous (stage : Stage) (kind : DefinitionKind)
  | definitionUnexpected (stage : Stage) (definition : Mention)
  | typeNotResolved (message field : String)
deriving DecidableEq, Repr, Inhabited

namespace CompileError

def code : CompileError -> Nat
  | typeNameConflict _ _ _ => 3000
  | messageAlreadyDefined _ => 3001
  | fieldNameConflict _ _ => 3002
  | ordinalConflict _ _ _ _ => 3003
  | typeUnresolved _ _ _ => 3004
  | parentUnresolved _ _ => 3005
  | parentNotMessage _ _ => 3006
  | ordinalOutOfRange _ _ _ => 3007
  | aliasCollision _ _ _ => 3008
  | aliasEmpty => 3009
  | aliasedNameConflict _ _ => 3010
  | outerScopeAlreadySet _ => 3011
  | rootNamed _ _ => 6000
  | notFlattened _ _ => 6001
  | anonymous _ _ => 6002
  | definitionUnexpected _ _ => 9000
  | typeNotResolved _ _ => 9001

def blame : CompileError -> Blame
  | typeNameConflict _ _ _ | messageAlreadyDefined _ | fieldNameConflict _ _
  | ordinalConflict _ _ _ _ | typeUnresolved _ _ _ | parentUnresolved _ _
  | parentNotMessage _ _ | ordinalOutOfRange _ _ _ | aliasCollision _ _ _ | aliasEmpty
  | aliasedNameConflict _ _ | outerScopeAlreadySet _ => .semantic
  | rootNamed _ _ | notFlattened _ _ | anonymous _ _ => .usage
  | definitionUnexpected _ _ | typeNotResolved _ _ => .internal

def message : CompileError -> String
  | typeNameConflict name existing incoming =>
    "Type name '" ++ name ++ "' of " ++ incoming.name ++ " is already used by " ++
      existing.name
  | messageAlreadyDefined name => "Message '" ++ name ++ "' is already defined"
  | fieldNameConflict message field =>
    "Duplicate field name '" ++ field ++ "' in message '" ++ message ++ "'"
  | ordinalConflict message ordinal earlier field =>
    "Ordinal " ++ toString ordinal ++ " of field '" ++ field ++ "' in message '" ++ message ++
      "' is already used by field '" ++ earlier ++ "'"
  | typeUnresolved message field type =>
    "Cannot resolve type '" ++ type ++ "' of field '" ++ field ++ "' in message '" ++
      message ++ "'"
  | parentUnresolved message parent =>
    "Cannot resolve parent '" ++ parent ++ "' of message '" ++ message ++ "'"
  | parentNotMessage message parent =>
    "Parent '" ++ parent.name ++ "' of message '" ++ message ++ "' is " ++
      parent.kind.name ++ ", not a message"
  | ordinalOutOfRange message field ordinal =>
    "Ordinal " ++ toString ordinal ++ " of field '" ++ field ++ "' in message '" ++ message ++
      "' is out of range (must be between " ++ toString minOrdinal ++ " and " ++
      toString maxOrdinal ++ ")"
  | aliasCollision path index segment =>
    "Alias '" ++ path ++ "' collides with an existing alias at segment " ++ toString index ++
      " ('" ++ segment ++ "')"
  | aliasEmpty => "Alias source must not be empty"
  | aliasedNameConflict source target =>
    "Aliasing '" ++ source ++ "' to '" ++ target ++ "' conflicts with an existing type"
  | outerScopeAlreadySet current => "Alias prefix is already set to '" ++ current ++ "'"
  | rootNamed stage root =>
    stage.name ++ " stage requires an anonymous root namespace, got " ++ root.render
  | notFlattened stage name =>
    stage.name ++ " stage requires a flattened tree, found namespace '" ++ name ++ "'"
  | anonymous stage kind =>
    stage.name ++ " stage found an anonymous " ++ kind.name ++ " below the root"
  | definitionUnexpected stage definition =>
    stage.name ++ " stage cannot visit " ++ definition.render ++ " directly"
  | typeNotResolved message field =>
    "Type of field '" ++ field ++ "' in message '" ++ message ++ "' was not resolved"

def render (error : CompileError) : String :=
  "E" ++ toString error.code ++ ": " ++ error.message

end CompileError
end MessageSchema

import MessageSchema.Name.Identifier
import MessageSchema.Schema.Literal

namespace MessageSchema

/-!
The kinds of definitions and of failures, with their names and numbers.
-/

inductive DefinitionKind where
  | enum
  | field
  | message
  | scope
deriving DecidableEq, Repr, Inhabited

namespace DefinitionKind

def name : DefinitionKind -> String
  | enum => "enum"
  | field => "field"
  | message => "message"
  | scope => "namespace"

def ofCode? : Nat -> Option DefinitionKind
  | 1 => some enum
  | 2 => some field
  | 3 => some message
  | 4 => some scope
  | _ => none

def nameOfCode (code : Nat) : String :=
  match ofCode? code with
  | some kind => kind.name
  | none => "Kind(" ++ toString code ++ ")"

end DefinitionKind

/-- Whose fault a failure is: that of the caller, of the schema, or of the compiler. -/
inductive Blame where
  | usage
  | semantic
  | internal
deriving DecidableEq, Repr, Inhabited

namespace Blame

def name : Blame -> String
  | usage => "usage"
  | semantic => "semantic"
  | internal => "internal"

def ofCode? : Nat -> Option Blame
  | 1 => some usage
  | 2 => some semantic
  | 3 => some internal
  | _ => none

def nameOfCode (code : Nat) : String :=
  match ofCode? code with
  | some blame => blame.name
  | none => "ErrorKind(" ++ toString code ++ ")"

end Blame

/-!
What can be wrong with a definition.

Every failure has a number, a blame and a message.  A missing name is shown as
`NULL`.
-/

structure Mention where
  kind : DefinitionKind
  name : String
deriving DecidableEq, Repr, Inhabited

def Mention.render (mention : Mention) : String :=
  mention.kind.name ++ " '" ++ mention.name ++ "'"

inductive DefinitionError where
  | identifierEmpty
  | identifierAlreadySet (current : String)
  | identifierNotSet
  | notPrimitive (type : String)
  | userTypeBlank
  | typeAlreadyResolved (type : String)
  | typeTargetInvalid (type : String) (target : Option Mention)
  | requiredAndOptional
  | mutableAndReadonly
  | repeatedUnsupported
  | defaultMismatch (field type : String) (value : Literal)
  | boundNotPositive (field : String) (bound : Int)
  | externParents (message : String)
  | parentIndex (message : String) (index : Int) (count : Nat)
  | contentInvalid (container content : Mention)
  | contentMissing (container : Mention)
  | definitionMissing
  | externBody (message : String)
  | fieldNameEmpty
  | enumOverflow (enum item : String)
deriving DecidableEq, Repr, Inhabited

namespace DefinitionError

def code : DefinitionError -> Nat
  | identifierEmpty => 5000
  | identifierAlreadySet _ => 5001
  | identifierNotSet => 5002
  | notPrimitive _ => 5003
  | userTypeBlank => 5004
  | typeAlreadyResolved _ => 5005
  | typeTargetInvalid _ _ => 5006
  | requiredAndOptional => 5007
  | mutableAndReadonly => 5008
  | repeatedUnsupported => 5009
  | defaultMismatch _ _ _ => 5010
  | boundNotPositive _ _ => 5011
  | externParents _ => 5012
  | parentIndex _ _ _ => 5013
  | contentInvalid _ _ => 5014
  | contentMissing _ => 5015
  | definitionMissing => 5016
  | externBody _ => 5017
  | fieldNameEmpty => 5018
  | enumOverflow _ _ => 5019

def blame : DefinitionError -> Blame
  | identifierEmpty | identifierAlreadySet _ | identifierNotSet | notPrimitive _
  | typeAlreadyResolved _ | typeTargetInvalid _ _ | parentIndex _ _ _ | contentMissing _
  | definitionMissing => .internal
  | contentInvalid _ _ => .usage
  | userTypeBlank | requiredAndOptional | mutableAndReadonly | repeatedUnsupported
  | defaultMismatch _ _ _ | boundNotPositive _ _ | externParents _ | externBody _
  | fieldNameEmpty | enumOverflow _ _ => .semantic

def message : DefinitionError -> String
  | identifierEmpty => "Cannot pop from an empty identifier"
  | identifierAlreadySet current =>
    "Definition '" ++ current ++ "' already has an identifier"
  | identifierNotSet => "Cannot reset the identifier of an anonymous definition"
  | notPrimitive type => type ++ " is not a primitive field type"
  | userTypeBlank => "User field type requires a non-empty type name"
  | typeAlreadyResolved type => "Field type '" ++ type ++ "' has already been resolved"
  | typeTargetInvalid type none => "Field type '" ++ type ++ "' cannot resolve to nil"
  | typeTargetInvalid type (some target) =>
    "Field type '" ++ type ++ "' cannot resolve to " ++ target.render
  | requiredAndOptional =>
    "Field modifiers 'required' and 'optional' are mutually exclusive"
  | mutableAndReadonly =>
    "Field modifiers 'mutable' and 'readonly' are mutually exclusive"
  | repeatedUnsupported =>
    "Field modifier 'repeated' is not supported, use an array bound instead"
  | defaultMismatch field type value =>
    "Default value " ++ value.render ++ " (" ++ value.typeName ++ ") of field '" ++ field ++
      "' is not compatible with type " ++ type
  | boundNotPositive field bound =>
    "Array bound " ++ toString bound ++ " of field '" ++ field ++ "' must be positive"
  | externParents message => "Extern message '" ++ message ++ "' cannot declare parents"
  | parentIndex message index count =>
    "Parent index " ++ toString index ++ " out of range for message '" ++ message ++ "' (" ++
      toString count ++ " parents)"
  | contentInvalid container content =>
    container.render ++ " cannot contain " ++ content.render
  | contentMissing container => "Cannot add nil content to " ++ container.render
  | definitionMissing => "Walker cannot dispatch definition of type <nil>"
  | externBody message => "Extern message '" ++ message ++ "' cannot have a body"
  | fieldNameEmpty => "Field name must not be empty"
  | enumOverflow enum item =>
    "Value of item '" ++ item ++ "' in enum '" ++ enum ++ "' overflows int32"

def render (error : DefinitionError) : String :=
  "E" ++ toString error.code ++ ": " ++ error.message

end DefinitionError
end MessageSchema

import MessageSchema.Schema.Declaration

namespace MessageSchema

/-!
From a document to a flat list of types with qualified names.

The names of all enclosing namespaces and messages are put in front of a name.
Then the namespaces are dissolved, each with its own types before those of the
namespaces in it.
-/

def EnumDecl.qualify (scope : Identifier) (decl : EnumDecl) : EnumDecl :=
  { decl with name := scope.append decl.name }

def MessageName.qualify (scope : Identifier) (name : MessageName) : MessageName :=
  { name with current := scope.append name.current }

mutual

def Message.qualify {ρ : Type} (scope : Identifier) : Message ρ -> Message ρ
  | .external name => .external (name.qualify scope)
  | .defined name parents enums messages fields =>
    .defined (name.qualify scope) parents
      (enums.map (EnumDecl.qualify (scope.append name.current)))
      (Message.qualifyAll (scope.append name.current) messages) fields

def Message.qualifyAll {ρ : Type} (scope : Identifier) : List (Message ρ) -> List (Message ρ)
  | [] => []
  | message :: rest => message.qualify scope :: Message.qualifyAll scope rest

end

def TypeDecl.qualify {ρ : Type} (scope : Identifier) : TypeDecl ρ -> TypeDecl ρ
  | .enum decl => .enum (decl.qualify scope)
  | .message decl => .message (decl.qualify scope)

mutual

/-- A declaration with all types in it under their full names.  Namespaces keep
their names. -/
def Declaration.qualify (scope : Identifier) : Declaration -> Declaration
  | .type decl => .type (decl.qualify scope)
  | .scope name content => .scope name (Declaration.qualifyAll (scope.append name) content)

def Declaration.qualifyAll (scope : Identifier) : List Declaration -> List Declaration
  | [] => []
  | declaration :: rest => declaration.qualify scope :: Declaration.qualifyAll scope rest

end

def Identifier.outermost : Identifier := ⟨[]⟩

def qualify (document : Document) : Document :=
  Declaration.qualifyAll .outermost document

def Declaration.type? : Declaration -> Option (TypeDecl Identifier)
  | .type decl => some decl
  | .scope _ _ => none

mutual

/-- The types of a namespace, its own first; a type has no such content. -/
def Declaration.innerTypes : Declaration -> List (TypeDecl Identifier)
  | .type _ => []
  | .scope _ content => content.filterMap Declaration.type? ++ Declaration.innerTypesOf content

def Declaration.innerTypesOf : List Declaration -> List (TypeDecl Identifier)
  | [] => []
  | declaration :: rest => declaration.innerTypes ++ Declaration.innerTypesOf rest

end

def flatten (document : Document) : List (TypeDecl Identifier) :=
  document.filterMap Declaration.type? ++ Declaration.innerTypesOf document

end MessageSchema

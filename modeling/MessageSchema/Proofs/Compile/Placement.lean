import MessageSchema.Compile.Flat
import MessageSchema.Proofs.Schema.Definitions

namespace MessageSchema

open List

/-!
Where the types of a document are placed: in the scope of the namespaces and
messages around them.  Qualifying and flattening change the order of types, but
neither lose nor double one, and every type ends up under the name that its place
gives it.
-/

/-- A type as it is written, and the scope that it is written in. -/
structure Placed where
  scope : Identifier
  type : TypeDecl Identifier

namespace Placed

def name (placed : Placed) : Identifier :=
  placed.scope.append placed.type.id

/-- The type under its full name. -/
def qualified (placed : Placed) : TypeDecl Identifier :=
  placed.type.qualify placed.scope

end Placed

mutual

/-- The places of a message and of all types in it. -/
def Message.placed (scope : Identifier) : Message Identifier -> List Placed
  | .external name => [⟨scope, .message (.external name)⟩]
  | .defined name parents enums messages fields =>
    ⟨scope, .message (.defined name parents enums messages fields)⟩ ::
      (enums.map (fun decl => ⟨scope.append name.current, .enum decl⟩)
        ++ Message.placedAll (scope.append name.current) messages)

def Message.placedAll (scope : Identifier) : List (Message Identifier) -> List Placed
  | [] => []
  | message :: rest => message.placed scope ++ Message.placedAll scope rest

end

def TypeDecl.placed (scope : Identifier) : TypeDecl Identifier -> List Placed
  | .enum decl => [⟨scope, .enum decl⟩]
  | .message decl => decl.placed scope

mutual

def Declaration.placed (scope : Identifier) : Declaration -> List Placed
  | .type decl => decl.placed scope
  | .scope name content => Declaration.placedAll (scope.append name) content

def Declaration.placedAll (scope : Identifier) : List Declaration -> List Placed
  | [] => []
  | declaration :: rest => declaration.placed scope ++ Declaration.placedAll scope rest

end

/-- Every enum and message of a document at any depth, with its place. -/
def declared (document : Document) : List Placed :=
  Declaration.placedAll .outermost document

section
variable (scope : Identifier)

lemma Message.placedAll_eq_flatMap (messages : List (Message Identifier)) :
    Message.placedAll scope messages = messages.flatMap (Message.placed scope) := by
  induction messages with
  | nil => rfl
  | cons message rest ih => rw [Message.placedAll, ih, flatMap_cons]

lemma Message.placed_defined (name : MessageName) (parents : List Identifier)
    (enums : List EnumDecl) (messages : List (Message Identifier))
    (fields : List (Field Identifier)) :
    (Message.defined name parents enums messages fields).placed scope =
      ⟨scope, .message (.defined name parents enums messages fields)⟩ ::
        (enums.map (fun decl => ⟨scope.append name.current, .enum decl⟩)
          ++ messages.flatMap (Message.placed (scope.append name.current))) := by
  rw [Message.placed, Message.placedAll_eq_flatMap]

lemma Message.qualifyAll_eq_map (messages : List (Message Identifier)) :
    Message.qualifyAll scope messages = messages.map (Message.qualify scope) := by
  induction messages with
  | nil => rfl
  | cons message rest ih => rw [Message.qualifyAll, ih, map_cons]

lemma Declaration.qualifyAll_eq_map (content : List Declaration) :
    Declaration.qualifyAll scope content = content.map (Declaration.qualify scope) := by
  induction content with
  | nil => rfl
  | cons declaration rest ih => rw [Declaration.qualifyAll, ih, map_cons]

@[simp] lemma TypeDecl.id_qualify (type : TypeDecl Identifier) :
    (type.qualify scope).id = scope.append type.id := by
  rcases type with decl | message
  · rfl
  · cases message <;> rfl

@[simp] lemma Placed.id_qualified (placed : Placed) : placed.qualified.id = placed.name :=
  TypeDecl.id_qualify _ _

/-- A qualified message holds the types of the message, each under the name of
its place, in the same order. -/
lemma Message.definitions_qualify (message : Message Identifier) :
    (message.qualify scope).definitions = (message.placed scope).map Placed.qualified := by
  induction message using Message.nestedInduction generalizing scope with
  | external name => rfl
  | defined name parents enums messages fields ih =>
    have inner : (messages.map (Message.qualify (scope.append name.current))).flatMap
          Message.definitions =
        (messages.flatMap (Message.placed (scope.append name.current))).map
          Placed.qualified := by
      rw [flatMap_map, map_flatMap]
      exact flatMap_congr fun message member => ih message member _
    rw [Message.placed_defined, map_cons, map_append, ← inner]
    rw [Message.qualify, Message.definitions_defined, Message.qualifyAll_eq_map]
    simp only [List.map_map]
    congr 1
    rw [Placed.qualified, TypeDecl.qualify, Message.qualify, Message.qualifyAll_eq_map]

lemma TypeDecl.definitions_qualify (type : TypeDecl Identifier) :
    (type.qualify scope).definitions = (type.placed scope).map Placed.qualified := by
  rcases type with decl | message
  · rfl
  · exact message.definitions_qualify scope

end

mutual

/-- The types of a declaration outside of messages, with their places. -/
def Declaration.outer (scope : Identifier) : Declaration -> List Placed
  | .type decl => [⟨scope, decl⟩]
  | .scope name content => Declaration.outerAll (scope.append name) content

/-- The types of several declarations outside of messages, with their places. -/
def Declaration.outerAll (scope : Identifier) : List Declaration -> List Placed
  | [] => []
  | declaration :: rest => declaration.outer scope ++ Declaration.outerAll scope rest

end

/-- The types of a document outside of messages, each with the namespaces that
it is written in. -/
def outerTypes (document : Document) : List Placed :=
  Declaration.outerAll .outermost document

mutual

private lemma placed_eq_flatMap_outer (scope : Identifier) : ∀ declaration : Declaration,
    declaration.placed scope =
      (declaration.outer scope).flatMap fun placed => placed.type.placed placed.scope
  | .type decl => by
    rw [Declaration.placed, Declaration.outer, flatMap_singleton]
  | .scope name content => by
    rw [Declaration.placed, Declaration.outer]
    exact placedAll_eq_flatMap_outerAll (scope.append name) content

private lemma placedAll_eq_flatMap_outerAll (scope : Identifier) : ∀ content : List Declaration,
    Declaration.placedAll scope content =
      (Declaration.outerAll scope content).flatMap fun placed => placed.type.placed placed.scope
  | [] => rfl
  | declaration :: rest => by
    rw [Declaration.placedAll, Declaration.outerAll, flatMap_append,
      placed_eq_flatMap_outer scope declaration, placedAll_eq_flatMap_outerAll scope rest]

end

/-- The types of a document are those outside of messages and what is in them. -/
lemma declared_eq_flatMap (document : Document) : declared document =
      (outerTypes document).flatMap fun placed => placed.type.placed placed.scope :=
  placedAll_eq_flatMap_outerAll .outermost document

/-- The types of declarations outside of messages, the namespaces' own ones
first. -/
private def flatTypes (content : List Declaration) : List (TypeDecl Identifier) :=
  content.filterMap Declaration.type? ++ Declaration.innerTypesOf content

private lemma flatTypes_type (decl : TypeDecl Identifier) (rest : List Declaration) :
    flatTypes (.type decl :: rest) = decl :: flatTypes rest := by
  rw [flatTypes, filterMap_cons_some (rfl : Declaration.type? (.type decl) = some decl),
    Declaration.innerTypesOf, Declaration.innerTypes, nil_append, cons_append, flatTypes]

private lemma flatTypes_scope (name : Identifier) (content rest : List Declaration) :
    (flatTypes (.scope name content :: rest)).Perm (flatTypes content ++ flatTypes rest) := by
  rw [flatTypes, filterMap_cons_none (rfl : Declaration.type? (.scope name content) = none),
    Declaration.innerTypesOf, Declaration.innerTypes, ← flatTypes, flatTypes.eq_1 rest]
  rw [← List.append_assoc, ← List.append_assoc]
  exact .append_right _ perm_append_comm

mutual

private lemma perm_outer_cons (scope : Identifier) (rest : List Declaration)
    (others : (flatTypes (Declaration.qualifyAll scope rest)).Perm
      ((Declaration.outerAll scope rest).map Placed.qualified)) :
    ∀ declaration : Declaration,
      (flatTypes (declaration.qualify scope :: Declaration.qualifyAll scope rest)).Perm
        ((declaration.outer scope ++ Declaration.outerAll scope rest).map Placed.qualified)
  | .type decl => by
    rw [Declaration.qualify, flatTypes_type, Declaration.outer, map_append]
    exact others.cons _
  | .scope name content => by
    rw [Declaration.qualify, map_append, Declaration.outer]
    exact (flatTypes_scope _ _ _).trans
      ((perm_outerAll (scope.append name) content).append others)

private lemma perm_outerAll (scope : Identifier) : ∀ content : List Declaration,
    (flatTypes (Declaration.qualifyAll scope content)).Perm
      ((Declaration.outerAll scope content).map Placed.qualified)
  | [] => .refl _
  | declaration :: rest => perm_outer_cons scope rest (perm_outerAll scope rest) declaration

end

/-- The types of the flat schema are the outer types of the document, under the names of
their places, each once. -/
lemma perm_outerTypes (document : Document) :
    (flatten (qualify document)).Perm ((outerTypes document).map Placed.qualified) :=
  perm_outerAll .outermost document

/-- The definitions of the flat schema are the types of the document under the
names of their places, each of them once. -/
lemma perm_declared (document : Document) : (definitionsOf (flatten (qualify document))).Perm
      ((declared document).map Placed.qualified) := by
  have inner : definitionsOf ((outerTypes document).map Placed.qualified) =
      (declared document).map Placed.qualified := by
    rw [definitionsOf, flatMap_map, declared_eq_flatMap, map_flatMap]
    exact flatMap_congr fun placed _ => placed.type.definitions_qualify placed.scope
  rw [← inner]
  exact (perm_outerTypes document).flatMap_right _

end MessageSchema

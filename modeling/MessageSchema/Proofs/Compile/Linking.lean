import MessageSchema.Proofs.Compile.Stages

namespace MessageSchema

open List

/-!
How the definitions of a schema hang together.

A type that is declared in a message is named as its member.  And the parents and
field types of a message, once resolved, lead through the symbol table to
definitions.  Resolving keeps the first tie and makes the second; renaming keeps
only the latter.
-/

variable {aliases : Aliases} {names : List Identifier} {next : SymbolTable Nat}

/-- Every type that is declared in the message is named as its member. -/
def Message.NamesMembers {ρ : Type} (message : Message ρ) : Prop :=
  (∀ inner ∈ message.enums, inner.name.parent? = some message.id) ∧
    ∀ inner ∈ message.messages, inner.id.parent? = some message.id

variable {scope : Identifier} {resolved : Message Reference} {written : Message Identifier}
    {definitions : List (TypeDecl Reference)} {table : SymbolTable Nat}

lemma Identifier.parent?_append_single (filled : scope.segments ≠ []) (word : String) :
    (scope.append (.single word)).parent? = some scope := by
  have long : ¬ (scope.append (.single word)).segments.length < 2 := by
    have := length_pos_of_ne_nil filled
    simp only [Identifier.append, Identifier.single, length_append, length_singleton]
    omega
  rw [Identifier.parent?, if_neg long, Identifier.append, Identifier.single]
  simp

lemma Document.Sound.namesMembers {document : Document} (sound : Document.Sound document)
    {decl : Message Identifier}
    (member : .message decl ∈ definitionsOf (flatten (qualify document))) : decl.NamesMembers := by
  rcases message_mem_definitionsOf_flatten.mp member with ⟨placed, listed, written, isWritten, same⟩
  have filled := (sound placed listed).proper_name.some
  have type := (sound placed listed).type
  rw [Placed.name, isWritten] at filled
  rw [isWritten] at type
  cases written with
  | external name =>
    rw [← same, Message.qualify]
    exact ⟨fun _ none => absurd none not_mem_nil, fun _ none => absurd none not_mem_nil⟩
  | defined name parents enums messages fields =>
    rcases type with ⟨_, _, namedEnums, namedMessages⟩
    rw [← same, Message.qualify, Message.qualifyAll_eq_map]
    constructor
    · intro inner inside
      rcases List.mem_map.mp inside with ⟨decl, declared, isInner⟩
      rcases (namedEnums decl declared).id_eq with ⟨word, _, named⟩
      rw [← isInner, EnumDecl.qualify, show decl.name = .single word from named]
      exact Identifier.parent?_append_single filled word
    · intro inner inside
      rcases List.mem_map.mp inside with ⟨decl, declared, isInner⟩
      rcases (namedMessages decl declared).id_eq with ⟨word, _, named⟩
      rw [← isInner, show (decl.qualify _).id = _ from TypeDecl.id_qualify _ (.message decl),
        named]
      exact Identifier.parent?_append_single filled word

lemma Scope.Completes.namesMembers {scope : Scope} (completes : scope.Completes written resolved)
    (names : written.NamesMembers) : resolved.NamesMembers := by
  have sameId : resolved.id = written.id := congrArg MessageName.current completes.name
  rw [Message.NamesMembers, completes.enums, sameId]
  refine ⟨names.1, ?_⟩
  intro inner member
  have listed : inner.id ∈ written.messages.map Message.id := by
    rw [← completes.messages]
    exact mem_map_of_mem member
  rcases List.mem_map.mp listed with ⟨origin, declared, same⟩
  rw [← same]
  exact names.2 origin declared

/-- The parents and the field types of a message are among the given names, and
the table has what they refer to. -/
structure Message.Linked (table : SymbolTable Nat) (names : List Identifier)
    (message : Message Reference) : Prop where
  parents : ∀ parent ∈ message.parents, parent ∈ names ∧
    ∃ handle, table.find? parent.text = some (.message handle)
  fields : ∀ field ∈ message.fields, ∀ reference, field.type = .user reference ->
    reference.name ∈ names ∧ table.find? reference.name.text = some reference.symbol

lemma mem_of_forall₂ {α β : Type} {relation : α -> β -> Prop} {left : List α} {right : List β}
    (related : List.Forall₂ relation left right) {item : β} (member : item ∈ right) :
    ∃ found ∈ left, relation found item := by
  rcases getElem?_of_mem member with ⟨index, listed⟩
  rcases getElem?_of_forall₂ related listed with ⟨found, place, same⟩
  exact ⟨found, mem_of_getElem? place, same⟩

section
variable {types : List (TypeDecl Identifier)} {table : SymbolTable Nat}

lemma reading?_mem {name found : Identifier}
    (read : SymbolTable.reading? names name scope = some found) : found ∈ names :=
  List.contains_iff_mem.mp (find?_some read)

lemma Scope.Completes.linked (indexes : table.Indexes (definitionsOf types))
    (completes : (Scope.of types table).Completes written resolved) (clean : written.id.Clean)
    (mentions : written.MentionsProper) :
    resolved.Linked table ((definitionsOf types).map TypeDecl.id) where
  parents := by
    intro parent member
    rcases mem_of_forall₂ completes.parents member with
      ⟨origin, listed, reference, refers, isMessage, same⟩
    rcases (Scope.reference?_eq_some_iff indexes (mentions.1 origin listed) clean).mp refers with
      ⟨read, found⟩
    rw [← same]
    refine ⟨reading?_mem read, ?_⟩
    rcases reference with ⟨name, handle | handle⟩
    · cases isMessage
    · exact ⟨handle, found⟩
  fields := by
    intro field member reference isType
    rcases mem_of_forall₂ completes.fields member with ⟨origin, listed, done⟩
    rcases ((Scope.of types table).resolveField_eq_ok_iff _ _ _).mp done with ⟨_, doneType, _⟩
    rw [isType] at doneType
    cases originType : origin.type with
    | primitive type =>
      rw [originType] at doneType
      cases doneType
    | user name =>
      rw [originType, Scope.resolveType] at doneType
      split at doneType
      · next found refers =>
        cases doneType
        rcases (Scope.reference?_eq_some_iff indexes (mentions.2 origin listed name originType)
          clean).mp refers with ⟨read, found⟩
        exact ⟨reading?_mem read, found⟩
      · cases doneType

end

lemma Message.parents_alias (aliases : Aliases) (message : Message Reference) :
    (message.alias aliases).parents = message.parents.map aliases.applyScope := by
  cases message <;> rw [Message.alias] <;> rfl

lemma Message.fields_alias (aliases : Aliases) (message : Message Reference) :
    (message.alias aliases).fields = message.fields.map (Field.alias aliases) := by
  cases message <;> rw [Message.alias] <;> rfl

lemma Field.type_alias_eq_user_iff {field : Field Reference} {reference : Reference} :
    (field.alias aliases).type = .user reference ↔
      ∃ old, field.type = .user old ∧ old.alias aliases = reference := by
  rw [Field.alias]
  cases field.type <;> simp [FieldType.alias]

variable {message : Message Reference}

lemma Message.Linked.alias
    (follows : ∀ name ∈ names, ∀ symbol, table.find? name.text = some symbol ->
      next.find? (aliases.applyScope name).text = some symbol)
    (linked : message.Linked table names) :
    (message.alias aliases).Linked next (names.map aliases.applyScope) where
  parents := by
    intro parent member
    rw [Message.parents_alias] at member
    rcases List.mem_map.mp member with ⟨old, listed, same⟩
    rcases linked.parents old listed with ⟨known, handle, found⟩
    rw [← same]
    exact ⟨mem_map_of_mem known, handle, follows old known _ found⟩
  fields := by
    intro field member reference isType
    rw [Message.fields_alias] at member
    rcases List.mem_map.mp member with ⟨origin, listed, isField⟩
    rw [← isField] at isType
    rcases Field.type_alias_eq_user_iff.mp isType with ⟨old, originType, same⟩
    rcases linked.fields origin listed old originType with ⟨known, found⟩
    rw [← same]
    exact ⟨mem_map_of_mem known, follows old.name known _ found⟩

/-- The definition with the handle of a reference has the name and the kind that the
reference says. -/
def Reference.Leads (definitions : List (TypeDecl Reference)) (reference : Reference) : Prop :=
  ∃ type, definitions[reference.symbol.handle]? = some type ∧ type.id = reference.name ∧
    type.kind = reference.symbol.kind

/-- The field types of a message lead to definitions. -/
def Message.Leads (definitions : List (TypeDecl Reference)) (message : Message Reference) : Prop :=
  ∀ field ∈ message.fields, ∀ reference, field.type = .user reference ->
    reference.Leads definitions

/-- All messages lead to definitions. -/
def AllLead (definitions : List (TypeDecl Reference)) : Prop :=
  ∀ decl, .message decl ∈ definitions -> decl.Leads definitions

lemma Message.Linked.leads (indexes : table.Indexes definitions)
    (linked : message.Linked table (definitions.map TypeDecl.id)) : message.Leads definitions := by
  intro field member reference isType
  rcases linked.fields field member reference isType with ⟨known, found⟩
  rcases List.mem_map.mp known with ⟨type, listed, isName⟩
  rcases indexes.definition_of_find? found with ⟨owner, place, kind, sameText⟩
  have named : reference.name.Proper := isName ▸ indexes.proper type listed
  exact ⟨owner, place, Identifier.eq_of_text_eq
    (indexes.proper owner (mem_of_getElem? place)) named sameText, kind⟩

lemma TypeDecl.kind_alias (aliases : Aliases) (type : TypeDecl Reference) :
    (type.alias aliases).kind = type.kind := by
  cases type <;> rfl

lemma Message.Leads.alias (leads : message.Leads definitions) (aliases : Aliases) :
    (message.alias aliases).Leads (definitions.map (TypeDecl.alias aliases)) := by
  intro field member reference isType
  rw [Message.fields_alias] at member
  rcases List.mem_map.mp member with ⟨origin, listed, isField⟩
  rw [← isField] at isType
  rcases Field.type_alias_eq_user_iff.mp isType with ⟨old, originType, same⟩
  rcases leads origin listed old originType with ⟨type, place, named, kind⟩
  rw [← same]
  refine ⟨type.alias aliases, ?_, ?_, (type.kind_alias aliases).trans kind⟩
  · rw [getElem?_map]
    exact Option.map_eq_some_iff.mpr ⟨type, place, rfl⟩
  · rw [TypeDecl.id_alias, named]
    rfl

lemma AllLead.alias (leads : AllLead definitions) (aliases : Aliases) :
    AllLead (definitions.map (TypeDecl.alias aliases)) := by
  intro decl member
  rcases List.mem_map.mp member with ⟨old | old, listed, same⟩
  · cases same
  · cases same
    exact (leads old listed).alias aliases

/-- Every entry of a table has the handle of a definition of its kind. -/
structure SymbolTable.Points (table : SymbolTable Nat) (definitions : List (TypeDecl Reference)) :
    Prop where
  enums : ∀ name handle, table.enums.find? name = some handle ->
    ∃ decl, definitions[handle]? = some (.enum decl)
  messages : ∀ name entry, table.messages.find? name = some entry ->
    ∃ decl, definitions[entry.handle]? = some (.message decl)

lemma SymbolTable.Describes.points (describes : table.Describes definitions) :
    table.Points definitions where
  enums name handle found := by
    rcases (describes.enums name handle).mp found with ⟨decl, place, _⟩
    exact ⟨decl, place⟩
  messages name entry found := by
    rcases (describes.messages name entry).mp found with ⟨decl, place, _⟩
    exact ⟨decl, place⟩

/-- Renaming moves entries, but they keep their handles. -/
lemma SymbolTable.Points.alias {renamed : String -> String}
    (points : table.Points definitions) (moves : table.Moves next renamed) (aliases : Aliases) :
    next.Points (definitions.map (TypeDecl.alias aliases)) where
  enums name handle found := by
    rcases (moves.enums name handle).mp found with ⟨old, foundOld, _⟩
    rcases points.enums old handle foundOld with ⟨decl, place⟩
    exact ⟨decl.alias aliases, getElem?_alias_enum.mpr ⟨decl, place, rfl⟩⟩
  messages name entry found := by
    rcases (moves.messages name entry).mp found with ⟨old, foundOld, _⟩
    rcases points.messages old entry foundOld with ⟨decl, place⟩
    exact ⟨decl.alias aliases, getElem?_alias_message.mpr ⟨decl, place, rfl⟩⟩

/-- In a compiled schema all handles lead to definitions, those in the symbol table as well
as those in the fields. -/
structure Compiled.Sound (compiled : Compiled) : Prop where
  points : compiled.table.Points (definitionsOf compiled.types)
  leads : ∀ decl, .message decl ∈ definitionsOf compiled.types ->
    decl.Leads (definitionsOf compiled.types)

section
variable {document : Document} {table : SymbolTable Nat} {types : List (TypeDecl Reference)}
  {decl : Message Reference}

lemma exists_completes_of_resolve {written : List (TypeDecl Identifier)}
    (resolved : resolve written table = .ok types) (member : .message decl ∈ definitionsOf types) :
    ∃ origin, .message origin ∈ definitionsOf written ∧
      (Scope.of written table).Completes origin decl := by
  rcases mem_of_forall₂ (definitions_of_resolve resolved) member with
    ⟨origin | origin, listed, completes⟩
  · cases completes
  · exact ⟨origin, listed, completes⟩

/-- Once a document is resolved, its references lead to its definitions. -/
lemma Document.Sound.linked (sound : Document.Sound document)
    (indexed : index (flatten (qualify document)) = .ok table)
    (resolved : resolve (flatten (qualify document)) table = .ok types)
    (member : .message decl ∈ definitionsOf types) :
    decl.Linked table ((definitionsOf types).map TypeDecl.id) := by
  rcases exists_completes_of_resolve resolved member with ⟨written, listed, completes⟩
  rw [map_id_of_resolve resolved]
  exact completes.linked (sound.indexes indexed) (sound.proper_id listed).clean
    (sound.mentionsProper listed)

end

namespace Stages

variable {options : NamingOptions} {document : Document} {aliases : Aliases}
  {table : SymbolTable Nat} {types : List (TypeDecl Reference)} {compiled : Compiled}

lemma namesMembers (stages : Stages options document aliases table types compiled)
    (sound : Document.Sound document) {decl : Message Reference}
    (member : .message decl ∈ definitionsOf types) : decl.NamesMembers := by
  rcases exists_completes_of_resolve stages.resolved member with ⟨written, listed, completes⟩
  exact completes.namesMembers (sound.namesMembers listed)

variable {decl : Message Reference}

section
variable (stages : Stages options document aliases table types compiled)
  (sound : Document.Sound document)
include stages sound

lemma linked_resolved (member : .message decl ∈ definitionsOf types) :
    decl.Linked table ((definitionsOf types).map TypeDecl.id) :=
  sound.linked stages.indexed stages.resolved member

lemma map_id_final : (definitionsOf compiled.types).map TypeDecl.id =
      ((definitionsOf types).map TypeDecl.id).map aliases.applyScope := by
  rw [stages.types_eq sound, definitionsOf_alias, List.map_map, List.map_map]
  simp only [Function.comp_def, TypeDecl.id_alias]

lemma linked_final (member : .message decl ∈ definitionsOf compiled.types) :
    decl.Linked compiled.table ((definitionsOf compiled.types).map TypeDecl.id) := by
  have indexes := stages.indexes_resolved sound
  rcases stages.exists_resolved sound member with ⟨old, listed, rfl⟩
  rw [stages.map_id_final sound]
  exact (stages.linked_resolved sound listed).alias fun name known symbol =>
    find?_of_aliasNames indexes stages.renamed known

end

end Stages
end MessageSchema

import MessageSchema.Proofs.Compile.Stages
import MessageSchema.Proofs.Syntax.Contents

namespace MessageSchema

/-!
Which documents can be compiled.

Each of the six stages refuses a document for reasons of its own.  Together they can
be read off the document and the wishes of the user; the order of declarations and
of stages plays no part.
-/

/-- Two types can stand beside each other: their full names differ, or they are messages and
one is announced only. -/
def Placed.Coexist (left right : Placed) : Prop :=
  left.name = right.name -> left.type.kind = .message ∧ right.type.kind = .message ∧
    (left.type.isAnnounced = true ∨ right.type.isAnnounced = true)

def declaredNames (document : Document) : List Identifier :=
  (declared document).map Placed.name

/-- What a document needs in order to be compiled with the given wishes. -/
structure WellFormed (options : NamingOptions) (document : Document) : Prop where
  /-- The aliases and the outer scope that the user wishes for make sense. -/
  feasible : options.Feasible
  /-- No two types clash in their full names. -/
  coexist : (declared document).Pairwise Placed.Coexist
  /-- The fields of every message differ in their names and ordinals. -/
  fieldsDiffer : ∀ scope decl, ⟨scope, .message decl⟩ ∈ declared document -> decl.FieldsDiffer
  /-- All ordinals lie in their range. -/
  ordinals : ∀ scope decl, ⟨scope, .message decl⟩ ∈ declared document ->
    ∀ field ∈ decl.fields, ∀ ordinal, field.ordinal = some ordinal ->
      1 <= ordinal ∧ ordinal <= 32767
  /-- The type of a field, if it is not primitive, can be read as the name of a
  type of the document. -/
  types : ∀ scope decl, ⟨scope, .message decl⟩ ∈ declared document ->
    ∀ field ∈ decl.fields, ∀ name, field.type = .user name ->
      ∃ found, SymbolTable.reading? (declaredNames document) name (scope.append decl.id) =
        some found
  /-- Every parent is read as the name of a message of the document. -/
  parents : ∀ scope decl, ⟨scope, .message decl⟩ ∈ declared document ->
    ∀ parent ∈ decl.parents, ∃ target ∈ declared document, target.type.kind = .message ∧
      SymbolTable.reading? (declaredNames document) parent (scope.append decl.id) =
        some target.name
  /-- Different full names stay different when they are renamed. -/
  keptApart : ∀ aliases, options.build = .ok aliases -> aliases.KeepsApart (declaredNames document)

section
variable {document : Document}

lemma mem_declaredNames_iff {name : Identifier} :
    name ∈ (definitionsOf (flatten (qualify document))).map TypeDecl.id ↔
      name ∈ declaredNames document := by
  have perm := (perm_declared document).map TypeDecl.id
  rw [perm.mem_iff, List.map_map, declaredNames]
  simp only [Function.comp_def, Placed.id_qualified]

lemma reading?_definitions (name scope : Identifier) :
    SymbolTable.reading? ((definitionsOf (flatten (qualify document))).map TypeDecl.id) name scope =
      SymbolTable.reading? (declaredNames document) name scope := by
  rw [SymbolTable.reading?_congr fun _ => mem_declaredNames_iff]

lemma keepsApart_definitions (aliases : Aliases) :
    aliases.KeepsApart ((definitionsOf (flatten (qualify document))).map TypeDecl.id) ↔
      aliases.KeepsApart (declaredNames document) := by
  simp only [Aliases.KeepsApart, mem_declaredNames_iff]

lemma forall_message_definitions {property : Message Identifier -> Prop} :
    (∀ decl, .message decl ∈ definitionsOf (flatten (qualify document)) -> property decl) ↔
      ∀ scope decl, ⟨scope, .message decl⟩ ∈ declared document ->
        property (decl.qualify scope) := by
  constructor
  · intro all scope decl member
    exact all _ (message_mem_definitionsOf_flatten.mpr ⟨_, member, decl, rfl, rfl⟩)
  · intro all decl member
    rcases message_mem_definitionsOf_flatten.mp member with
      ⟨⟨scope, type⟩, listed, written, isWritten, same⟩
    cases isWritten
    rw [← same]
    exact all scope written listed

lemma pairwise_coexist_iff (sound : Document.Sound document) :
    (definitionsOf (flatten (qualify document))).Pairwise TypeDecl.Coexist ↔
      (declared document).Pairwise Placed.Coexist := by
  rw [(perm_declared document).pairwise_iff fun coexist => coexist.symm, List.pairwise_map]
  refine List.Pairwise.iff_of_mem ?_
  intro left right memberLeft memberRight
  rw [TypeDecl.Coexist, Placed.id_qualified, Placed.id_qualified, Placed.Coexist,
    Identifier.text_eq_iff (sound left memberLeft).proper_name
      (sound right memberRight).proper_name]
  simp only [Placed.qualified, TypeDecl.kind_qualify, TypeDecl.isAnnounced_qualify]

lemma Message.id_qualify (scope : Identifier) (message : Message Identifier) :
    (message.qualify scope).id = scope.append message.id :=
  TypeDecl.id_qualify scope (.message message)

/-- Entering the types of a document fails only for a clash between two types
or between two fields of one message. -/
lemma exists_index_document_iff (sound : Document.Sound document) :
    (∃ table, index (flatten (qualify document)) = .ok table) ↔
      (declared document).Pairwise Placed.Coexist ∧
        ∀ scope decl, ⟨scope, .message decl⟩ ∈ declared document -> decl.FieldsDiffer := by
  rw [exists_index_iff, pairwise_coexist_iff sound, forall_message_definitions]
  simp only [Message.FieldsDiffer, Message.fields_qualify]

lemma resolvable_qualify_iff (scope : Identifier) (decl : Message Identifier) :
    (decl.qualify scope).Resolvable (definitionsOf (flatten (qualify document))) ↔
      (∀ parent ∈ decl.parents, ∃ target ∈ declared document, target.type.kind = .message ∧
        SymbolTable.reading? (declaredNames document) parent (scope.append decl.id) =
          some target.name) ∧ (∀ field ∈ decl.fields, ∀ ordinal, field.ordinal = some ordinal ->
        1 <= ordinal ∧ ordinal <= 32767) ∧ ∀ field ∈ decl.fields, ∀ name, field.type = .user name ->
        ∃ found, SymbolTable.reading? (declaredNames document) name (scope.append decl.id) =
          some found := by
  have target_iff : ∀ found : Option Identifier,
      (∃ target : Message Identifier,
        .message target ∈ definitionsOf (flatten (qualify document)) ∧ found = some target.id) ↔
      ∃ target ∈ declared document, target.type.kind = .message ∧ found = some target.name := by
    intro found
    constructor
    · rintro ⟨target, member, same⟩
      rcases message_mem_definitionsOf_flatten.mp member with
        ⟨placed, listed, written, isWritten, isTarget⟩
      refine ⟨placed, listed, by rw [isWritten]; rfl, ?_⟩
      rw [same, ← isTarget, Message.id_qualify, Placed.name, isWritten]
      rfl
    · rintro ⟨⟨scope, type⟩, listed, isMessage, same⟩
      rcases type with decl | decl
      · cases isMessage
      · refine ⟨decl.qualify scope, message_mem_definitionsOf_flatten.mpr
          ⟨_, listed, decl, rfl, rfl⟩, ?_⟩
        rw [same, Message.id_qualify]
        rfl
  constructor
  · rintro ⟨parents, ordinals, types⟩
    simp only [Message.parents_qualify, Message.fields_qualify, Message.id_qualify,
      reading?_definitions, target_iff] at parents ordinals types
    exact ⟨parents, ordinals, types⟩
  · rintro ⟨parents, ordinals, types⟩
    constructor
    all_goals simp only [Message.parents_qualify, Message.fields_qualify, Message.id_qualify,
      reading?_definitions, target_iff]
    · exact parents
    · exact ordinals
    · exact types

/-- A document can be compiled exactly if it is well formed. -/
theorem compile_succeeds_iff_wellFormed {source : List UInt8}
    (parsed : Syntax.parse source = .ok document) (options : NamingOptions) :
    (∃ compiled, compile options document = .ok compiled) ↔ WellFormed options document := by
  have sound : Document.Sound document := Syntax.sound_of_parse parsed
  rw [exists_compile_iff sound]
  constructor
  · rintro ⟨aliases, wished, able⟩
    have entered := (exists_index_document_iff sound).mp
      ((exists_index_iff _).mpr ⟨able.coexist, able.fieldsDiffer⟩)
    have each := able.resolvable
    rw [forall_message_definitions] at each
    simp only [resolvable_qualify_iff] at each
    refine ⟨(options.exists_build_iff).mp ⟨aliases, wished⟩, entered.1, entered.2,
      fun scope decl member => (each scope decl member).2.1,
      fun scope decl member => (each scope decl member).2.2,
      fun scope decl member => (each scope decl member).1, ?_⟩
    intro others again
    rw [wished] at again
    cases again
    exact (keepsApart_definitions aliases).mp able.apart
  · intro wellFormed
    rcases (options.exists_build_iff).mpr wellFormed.feasible with ⟨aliases, wished⟩
    have entered := (exists_index_iff _).mp ((exists_index_document_iff sound).mpr
      ⟨wellFormed.coexist, wellFormed.fieldsDiffer⟩)
    refine ⟨aliases, wished, entered.1, entered.2, ?_,
      (keepsApart_definitions aliases).mpr (wellFormed.keptApart aliases wished)⟩
    rw [forall_message_definitions]
    intro scope decl member
    exact (resolvable_qualify_iff scope decl).mpr ⟨wellFormed.parents scope decl member,
      wellFormed.ordinals scope decl member, wellFormed.types scope decl member⟩

/-- A schema with a namespace, an announced message, a parent and nested types, with an
alias and an outer scope. -/
theorem wellFormed_renamed_schema :
    ∃ options document, options = ⟨[("n", "k.l")], "top"⟩ ∧
      Syntax.parse ("namespace n \x7b enum E \x7b A, B \x7d message P \x7b\x7d \x7d " ++
        "message M extends n.P \x7b extern message Q; n.E e = 1; Q q = 2; \x7d").toUTF8.toList =
          .ok document ∧
      WellFormed options document := by
  have compiles : (compileSource? ⟨[("n", "k.l")], "top"⟩
      ("namespace n \x7b enum E \x7b A, B \x7d message P \x7b\x7d \x7d " ++
        "message M extends n.P \x7b extern message Q; n.E e = 1; Q q = 2; \x7d")).isSome = true := by
    decide +kernel
  rcases Option.isSome_iff_exists.mp compiles with ⟨compiled, found⟩
  rcases compileSource?_eq_some_iff.mp found with ⟨document, parsed, done⟩
  exact ⟨_, document, rfl, parsed,
    (compile_succeeds_iff_wellFormed parsed _).mp ⟨compiled, done⟩⟩

end
end MessageSchema

import MessageSchema.Compile.Pipeline
import MessageSchema.Proofs.Compile.Renaming
import MessageSchema.Proofs.Syntax.Naming
import MessageSchema.Syntax.Parser

namespace MessageSchema

/-!
The way of a document through the stages of a compilation.

A compilation succeeds exactly if every stage does, and gives what they give one
after the other.  In a parsed document all names are proper to the end, and the
table describes the definitions when they are entered, resolved, and renamed.
-/

/-- A document on its way through the stages: the aliases, the table and the types as
entered and resolved, and the result. -/
structure Stages (options : NamingOptions) (document : Document) (aliases : Aliases)
    (table : SymbolTable Nat) (types : List (TypeDecl Reference)) (compiled : Compiled) :
    Prop where
  wished : options.build = .ok aliases
  indexed : index (flatten (qualify document)) = .ok table
  resolved : resolve (flatten (qualify document)) table = .ok types
  renamed : aliasNames aliases types table = .ok (compiled.types, compiled.table)
  related : compiled.references = dependencies compiled.types compiled.table

variable {options : NamingOptions}

variable {compiled : Compiled} {document : Document} {α ε : Type} {table : SymbolTable Nat}
    {types : List (TypeDecl Identifier)} {decl : Message Identifier} {type : TypeDecl Identifier}
    {result : Except ε α}

lemma compile_eq_ok_iff : compile options document = .ok compiled ↔
      ∃ aliases table types, Stages options document aliases table types compiled := by
  constructor
  · intro done
    rw [compile] at done
    split at done
    · cases done
    · next aliases wished =>
      change (Compilation.indexed aliases (flatten (qualify document))).outcome = _ at done
      rw [Compilation.indexed] at done
      split at done
      · cases done
      · next table indexed =>
        change (Compilation.resolved aliases (flatten (qualify document)) table).outcome = _ at done
        rw [Compilation.resolved] at done
        split at done
        · cases done
        · next types resolved =>
          change (Compilation.aliased aliases types table).outcome = _ at done
          rw [Compilation.aliased] at done
          split at done
          · cases done
          · next newTypes newTable renamed =>
            cases done
            exact ⟨aliases, table, types, wished, indexed, resolved, renamed, rfl⟩
  · rintro ⟨aliases, table, types, stages⟩
    rcases compiled with ⟨newTypes, newTable, references⟩
    have related : references = dependencies newTypes newTable := stages.related
    have renamed : aliasNames aliases types table = .ok (newTypes, newTable) := stages.renamed
    rw [compile, stages.wished, related]
    change (Compilation.indexed aliases (flatten (qualify document))).outcome = _
    rw [Compilation.indexed, stages.indexed]
    change (Compilation.resolved aliases (flatten (qualify document)) table).outcome = _
    rw [Compilation.resolved, stages.resolved]
    change (Compilation.aliased aliases types table).outcome = _
    rw [Compilation.aliased, renamed]
    rfl

/-- The outcome of a compilation as a chain of the stages that can fail. -/
lemma Compilation.outcome_of (aliases : Aliases) (document : Document) :
    (Compilation.of aliases document).outcome =
      (index (flatten (qualify document))).bind fun table =>
        (resolve (flatten (qualify document)) table).bind fun types =>
          (aliasNames aliases types table).bind fun renamed =>
            .ok ⟨renamed.1, renamed.2, dependencies renamed.1 renamed.2⟩ := by
  change (Compilation.indexed aliases (flatten (qualify document))).outcome = _
  rw [Compilation.indexed]
  cases index (flatten (qualify document)) with
  | error error => rfl
  | ok table =>
  change (Compilation.resolved aliases (flatten (qualify document)) table).outcome =
    (resolve (flatten (qualify document)) table).bind _
  rw [Compilation.resolved]
  cases resolve (flatten (qualify document)) table with
  | error error => rfl
  | ok types =>
  change (Compilation.aliased aliases types table).outcome = (aliasNames aliases types table).bind _
  rw [Compilation.aliased]
  cases aliasNames aliases types table <;> rfl

lemma eq_ok_of_toOption {value : α} (found : result.toOption = some value) :
    result = .ok value := by
  cases result with
  | error error => cases found
  | ok other => exact congrArg Except.ok (Option.some.inj found)

lemma exists_ok_of_isOk (succeeds : result.isOk = true) : ∃ value, result = .ok value := by
  cases result with
  | error error => cases succeeds
  | ok value => exact ⟨value, rfl⟩

/-- What a source is compiled to, if it can be read and compiled. -/
def compileSource? (options : NamingOptions) (source : String) : Option Compiled :=
  match Syntax.parse source.toUTF8.toList with
  | .error _ => none
  | .ok document => (compile options document).toOption

lemma compileSource?_eq_some_iff {source : String} : compileSource? options source = some compiled ↔
      ∃ document, Syntax.parse source.toUTF8.toList = .ok document ∧
        compile options document = .ok compiled := by
  unfold compileSource?
  cases Syntax.parse source.toUTF8.toList with
  | error error => simp
  | ok document => cases done : compile options document <;> simp [Except.toOption, done]

/-- A source is compiled to something that passes a test. -/
lemma exists_compiled {source : String} {holds : Document -> Compiled -> Prop}
    (test : Compiled -> Bool) (passes : (compileSource? options source).any test = true)
    (enough : ∀ document compiled, Syntax.parse source.toUTF8.toList = .ok document ->
      compile options document = .ok compiled -> test compiled = true -> holds document compiled) :
    ∃ document compiled, Syntax.parse source.toUTF8.toList = .ok document ∧
      compile options document = .ok compiled ∧ holds document compiled := by
  rcases (Option.any_eq_true _ _).mp passes with ⟨compiled, found, passed⟩
  rcases compileSource?_eq_some_iff.mp found with ⟨document, parsed, done⟩
  exact ⟨document, compiled, parsed, done, enough document compiled parsed done passed⟩

section
variable {ρ σ : Type}

/-- Two types have the same name and kind, and both or none are announced
only. -/
structure TypeDecl.Alike (left : TypeDecl ρ) (right : TypeDecl σ) : Prop where
  id : right.id = left.id
  kind : right.kind = left.kind
  announced : right.isAnnounced = left.isAnnounced

lemma TypeDecl.Alike.symm {left : TypeDecl ρ} {right : TypeDecl σ} (alike : left.Alike right) :
    right.Alike left :=
  ⟨alike.id.symm, alike.kind.symm, alike.announced.symm⟩

lemma getElem?_of_forall₂ {β : Type} {relation : α -> β -> Prop} {left : List α} {right : List β}
    (related : List.Forall₂ relation left right) {index : Nat} {item : β}
    (listed : right[index]? = some item) :
    ∃ found, left[index]? = some found ∧ relation found item := by
  induction related generalizing index with
  | nil => cases listed
  | cons one _ ih =>
    cases index with
    | zero =>
      cases listed
      exact ⟨_, rfl, one⟩
    | succ index => exact ih listed

variable {handle : Nat} {left : List (TypeDecl ρ)} {right : List (TypeDecl σ)}

section
variable (alike : List.Forall₂ TypeDecl.Alike left right)
include alike

lemma enum_of_alike {decl : EnumDecl} (listed : right[handle]? = some (.enum decl)) :
    ∃ found, left[handle]? = some (.enum found) ∧ found.name = decl.name := by
  rcases getElem?_of_forall₂ alike listed with ⟨found | found, place, same⟩
  · exact ⟨found, place, same.id.symm⟩
  · cases same.kind

lemma message_of_alike {decl : Message σ} (listed : right[handle]? = some (.message decl)) :
    ∃ found, left[handle]? = some (.message found) ∧ found.id = decl.id ∧
      found.isExtern = decl.isExtern := by
  rcases getElem?_of_forall₂ alike listed with ⟨found | found, place, same⟩
  · cases same.kind
  · exact ⟨found, place, same.id.symm, same.announced.symm⟩

lemma StandsFor.of_alike {first : Message ρ} {second : Message σ}
    (sameName : first.id = second.id) (sameFlag : first.isExtern = second.isExtern)
    (stands : StandsFor left handle first) : StandsFor right handle second := by
  intro announced other found listed same
  rcases message_of_alike alike listed with ⟨earlier, place, name, flag⟩
  rw [← flag]
  apply stands (sameFlag.trans announced) other earlier place
  rw [name, sameName, same]

/-- A table that describes definitions describes all that are like them. -/
lemma SymbolTable.Describes.of_alike (describes : table.Describes left)
    : table.Describes right where
  enums := by
    have back : List.Forall₂ TypeDecl.Alike right left := (alike.imp fun _ _ => .symm).flip
    intro name handle
    rw [describes.enums]
    constructor
    · rintro ⟨decl, listed, same⟩
      rcases enum_of_alike back listed with ⟨found, place, name⟩
      exact ⟨found, place, by rw [name, same]⟩
    · rintro ⟨decl, listed, same⟩
      rcases enum_of_alike alike listed with ⟨found, place, name⟩
      exact ⟨found, place, by rw [name, same]⟩
  messages := by
    have back : List.Forall₂ TypeDecl.Alike right left := (alike.imp fun _ _ => .symm).flip
    intro name entry
    rw [describes.messages]
    constructor
    · rintro ⟨decl, listed, same, announced, stands⟩
      rcases message_of_alike back listed with ⟨found, place, name, flag⟩
      exact ⟨found, place, by rw [name, same], announced.trans flag.symm,
        stands.of_alike alike name.symm flag.symm⟩
    · rintro ⟨decl, listed, same, announced, stands⟩
      rcases message_of_alike alike listed with ⟨found, place, name, flag⟩
      exact ⟨found, place, by rw [name, same], announced.trans flag.symm,
        stands.of_alike back name.symm flag.symm⟩
  known := by
    intro decl member
    rcases List.getElem?_of_mem member with ⟨handle, listed⟩
    rcases message_of_alike alike listed with ⟨found, place, name, _⟩
    rw [← name]
    exact describes.known found (List.mem_of_getElem? place)
  apart := describes.apart

end

end

lemma Scope.CompletesDecl.alike {scope : Scope} {written : TypeDecl Identifier}
    {resolved : TypeDecl Reference} (completes : scope.CompletesDecl written resolved) :
    written.Alike resolved := by
  rcases written with decl | decl <;> rcases resolved with result | result
  · cases completes
    exact ⟨rfl, rfl, rfl⟩
  · cases completes
  · cases completes
  · exact ⟨congrArg MessageName.current completes.name, rfl, completes.announced⟩

lemma definitions_of_resolve {resolved : List (TypeDecl Reference)}
    (done : resolve types table = .ok resolved) :
    List.Forall₂ (Scope.of types table).CompletesDecl (definitionsOf types)
      (definitionsOf resolved) :=
  List.rel_flatMap ((Scope.of types table).definitions_of_resolveTypes done) fun _ _ block => block

lemma map_id_of_resolve {resolved : List (TypeDecl Reference)}
    (done : resolve types table = .ok resolved) :
    (definitionsOf resolved).map TypeDecl.id = (definitionsOf types).map TypeDecl.id :=
  map_eq_of_forall₂ ((definitions_of_resolve done).imp fun _ _ completes => completes.alike.id)

section
variable (scope : Identifier)

@[simp] lemma Message.parents_qualify (message : Message Identifier) :
    (message.qualify scope).parents = message.parents := by
  cases message <;> rfl

@[simp] lemma Message.fields_qualify (message : Message Identifier) :
    (message.qualify scope).fields = message.fields := by
  cases message <;> rfl

@[simp] lemma TypeDecl.kind_qualify (type : TypeDecl Identifier) :
    (type.qualify scope).kind = type.kind := by
  cases type <;> rfl

@[simp] lemma TypeDecl.isAnnounced_qualify (type : TypeDecl Identifier) :
    (type.qualify scope).isAnnounced = type.isAnnounced := by
  rcases type with decl | message
  · rfl
  · cases message <;> rfl

lemma TypeDecl.qualify_eq_message_iff : type.qualify scope = .message decl ↔
      ∃ written, type = .message written ∧ written.qualify scope = decl := by
  rcases type with enum | message
  · simp [TypeDecl.qualify]
  · simp [TypeDecl.qualify]

end

/-- All types of a document are written as they can be written. -/
def Document.Sound (document : Document) : Prop :=
  ∀ placed ∈ declared document, placed.Sound

section
variable {document : Document}

lemma mem_definitionsOf_flatten : type ∈ definitionsOf (flatten (qualify document)) ↔
      ∃ placed ∈ declared document, placed.qualified = type := by
  rw [(perm_declared document).mem_iff, List.mem_map]

lemma message_mem_definitionsOf_flatten :
    .message decl ∈ definitionsOf (flatten (qualify document)) ↔
      ∃ placed ∈ declared document, ∃ written, placed.type = .message written ∧
        written.qualify placed.scope = decl := by
  rw [mem_definitionsOf_flatten]
  refine exists_congr fun placed => and_congr_right fun _ => ?_
  exact TypeDecl.qualify_eq_message_iff placed.scope

lemma Document.Sound.proper_id (sound : Document.Sound document)
    (member : type ∈ definitionsOf (flatten (qualify document))) : type.id.Proper := by
  rcases mem_definitionsOf_flatten.mp member with ⟨placed, listed, same⟩
  rw [← same, Placed.id_qualified]
  exact (sound placed listed).proper_name

lemma Document.Sound.mentionsProper (sound : Document.Sound document)
    (member : .message decl ∈ definitionsOf (flatten (qualify document))) :
    decl.MentionsProper := by
  rcases message_mem_definitionsOf_flatten.mp member with ⟨placed, listed, written, isWritten, same⟩
  have type := (sound placed listed).type
  rw [isWritten] at type
  rw [← same, Message.MentionsProper, Message.parents_qualify, Message.fields_qualify]
  exact type.2.1

lemma Document.Sound.indexes (sound : Document.Sound document)
    (indexed : index (flatten (qualify document)) = .ok table) :
    table.Indexes (definitionsOf (flatten (qualify document))) where
  toDescribes := describes_of_index indexed
  proper := fun _ member => sound.proper_id member

/-- The table still describes the definitions when they have been resolved. -/
lemma SymbolTable.Indexes.resolved {results : List (TypeDecl Reference)}
    (indexes : table.Indexes (definitionsOf types)) (done : resolve types table = .ok results) :
    table.Indexes (definitionsOf results) := by
  have alike : List.Forall₂ TypeDecl.Alike (definitionsOf types) (definitionsOf results) :=
    (definitions_of_resolve done).imp fun _ _ completes => completes.alike
  refine ⟨indexes.toDescribes.of_alike alike, ?_⟩
  intro type member
  rcases List.getElem?_of_mem member with ⟨handle, listed⟩
  rcases getElem?_of_forall₂ alike listed with ⟨found, place, same⟩
  rw [same.id]
  exact indexes.proper found (List.mem_of_getElem? place)

end

namespace Stages

variable {options : NamingOptions} {document : Document} {aliases : Aliases}
  {table : SymbolTable Nat} {types : List (TypeDecl Reference)} {compiled : Compiled}

section
variable (stages : Stages options document aliases table types compiled)
  (sound : Document.Sound document)
include stages sound

lemma indexes_resolved : table.Indexes (definitionsOf types) :=
  (sound.indexes stages.indexed).resolved stages.resolved

lemma types_eq : compiled.types = types.map (TypeDecl.alias aliases) :=
  (aliasNames_ok (stages.indexes_resolved sound) stages.renamed).1

lemma exists_resolved {decl : Message Reference}
    (member : .message decl ∈ definitionsOf compiled.types) :
    ∃ old, .message old ∈ definitionsOf types ∧ decl = old.alias aliases := by
  rw [stages.types_eq sound, definitionsOf_alias] at member
  rcases List.mem_map.mp member with ⟨old | old, listed, same⟩
  · cases same
  · cases same
    exact ⟨old, listed, rfl⟩

lemma indexes_final : compiled.table.Indexes (definitionsOf compiled.types) :=
  (stages.indexes_resolved sound).renamed (NamingOptions.built_of_build stages.wished)
    stages.renamed

end

end Stages

/-- What the definitions of a flat schema need in order to be compiled under
aliases. -/
structure Compilable (aliases : Aliases) (definitions : List (TypeDecl Identifier)) : Prop where
  coexist : definitions.Pairwise TypeDecl.Coexist
  fieldsDiffer : ∀ decl, .message decl ∈ definitions -> decl.FieldsDiffer
  resolvable : ∀ decl, .message decl ∈ definitions -> decl.Resolvable definitions
  apart : aliases.KeepsApart (definitions.map TypeDecl.id)

/-- Compiling succeeds if the wishes make sense and the definitions have what
they need. -/
lemma exists_compile_iff (sound : Document.Sound document) :
    (∃ compiled, compile options document = .ok compiled) ↔ ∃ aliases, options.build = .ok aliases ∧
        Compilable aliases (definitionsOf (flatten (qualify document))) := by
  constructor
  · rintro ⟨compiled, done⟩
    rcases compile_eq_ok_iff.mp done with ⟨aliases, table, types, stages⟩
    have entered := (exists_index_iff _).mp ⟨table, stages.indexed⟩
    have resolvable := (exists_resolve_iff (sound.indexes stages.indexed)
      fun _ => sound.mentionsProper).mp ⟨types, stages.resolved⟩
    have apart := (exists_aliasNames_iff (stages.indexes_resolved sound)
      (NamingOptions.built_of_build stages.wished)).mp ⟨_, stages.renamed⟩
    rw [map_id_of_resolve stages.resolved] at apart
    exact ⟨aliases, stages.wished, entered.1, entered.2, resolvable, apart⟩
  · rintro ⟨aliases, wished, able⟩
    rcases (exists_index_iff _).mpr ⟨able.coexist, able.fieldsDiffer⟩ with ⟨table, indexed⟩
    have indexes := sound.indexes indexed
    rcases (exists_resolve_iff indexes fun _ => sound.mentionsProper).mpr able.resolvable with
      ⟨types, resolved⟩
    have apart := able.apart
    rw [← map_id_of_resolve resolved] at apart
    rcases (exists_aliasNames_iff (indexes.resolved resolved)
      (NamingOptions.built_of_build wished)).mpr apart with ⟨⟨newTypes, newTable⟩, renamed⟩
    exact ⟨⟨newTypes, newTable, dependencies newTypes newTable⟩, compile_eq_ok_iff.mpr
      ⟨aliases, table, types, wished, indexed, resolved, renamed, rfl⟩⟩

end MessageSchema

import MessageSchema.Proofs.Compile.RenamedSchema

namespace MessageSchema

open List

/-!
Aliases change names and nothing else.

A schema that compiles with aliases compiles without them, to the same definitions
at the same handles.  Their names differ as the aliases say, in the types and in the
table; wire names, fields and items do not.
-/

variable {document : Document} {message : Message Reference}

section
variable (aliases : Aliases)

structure EnumDecl.RenamesTo (before after : EnumDecl) : Prop where
  name : after.name = aliases.applyScope before.name
  items : after.items = before.items

/-- The type of a field before and after the renaming: the same primitive type,
or the same definition under its two names. -/
inductive FieldType.RenamesTo : FieldType Reference -> FieldType Reference -> Prop
  | primitive (type : Primitive) : RenamesTo (.primitive type) (.primitive type)
  | user (name : Identifier) (symbol : Symbol Nat) :
      RenamesTo (.user ⟨name, symbol⟩) (.user ⟨aliases.applyScope name, symbol⟩)

structure Field.RenamesTo (before after : Field Reference) : Prop where
  name : after.name = before.name
  type : FieldType.RenamesTo aliases before.type after.type
  modifiers : after.modifiers = before.modifiers
  bounds : after.bounds = before.bounds
  ordinal : after.ordinal = before.ordinal
  default : after.default = before.default

/-- A message before and after the renaming.  On the wire it keeps the name that
it had before. -/
structure Message.RenamesTo (before after : Message Reference) : Prop where
  id : after.id = aliases.applyScope before.id
  wire : after.name.wire = before.id
  announced : after.isExtern = before.isExtern
  parents : after.parents = before.parents.map aliases.applyScope
  enums : List.Forall₂ (EnumDecl.RenamesTo aliases) before.enums after.enums
  messages : after.messages.map Message.id =
    (before.messages.map Message.id).map aliases.applyScope
  fields : List.Forall₂ (Field.RenamesTo aliases) before.fields after.fields

/-- A definition before and after the renaming. -/
inductive TypeDecl.RenamesTo : TypeDecl Reference -> TypeDecl Reference -> Prop
  | enum {before after : EnumDecl} (renames : EnumDecl.RenamesTo aliases before after) :
      RenamesTo (.enum before) (.enum after)
  | message {before after : Message Reference}
      (renames : Message.RenamesTo aliases before after) :
      RenamesTo (.message before) (.message after)

/-- One compiled schema is the other under new names.  The table holds the old entries under
names that stay different, the definitions stand at the same handles, and every field leads
to the same definition. -/
structure Compiled.RenamesTo (before after : Compiled) : Prop where
  table : before.table.Moves after.table aliases.rename
  apart : ∀ left ∈ before.table.keys, ∀ right ∈ before.table.keys,
    aliases.rename left = aliases.rename right -> left = right
  types : List.Forall₂ (TypeDecl.RenamesTo aliases) before.types after.types
  definitions : List.Forall₂ (TypeDecl.RenamesTo aliases) (definitionsOf before.types)
    (definitionsOf after.types)
  targets : ∀ source, .message source ∈ definitionsOf before.types -> ∀ field ∈ source.fields,
    ∀ reference, field.type = .user reference -> ∃ old new,
      (definitionsOf before.types)[reference.symbol.handle]? = some old ∧
      old.kind = reference.symbol.kind ∧ old.id = reference.name ∧
      (definitionsOf after.types)[reference.symbol.handle]? = some new ∧
      TypeDecl.RenamesTo aliases old new

lemma Field.renamesTo_alias (field : Field Reference) :
    Field.RenamesTo aliases field (field.alias aliases) := by
  refine ⟨rfl, ?_, rfl, rfl, rfl, rfl⟩
  rw [Field.alias]
  cases field.type with
  | primitive type => exact .primitive type
  | user reference => exact .user reference.name reference.symbol

/-- A message is renamed along with everything in it.  The wire name stays if it is the name
of the message to begin with. -/
lemma Message.renamesTo_alias (plain : message.name.wire = message.id) :
    Message.RenamesTo aliases message (message.alias aliases) where
  id := message.id_alias aliases
  wire := by
    rw [← plain]
    cases message <;> rw [Message.alias] <;> rfl
  announced := message.isExtern_alias aliases
  parents := message.parents_alias aliases
  enums := by
    rw [message.enums_alias, forall₂_map_right_iff, forall₂_same]
    exact fun _ _ => ⟨rfl, rfl⟩
  messages := by
    rw [message.messages_alias, List.map_map, List.map_map]
    exact map_congr_left fun inner _ => inner.id_alias aliases
  fields := by
    rw [message.fields_alias, forall₂_map_right_iff, forall₂_same]
    exact fun field _ => field.renamesTo_alias aliases

end

namespace SymbolTable.Moves

variable {table next : SymbolTable Nat} {renamed other : String -> String}

/-- Only the new names of the keys matter. -/
lemma congr (moves : table.Moves next renamed)
    (agree : ∀ name ∈ table.keys, renamed name = other name) : table.Moves next other where
  enums := by
    intro name handle
    rw [moves.enums]
    refine exists_congr fun old => and_congr_right fun found => ?_
    rw [agree old (mem_append_left _ (Name.Table.mem_names_iff.mpr ⟨handle, found⟩))]
  messages := by
    intro name entry
    rw [moves.messages]
    refine exists_congr fun old => and_congr_right fun found => ?_
    rw [agree old (mem_append_right _ (Name.Table.mem_names_iff.mpr ⟨entry, found⟩))]
  apart := moves.apart

/-- A table that has not moved can stand for the one that it was made from. -/
lemma of_unmoved {plain : SymbolTable Nat} (unmoved : table.Moves plain fun name => name)
    (moves : table.Moves next renamed) : plain.Moves next renamed where
  enums := by
    intro name handle
    simp only [moves.enums, unmoved.enums, exists_eq_right]
  messages := by
    intro name entry
    simp only [moves.messages, unmoved.messages, exists_eq_right]
  apart := moves.apart

end SymbolTable.Moves

namespace Stages

variable {options : NamingOptions} {document : Document} {aliases : Aliases}
  {table : SymbolTable Nat} {types : List (TypeDecl Reference)} {compiled : Compiled}

lemma moves (stages : Stages options document aliases table types compiled)
    (sound : Document.Sound document) : table.Moves compiled.table aliases.rename := by
  have indexes := stages.indexes_resolved sound
  rcases aliasNames_ok indexes stages.renamed with ⟨_, renamed, moves, follows⟩
  refine moves.congr ?_
  intro name member
  rcases indexes.mem_keys_iff.mp member with ⟨type, listed, same⟩
  rw [← same, follows type listed, aliases.rename_text (indexes.proper type listed)]

/-- Without aliases the table stays as it is. -/
lemma unmoved (stages : Stages options document Aliases.empty table types compiled)
    (sound : Document.Sound document) : table.Moves compiled.table fun name => name := by
  have indexes := stages.indexes_resolved sound
  refine (stages.moves sound).congr ?_
  intro name member
  rcases indexes.mem_keys_iff.mp member with ⟨type, listed, same⟩
  rw [← same, Aliases.rename_text _ (indexes.proper type listed), Aliases.applyScope_empty]

section
variable {decl : Message Reference} (stages : Stages options document aliases table types compiled)
  (sound : Document.Sound document) (member : .message decl ∈ definitionsOf types)
include stages sound member

lemma declared_eq_none : decl.name.declared = none := by
  rcases exists_completes_of_resolve stages.resolved member with ⟨written, listed, completes⟩
  rcases message_mem_definitionsOf_flatten.mp listed with
    ⟨placed, isPlaced, message, isMessage, same⟩
  have named := (sound placed isPlaced).type.namedByWord
  rw [isMessage] at named
  rcases named with ⟨word, _, isName⟩
  rw [completes.name, ← same]
  cases message with
  | external name => rw [Message.qualify, Message.name, show name = _ from isName]; rfl
  | defined name parents enums messages fields =>
    rw [Message.qualify, Message.name, show name = _ from isName]; rfl

/-- Under whatever names, a message keeps its first name on the wire. -/
lemma wire_alias (others : Aliases) : (decl.alias others).name.wire = decl.id := by
  have first := stages.declared_eq_none sound member
  cases decl with
  | external name =>
    rw [Message.name] at first
    rw [Message.alias, Message.name, MessageName.alias, first]
    rfl
  | defined name parents enums messages fields =>
    rw [Message.name] at first
    rw [Message.alias, Message.name, MessageName.alias, first]
    rfl

end

end Stages

/-- Nothing can go wrong without aliases that does not go wrong with them. -/
lemma exists_compile_plain {options : NamingOptions} {after : Compiled}
    (sound : Document.Sound document) (done : compile options document = .ok after) :
    ∃ before, compile {} document = .ok before := by
  rcases (exists_compile_iff sound).mp ⟨after, done⟩ with ⟨aliases, _, able⟩
  refine (exists_compile_iff sound).mpr ⟨Aliases.empty, rfl, able.coexist, able.fieldsDiffer,
    able.resolvable, ?_⟩
  intro left _ right _ same
  rwa [Aliases.applyScope_empty, Aliases.applyScope_empty] at same

/-- Every definition is renamed, if all messages begin with their names on the
wire. -/
lemma Compiled.renamesTo_of_mem (aliases : Aliases) {compiled : Compiled}
    (plain : ∀ message, .message message ∈ definitionsOf compiled.types ->
      message.name.wire = message.id)
    {type : TypeDecl Reference} (member : type ∈ definitionsOf compiled.types) :
    TypeDecl.RenamesTo aliases type (type.alias aliases) := by
  rcases type with decl | message
  · exact .enum ⟨rfl, rfl⟩
  · exact .message (Message.renamesTo_alias aliases (plain message member))

namespace Compiled.Renames

variable {options : NamingOptions} {aliases : Aliases} {before after : Compiled}

/-- What a field refers to has, at the same place, what it refers to afterwards. -/
lemma renamesTo_targets (renames : Renames options aliases before after)
    (plain : ∀ message, .message message ∈ definitionsOf before.types ->
      message.name.wire = message.id)
    {source : Message Reference} (member : .message source ∈ definitionsOf before.types)
    {field : Field Reference} (listed : field ∈ source.fields) {reference : Reference}
    (isType : field.type = .user reference) :
    ∃ old new, (definitionsOf before.types)[reference.symbol.handle]? = some old ∧
      old.kind = reference.symbol.kind ∧ old.id = reference.name ∧
      (definitionsOf after.types)[reference.symbol.handle]? = some new ∧
      TypeDecl.RenamesTo aliases old new := by
  have indexes := renames.plain.indexes
  rcases (renames.plain.linked source member).fields field listed reference isType with
    ⟨known, found⟩
  rcases List.mem_map.mp known with ⟨named, defined, isName⟩
  rcases indexes.definition_of_find? found with ⟨old, place, sameKind, sameText⟩
  have same : old.id = reference.name := Identifier.eq_of_text_eq
    (indexes.proper old (mem_of_getElem? place)) (isName ▸ indexes.proper named defined)
    sameText
  have moved : (definitionsOf after.types)[reference.symbol.handle]? =
      some (old.alias aliases) := by
    rw [renames.definitions, getElem?_map, place]
    rfl
  exact ⟨old, old.alias aliases, place, sameKind, same, moved,
    renamesTo_of_mem aliases plain (mem_of_getElem? place)⟩

/-- Names of the schema that become the same are the same. -/
lemma apart_keys (renames : Renames options aliases before after) {left right : String}
    (memberLeft : left ∈ before.table.keys) (memberRight : right ∈ before.table.keys)
    (same : aliases.rename left = aliases.rename right) : left = right := by
  have indexes := renames.plain.indexes
  rcases indexes.mem_keys_iff.mp memberLeft with ⟨first, listedFirst, isFirst⟩
  rcases indexes.mem_keys_iff.mp memberRight with ⟨second, listedSecond, isSecond⟩
  rw [← isFirst, ← isSecond, aliases.rename_text (indexes.proper _ listedFirst),
    aliases.rename_text (indexes.proper _ listedSecond)] at same
  rw [← isFirst, ← isSecond]
  exact (indexes.text_applyScope_eq_iff renames.built renames.apart listedFirst listedSecond).mp
    same

end Compiled.Renames

lemma wire_of_compile_plain {before : Compiled}
    (sound : Document.Sound document) (done : compile {} document = .ok before)
    (member : .message message ∈ definitionsOf before.types) : message.name.wire = message.id := by
  rcases compile_eq_ok_iff.mp done with ⟨aliases, table, types, stages⟩
  have noAliases : aliases = Aliases.empty := (Except.ok.inj stages.wished).symm
  subst noAliases
  rcases stages.exists_resolved sound member with ⟨old, listed, rfl⟩
  rw [stages.wire_alias sound listed, Message.id_alias, Aliases.applyScope_empty]

/-- A document that compiles with aliases compiles without them, to the same
schema under its first names. -/
theorem compile_renames_plain_schema {source : List UInt8} {document : Document}
    {options : NamingOptions} {after : Compiled} (parsed : Syntax.parse source = .ok document)
    (done : compile options document = .ok after) :
    ∃ aliases before, options.build = .ok aliases ∧ compile {} document = .ok before ∧
      Compiled.RenamesTo aliases before after := by
  have sound : Document.Sound document := Syntax.sound_of_parse parsed
  rcases exists_compile_plain sound done with ⟨before, doneBefore⟩
  rcases compile_eq_ok_iff.mp done with ⟨aliases, table, types, stages⟩
  rcases compile_eq_ok_iff.mp doneBefore with ⟨noAliases, tableBefore, typesBefore, stagesBefore⟩
  have isEmpty : noAliases = Aliases.empty := (Except.ok.inj stagesBefore.wished).symm
  have sameTable : tableBefore = table :=
    Except.ok.inj (stagesBefore.indexed.symm.trans stages.indexed)
  subst isEmpty sameTable
  have renames := renames_of_compile parsed doneBefore stages.wished done
  have plain : ∀ message, .message message ∈ definitionsOf before.types ->
      message.name.wire = message.id := fun _ => wire_of_compile_plain sound doneBefore
  refine ⟨aliases, before, stages.wished, doneBefore, ?_⟩
  constructor
  · exact (stagesBefore.unmoved sound).of_unmoved (stages.moves sound)
  · exact fun _ memberLeft _ memberRight => renames.apart_keys memberLeft memberRight
  · rw [renames.types, forall₂_map_right_iff, forall₂_same]
    exact fun _ member => Compiled.renamesTo_of_mem aliases plain (mem_definitionsOf_of_mem member)
  · rw [renames.definitions, forall₂_map_right_iff, forall₂_same]
    exact fun _ => Compiled.renamesTo_of_mem aliases plain
  · exact fun _ member _ listed _ => renames.renamesTo_targets plain member listed

/-- Nested types, parents and an announced message; two namespaces are swapped, and all else
is put into a scope. -/
theorem compile_renames_swapped_namespaces :
    ∃ document after, Syntax.parse
        ("namespace a \x7b message P \x7b enum E \x7b X, Y \x7d E e = 1; \x7d \x7d " ++
          "namespace b \x7b message P extends a.P \x7b a.P.E other = 2; M m; \x7d \x7d " ++
          "message M \x7b extern message Q; b.P p = 1; optional Q[4] q; \x7d").toUTF8.toList =
            .ok document ∧
      compile ⟨[("a", "b"), ("b", "a")], "top"⟩ document = .ok after ∧
      ∃ aliases before, (⟨[("a", "b"), ("b", "a")], "top"⟩ : NamingOptions).build = .ok aliases ∧
        compile {} document = .ok before ∧ Compiled.RenamesTo aliases before after := by
  refine exists_compiled (fun _ => true) (by decide +kernel) ?_
  intro document after parsed done _
  exact compile_renames_plain_schema parsed done

end MessageSchema

import MessageSchema.Proofs.Compile.Stages
import MessageSchema.Proofs.Syntax.Contents

namespace MessageSchema

/-!
The symbol table of a compiled schema.

It leads from names to definitions without a gap: every enum and every defined
message is in it, and one announcement for every message that is never defined.
Renaming changes none of this, however the aliases are entangled.
-/

section
variable {ρ : Type}

/-- Some name leads to the definition under this handle. -/
def SymbolTable.Lists (table : SymbolTable Nat) (handle : Nat) : Prop :=
  (∃ name, table.enums.find? name = some handle) ∨
    ∃ name entry, table.messages.find? name = some entry ∧ entry.handle = handle

/-- All messages of this name are announced only. -/
def OnlyAnnounced (definitions : List (TypeDecl ρ)) (name : String) : Prop :=
  (∃ decl, .message decl ∈ definitions ∧ decl.id.text = name) ∧
    ∀ decl, .message decl ∈ definitions -> decl.id.text = name -> decl.isExtern = true

structure SymbolTable.IsTableOf (table : SymbolTable Nat) (definitions : List (TypeDecl ρ)) :
    Prop where
  /-- The name of an enum's entry is the name of the enum. -/
  enumName : ∀ name handle, table.enums.find? name = some handle ->
    ∃ decl, definitions[handle]? = some (.enum decl) ∧ decl.name.text = name
  /-- The name of a message's entry is the name of the message. -/
  messageName : ∀ name entry, table.messages.find? name = some entry ->
    ∃ decl, definitions[entry.handle]? = some (.message decl) ∧ decl.id.text = name ∧
      entry.announced = decl.isExtern
  /-- No name is both that of an enum and that of a message. -/
  disjoint : ∀ name ∈ table.enums.names, name ∉ table.messages.names
  /-- Enums and defined messages are listed, at any depth. -/
  listsDefined : ∀ handle type, definitions[handle]? = some type -> type.isAnnounced = false ->
    table.Lists handle
  /-- An announcement is listed only if the message is defined nowhere. -/
  listsAnnounced : ∀ handle decl, definitions[handle]? = some (.message decl) ->
    decl.isExtern = true -> table.Lists handle -> OnlyAnnounced definitions decl.id.text
  /-- Of the announcements of such a message, exactly one is listed. -/
  announcedOnce : ∀ name, OnlyAnnounced definitions name ->
    ∃! handle, table.Lists handle ∧
      ∃ decl, definitions[handle]? = some (.message decl) ∧ decl.id.text = name
  /-- Nothing else is listed. -/
  listsExisting : ∀ handle, table.Lists handle -> ∃ type, definitions[handle]? = some type
  /-- The name of every definition is in the table. -/
  named : ∀ type ∈ definitions, type.id.text ∈ table.enums.names ++ table.messages.names

namespace SymbolTable

variable {table : SymbolTable Nat} {definitions : List (TypeDecl ρ)}

section
variable (describes : table.Describes definitions)
include describes

variable {handle : Nat}

/-- A message is listed exactly if it stands for its name. -/
lemma Describes.lists_message_iff {decl : Message ρ}
    (place : definitions[handle]? = some (.message decl)) :
    table.Lists handle ↔ table.messages.find? decl.id.text = some ⟨handle, decl.isExtern⟩ := by
  constructor
  · rintro (⟨name, found⟩ | ⟨name, entry, found, same⟩)
    · rcases (describes.enums name handle).mp found with ⟨other, listed, _⟩
      rw [place] at listed
      cases listed
    · rcases (describes.messages name entry).mp found with ⟨other, listed, sameName, flag, _⟩
      rw [same, place] at listed
      cases listed
      rw [sameName, found, ← same, ← flag]
  · intro found
    exact .inr ⟨_, _, found, rfl⟩

lemma Describes.lists_of_defined {type : TypeDecl ρ} (place : definitions[handle]? = some type)
    (isDefined : type.isAnnounced = false) : table.Lists handle := by
  rcases type with decl | decl
  · exact .inl ⟨decl.name.text, (describes.enums _ handle).mpr ⟨decl, place, rfl⟩⟩
  · refine .inr ⟨decl.id.text, ⟨handle, false⟩, ?_, rfl⟩
    refine (describes.messages _ _).mpr ⟨decl, place, rfl, isDefined.symm, ?_⟩
    intro announced
    rw [TypeDecl.isAnnounced, announced] at isDefined
    cases isDefined

lemma Describes.onlyAnnounced_of_lists {decl : Message ρ}
    (place : definitions[handle]? = some (.message decl)) (announced : decl.isExtern = true)
    (lists : table.Lists handle) : OnlyAnnounced definitions decl.id.text := by
  refine ⟨⟨decl, List.mem_of_getElem? place, rfl⟩, ?_⟩
  intro other member same
  have found := (describes.lists_message_iff place).mp lists
  rcases (describes.messages _ _).mp found with ⟨first, listed, _, _, stands⟩
  rw [place] at listed
  cases listed
  rcases List.getElem?_of_mem member with ⟨index, listed⟩
  exact (stands announced index other listed same).1

lemma Describes.existsUnique_announced {name : String} (only : OnlyAnnounced definitions name) :
    ∃! handle, table.Lists handle ∧
      ∃ decl, definitions[handle]? = some (.message decl) ∧ decl.id.text = name := by
  rcases only.1 with ⟨decl, member, sameName⟩
  rcases describes.known decl member with ⟨entry, found⟩
  rw [sameName] at found
  rcases (describes.messages name entry).mp found with ⟨first, place, isFirst, _⟩
  refine ⟨entry.handle, ⟨.inr ⟨name, entry, found, rfl⟩, first, place, isFirst⟩, ?_⟩
  rintro handle ⟨lists, other, listed, isOther⟩
  have again := (describes.lists_message_iff listed).mp lists
  rw [isOther, found] at again
  cases again
  rfl

lemma Describes.isTableOf :
    table.IsTableOf definitions where
  enumName := fun name handle => (describes.enums name handle).mp
  messageName := by
    intro name entry found
    rcases (describes.messages name entry).mp found with ⟨decl, place, same, flag, _⟩
    exact ⟨decl, place, same, flag⟩
  disjoint := by
    intro name memberEnum memberMessage
    rcases Name.Table.mem_names_iff.mp memberEnum with ⟨handle, foundEnum⟩
    rcases Name.Table.mem_names_iff.mp memberMessage with ⟨entry, foundMessage⟩
    exact describes.apart name handle entry foundEnum foundMessage
  listsDefined := fun _ _ => describes.lists_of_defined
  listsAnnounced := fun _ _ => describes.onlyAnnounced_of_lists
  announcedOnce := fun _ => describes.existsUnique_announced
  listsExisting := by
    rintro handle (⟨name, found⟩ | ⟨name, entry, found, same⟩)
    · rcases (describes.enums name handle).mp found with ⟨decl, place, _⟩
      exact ⟨_, place⟩
    · rcases (describes.messages name entry).mp found with ⟨decl, place, _⟩
      exact ⟨_, same ▸ place⟩
  named := fun type member => describes.mem_keys_iff.mpr ⟨type, member, rfl⟩

end

end SymbolTable
end

/-- What an entry of the symbol table tells of a type: its name, whether it is an enum or a
message, and whether it is announced only. -/
def TypeDecl.entry {ρ : Type} (type : TypeDecl ρ) : Identifier × DefinitionKind × Bool :=
  (type.id, type.kind, type.isAnnounced)

/-- The definitions of a compiled schema are those of the document, each once, under the
aliased full names. -/
lemma Stages.perm_entries {options : NamingOptions} {document : Document} {aliases : Aliases}
    {table : SymbolTable Nat} {types : List (TypeDecl Reference)} {compiled : Compiled}
    (stages : Stages options document aliases table types compiled)
    (sound : Document.Sound document) : ((definitionsOf compiled.types).map TypeDecl.entry).Perm
      ((declared document).map fun placed =>
        (aliases.applyScope placed.name, placed.type.kind, placed.type.isAnnounced)) := by
  let renamed (entry : Identifier × DefinitionKind × Bool) := (aliases.applyScope entry.1, entry.2)
  have resolved : (definitionsOf types).map TypeDecl.entry =
      (definitionsOf (flatten (qualify document))).map TypeDecl.entry := by
    apply map_eq_of_forall₂
    refine (definitions_of_resolve stages.resolved).imp fun _ _ completes => ?_
    rw [TypeDecl.entry, TypeDecl.entry, completes.alike.id, completes.alike.kind,
      completes.alike.announced]
  have aliased : (definitionsOf compiled.types).map TypeDecl.entry =
      ((definitionsOf types).map TypeDecl.entry).map renamed := by
    rw [stages.types_eq sound, definitionsOf_alias, List.map_map, List.map_map]
    apply List.map_congr_left
    rintro (decl | message) _
    · rfl
    · cases message <;> rfl
  have written : ∀ placed : Placed, renamed placed.qualified.entry =
      (aliases.applyScope placed.name, placed.type.kind, placed.type.isAnnounced) := by
    intro placed
    simp only [renamed, TypeDecl.entry, Placed.id_qualified]
    rw [Placed.qualified, TypeDecl.kind_qualify, TypeDecl.isAnnounced_qualify]
  rw [aliased, resolved]
  simpa only [List.map_map, Function.comp_def, written] using
    ((perm_declared document).map TypeDecl.entry).map renamed

/-- The table of a compiled schema is the symbol table of its types, under the
names that they finally have.  These types are the ones that the document declares,
renamed. -/
theorem compiled_table_isTableOf {source : List UInt8} {document : Document}
    {options : NamingOptions} {compiled : Compiled}
    (parsed : Syntax.parse source = .ok document)
    (done : compile options document = .ok compiled) :
    compiled.table.IsTableOf (definitionsOf compiled.types) ∧
    ∃ aliases, options.build = .ok aliases ∧
      ((definitionsOf compiled.types).map TypeDecl.entry).Perm
        ((declared document).map fun placed =>
          (aliases.applyScope placed.name, placed.type.kind, placed.type.isAnnounced)) := by
  rcases compile_eq_ok_iff.mp done with ⟨aliases, table, types, stages⟩
  have sound := Syntax.sound_of_parse parsed
  exact ⟨(stages.indexes_final sound).isTableOf, aliases, stages.wished, stages.perm_entries sound⟩

/-- Two namespaces take each other's names; a message is announced before and after its
definition, another is never defined. -/
theorem swapped_table_isTableOf :
    ∃ document compiled,
      Syntax.parse ("namespace a \x7b extern message M; message M \x7b\x7d " ++
        "extern message M; \x7d namespace b \x7b enum M \x7b A \x7d extern message N; " ++
        "extern message N; \x7d").toUTF8.toList = .ok document ∧
      compile ⟨[("a", "b"), ("b", "a")], ""⟩ document = .ok compiled ∧
      compiled.table.enums.names = ["a.M"] ∧ compiled.table.messages.names = ["a.N", "b.M"] ∧
      compiled.table.IsTableOf (definitionsOf compiled.types) := by
  refine exists_compiled (fun compiled => compiled.table.enums.names == ["a.M"] &&
    compiled.table.messages.names == ["a.N", "b.M"]) (by decide +kernel) ?_
  intro document compiled parsed done names
  rw [Bool.and_eq_true, beq_iff_eq, beq_iff_eq] at names
  exact ⟨names.1, names.2, (compiled_table_isTableOf parsed done).1⟩

end MessageSchema

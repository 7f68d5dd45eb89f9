import MessageSchema.Proofs.Compile.Linking
import MessageSchema.Proofs.Syntax.Contents

namespace MessageSchema

open List

/-!
Texts that stand for names.

The symbol table is keyed by dotted texts.  All names that a compilation enters, looks
up or makes are proper, whatever the aliases, so a text stands for one of them only.
-/

/-- A name that a message mentions, as it is written or as it has been resolved. -/
def Message.Mentions {ρ : Type} (nameOf : ρ -> Identifier) (message : Message ρ)
    (name : Identifier) : Prop :=
  name ∈ message.parents ∨
    ∃ field ∈ message.fields, ∃ target, field.type = .user target ∧ nameOf target = name

lemma proper_of_mentions {message : Message Identifier} {name : Identifier}
    (proper : message.MentionsProper) (mentions : message.Mentions id name) : name.Proper := by
  rcases mentions with listed | ⟨field, listed, target, isType, rfl⟩
  · exact proper.1 name listed
  · exact proper.2 field listed target isType

lemma Message.Linked.mem_of_mentions {table : SymbolTable Nat} {names : List Identifier}
    {message : Message Reference} {name : Identifier} (linked : message.Linked table names)
    (mentions : message.Mentions Reference.name name) : name ∈ names := by
  rcases mentions with listed | ⟨field, listed, reference, isType, rfl⟩
  · exact (linked.parents name listed).1
  · exact (linked.fields field listed reference isType).1

namespace SymbolTable

/-- Every key of the table is the text of a proper name, and looking up a text is looking up
the name: what is found is a definition that bears it, and some is found if there is one. -/
structure KeyedByName {ρ : Type} (table : SymbolTable Nat) (definitions : List (TypeDecl ρ)) :
    Prop where
  keys : ∀ key ∈ table.keys, ∃ name : Identifier, name.Proper ∧ name.text = key
  found : ∀ name : Identifier, name.Proper -> ∀ symbol, table.find? name.text = some symbol ->
    ∃ type, definitions[symbol.handle]? = some type ∧ type.kind = symbol.kind ∧ type.id = name
  known : ∀ name : Identifier, name.Proper ->
    ((table.find? name.text).isSome = true ↔ name ∈ definitions.map TypeDecl.id)

lemma Indexes.keyedByName {ρ : Type} {table : SymbolTable Nat} {definitions : List (TypeDecl ρ)}
    (indexes : table.Indexes definitions) : table.KeyedByName definitions where
  keys := by
    intro key listed
    rcases indexes.mem_keys_iff.mp listed with ⟨type, member, same⟩
    exact ⟨type.id, indexes.proper type member, same⟩
  found := by
    intro name proper symbol found
    rcases indexes.definition_of_find? found with ⟨type, listed, kind, same⟩
    have properType := indexes.proper type (mem_of_getElem? listed)
    exact ⟨type, listed, kind, Identifier.eq_of_text_eq properType proper same⟩
  known := by
    intro name proper
    rw [indexes.isSome_find?_text proper, contains_iff_mem]

end SymbolTable

/-- Texts identify names.  A proper name is read back from its text, so texts are equal only if
the names are.  In the compilation of a parsed document, all names that are entered in the
table, looked up in it or put in place of others are proper, whatever the aliases, and
the table finds what a table of names would find, before and after names are replaced. -/
theorem texts_identify_names {source : List UInt8} {document : Document} {options : NamingOptions}
    {aliases : Aliases} (parsed : Syntax.parse source = .ok document)
    (wished : options.build = .ok aliases) :
    (∀ name : Identifier, name.Proper -> .ofDotted name.text = name ∧
      ∀ other : Identifier, other.Proper -> (name.text = other.text ↔ name = other)) ∧
    (∀ type ∈ definitionsOf (flatten (qualify document)), type.id.Proper ∧
      ∀ decl, type = .message decl -> ∀ written, decl.Mentions id written ->
        ∀ key ∈ SymbolTable.candidates written decl.id,
          ∃ name : Identifier, name.Proper ∧ name.text = key) ∧
    (∀ table, index (flatten (qualify document)) = .ok table ->
      table.KeyedByName (definitionsOf (flatten (qualify document))) ∧
      ∀ types, resolve (flatten (qualify document)) table = .ok types ->
        ∀ type ∈ definitionsOf types, (aliases.applyScope type.id).Proper ∧
          ∀ decl, type = .message decl -> ∀ name, decl.Mentions Reference.name name ->
            (aliases.applyScope name).Proper) ∧
    ∀ compiled, compile options document = .ok compiled ->
      compiled.table.KeyedByName (definitionsOf compiled.types) := by
  have sound : Document.Sound document := Syntax.sound_of_parse parsed
  have built := NamingOptions.built_of_build wished
  refine ⟨?_, ?_, ?_, ?_⟩
  · intro name proper
    exact ⟨Identifier.ofDotted_text proper, fun other => Identifier.text_eq_iff proper⟩
  · intro type member
    refine ⟨sound.proper_id member, ?_⟩
    rintro decl rfl written mentions key listed
    rw [SymbolTable.candidates_eq_map_readings] at listed
    rcases mem_map.mp listed with ⟨name, reading, same⟩
    have proper := proper_of_mentions (sound.mentionsProper member) mentions
    exact ⟨name, SymbolTable.proper_of_mem_readings proper (sound.proper_id member).clean reading,
      same⟩
  · intro table indexed
    refine ⟨(sound.indexes indexed).keyedByName, ?_⟩
    intro types resolved type member
    have indexes := (sound.indexes indexed).resolved resolved
    refine ⟨Aliases.proper_applyScope built (indexes.proper type member), ?_⟩
    rintro decl rfl name mentions
    have linked := sound.linked indexed resolved member
    rcases mem_map.mp (linked.mem_of_mentions mentions) with ⟨named, listed, same⟩
    rw [← same]
    exact Aliases.proper_applyScope built (indexes.proper named listed)
  · intro compiled done
    rcases compile_eq_ok_iff.mp done with ⟨_, _, _, stages⟩
    exact (stages.indexes_final sound).keyedByName

/-- Empty parts of an alias and of a prefix get into no name. -/
theorem blank_parts_are_dropped :
    ∃ document compiled,
      Syntax.parse "namespace a \x7b message M \x7b M m; \x7d \x7d enum E \x7b\x7d".toUTF8.toList =
        .ok document ∧
      compile ⟨[(".a.", "..b")], ".p."⟩ document = .ok compiled ∧
      compiled.table.keys = ["p.E", "b.M"] ∧
      compiled.table.KeyedByName (definitionsOf compiled.types) := by
  refine exists_compiled (fun compiled => compiled.table.keys == ["p.E", "b.M"])
    (by decide +kernel) ?_
  intro document compiled parsed done keys
  rcases compile_eq_ok_iff.mp done with ⟨aliases, _, _, stages⟩
  exact ⟨beq_iff_eq.mp keys, (texts_identify_names parsed stages.wished).2.2.2 compiled done⟩

end MessageSchema

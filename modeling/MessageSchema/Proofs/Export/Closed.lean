import MessageSchema.Proofs.Export.Listing

namespace MessageSchema

/-!
The description of a schema is closed: whatever it mentions by name, it also lists.
A program that reads it can follow every name.  The lists of names are in the order
of their bytes, and no name stands for two things.
-/

lemma Primitive.mem_all (type : Primitive) : type ∈ Primitive.all := by
  cases type <;> decide

namespace Export

/-- The names are in strictly ascending order of their bytes. -/
def BytesAscending (names : List String) : Prop :=
  names.Pairwise fun left right => Name.bytes left < Name.bytes right

/-- The type of a field is what its kind says: a keyword, or the name of
something that the description lists. -/
structure FieldInfo.ClosedIn (description : Description) (field : FieldInfo) : Prop where
  kind : field.kind ∈ ["primitive", "enum", "message"]
  primitive : field.kind = "primitive" -> field.type ∈ Primitive.all.map Primitive.keyword
  enum : field.kind = "enum" -> field.type ∈ description.enumNames
  message : field.kind = "message" -> field.type ∈ description.messageNames

/-- All that a message mentions is listed in the description.  No message
depends on itself. -/
structure MessageInfo.ClosedIn (description : Description) (message : MessageInfo) : Prop where
  fields : ∀ field ∈ message.fields, field.ClosedIn description
  parents : ∀ name ∈ message.parents, name ∈ description.messageNames
  enums : ∀ name ∈ message.enums, name ∈ description.enumNames
  messages : ∀ name ∈ message.messages, name ∈ description.messageNames
  dependencies : ∀ name ∈ message.dependencies, name ∈ description.messageNames
  dependenciesAscending : BytesAscending message.dependencies
  notItself : message.name ∉ message.dependencies

/-- A description that lists whatever it mentions. -/
structure Description.Closed (description : Description) : Prop where
  given : description.enums.isSome = true ∧ description.messages.isSome = true
  enumsAscending : BytesAscending description.enumNames
  messagesAscending : BytesAscending description.messageNames
  apart : ∀ name ∈ description.enumNames, name ∉ description.messageNames
  messages : ∀ message ∈ description.messageList, message.ClosedIn description

lemma bytesAscending_of_ascending {names : List String} (ascending : names.Pairwise (· < ·)) :
    BytesAscending names :=
  ascending.imp Name.bytes_lt_iff.mpr

namespace FieldInfo.ClosedIn

variable {description : Description} {field : FieldInfo}

lemma of_primitive (isKind : field.kind = "primitive")
    (listed : field.type ∈ Primitive.all.map Primitive.keyword) : field.ClosedIn description := by
  refine ⟨?_, fun _ => listed, ?_, ?_⟩ <;> simp [isKind]

lemma of_enum (isKind : field.kind = "enum") (listed : field.type ∈ description.enumNames) :
    field.ClosedIn description := by
  refine ⟨?_, ?_, fun _ => listed, ?_⟩ <;> simp [isKind]

lemma of_message (isKind : field.kind = "message")
    (listed : field.type ∈ description.messageNames) : field.ClosedIn description := by
  refine ⟨?_, ?_, ?_, fun _ => listed⟩ <;> simp [isKind]

end FieldInfo.ClosedIn

section
variable {compiled : Compiled}

lemma closedIn_describeField (coherent : compiled.Coherent) {source : Message Reference}
    (member : .message source ∈ definitionsOf compiled.types) {field : Field Reference}
    (listed : field ∈ source.fields) : (describeField field).ClosedIn (describe compiled) := by
  have describes := coherent.indexes.toDescribes
  cases isType : field.type with
  | primitive type =>
    have isName : (describeField field).type = type.keyword := by
      rw [describeField, isType, FieldType.render]
    refine .of_primitive (by rw [describeField, isType, typeKind]) ?_
    rw [isName]
    exact List.mem_map_of_mem (Primitive.mem_all type)
  | user reference =>
    have isKind : (describeField field).kind = reference.symbol.kind.name := by
      rw [describeField, isType, typeKind]
    have isName : (describeField field).type = reference.name.text := by
      rw [describeField, isType, FieldType.render]
    have found := ((coherent.linked source member).fields field listed reference isType).2
    rcases SymbolTable.cases_of_find? found with
      ⟨handle, foundEnum, isEnum⟩ | ⟨entry, foundMessage, isMessage⟩
    · refine .of_enum (by rw [isKind, isEnum]; rfl) ?_
      rw [isName, mem_enumNames_describe describes]
      exact Name.Table.contains_iff.mpr ⟨handle, foundEnum⟩
    · refine .of_message (by rw [isKind, isMessage]; rfl) ?_
      rw [isName, mem_messageNames_describe describes]
      exact Name.Table.contains_iff.mpr ⟨entry, foundMessage⟩

/-- References lead to messages, so everything that a message reaches is one. -/
lemma contains_of_reaches (coherent : compiled.Coherent) {name target : String}
    (reaches : compiled.references.Reaches name target) (different : target ≠ name) :
    compiled.table.messages.contains target = true := by
  rcases Relation.ReflTransGen.cases_tail reaches with same | ⟨middle, _, noted⟩
  · exact absurd same different
  · rw [coherent.related] at noted
    rcases mem_refs_dependencies_iff.mp noted with ⟨_, anchor, _, _, isMessage, _, isTarget, _⟩
    rw [isTarget]
    exact SymbolTable.contains_owner isMessage

lemma closedIn_describeMessage (coherent : compiled.Coherent) {decl : Message Reference}
    (member : .message decl ∈ definitionsOf compiled.types) (name : String) :
    (describeMessage compiled.references name decl).ClosedIn (describe compiled) where
  fields := by
    intro info listed
    rcases List.mem_map.mp listed with ⟨field, isField, same⟩
    rw [← same]
    exact closedIn_describeField coherent member isField
  parents := by
    intro parent listed
    rcases List.mem_map.mp listed with ⟨origin, isParent, same⟩
    rcases coherent.exists_parent member isParent with ⟨entry, _, found, _⟩
    rw [← same, mem_messageNames_describe coherent.indexes.toDescribes]
    exact Name.Table.contains_iff.mpr ⟨entry, found⟩
  enums := by
    intro inner listed
    rcases List.mem_map.mp listed with ⟨enum, isEnum, same⟩
    rw [mem_enumNames_describe coherent.indexes.toDescribes]
    exact coherent.indexes.enums_contains_iff.mpr ⟨enum, enum_mem_definitionsOf member isEnum, same⟩
  messages := by
    intro inner listed
    rcases List.mem_map.mp listed with ⟨message, isMessage, same⟩
    rw [mem_messageNames_describe coherent.indexes.toDescribes]
    exact coherent.indexes.messages_contains_iff.mpr
      ⟨message, message_mem_definitionsOf member isMessage, same⟩
  dependencies := by
    intro target listed
    rcases (mem_dependencies_describeMessage coherent.related).mp listed with
      ⟨_, different, reaches⟩
    rw [mem_messageNames_describe coherent.indexes.toDescribes]
    exact contains_of_reaches coherent reaches different
  dependenciesAscending :=
    bytesAscending_of_ascending (dependencies_describeMessage_ascending coherent.related name decl)
  notItself := by
    intro listed
    exact ((mem_dependencies_describeMessage coherent.related).mp listed).2.1 rfl

end

/-- The description of a compiled document is closed. -/
theorem describe_closed {source : List UInt8} {document : Document} {options : NamingOptions}
    {compiled : Compiled} (parsed : Syntax.parse source = .ok document)
    (done : compile options document = .ok compiled) : (describe compiled).Closed := by
  rcases compile_eq_ok_iff.mp done with ⟨aliases, table, types, stages⟩
  have coherent := stages.coherent (Syntax.sound_of_parse parsed)
  have describes := coherent.indexes.toDescribes
  constructor
  · exact ⟨rfl, rfl⟩
  · exact bytesAscending_of_ascending (enumNames_ascending describes)
  · exact bytesAscending_of_ascending (messageNames_ascending describes)
  · intro name isEnum isMessage
    rw [enumNames_describe describes] at isEnum
    rw [messageNames_describe describes] at isMessage
    rcases Name.Table.mem_names_iff.mp isEnum with ⟨handle, foundEnum⟩
    rcases Name.Table.mem_names_iff.mp isMessage with ⟨entry, foundMessage⟩
    exact describes.apart name handle entry foundEnum foundMessage
  · intro message listed
    rcases mem_messageList_describe.mp listed with ⟨name, entry, decl, _, place, same⟩
    rw [← same]
    exact closedIn_describeMessage coherent (List.mem_of_getElem? place) name

/-- A schema in which messages extend, hold and use each other across scopes,
with one of them announced only. -/
theorem describe_closed_mixed_schema :
    ∃ document compiled, Syntax.parse
        ("namespace n \x7b enum E \x7b A, B \x7d message P \x7b message In \x7b E e; \x7d In i; " ++
          "\x7d \x7d message M extends n.P \x7b enum K \x7b Z \x7d K k; string s; M m; X x; \x7d " ++
          "extern message X;").toUTF8.toList = .ok document ∧
      compile ⟨[("n", "k")], ""⟩ document = .ok compiled ∧
      (describe compiled).messageNames = ["M", "X", "k.P", "k.P.In"] ∧
      (describe compiled).enumNames = ["M.K", "k.E"] ∧ (describe compiled).Closed := by
  refine exists_compiled (fun compiled =>
    (describe compiled).messageNames == ["M", "X", "k.P", "k.P.In"] &&
      (describe compiled).enumNames == ["M.K", "k.E"]) (by decide +kernel) ?_
  intro document compiled parsed done names
  simp only [Bool.and_eq_true, beq_iff_eq] at names
  exact ⟨names.1, names.2, describe_closed parsed done⟩

end Export
end MessageSchema

import MessageSchema.Proofs.Compile.Indexing

namespace MessageSchema

open List Option

/-!
What resolving achieves, and when it succeeds.

A name written in a message refers to the first of its readings that some definition
bears: as it stands, or as a member of the message or of a scope around it.  A
schema is resolved exactly if every parent can be read as a message, every field
type as a definition, and every ordinal is in range.  Definitions keep their places
and names.
-/

variable {name message : Identifier} {α β : Type} {symbol : Symbol Nat}

namespace SymbolTable

/-- The ways to read a name in a scope, in the order in which they are tried. -/
def readings (name scope : Identifier) : List Identifier :=
  name :: (scopesOutward scope).map fun outer => outer.append name

/-- The first reading of a name in a scope that is among the given names. -/
def reading? (names : List Identifier) (name scope : Identifier) : Option Identifier :=
  (readings name scope).find? names.contains

/-- A reading depends only on which names there are. -/
lemma reading?_congr {left right : List Identifier}
    (same : ∀ name, name ∈ left ↔ name ∈ right) : reading? left = reading? right := by
  have sameTest : left.contains = right.contains := by
    funext found
    rw [Bool.eq_iff_iff, contains_iff_mem, contains_iff_mem, same]
  funext name scope
  rw [reading?, reading?, sameTest]

lemma candidates_eq_map_readings (name scope : Identifier) :
    candidates name scope = (readings name scope).map Identifier.text := by
  simp [candidates, readings, Function.comp_def]

variable {scope : Identifier}

lemma clean_of_mem_scopesOutward {outer : Identifier} (clean : scope.Clean)
    (member : outer ∈ scopesOutward scope) : outer.Clean := by
  rcases List.mem_map.mp member with ⟨depth, _, same⟩
  subst same
  intro segment listed
  exact clean segment (mem_of_mem_take listed)

lemma proper_of_mem_readings {found : Identifier} (proper : name.Proper) (clean : scope.Clean)
    (member : found ∈ readings name scope) : found.Proper := by
  rcases List.mem_cons.mp member with same | member
  · rw [same]
    exact proper
  · rcases List.mem_map.mp member with ⟨outer, listed, same⟩
    rw [← same]
    exact Identifier.Proper.append (clean_of_mem_scopesOutward clean listed) proper

lemma findSome?_eq_find?_bind (items : List α) (test : α -> Bool) (value : α -> Option β)
    (agree : ∀ item ∈ items, (value item).isSome = test item) :
    items.findSome? value = (items.find? test).bind value := by
  induction items with
  | nil => rfl
  | cons item rest ih =>
    have first := agree item mem_cons_self
    have others := ih fun other member => agree other (mem_cons_of_mem _ member)
    rw [findSome?_cons, find?_cons, ← first]
    cases found : value item with
    | none => exact others
    | some result => simp [found]

section
variable {ρ : Type} {table : SymbolTable Nat} {definitions : List (TypeDecl ρ)}

/-- A name refers to the enum under it, or else to the message. -/
lemma cases_of_find? {name : String} (found : table.find? name = some symbol) :
    (∃ handle, table.enums.find? name = some handle ∧ symbol = .enum handle) ∨
      ∃ entry, table.messages.find? name = some entry ∧ symbol = .message entry.handle := by
  unfold find? at found
  split at found
  · next handle foundEnum => exact .inl ⟨handle, foundEnum, (Option.some.inj found).symm⟩
  · rcases Option.map_eq_some_iff.mp found with ⟨entry, foundMessage, same⟩
    exact .inr ⟨entry, foundMessage, same.symm⟩

lemma Describes.definition_of_find? (describes : table.Describes definitions) {name : String}
    (found : table.find? name = some symbol) :
    ∃ type, definitions[symbol.handle]? = some type ∧ type.kind = symbol.kind ∧
      type.id.text = name := by
  rcases cases_of_find? found with ⟨handle, foundEnum, isEnum⟩ | ⟨entry, foundMessage, isMessage⟩
  · rcases (describes.enums name handle).mp foundEnum with ⟨decl, listed, same⟩
    rw [isEnum]
    exact ⟨.enum decl, listed, rfl, same⟩
  · rcases (describes.messages name entry).mp foundMessage with ⟨decl, listed, same, _⟩
    rw [isMessage]
    exact ⟨.message decl, listed, rfl, same⟩

/-- A name that a message bears refers to a message. -/
lemma Describes.kind_of_find?_message (describes : table.Describes definitions) {decl : Message ρ}
    (member : .message decl ∈ definitions) (found : table.find? decl.id.text = some symbol) :
    symbol.kind = .message := by
  rcases describes.known decl member with ⟨entry, known⟩
  rcases cases_of_find? found with ⟨handle, foundEnum, _⟩ | ⟨_, _, isMessage⟩
  · exact absurd known (describes.apart _ handle entry foundEnum)
  · rw [isMessage]
    rfl

/-- A table of definitions whose names are proper, so that names with the same
text are the same. -/
structure Indexes (table : SymbolTable Nat) (definitions : List (TypeDecl ρ)) : Prop
    extends table.Describes definitions where
  proper : ∀ type ∈ definitions, type.id.Proper

lemma Indexes.isSome_find?_text (indexes : table.Indexes definitions) (properName : name.Proper) :
    (table.find? name.text).isSome = (definitions.map TypeDecl.id).contains name := by
  rw [Bool.eq_iff_iff, contains_iff_mem, List.mem_map]
  constructor
  · intro found
    rcases Option.isSome_iff_exists.mp found with ⟨symbol, found⟩
    rcases indexes.definition_of_find? found with ⟨type, listed, _, same⟩
    have member := mem_of_getElem? listed
    exact ⟨type, member, Identifier.eq_of_text_eq (indexes.proper type member) properName same⟩
  · rintro ⟨type, member, same⟩
    apply Option.isSome_iff_ne_none.mpr
    intro missing
    exact indexes.find?_eq_none_iff.mp missing type member (by rw [same])

lemma Indexes.resolve?_eq (indexes : table.Indexes definitions) (properName : name.Proper)
    (cleanScope : scope.Clean) : table.resolve? name scope =
      (reading? (definitions.map TypeDecl.id) name scope).bind fun found =>
        table.find? found.text := by
  rw [resolve?, candidates_eq_map_readings, findSome?_map]
  apply findSome?_eq_find?_bind
  intro found member
  exact indexes.isSome_find?_text (proper_of_mem_readings properName cleanScope member)

end
end SymbolTable

/-! ## References -/

section
variable {types : List (TypeDecl Identifier)} {table : SymbolTable Nat}

lemma Scope.nameOf_of {ρ : Type} {types : List (TypeDecl ρ)} {type : TypeDecl ρ}
    (listed : (definitionsOf types)[symbol.handle]? = some type) :
    (Scope.of types table).nameOf symbol = type.id := by
  rcases List.getElem?_eq_some_iff.mp listed with ⟨bound, same⟩
  simp [Scope.of, Scope.nameOf, Array.getD, bound, same]

/-- A reference has the first reading that some definition bears, and leads to
the definition that the table has for it. -/
lemma Scope.reference?_eq_some_iff (indexes : table.Indexes (definitionsOf types))
    (properName : name.Proper) (cleanMessage : message.Clean) {reference : Reference} :
    (Scope.of types table).reference? name message = some reference ↔
      SymbolTable.reading? ((definitionsOf types).map TypeDecl.id) name message =
          some reference.name ∧ table.find? reference.name.text = some reference.symbol := by
  have nameOf : ∀ {found symbol}, SymbolTable.reading? ((definitionsOf types).map TypeDecl.id)
      name message = some found -> table.find? found.text = some symbol ->
      (Scope.of types table).nameOf symbol = found := by
    intro found symbol read bound
    rcases indexes.definition_of_find? bound with ⟨type, listed, _, same⟩
    have properFound := SymbolTable.proper_of_mem_readings properName cleanMessage
      (mem_of_find?_eq_some read)
    rw [Scope.nameOf_of listed]
    exact Identifier.eq_of_text_eq
      (indexes.proper type (mem_of_getElem? listed)) properFound same
  rw [Scope.reference?, show (Scope.of types table).table = table from rfl,
    indexes.resolve?_eq properName cleanMessage, map_eq_some_iff]
  constructor
  · rintro ⟨symbol, resolved, same⟩
    rcases Option.bind_eq_some_iff.mp resolved with ⟨found, read, bound⟩
    subst same
    rw [nameOf read bound]
    exact ⟨read, bound⟩
  · rintro ⟨read, bound⟩
    refine ⟨reference.symbol, ?_, ?_⟩
    · rw [read]
      exact bound
    · rw [nameOf read bound]

end

/-! ## Resolving one stage after the other -/

lemma exists_forall₂_iff {relation : α -> β -> Prop} (items : List α) :
    (∃ results, List.Forall₂ relation items results) ↔
      ∀ item ∈ items, ∃ result, relation item result := by
  induction items with
  | nil => simp
  | cons item rest ih =>
    rw [forall_mem_cons, ← ih]
    constructor
    · rintro ⟨results, all⟩
      rcases List.forall₂_cons_left_iff.mp all with ⟨first, others, one, rest, _⟩
      exact ⟨⟨first, one⟩, others, rest⟩
    · rintro ⟨⟨first, one⟩, others, rest⟩
      exact ⟨first :: others, .cons one rest⟩

lemma map_eq_of_forall₂ {γ : Type} {left : α -> γ} {right : β -> γ} {items : List α}
    {results : List β}
    (related : List.Forall₂ (fun item result => right result = left item) items results) :
    results.map right = items.map left := by
  induction related with
  | nil => rfl
  | cons same _ ih => rw [map_cons, map_cons, same, ih]

/-- Steps over a list succeed together exactly if each does. -/
lemma mapM_eq_ok_iff {ε : Type} {step : α -> Except ε β} {items : List α} {results : List β} :
    items.mapM step = .ok results ↔
      List.Forall₂ (fun item result => step item = .ok result) items results := by
  induction items generalizing results with
  | nil => simp [pure, Except.pure, eq_comm]
  | cons item rest ih =>
    rw [forall₂_cons_left_iff, mapM_cons]
    simp only [← ih]
    cases step item with
    | error error => simp [bind, Except.bind]
    | ok result => cases rest.mapM step <;> simp [bind, Except.bind, pure, Except.pure, eq_comm]

namespace Scope

variable (scope : Scope)

/-- A parent, as written in a message, is the message of the given name. -/
def ParentIs (message parent name : Identifier) : Prop :=
  ∃ found, scope.reference? parent message = some found ∧ found.symbol.kind = .message ∧
    found.name = name

lemma resolveParents_eq_ok_iff (message : Identifier) (parents resolved : List Identifier) :
    scope.resolveParents message parents = .ok resolved ↔
      List.Forall₂ (scope.ParentIs message) parents resolved := by
  induction parents generalizing resolved with
  | nil => simp [resolveParents, eq_comm]
  | cons parent rest ih =>
    rw [forall₂_cons_left_iff, resolveParents]
    constructor
    · intro done
      split at done
      · cases done
      · next found refers =>
        split at done
        · cases done
        · next isMessage =>
          split at done
          · next others doneRest =>
            cases done
            exact ⟨found.name, others, ⟨found, refers, not_not.mp isMessage, rfl⟩,
              (ih others).mp doneRest, rfl⟩
          · cases done
    · rintro ⟨name, others, ⟨found, refers, isMessage, same⟩, doneRest, equal⟩
      rw [refers]
      simp [isMessage, (ih others).mpr doneRest, same, equal]

/-- A field is resolved if its ordinal is in range and its type is resolved;
nothing else about it changes. -/
lemma resolveField_eq_ok_iff (message : Identifier) (field : Field Identifier)
    (resolved : Field Reference) : scope.resolveField message field = .ok resolved ↔
      (∀ ordinal, field.ordinal = some ordinal -> ordinalInRange ordinal = true) ∧
        scope.resolveType message field.name field.type = .ok resolved.type ∧
        resolved = ⟨field.name, resolved.type, field.modifiers, field.bounds, field.ordinal,
          field.default⟩ := by
  have inRange : (field.ordinal.filter fun ordinal => !ordinalInRange ordinal) = none ↔
      ∀ ordinal, field.ordinal = some ordinal -> ordinalInRange ordinal = true := by
    cases field.ordinal <;> simp [filter_some]
  rw [← inRange, resolveField]
  constructor
  · intro done
    split at done
    · cases done
    · next checked =>
      split at done
      · cases done
      · next type doneType =>
        cases done
        exact ⟨checked, doneType, rfl⟩
  · rintro ⟨checked, doneType, same⟩
    rw [checked, doneType, same]

lemma resolveFields_eq_mapM (message : Identifier) (fields : List (Field Identifier)) :
    scope.resolveFields message fields = fields.mapM (scope.resolveField message) := by
  induction fields with
  | nil => rfl
  | cons field rest ih =>
    rw [resolveFields, mapM_cons, ih]
    cases scope.resolveField message field with
    | error error => rfl
    | ok resolved => cases rest.mapM (scope.resolveField message) <;> rfl

lemma resolveFields_eq_ok_iff (message : Identifier) (fields : List (Field Identifier))
    (resolved : List (Field Reference)) : scope.resolveFields message fields = .ok resolved ↔
      List.Forall₂ (fun field result => scope.resolveField message field = .ok result)
        fields resolved := by
  rw [resolveFields_eq_mapM, mapM_eq_ok_iff]

lemma resolveMessages_eq_mapM (messages : List (Message Identifier)) :
    scope.resolveMessages messages = messages.mapM scope.resolveMessage := by
  induction messages with
  | nil => rw [resolveMessages]; rfl
  | cons message rest ih =>
    rw [resolveMessages, mapM_cons, ih]
    cases scope.resolveMessage message with
    | error error => rfl
    | ok resolved => cases rest.mapM scope.resolveMessage <;> rfl

lemma resolveMessages_eq_ok_iff (messages : List (Message Identifier))
    (resolved : List (Message Reference)) : scope.resolveMessages messages = .ok resolved ↔
      List.Forall₂ (fun message result => scope.resolveMessage message = .ok result)
        messages resolved := by
  rw [resolveMessages_eq_mapM, mapM_eq_ok_iff]

/-- Resolves an enum, which has nothing to resolve, or a message. -/
def resolveDecl : TypeDecl Identifier -> Except CompileError (TypeDecl Reference)
  | .enum decl => .ok (.enum decl)
  | .message decl => (scope.resolveMessage decl).map .message

lemma resolveTypes_eq_mapM (types : List (TypeDecl Identifier)) :
    scope.resolveTypes types = types.mapM scope.resolveDecl := by
  induction types with
  | nil => rfl
  | cons type rest ih =>
    rw [mapM_cons]
    rcases type with decl | decl
    · rw [resolveTypes, ih]
      cases rest.mapM scope.resolveDecl <;> rfl
    · rw [resolveTypes, ih, resolveDecl]
      cases scope.resolveMessage decl with
      | error error => rfl
      | ok resolved => cases rest.mapM scope.resolveDecl <;> rfl

lemma resolveTypes_eq_ok_iff (types : List (TypeDecl Identifier))
    (resolved : List (TypeDecl Reference)) : scope.resolveTypes types = .ok resolved ↔
      List.Forall₂ (fun type result => scope.resolveDecl type = .ok result) types resolved := by
  rw [resolveTypes_eq_mapM, mapM_eq_ok_iff]

lemma resolveMessage_defined_eq_ok_iff (name : MessageName) (parents : List Identifier)
    (enums : List EnumDecl) (messages : List (Message Identifier))
    (fields : List (Field Identifier)) (resolved : Message Reference) :
    scope.resolveMessage (.defined name parents enums messages fields) = .ok resolved ↔
      ∃ newParents newMessages newFields,
        scope.resolveParents name.current parents = .ok newParents ∧
        scope.resolveMessages messages = .ok newMessages ∧
        scope.resolveFields name.current fields = .ok newFields ∧
        resolved = .defined name newParents enums newMessages newFields := by
  rw [resolveMessage]
  constructor
  · intro done
    split at done
    · cases done
    · next newParents doneParents =>
      split at done
      · cases done
      · next newMessages doneMessages =>
        split at done
        · cases done
        · next newFields doneFields =>
          cases done
          exact ⟨newParents, newMessages, newFields, doneParents, doneMessages, doneFields, rfl⟩
  · rintro ⟨newParents, newMessages, newFields, doneParents, doneMessages, doneFields, same⟩
    rw [doneParents]
    simp only [doneMessages, doneFields, same]

variable {resolved : Message Reference}

lemma id_of_resolveMessage {message : Message Identifier}
    (done : scope.resolveMessage message = .ok resolved) : resolved.id = message.id := by
  cases message with
  | external name =>
    rw [resolveMessage] at done
    cases done
    rfl
  | defined name parents enums messages fields =>
    rcases (scope.resolveMessage_defined_eq_ok_iff _ _ _ _ _ _).mp done with
      ⟨_, _, _, _, _, _, same⟩
    rw [same]
    rfl

/-! ## What becomes of each definition -/

/-- A message and what it is resolved to: the same message with its parents and
fields resolved. -/
structure Completes (written : Message Identifier) (resolved : Message Reference) : Prop where
  name : resolved.name = written.name
  announced : resolved.isExtern = written.isExtern
  enums : resolved.enums = written.enums
  messages : resolved.messages.map Message.id = written.messages.map Message.id
  parents : List.Forall₂ (scope.ParentIs written.id) written.parents resolved.parents
  fields : List.Forall₂ (fun field result => scope.resolveField written.id field = .ok result)
    written.fields resolved.fields

/-- A definition and what it is resolved to. -/
def CompletesDecl : TypeDecl Identifier -> TypeDecl Reference -> Prop
  | .enum written, .enum resolved => resolved = written
  | .message written, .message resolved => scope.Completes written resolved
  | _, _ => False

/-- Both the parents and the fields of a message can be resolved. -/
def Completable (written : Message Identifier) : Prop :=
  (∃ parents, scope.resolveParents written.id written.parents = .ok parents) ∧
    ∃ fields, scope.resolveFields written.id written.fields = .ok fields

lemma definitions_of_resolveMessage (written : Message Identifier)
    (done : scope.resolveMessage written = .ok resolved) :
    List.Forall₂ scope.CompletesDecl written.definitions resolved.definitions := by
  induction written using Message.nestedInduction generalizing resolved with
  | external name =>
    rw [resolveMessage] at done
    cases done
    refine .cons ?_ List.Forall₂.nil
    exact ⟨rfl, rfl, rfl, rfl, .nil, .nil⟩
  | defined name parents enums messages fields ih =>
    rcases (scope.resolveMessage_defined_eq_ok_iff _ _ _ _ _ _).mp done with
      ⟨newParents, newMessages, newFields, doneParents, doneMessages, doneFields, same⟩
    subst same
    have steps := (scope.resolveMessages_eq_ok_iff _ _).mp doneMessages
    have blocks : List.Forall₂ (fun message result =>
        List.Forall₂ scope.CompletesDecl message.definitions result.definitions)
        messages newMessages := by
      have both := (forall₂_and_left messages newMessages).mpr
        ⟨fun _ member => member, steps⟩
      exact both.imp fun message result found => ih message found.1 found.2
    have inner : List.Forall₂ scope.CompletesDecl
        (enums.map .enum ++ messages.flatMap Message.definitions)
        (enums.map .enum ++ newMessages.flatMap Message.definitions) := by
      apply rel_append
      · rw [forall₂_map_left_iff, forall₂_map_right_iff, forall₂_same]
        intro decl _
        exact rfl
      · exact rel_flatMap blocks fun _ _ found => found
    rw [Message.definitions_defined, Message.definitions_defined]
    refine .cons ?_ inner
    exact ⟨rfl, rfl, rfl, map_eq_of_forall₂ (steps.imp fun _ _ => scope.id_of_resolveMessage),
      (scope.resolveParents_eq_ok_iff _ _ _).mp doneParents,
      (scope.resolveFields_eq_ok_iff _ _ _).mp doneFields⟩

lemma exists_resolveMessage_iff (written : Message Identifier) :
    (∃ resolved, scope.resolveMessage written = .ok resolved) ↔
      ∀ decl, .message decl ∈ written.definitions -> scope.Completable decl := by
  induction written using Message.nestedInduction with
  | external name =>
    constructor
    · intro _ decl member
      cases List.mem_singleton.mp member
      exact ⟨⟨[], rfl⟩, [], rfl⟩
    · intro _
      exact ⟨.external name, by rw [resolveMessage]⟩
  | defined name parents enums messages fields ih =>
    have inner : (∃ resolved, scope.resolveMessages messages = .ok resolved) ↔
        ∀ message ∈ messages, ∀ decl, .message decl ∈ message.definitions ->
          scope.Completable decl := by
      simp only [resolveMessages_eq_ok_iff, exists_forall₂_iff]
      exact forall₂_congr fun message member => ih message member
    have members : ∀ decl : Message Identifier,
        .message decl ∈ (Message.defined name parents enums messages fields).definitions ↔
          decl = .defined name parents enums messages fields ∨
            ∃ message ∈ messages, .message decl ∈ message.definitions := by
      intro decl
      rw [Message.definitions_defined]
      simp
    simp only [members, resolveMessage_defined_eq_ok_iff]
    constructor
    · rintro ⟨_, newParents, newMessages, newFields, doneParents, doneMessages, doneFields, _⟩
      rintro decl (same | ⟨message, member, listed⟩)
      · subst same
        exact ⟨⟨newParents, doneParents⟩, newFields, doneFields⟩
      · exact inner.mp ⟨newMessages, doneMessages⟩ message member decl listed
    · intro all
      rcases all _ (.inl rfl) with ⟨⟨newParents, doneParents⟩, newFields, doneFields⟩
      rcases inner.mpr fun message member decl listed =>
        all decl (.inr ⟨message, member, listed⟩) with ⟨newMessages, doneMessages⟩
      exact ⟨_, newParents, newMessages, newFields, doneParents, doneMessages, doneFields, rfl⟩

/-- The definitions of every type of a schema are resolved one by one. -/
lemma definitions_of_resolveTypes {types : List (TypeDecl Identifier)}
    {resolved : List (TypeDecl Reference)} (done : scope.resolveTypes types = .ok resolved) :
    List.Forall₂ (fun type result =>
      List.Forall₂ scope.CompletesDecl type.definitions result.definitions) types resolved := by
  refine ((scope.resolveTypes_eq_ok_iff _ _).mp done).imp ?_
  intro type result doneType
  rcases type with decl | decl
  · cases doneType
    exact .cons rfl List.Forall₂.nil
  · rw [resolveDecl] at doneType
    cases doneMessage : scope.resolveMessage decl with
    | error error =>
      rw [doneMessage] at doneType
      cases doneType
    | ok message =>
      rw [doneMessage] at doneType
      cases doneType
      exact scope.definitions_of_resolveMessage decl doneMessage

lemma exists_resolveTypes_iff (types : List (TypeDecl Identifier)) :
    (∃ resolved, scope.resolveTypes types = .ok resolved) ↔
      ∀ decl, .message decl ∈ definitionsOf types -> scope.Completable decl := by
  simp only [resolveTypes_eq_ok_iff, exists_forall₂_iff, mem_definitionsOf]
  have one : ∀ type, (∃ result, scope.resolveDecl type = .ok result) ↔
      ∀ decl, .message decl ∈ type.definitions -> scope.Completable decl := by
    intro type
    rcases type with decl | decl
    · simp [resolveDecl, TypeDecl.definitions]
    · rw [TypeDecl.definitions, ← exists_resolveMessage_iff, resolveDecl]
      cases scope.resolveMessage decl <;> simp [Except.map]
  simp only [one]
  constructor
  · rintro all decl ⟨type, member, listed⟩
    exact all type member decl listed
  · intro all type member decl listed
    exact all decl ⟨type, member, listed⟩

end Scope

/-! ## When a schema can be resolved -/

/-- What a message needs in order to be resolved: its parents are messages, and its fields
have ordinals in range and defined types. -/
structure Message.Resolvable (definitions : List (TypeDecl Identifier))
    (message : Message Identifier) : Prop where
  parents : ∀ parent ∈ message.parents, ∃ target : Message Identifier,
    .message target ∈ definitions ∧
      SymbolTable.reading? (definitions.map TypeDecl.id) parent message.id = some target.id
  ordinals : ∀ field ∈ message.fields, ∀ ordinal, field.ordinal = some ordinal ->
    1 <= ordinal ∧ ordinal <= 32767
  types : ∀ field ∈ message.fields, ∀ name, field.type = .user name ->
    ∃ found, SymbolTable.reading? (definitions.map TypeDecl.id) name message.id = some found

section
variable {types : List (TypeDecl Identifier)} {table : SymbolTable Nat}

section
variable (indexes : table.Indexes (definitionsOf types))
include indexes

lemma exists_reference?_iff (properName : name.Proper) (cleanMessage : message.Clean) :
    (∃ reference, (Scope.of types table).reference? name message = some reference) ↔
      ∃ found, SymbolTable.reading? ((definitionsOf types).map TypeDecl.id) name message =
        some found := by
  constructor
  · rintro ⟨reference, refers⟩
    exact ⟨_, ((Scope.reference?_eq_some_iff indexes properName cleanMessage).mp refers).1⟩
  · rintro ⟨found, read⟩
    have properFound := SymbolTable.proper_of_mem_readings properName cleanMessage
      (mem_of_find?_eq_some read)
    have bound : (table.find? found.text).isSome = true := by
      rw [indexes.isSome_find?_text properFound]
      exact find?_some read
    rcases Option.isSome_iff_exists.mp bound with ⟨symbol, bound⟩
    exact ⟨⟨found, symbol⟩,
      (Scope.reference?_eq_some_iff indexes properName cleanMessage).mpr ⟨read, bound⟩⟩

lemma exists_parentIs_iff {parent : Identifier} (properName : parent.Proper)
    (cleanMessage : message.Clean) : (∃ name, (Scope.of types table).ParentIs message parent name) ↔
      ∃ target : Message Identifier, .message target ∈ definitionsOf types ∧
        SymbolTable.reading? ((definitionsOf types).map TypeDecl.id) parent message =
          some target.id := by
  constructor
  · rintro ⟨_, reference, refers, isMessage, _⟩
    rcases (Scope.reference?_eq_some_iff indexes properName cleanMessage).mp refers with
      ⟨read, bound⟩
    have properFound := SymbolTable.proper_of_mem_readings properName cleanMessage
      (mem_of_find?_eq_some read)
    rcases indexes.definition_of_find? bound with ⟨type, listed, sameKind, sameText⟩
    have member := mem_of_getElem? listed
    have sameName := Identifier.eq_of_text_eq (indexes.proper type member) properFound sameText
    rw [isMessage] at sameKind
    rcases type with decl | target
    · cases sameKind
    · exact ⟨target, member, by rw [read, ← sameName, TypeDecl.id]⟩
  · rintro ⟨target, member, read⟩
    rcases (exists_reference?_iff indexes properName cleanMessage).mpr ⟨_, read⟩ with
      ⟨reference, refers⟩
    rcases (Scope.reference?_eq_some_iff indexes properName cleanMessage).mp refers with
      ⟨readAgain, bound⟩
    have same : target.id = reference.name := Option.some.inj (read.symm.trans readAgain)
    rw [← same] at bound
    exact ⟨_, reference, refers, indexes.kind_of_find?_message member bound, rfl⟩

omit indexes in
lemma ordinalInRange_iff (ordinal : Int) :
    Scope.ordinalInRange ordinal = true ↔ 1 <= ordinal ∧ ordinal <= 32767 := by
  rw [Scope.ordinalInRange, Bool.and_eq_true, decide_eq_true_iff, decide_eq_true_iff]
  rfl

lemma exists_resolveField_iff (cleanMessage : message.Clean) {field : Field Identifier}
    (properType : ∀ name, field.type = .user name -> name.Proper) :
    (∃ resolved, (Scope.of types table).resolveField message field = .ok resolved) ↔
      (∀ ordinal, field.ordinal = some ordinal -> 1 <= ordinal ∧ ordinal <= 32767) ∧
        ∀ name, field.type = .user name ->
          ∃ found, SymbolTable.reading? ((definitionsOf types).map TypeDecl.id) name message =
            some found := by
  have typeDone : (∃ type, (Scope.of types table).resolveType message field.name field.type =
      .ok type) ↔ ∀ name, field.type = .user name ->
        ∃ found, SymbolTable.reading? ((definitionsOf types).map TypeDecl.id) name message =
          some found := by
    cases isType : field.type with
    | primitive type => simp [Scope.resolveType]
    | user name =>
      have refers := exists_reference?_iff indexes (properType name isType) cleanMessage
      rw [Scope.resolveType]
      cases found : (Scope.of types table).reference? name message with
      | none => simpa [found] using refers
      | some reference => simpa [found] using refers
  simp only [Scope.resolveField_eq_ok_iff, ordinalInRange_iff, ← typeDone]
  constructor
  · rintro ⟨resolved, inRange, doneType, _⟩
    exact ⟨inRange, resolved.type, doneType⟩
  · rintro ⟨inRange, type, doneType⟩
    exact ⟨⟨field.name, type, field.modifiers, field.bounds, field.ordinal, field.default⟩,
      inRange, doneType, rfl⟩

/-- A schema can be resolved against its table exactly if each of its messages
can be resolved among its definitions. -/
lemma exists_resolve_iff
    (mentions : ∀ decl, .message decl ∈ definitionsOf types -> decl.MentionsProper) :
    (∃ resolved, resolve types table = .ok resolved) ↔
      ∀ decl, .message decl ∈ definitionsOf types -> decl.Resolvable (definitionsOf types) := by
  rw [resolve, Scope.exists_resolveTypes_iff]
  refine forall₂_congr fun decl member => ?_
  have clean : decl.id.Clean := (indexes.proper _ member).clean
  have mentioned := mentions decl member
  simp only [Scope.Completable, Scope.resolveParents_eq_ok_iff, Scope.resolveFields_eq_ok_iff,
    exists_forall₂_iff]
  constructor
  · rintro ⟨parents, fields⟩
    have each := fun field listed =>
      (exists_resolveField_iff indexes clean (mentioned.2 field listed)).mp (fields field listed)
    refine ⟨?_, fun field listed => (each field listed).1, fun field listed =>
      (each field listed).2⟩
    intro parent listed
    exact (exists_parentIs_iff indexes (mentioned.1 parent listed) clean).mp (parents parent listed)
  · rintro ⟨parents, ordinals, fieldTypes⟩
    constructor
    · intro parent listed
      exact (exists_parentIs_iff indexes (mentioned.1 parent listed) clean).mpr
        (parents parent listed)
    · intro field listed
      exact (exists_resolveField_iff indexes clean (mentioned.2 field listed)).mpr
        ⟨ordinals field listed, fieldTypes field listed⟩

end

end
end MessageSchema

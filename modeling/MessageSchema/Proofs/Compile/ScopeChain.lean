import MessageSchema.Proofs.Compile.Stages

namespace MessageSchema

open List Option

/-!
How names are resolved along the chain of scopes.

A name in a message is tried as it stands, then behind the full name of the message,
and then behind that name with one segment less at a time; the first spelling that
the table knows decides.  In each message parents come first, then the messages in
it, then the fields.  Resolving fails for the first demand on this way that cannot
be met, and otherwise everything is what its spellings lead to.
-/

/-! ### Spellings -/

namespace SymbolTable

/-- The spellings of a name in a scope, as they are tried: as written, behind all segments
of the scope, behind all but the last, and so on. -/
def spelling (name scope : Identifier) : Nat -> String
  | 0 => name.text
  | count + 1 =>
    Identifier.text ⟨scope.segments.take (scope.segments.length - count) ++ name.segments⟩

section
variable {δ : Type} (table : SymbolTable δ) (name scope : Identifier)

/-- The entry of the first spelling that the table knows. -/
def Finds (symbol : Symbol δ) : Prop :=
  ∃ count ≤ scope.segments.length, table.find? (spelling name scope count) = some symbol ∧
    ∀ earlier < count, table.find? (spelling name scope earlier) = none

/-- The table knows no spelling. -/
def Misses : Prop :=
  ∀ count ≤ scope.segments.length, table.find? (spelling name scope count) = none

end

lemma candidates_eq_map_spelling (name scope : Identifier) : candidates name scope =
      (range (scope.segments.length + 1)).map (spelling name scope) := by
  rw [candidates, scopesOutward, range_succ_eq_map, map_cons]
  refine congrArg _ (ext_getElem (by simp) ?_)
  intro count inside _
  have below : count < scope.segments.length := by simpa using inside
  have same : scope.segments.length - 1 - count + 1 = scope.segments.length - count := by omega
  simp [spelling, Identifier.append, same]

/-- A search through a row ends at the first item that has a value. -/
lemma findSome?_map_range_eq_some_iff {α β : Type} (value : α -> Option β) (item : Nat -> α)
    (length : Nat) (result : β) : ((range length).map item).findSome? value = some result ↔
      ∃ count < length, value (item count) = some result ∧
        ∀ earlier < count, value (item earlier) = none := by
  induction length generalizing item with
  | zero => simp
  | succ length ih =>
    rw [range_succ_eq_map, map_cons, List.map_map, findSome?_cons]
    cases first : value (item 0) with
    | some found =>
      constructor
      · intro same
        exact ⟨0, Nat.zero_lt_succ _, first.trans same, fun _ none =>
          absurd none (Nat.not_lt_zero _)⟩
      · rintro ⟨count, _, isFound, before⟩
        cases count with
        | zero => exact first.symm.trans isFound
        | succ count => rw [before 0 (Nat.zero_lt_succ _)] at first; cases first
    | none =>
      rw [ih (item ∘ Nat.succ)]
      constructor
      · rintro ⟨count, inside, isFound, before⟩
        refine ⟨count + 1, Nat.succ_lt_succ inside, isFound, ?_⟩
        intro earlier below
        cases earlier with
        | zero => exact first
        | succ earlier => exact before earlier (Nat.lt_of_succ_lt_succ below)
      · rintro ⟨count, inside, isFound, before⟩
        cases count with
        | zero => rw [first] at isFound; cases isFound
        | succ count =>
          exact ⟨count, Nat.lt_of_succ_lt_succ inside, isFound,
            fun earlier below => before (earlier + 1) (Nat.succ_lt_succ below)⟩

section
variable {δ : Type} {table : SymbolTable δ} {name scope : Identifier}

/-- A name leads to the entry of its first known spelling. -/
lemma resolve?_eq_some_iff {symbol : Symbol δ} :
    table.resolve? name scope = some symbol ↔ table.Finds name scope symbol := by
  rw [resolve?, candidates_eq_map_spelling, findSome?_map_range_eq_some_iff]
  simp only [Finds, Nat.lt_succ_iff]

lemma resolve?_eq_none_iff : table.resolve? name scope = none ↔ table.Misses name scope := by
  rw [resolve?, candidates_eq_map_spelling, findSome?_eq_none_iff, List.forall_mem_map]
  simp only [Misses, mem_range, Nat.lt_succ_iff]

lemma Finds.eq {one other : Symbol δ} (finds : table.Finds name scope one)
    (findsAgain : table.Finds name scope other) : one = other := by
  rw [← resolve?_eq_some_iff] at finds findsAgain
  exact Option.some.inj (finds.symm.trans findsAgain)

lemma Finds.not_misses {symbol : Symbol δ} (finds : table.Finds name scope symbol) :
    ¬ table.Misses name scope := by
  rw [← resolve?_eq_none_iff, resolve?_eq_some_iff.mpr finds]
  exact some_ne_none symbol

end
end SymbolTable

/-! ### Demands -/

/-- What has to be found in order to resolve a schema: a parent of a message with a name,
or the type of a field in it. -/
inductive Demand where
  | parent (message name : Identifier)
  | field (message : Identifier) (field : Field Identifier)

mutual

/-- The demands of a message in the order of a visit: its parents, then what the messages
in it demand, then its fields. -/
def Message.demands : Message Identifier -> List Demand
  | .external _ => []
  | .defined name parents _ messages fields =>
    parents.map (Demand.parent name.current) ++ Message.demandsAll messages ++
      fields.map (Demand.field name.current)

def Message.demandsAll : List (Message Identifier) -> List Demand
  | [] => []
  | message :: rest => message.demands ++ Message.demandsAll rest

end

/-- The demands of a type, of which an enum has none. -/
def TypeDecl.demands : TypeDecl Identifier -> List Demand
  | .enum _ => []
  | .message decl => decl.demands

/-- A demand fails: a parent is not found or is no message, an ordinal is out of range,
or the type of a field is not found. -/
inductive Demand.Fails (definitions : List (TypeDecl Identifier)) (table : SymbolTable Nat) :
    Demand -> CompileError -> Prop
  | parentMissing {message name : Identifier} (misses : table.Misses name message) :
      Fails definitions table (.parent message name) (.parentUnresolved message.text name.text)
  | parentEnum {message name : Identifier} {symbol : Symbol Nat} {type : TypeDecl Identifier}
      (finds : table.Finds name message symbol)
      (listed : definitions[symbol.handle]? = some type) (isEnum : type.kind = .enum) :
      Fails definitions table (.parent message name)
        (.parentNotMessage message.text ⟨.enum, type.id.text⟩)
  | ordinalOutside {message : Identifier} {field : Field Identifier} {ordinal : Int}
      (written : field.ordinal = some ordinal) (outside : ordinal < 1 ∨ 32767 < ordinal) :
      Fails definitions table (.field message field)
        (.ordinalOutOfRange message.text field.name ordinal)
  | typeMissing {message name : Identifier} {field : Field Identifier}
      (inRange : ∀ ordinal, field.ordinal = some ordinal -> 1 <= ordinal ∧ ordinal <= 32767)
      (isUser : field.type = .user name) (misses : table.Misses name message) :
      Fails definitions table (.field message field)
        (.typeUnresolved message.text field.name name.text)

/-! ### The first demand that fails -/

/-- The error of a computation that fails. -/
def failureOf {ε α : Type} : Except ε α -> Option ε
  | .ok _ => none
  | .error error => some error

lemma failureOf_eq_some_iff {ε α : Type} {result : Except ε α} {error : ε} :
    failureOf result = some error ↔ result = .error error := by
  cases result <;> simp [failureOf]

/-- The error of a demand that fails. -/
def Demand.fault? (scope : Scope) : Demand -> Option CompileError
  | .parent message name => failureOf (scope.resolveParents message [name])
  | .field message member => failureOf (scope.resolveField message member)

namespace Scope

variable (scope : Scope)

lemma failureOf_resolveParents (message : Identifier) (parents : List Identifier) :
    failureOf (scope.resolveParents message parents) =
      (parents.map (Demand.parent message)).findSome? (Demand.fault? scope) := by
  induction parents with
  | nil => rfl
  | cons parent rest ih =>
    rw [map_cons, findSome?_cons, Demand.fault?, ← ih, resolveParents, resolveParents]
    cases scope.reference? parent message with
    | none => rfl
    | some found =>
      dsimp only
      split
      · rfl
      · cases scope.resolveParents message rest <;> rfl

lemma failureOf_resolveFields (message : Identifier) (fields : List (Field Identifier)) :
    failureOf (scope.resolveFields message fields) =
      (fields.map (Demand.field message)).findSome? (Demand.fault? scope) := by
  induction fields with
  | nil => rfl
  | cons field rest ih =>
    rw [map_cons, findSome?_cons, Demand.fault?, ← ih, resolveFields]
    cases scope.resolveField message field with
    | error error => rfl
    | ok resolved => cases scope.resolveFields message rest <;> rfl

mutual

/-- A message is visited demand by demand, up to the first that fails. -/
lemma failureOf_resolveMessage : ∀ message : Message Identifier,
    failureOf (scope.resolveMessage message) = message.demands.findSome? (Demand.fault? scope)
  | .external name => by
    rw [resolveMessage, Message.demands]
    rfl
  | .defined name parents enums messages fields => by
    rw [Message.demands, findSome?_append, findSome?_append,
      ← failureOf_resolveParents, ← failureOf_resolveMessages messages,
      ← failureOf_resolveFields, resolveMessage]
    cases scope.resolveParents name.current parents with
    | error error => rfl
    | ok newParents =>
    cases scope.resolveMessages messages with
    | error error => rfl
    | ok newMessages => cases scope.resolveFields name.current fields <;> rfl

lemma failureOf_resolveMessages : ∀ messages : List (Message Identifier),
    failureOf (scope.resolveMessages messages) =
      (Message.demandsAll messages).findSome? (Demand.fault? scope)
  | [] => by
    rw [resolveMessages, Message.demandsAll]
    rfl
  | message :: rest => by
    rw [Message.demandsAll, findSome?_append, ← failureOf_resolveMessage message,
      ← failureOf_resolveMessages rest, resolveMessages]
    cases scope.resolveMessage message with
    | error error => rfl
    | ok resolved => cases scope.resolveMessages rest <;> rfl

end

lemma failureOf_resolveTypes (types : List (TypeDecl Identifier)) :
    failureOf (scope.resolveTypes types) =
      (types.flatMap TypeDecl.demands).findSome? (Demand.fault? scope) := by
  induction types with
  | nil => rfl
  | cons type rest ih =>
    rw [flatMap_cons, findSome?_append, ← ih]
    cases type with
    | enum decl =>
      rw [resolveTypes]
      cases scope.resolveTypes rest <;> rfl
    | message decl =>
      rw [TypeDecl.demands, ← failureOf_resolveMessage, resolveTypes]
      cases scope.resolveMessage decl with
      | error error => rfl
      | ok resolved => cases scope.resolveTypes rest <;> rfl

end Scope

variable {error : CompileError}

section
variable {types : List (TypeDecl Identifier)} {table : SymbolTable Nat}

variable {message name : Identifier}

/-- A reference is the entry that the spellings lead to, with the full name of the
definition behind it. -/
lemma reference?_eq_some_iff_finds (describes : table.Describes (definitionsOf types))
    {reference : Reference} : (Scope.of types table).reference? name message = some reference ↔
      table.Finds name message reference.symbol ∧
        ∃ type, (definitionsOf types)[reference.symbol.handle]? = some type ∧
          type.kind = reference.symbol.kind ∧ reference.name = type.id := by
  rw [Scope.reference?, show (Scope.of types table).table = table from rfl,
    map_eq_some_iff]
  constructor
  · rintro ⟨symbol, resolved, rfl⟩
    have finds := SymbolTable.resolve?_eq_some_iff.mp resolved
    rcases finds with ⟨count, inside, found, before⟩
    rcases describes.definition_of_find? found with ⟨type, listed, sameKind, _⟩
    exact ⟨⟨count, inside, found, before⟩, type, listed, sameKind, Scope.nameOf_of listed⟩
  · rintro ⟨finds, type, listed, _, same⟩
    refine ⟨reference.symbol, SymbolTable.resolve?_eq_some_iff.mpr finds, ?_⟩
    rw [Scope.nameOf_of listed, ← same]

lemma reference?_eq_none_iff_misses :
    (Scope.of types table).reference? name message = none ↔ table.Misses name message := by
  rw [Scope.reference?, map_eq_none_iff]
  exact SymbolTable.resolve?_eq_none_iff

lemma Demand.fault?_parent_eq_some_iff (describes : table.Describes (definitionsOf types)) :
    (Demand.parent message name).fault? (Scope.of types table) = some error ↔
      (Demand.parent message name).Fails (definitionsOf types) table error := by
  rw [Demand.fault?, failureOf_eq_some_iff, Scope.resolveParents]
  cases found : (Scope.of types table).reference? name message with
  | none =>
    have misses := reference?_eq_none_iff_misses.mp found
    constructor
    · rintro ⟨⟩
      exact .parentMissing misses
    · intro fails
      cases fails with
      | parentMissing => rfl
      | parentEnum finds => exact absurd misses finds.not_misses
  | some reference =>
    rcases (reference?_eq_some_iff_finds describes).mp found with
      ⟨finds, type, listed, sameKind, sameName⟩
    -- Any failure of the demand is about this very entry.
    have fails_iff : (Demand.parent message name).Fails (definitionsOf types) table error ↔
        reference.symbol.kind = .enum ∧
          .parentNotMessage message.text ⟨.enum, type.id.text⟩ = error := by
      constructor
      · intro fails
        cases fails with
        | parentMissing misses => exact absurd misses finds.not_misses
        | parentEnum findsAgain listedAgain isEnum =>
          cases finds.eq findsAgain
          cases listed.symm.trans listedAgain
          exact ⟨sameKind.symm.trans isEnum, rfl⟩
      · rintro ⟨isEnum, rfl⟩
        exact .parentEnum finds listed (sameKind.trans isEnum)
    rw [fails_iff]
    cases isSymbol : reference.symbol with
    | enum handle => simp [Symbol.kind, isSymbol, sameName]
    | message handle => simp [Scope.resolveParents, Symbol.kind, isSymbol]

lemma Demand.fault?_field_eq_some_iff {field : Field Identifier} :
    (Demand.field message field).fault? (Scope.of types table) = some error ↔
      (Demand.field message field).Fails (definitionsOf types) table error := by
  rw [Demand.fault?, failureOf_eq_some_iff, Scope.resolveField]
  cases checked : field.ordinal.filter fun ordinal => !Scope.ordinalInRange ordinal with
  | some ordinal =>
    rcases Option.filter_eq_some_iff.mp checked with ⟨written, outside⟩
    have notInRange : ¬ (1 <= ordinal ∧ ordinal <= 32767) := by
      rw [← ordinalInRange_iff]
      simpa using outside
    constructor
    · rintro ⟨⟩
      exact .ordinalOutside written (by omega)
    · intro fails
      cases fails with
      | ordinalOutside writtenAgain =>
        cases written.symm.trans writtenAgain
        rfl
      | typeMissing inRange => exact absurd (inRange ordinal written) notInRange
  | none =>
    have inRange : ∀ ordinal, field.ordinal = some ordinal -> 1 <= ordinal ∧ ordinal <= 32767 := by
      intro ordinal written
      rw [← ordinalInRange_iff]
      simpa using Option.filter_eq_none_iff.mp checked ordinal written
    have fails_iff : (Demand.field message field).Fails (definitionsOf types) table error ↔
        ∃ name, field.type = .user name ∧ table.Misses name message ∧
          .typeUnresolved message.text field.name name.text = error := by
      constructor
      · intro fails
        cases fails with
        | ordinalOutside written outside =>
          have within := inRange _ written
          omega
        | typeMissing _ isUser misses => exact ⟨_, isUser, misses, rfl⟩
      · rintro ⟨name, isUser, misses, rfl⟩
        exact .typeMissing inRange isUser misses
    rw [fails_iff]
    cases isType : field.type with
    | primitive type => simp [Scope.resolveType]
    | user name =>
      cases found : (Scope.of types table).reference? name message with
      | none =>
        have misses := reference?_eq_none_iff_misses.mp found
        simp [Scope.resolveType, found, misses]
      | some reference =>
        have notMisses : ¬ table.Misses name message := by
          rw [← reference?_eq_none_iff_misses, found]
          exact some_ne_none reference
        simp [Scope.resolveType, found, notMisses]

end

/-- Resolving fails for the first demand that fails. -/
lemma resolve_eq_error_iff {types : List (TypeDecl Identifier)} {table : SymbolTable Nat}
    (describes : table.Describes (definitionsOf types)) : resolve types table = .error error ↔
      ∃ before demand after, types.flatMap TypeDecl.demands = before ++ demand :: after ∧
        Demand.Fails (definitionsOf types) table demand error ∧
        ∀ earlier ∈ before, ∀ other, ¬ Demand.Fails (definitionsOf types) table earlier other := by
  have fault : ∀ demand error, Demand.fault? (Scope.of types table) demand = some error ↔
      Demand.Fails (definitionsOf types) table demand error := by
    intro demand error
    cases demand with
    | parent message name => exact Demand.fault?_parent_eq_some_iff describes
    | field message member => exact Demand.fault?_field_eq_some_iff
  rw [← failureOf_eq_some_iff, resolve, Scope.failureOf_resolveTypes,
    findSome?_eq_some_iff]
  simp only [fault, eq_none_iff_forall_ne_some, ne_eq]

/-! ### What becomes of the schema -/

section
variable (definitions : List (TypeDecl Identifier)) (table : SymbolTable Nat)

/-- A field type, as written and as resolved: a name becomes the entry that its spellings
lead to, with the full name behind it. -/
inductive FieldType.Becomes (message : Identifier) :
    FieldType Identifier -> FieldType Reference -> Prop
  | primitive (type : Primitive) : Becomes message (.primitive type) (.primitive type)
  | user {name : Identifier} {symbol : Symbol Nat} {type : TypeDecl Identifier}
      (finds : table.Finds name message symbol)
      (listed : definitions[symbol.handle]? = some type) (sameKind : type.kind = symbol.kind) :
      Becomes message (.user name) (.user ⟨type.id, symbol⟩)

/-- A field of a message, of which only the type changes. -/
structure Field.Becomes (message : Identifier) (written : Field Identifier)
    (resolved : Field Reference) : Prop where
  type : FieldType.Becomes definitions table message written.type resolved.type
  others : resolved = ⟨written.name, resolved.type, written.modifiers, written.bounds,
    written.ordinal, written.default⟩

/-- A parent of a message becomes the full name of the message that its spellings lead
to. -/
def ParentBecomes (message parent name : Identifier) : Prop :=
  ∃ symbol target, table.Finds parent message symbol ∧
    definitions[symbol.handle]? = some (.message target) ∧ name = target.id

/-- A message under the same name, with its parents and fields resolved. -/
structure Message.Becomes (written : Message Identifier) (resolved : Message Reference) :
    Prop where
  name : resolved.name = written.name
  announced : resolved.isExtern = written.isExtern
  enums : resolved.enums = written.enums
  messages : resolved.messages.map Message.id = written.messages.map Message.id
  parents : List.Forall₂ (ParentBecomes definitions table written.id) written.parents
    resolved.parents
  fields : List.Forall₂ (Field.Becomes definitions table written.id) written.fields
    resolved.fields

/-- A definition, of which an enum stays as it is. -/
inductive TypeDecl.Becomes : TypeDecl Identifier -> TypeDecl Reference -> Prop
  | enum (decl : EnumDecl) : Becomes (.enum decl) (.enum decl)
  | message {written : Message Identifier} {resolved : Message Reference}
      (becomes : Message.Becomes definitions table written resolved) :
      Becomes (.message written) (.message resolved)

end

section
variable {types : List (TypeDecl Identifier)} {table : SymbolTable Nat}

section
variable (describes : table.Describes (definitionsOf types))
include describes

lemma becomes_of_resolveField {message : Identifier} {written : Field Identifier}
    {resolved : Field Reference}
    (done : (Scope.of types table).resolveField message written = .ok resolved) :
    Field.Becomes (definitionsOf types) table message written resolved := by
  rcases (Scope.resolveField_eq_ok_iff _ _ _ _).mp done with ⟨_, doneType, same⟩
  refine ⟨?_, same⟩
  generalize written.type = type at doneType
  generalize resolved.type = result at doneType
  cases type with
  | primitive type =>
    cases doneType
    exact .primitive type
  | user name =>
    rw [Scope.resolveType] at doneType
    split at doneType
    · next reference refers =>
      cases doneType
      rcases reference with ⟨fullName, symbol⟩
      rcases (reference?_eq_some_iff_finds describes).mp refers with
        ⟨finds, type, listed, sameKind, isName⟩
      cases isName
      exact .user finds listed sameKind
    · cases doneType

lemma becomes_of_parentIs {message parent name : Identifier}
    (isParent : (Scope.of types table).ParentIs message parent name) :
    ParentBecomes (definitionsOf types) table message parent name := by
  rcases isParent with ⟨reference, refers, isMessage, rfl⟩
  rcases (reference?_eq_some_iff_finds describes).mp refers with
    ⟨finds, type, listed, sameKind, isName⟩
  rw [isMessage] at sameKind
  cases type with
  | enum decl => cases sameKind
  | message target => exact ⟨_, target, finds, listed, isName⟩

/-- Every definition of a schema that is resolved becomes what its names lead to. -/
lemma becomes_of_resolve {results : List (TypeDecl Reference)}
    (done : resolve types table = .ok results) :
    List.Forall₂ (TypeDecl.Becomes (definitionsOf types) table) (definitionsOf types)
      (definitionsOf results) := by
  refine (definitions_of_resolve done).imp ?_
  intro written resolved completes
  cases written with
  | enum decl =>
    cases resolved with
    | enum other =>
      cases completes
      exact .enum decl
    | message other => exact completes.elim
  | message decl =>
    cases resolved with
    | enum other => exact completes.elim
    | message other =>
      refine .message ⟨completes.name, completes.announced, completes.enums,
        completes.messages, ?_, ?_⟩
      · exact completes.parents.imp fun _ _ => becomes_of_parentIs describes
      · exact completes.fields.imp fun _ _ => becomes_of_resolveField describes

end

end

/-- Against the table of a document, a name leads to the entry of the first known of its
spellings, and nowhere if there is none.  Resolving fails exactly for the first demand
that fails, with the error of that demand: a parent or a field type fails to be found
exactly if no spelling is known.  Otherwise all definitions, at any depth, become what
their names lead to. -/
theorem resolve_follows_scope_chain {document : Document} {table : SymbolTable Nat}
    (indexed : index (flatten (qualify document)) = .ok table) :
    let types := flatten (qualify document)
    (∀ name scope, (∀ symbol, table.resolve? name scope = some symbol ↔
        table.Finds name scope symbol) ∧
      (table.resolve? name scope = none ↔ table.Misses name scope)) ∧
    (∀ error, resolve types table = .error error ↔
      ∃ before demand after, types.flatMap TypeDecl.demands = before ++ demand :: after ∧
        Demand.Fails (definitionsOf types) table demand error ∧
        ∀ earlier ∈ before, ∀ other, ¬ Demand.Fails (definitionsOf types) table earlier other) ∧
    ∀ results, resolve types table = .ok results ->
      List.Forall₂ (TypeDecl.Becomes (definitionsOf types) table) (definitionsOf types)
        (definitionsOf results) := by
  intro types
  have describes := describes_of_index indexed
  refine ⟨?_, ?_, ?_⟩
  · exact fun name scope => ⟨fun _ => SymbolTable.resolve?_eq_some_iff,
      SymbolTable.resolve?_eq_none_iff⟩
  · exact fun error => resolve_eq_error_iff describes
  · exact fun results => becomes_of_resolve describes

/-- The first field names a type of a scope around the message, the second one that is
nowhere to be found. -/
theorem scope_chain_of_nested_message :
    ∃ document table, Syntax.parse
        ("namespace a \x7b message M \x7b message In \x7b T t; Gone g; \x7d \x7d " ++
          "enum T \x7b \x7d \x7d").toUTF8.toList = .ok document ∧
      index (flatten (qualify document)) = .ok table ∧
      (∃ symbol, table.Finds ⟨["T"]⟩ ⟨["a", "M", "In"]⟩ symbol) ∧
      table.Misses ⟨["Gone"]⟩ ⟨["a", "M", "In"]⟩ ∧
      ∃ error demand, resolve (flatten (qualify document)) table = .error error ∧
        Demand.Fails (definitionsOf (flatten (qualify document))) table demand error := by
  have checked : (Syntax.parse
      ("namespace a \x7b message M \x7b message In \x7b T t; Gone g; \x7d \x7d " ++
        "enum T \x7b \x7d \x7d").toUTF8.toList).toOption.any (fun document =>
      (index (flatten (qualify document))).toOption.any fun table =>
        (table.resolve? ⟨["T"]⟩ ⟨["a", "M", "In"]⟩).isSome &&
          (table.resolve? ⟨["Gone"]⟩ ⟨["a", "M", "In"]⟩).isNone &&
          (failureOf (resolve (flatten (qualify document)) table)).isSome) = true := by
    decide +kernel
  rcases (Option.any_eq_true _ _).mp checked with ⟨document, isDocument, checked⟩
  rcases (Option.any_eq_true _ _).mp checked with ⟨table, isTable, checked⟩
  simp only [Bool.and_eq_true, isNone_iff_eq_none] at checked
  rcases checked with ⟨⟨known, unknown⟩, fails⟩
  have indexed := eq_ok_of_toOption isTable
  have chain := resolve_follows_scope_chain indexed
  rcases Option.isSome_iff_exists.mp known with ⟨symbol, known⟩
  rcases Option.isSome_iff_exists.mp fails with ⟨error, fails⟩
  have failed := failureOf_eq_some_iff.mp fails
  rcases (chain.2.1 error).mp failed with ⟨_, demand, _, _, demandFails, _⟩
  exact ⟨document, table, eq_ok_of_toOption isDocument, indexed,
    ⟨symbol, ((chain.1 _ _).1 symbol).mp known⟩, (chain.1 _ _).2.mp unknown, error, demand, failed,
    demandFails⟩

end MessageSchema

import MessageSchema.Proofs.Compile.AliasIndependence
import MessageSchema.Proofs.Compile.Reachability

namespace MessageSchema

open List

/-!
The same types in another order.

Only handles change when the types of a schema are reordered: every name is read in
the same way, every message is resolved to a twin that differs in handles only, and
names, owners and references come out the same.
-/

/-! ## Definitions that differ in handles only -/

/-- The same type of a field: the same primitive type, or a definition of the
same name and kind, wherever it stands. -/
inductive FieldType.Twins : FieldType Reference -> FieldType Reference -> Prop
  | primitive (type : Primitive) : Twins (.primitive type) (.primitive type)
  | user (name : Identifier) {left right : Symbol Nat} (sameKind : left.kind = right.kind) :
      Twins (.user ⟨name, left⟩) (.user ⟨name, right⟩)

/-- Two fields that differ in the handle of their type only. -/
structure Field.Twins (left right : Field Reference) : Prop where
  name : left.name = right.name
  type : left.type.Twins right.type
  modifiers : left.modifiers = right.modifiers
  bounds : left.bounds = right.bounds
  ordinal : left.ordinal = right.ordinal
  default : left.default = right.default

/-- Two messages that differ in the handles in their fields only.  Of the
messages in them the names are compared. -/
structure Message.Twins (left right : Message Reference) : Prop where
  name : left.name = right.name
  announced : left.isExtern = right.isExtern
  parents : left.parents = right.parents
  enums : left.enums = right.enums
  messages : left.messages.map Message.id = right.messages.map Message.id
  fields : List.Forall₂ Field.Twins left.fields right.fields

lemma Message.Twins.id {left right : Message Reference} (twins : left.Twins right) :
    left.id = right.id :=
  congrArg MessageName.current twins.name

lemma FieldType.Twins.alias {left right : FieldType Reference} (twins : left.Twins right)
    (aliases : Aliases) : (left.alias aliases).Twins (right.alias aliases) := by
  cases twins with
  | primitive type => exact .primitive type
  | user name sameKind => exact .user (aliases.applyScope name) sameKind

lemma Field.Twins.alias {left right : Field Reference} (twins : left.Twins right)
    (aliases : Aliases) : (left.alias aliases).Twins (right.alias aliases) where
  name := twins.name
  type := twins.type.alias aliases
  modifiers := twins.modifiers
  bounds := twins.bounds
  ordinal := twins.ordinal
  default := twins.default

lemma Message.name_alias (aliases : Aliases) (message : Message Reference) :
    (message.alias aliases).name = message.name.alias aliases := by
  cases message <;> rw [Message.alias] <;> rfl

lemma Message.Twins.alias {left right : Message Reference} (twins : left.Twins right)
    (aliases : Aliases) : (left.alias aliases).Twins (right.alias aliases) where
  name := by rw [Message.name_alias, Message.name_alias, twins.name]
  announced := by rw [Message.isExtern_alias, Message.isExtern_alias, twins.announced]
  parents := by rw [Message.parents_alias, Message.parents_alias, twins.parents]
  enums := by rw [Message.enums_alias, Message.enums_alias, twins.enums]
  messages := by
    have renamed : ∀ message : Message Reference,
        (message.alias aliases).messages.map Message.id =
          (message.messages.map Message.id).map aliases.applyScope := by
      intro message
      rw [Message.messages_alias, List.map_map, List.map_map]
      exact map_congr_left fun inner _ => inner.id_alias aliases
    rw [renamed, renamed, twins.messages]
  fields := by
    rw [Message.fields_alias, Message.fields_alias, forall₂_map_left_iff,
      forall₂_map_right_iff]
    exact twins.fields.imp fun _ _ same => same.alias aliases

variable {α β γ ρ : Type} {table : SymbolTable Nat} {items : List α}

lemma filterMap_eq_of_forall₂ {relation : α -> β -> Prop} {left : α -> Option γ}
    {right : β -> Option γ} (step : ∀ one other, relation one other -> left one = right other)
    {others : List β} (related : List.Forall₂ relation items others) :
    items.filterMap left = others.filterMap right := by
  induction related with
  | nil => rfl
  | cons same _ ih => rw [filterMap_cons, filterMap_cons, step _ _ same, ih]

lemma Message.Twins.ownDependencies_eq {left right : Message Reference}
    (twins : left.Twins right) : left.ownDependencies = right.ownDependencies := by
  rw [Message.ownDependencies, Message.ownDependencies, twins.parents]
  congr 1
  refine filterMap_eq_of_forall₂ ?_ twins.fields
  rintro ⟨_, one, _, _, _, _⟩ ⟨_, other, _, _, _, _⟩ ⟨_, sameType, _, _, _, _⟩
  cases sameType with
  | primitive type => rfl
  | user name sameKind => simp only [Reference.dependency?, sameKind]

/-- What one list is turned into in two ways. -/
lemma forall₂_of_common {first : α -> β -> Prop} {second : α -> γ -> Prop}
    {relation : β -> γ -> Prop}
    {left : List β} {right : List γ}
    (step : ∀ item ∈ items, ∀ one other, first item one -> second item other -> relation one other)
    (isFirst : List.Forall₂ first items left) (isSecond : List.Forall₂ second items right) :
    List.Forall₂ relation left right := by
  induction isFirst generalizing right with
  | nil =>
    cases isSecond
    exact .nil
  | cons one _ ih =>
    cases isSecond with
    | cons other rest =>
      rw [forall_mem_cons] at step
      exact .cons (step.1 _ _ one other) (ih step.2 rest)

/-! ## Two runs over the same types -/

/-- A document with readable names that goes through all stages under the given
aliases. -/
structure Run (options : NamingOptions) (aliases : Aliases) where
  document : Document
  table : SymbolTable Nat
  types : List (TypeDecl Reference)
  compiled : Compiled
  stages : Stages options document aliases table types compiled
  sound : Document.Sound document

/-- The flat schemas of two runs differ in their order only. -/
def Run.Reorders {options : NamingOptions} {aliases : Aliases} (left right : Run options aliases) :
    Prop :=
  (flatten (qualify left.document)).Perm (flatten (qualify right.document))

lemma definitionsOf_perm {left right : List (TypeDecl ρ)} (same : left.Perm right) :
    (definitionsOf left).Perm (definitionsOf right) :=
  same.flatMap_right _

/-- What a name refers to is of the kind of the definitions of that name. -/
lemma SymbolTable.Describes.kind_of_find? {definitions : List (TypeDecl ρ)}
    (describes : table.Describes definitions) {type : TypeDecl ρ} (member : type ∈ definitions)
    {symbol : Symbol Nat} (found : table.find? type.id.text = some symbol) :
    symbol.kind = type.kind := by
  rcases type with decl | decl
  · rcases cases_of_find? found with ⟨_, _, isEnum⟩ | ⟨entry, foundMessage, _⟩
    · rw [isEnum]
      rfl
    · rcases getElem?_of_mem member with ⟨handle, listed⟩
      exact absurd foundMessage
        (describes.apart _ handle entry ((describes.enums _ handle).mpr ⟨decl, listed, rfl⟩))
  · exact describes.kind_of_find?_message member found

lemma Message.Resolvable.perm {left right : List (TypeDecl Identifier)} (same : left.Perm right)
    {message : Message Identifier} (resolvable : message.Resolvable left) :
    message.Resolvable right where
  parents := by
    intro parent listed
    rcases resolvable.parents parent listed with ⟨target, member, read⟩
    rw [SymbolTable.reading?_congr fun _ => (same.map TypeDecl.id).mem_iff] at read
    exact ⟨target, same.mem_iff.mp member, read⟩
  ordinals := resolvable.ordinals
  types := by
    intro field listed name isType
    rw [SymbolTable.reading?_congr fun _ => (same.map TypeDecl.id).symm.mem_iff]
    exact resolvable.types field listed name isType

/-- What definitions need in order to be compiled does not depend on their
order. -/
lemma Compilable.perm {aliases : Aliases} {left right : List (TypeDecl Identifier)}
    (same : left.Perm right) (able : Compilable aliases left) : Compilable aliases right where
  coexist := (same.pairwise_iff fun coexist => coexist.symm).mp able.coexist
  fieldsDiffer := fun decl member => able.fieldsDiffer decl (same.mem_iff.mpr member)
  resolvable := fun decl member => (able.resolvable decl (same.mem_iff.mpr member)).perm same
  apart := by
    intro first memberFirst second memberSecond equal
    have sameNames := same.map TypeDecl.id
    exact able.apart first (sameNames.mem_iff.mpr memberFirst) second
      (sameNames.mem_iff.mpr memberSecond) equal

namespace Run.Reorders

variable {options : NamingOptions} {aliases : Aliases} {left right : Run options aliases}

section
variable (reorders : left.Reorders right)
include reorders

lemma symm : right.Reorders left :=
  List.Perm.symm reorders

lemma mem_definitions_iff {type : TypeDecl Identifier} :
    type ∈ definitionsOf (flatten (qualify left.document)) ↔
      type ∈ definitionsOf (flatten (qualify right.document)) :=
  (definitionsOf_perm reorders).mem_iff

lemma reading?_eq :
    SymbolTable.reading? ((definitionsOf (flatten (qualify left.document))).map TypeDecl.id) =
      SymbolTable.reading? ((definitionsOf (flatten (qualify right.document))).map TypeDecl.id) :=
  SymbolTable.reading?_congr fun _ => ((definitionsOf_perm reorders).map TypeDecl.id).mem_iff

/-- A name that is mentioned in a message refers, in both runs, to a definition
of the same name and kind. -/
lemma reference?_twins {name message : Identifier} (proper : name.Proper) (clean : message.Clean)
    {one other : Reference}
    (isOne : (Scope.of (flatten (qualify left.document)) left.table).reference? name message =
      some one)
    (isOther : (Scope.of (flatten (qualify right.document)) right.table).reference? name message =
      some other) : one.name = other.name ∧ one.symbol.kind = other.symbol.kind := by
  have indexesLeft := left.sound.indexes left.stages.indexed
  have indexesRight := right.sound.indexes right.stages.indexed
  rcases (Scope.reference?_eq_some_iff indexesLeft proper clean).mp isOne with ⟨readOne, foundOne⟩
  rcases (Scope.reference?_eq_some_iff indexesRight proper clean).mp isOther with
    ⟨readOther, foundOther⟩
  rw [reorders.reading?_eq, readOther] at readOne
  have sameName : one.name = other.name := (Option.some.inj readOne).symm
  rcases indexesLeft.definition_of_find? foundOne with ⟨type, listed, sameKind, isType⟩
  have member := reorders.mem_definitions_iff.mp (mem_of_getElem? listed)
  rw [← sameName, ← isType] at foundOther
  exact ⟨sameName, sameKind.symm.trans (indexesRight.kind_of_find? member foundOther).symm⟩

end

variable {one other : Message Reference} {handle : Nat} {entry : MessageEntry Nat}

/-- In both runs a message is resolved to the same, up to handles. -/
lemma twins_of_completes (reorders : left.Reorders right) {written : Message Identifier}
    (member : .message written ∈ definitionsOf (flatten (qualify left.document)))
    (isOne : (Scope.of (flatten (qualify left.document)) left.table).Completes written one)
    (isOther : (Scope.of (flatten (qualify right.document)) right.table).Completes written other) :
    one.Twins other where
  name := isOne.name.trans isOther.name.symm
  announced := isOne.announced.trans isOther.announced.symm
  parents := by
    have clean := (left.sound.proper_id member).clean
    have mentions := left.sound.mentionsProper member
    rw [← forall₂_eq_eq_eq]
    refine forall₂_of_common ?_ isOne.parents isOther.parents
    rintro parent listed _ _ ⟨found, refers, _, isName⟩ ⟨again, refersAgain, _, isNameAgain⟩
    rw [← isName, ← isNameAgain]
    exact (reorders.reference?_twins (mentions.1 parent listed) clean refers refersAgain).1
  enums := isOne.enums.trans isOther.enums.symm
  messages := isOne.messages.trans isOther.messages.symm
  fields := by
    have clean := (left.sound.proper_id member).clean
    have mentions := left.sound.mentionsProper member
    refine forall₂_of_common ?_ isOne.fields isOther.fields
    intro field listed first second isFirst isSecond
    rcases (Scope.resolveField_eq_ok_iff _ _ _ _).mp isFirst with ⟨_, typeFirst, sameFirst⟩
    rcases (Scope.resolveField_eq_ok_iff _ _ _ _).mp isSecond with ⟨_, typeSecond, sameSecond⟩
    rw [sameFirst, sameSecond]
    refine ⟨rfl, ?_, rfl, rfl, rfl, rfl⟩
    dsimp only
    cases isType : field.type with
    | primitive type =>
      rw [isType, Scope.resolveType] at typeFirst typeSecond
      rw [← Except.ok.inj typeFirst, ← Except.ok.inj typeSecond]
      exact .primitive type
    | user name =>
      rw [isType, Scope.resolveType] at typeFirst typeSecond
      split at typeFirst
      · next one refersOne =>
        split at typeSecond
        · next other refersOther =>
          rw [← Except.ok.inj typeFirst, ← Except.ok.inj typeSecond]
          rcases reorders.reference?_twins (mentions.2 field listed name isType) clean refersOne
            refersOther with ⟨sameName, sameKind⟩
          rcases one with ⟨oneName, oneSymbol⟩
          rcases other with ⟨otherName, otherSymbol⟩
          cases sameName
          exact .user oneName sameKind
        · cases typeSecond
      · cases typeFirst

variable {decl : Message Reference} {name : String}

lemma exists_twin (reorders : left.Reorders right)
    (member : .message decl ∈ definitionsOf left.types) :
    ∃ twin, .message twin ∈ definitionsOf right.types ∧ decl.Twins twin := by
  rcases exists_completes_of_resolve left.stages.resolved member with ⟨written, listed, completes⟩
  have flipped := (definitions_of_resolve right.stages.resolved).flip
  rcases mem_of_forall₂ flipped (reorders.mem_definitions_iff.mp listed) with
    ⟨type | twin, found, again⟩
  · cases again
  · exact ⟨twin, found, reorders.twins_of_completes listed completes again⟩

lemma enum_mem_iff_resolved (run : Run options aliases) {decl : EnumDecl} :
    .enum decl ∈ definitionsOf run.types ↔
      .enum decl ∈ definitionsOf (flatten (qualify run.document)) := by
  have completes := definitions_of_resolve run.stages.resolved
  constructor
  · intro member
    rcases mem_of_forall₂ completes member with ⟨written | written, listed, same⟩
    · cases same
      exact listed
    · cases same
  · intro member
    rcases mem_of_forall₂ completes.flip member with ⟨result | result, listed, same⟩
    · cases same
      exact listed
    · cases same

/-- An enum has an entry of its name in both tables. -/
lemma exists_enum_entry (reorders : left.Reorders right)
    (found : left.table.enums.find? name = some handle) {decl : EnumDecl}
    (place : (definitionsOf left.types)[handle]? = some (.enum decl)) :
    ∃ other, right.table.enums.find? name = some other ∧
      (definitionsOf right.types)[other]? = some (.enum decl) := by
  rcases ((left.stages.indexes_resolved left.sound).enums name handle).mp found with
    ⟨again, placed, isName⟩
  rw [place] at placed
  cases placed
  have member := (enum_mem_iff_resolved right).mpr
    (reorders.mem_definitions_iff.mp ((enum_mem_iff_resolved left).mp (mem_of_getElem? place)))
  rcases getElem?_of_mem member with ⟨other, listed⟩
  exact ⟨other, ((right.stages.indexes_resolved right.sound).enums name other).mpr
    ⟨decl, listed, isName⟩, listed⟩

lemma twins_of_announced (isOne : one.isExtern = true) (isOther : other.isExtern = true)
    (same : one.name = other.name) : one.Twins other := by
  cases one with
  | defined _ _ _ _ _ => cases isOne
  | external first =>
    cases other with
    | defined _ _ _ _ _ => cases isOther
    | external second => exact ⟨same, rfl, rfl, rfl, rfl, .nil⟩

section
variable (reorders : left.Reorders right)
include reorders

/-- A message has an entry of its name in both tables.  Both lead to the
definition of the message, or else to an announcement. -/
lemma exists_message_entry (found : left.table.messages.find? name = some entry)
    (place : (definitionsOf left.types)[entry.handle]? = some (.message decl)) :
    ∃ other twin, right.table.messages.find? name = some other ∧
      (definitionsOf right.types)[other.handle]? = some (.message twin) ∧ decl.Twins twin := by
  have indexesLeft := left.stages.indexes_resolved left.sound
  have indexesRight := right.stages.indexes_resolved right.sound
  have member := mem_of_getElem? place
  rcases (indexesLeft.messages name entry).mp found with ⟨again, placed, isName, _, stands⟩
  rw [place] at placed
  cases placed
  rcases reorders.exists_twin member with ⟨twin, listedTwin, twins⟩
  have sameText : twin.id.text = name := by rw [← twins.id, isName]
  cases announced : decl.isExtern with
  | false =>
    -- The definition of the message is the only one in either run.
    have defined : twin.isExtern = false := by rw [← twins.announced, announced]
    rcases getElem?_of_mem listedTwin with ⟨handle, listed⟩
    refine ⟨⟨handle, false⟩, twin, (indexesRight.messages name _).mpr ⟨twin, listed, sameText,
      defined.symm, ?_⟩, listed, twins⟩
    intro impossible
    rw [defined] at impossible
    cases impossible
  | true =>
    -- All messages of this name are announcements, in the other run as well.
    rcases indexesRight.known twin listedTwin with ⟨other, known⟩
    rw [sameText] at known
    rcases (indexesRight.messages name other).mp known with ⟨standing, listed, isStanding, _⟩
    rcases reorders.symm.exists_twin (mem_of_getElem? listed) with
      ⟨back, listedBack, twinsBack⟩
    rcases getElem?_of_mem listedBack with ⟨handle, placeBack⟩
    have sameBack : back.id.text = decl.id.text := by rw [← twinsBack.id, isStanding, isName]
    have isAnnounced : standing.isExtern = true := by
      rw [twinsBack.announced]
      exact (stands announced handle back placeBack sameBack).1
    have sameId : decl.id = standing.id :=
      Identifier.eq_of_text_eq (indexesLeft.proper _ member)
        (indexesRight.proper _ (mem_of_getElem? listed)) (isName.trans isStanding.symm)
    have sameName : decl.name = standing.name := by
      have none := left.stages.declared_eq_none left.sound member
      have noneRight := right.stages.declared_eq_none right.sound (mem_of_getElem? listed)
      rcases isDecl : decl.name with ⟨current, declared⟩
      rcases isStandingName : standing.name with ⟨currentRight, declaredRight⟩
      rw [Message.id, Message.id, isDecl, isStandingName] at sameId
      rw [isDecl] at none
      rw [isStandingName] at noneRight
      cases sameId
      cases none
      cases noneRight
      rfl
    exact ⟨other, standing, known, listed, twins_of_announced announced isAnnounced sameName⟩

/-! ## After the renaming -/

lemma exists_final_twin (member : .message decl ∈ definitionsOf left.compiled.types) :
    ∃ twin, .message twin ∈ definitionsOf right.compiled.types ∧ decl.Twins twin := by
  rcases left.stages.exists_resolved left.sound member with ⟨old, listed, rfl⟩
  rcases reorders.exists_twin listed with ⟨twin, listedTwin, twins⟩
  refine ⟨twin.alias aliases, ?_, twins.alias aliases⟩
  rw [right.stages.types_eq right.sound, definitionsOf_alias]
  exact List.mem_map.mpr ⟨_, listedTwin, rfl⟩

lemma exists_final_enum
    (found : left.compiled.table.enums.find? name = some handle) {decl : EnumDecl}
    (place : (definitionsOf left.compiled.types)[handle]? = some (.enum decl)) :
    ∃ other, right.compiled.table.enums.find? name = some other ∧
      (definitionsOf right.compiled.types)[other]? = some (.enum decl) := by
  rw [left.stages.types_eq left.sound, definitionsOf_alias] at place
  rcases getElem?_alias_enum.mp place with ⟨old, placeOld, same⟩
  rcases ((left.stages.moves left.sound).enums name handle).mp found with ⟨key, foundOld, isName⟩
  rcases reorders.exists_enum_entry foundOld placeOld with ⟨other, foundOther, placeOther⟩
  refine ⟨other, ((right.stages.moves right.sound).enums name other).mpr
    ⟨key, foundOther, isName⟩, ?_⟩
  rw [right.stages.types_eq right.sound, definitionsOf_alias]
  exact getElem?_alias_enum.mpr ⟨old, placeOther, same⟩

lemma exists_final_message (found : left.compiled.table.messages.find? name = some entry)
    (place : (definitionsOf left.compiled.types)[entry.handle]? = some (.message decl)) :
    ∃ other twin, right.compiled.table.messages.find? name = some other ∧
      (definitionsOf right.compiled.types)[other.handle]? = some (.message twin) ∧
      decl.Twins twin := by
  rw [left.stages.types_eq left.sound, definitionsOf_alias] at place
  rcases getElem?_alias_message.mp place with ⟨old, placeOld, same⟩
  rcases ((left.stages.moves left.sound).messages name entry).mp found with
    ⟨key, foundOld, isName⟩
  rcases reorders.exists_message_entry foundOld placeOld with
    ⟨other, twin, foundOther, placeOther, twins⟩
  refine ⟨other, twin.alias aliases, ((right.stages.moves right.sound).messages name other).mpr
    ⟨key, foundOther, isName⟩, ?_, ?_⟩
  · rw [right.stages.types_eq right.sound, definitionsOf_alias]
    exact getElem?_alias_message.mpr ⟨twin, placeOther, rfl⟩
  · rw [← same]
    exact twins.alias aliases

lemma contains_of_contains (isMessage : left.compiled.table.messages.contains name = true) :
    right.compiled.table.messages.contains name = true := by
  have coherent := left.stages.coherent left.sound
  rcases Name.Table.contains_iff.mp isMessage with ⟨entry, found⟩
  rcases (coherent.indexes.messages name entry).mp found with ⟨decl, place, _⟩
  rcases reorders.exists_final_message found place with ⟨other, _, foundOther, _⟩
  exact Name.Table.contains_iff.mpr ⟨other, foundOther⟩

lemma contains_eq :
    left.compiled.table.messages.contains = right.compiled.table.messages.contains := by
  funext name
  rw [Bool.eq_iff_iff]
  exact ⟨reorders.contains_of_contains, reorders.symm.contains_of_contains⟩

end

end Run.Reorders

/-- Owners depend only on which names are those of messages. -/
lemma SymbolTable.owner_congr {left right : SymbolTable Nat}
    (same : left.messages.contains = right.messages.contains) (name : Identifier) :
    left.owner name = right.owner name := by
  fun_induction SymbolTable.owner left name with
  | case1 name top =>
    refine (SymbolTable.owner_eq_self ?_).symm
    rintro ⟨scope, up, _⟩
    rw [top] at up
    cases up
  | case2 name scope up inside ih =>
    rw [same] at inside
    rw [SymbolTable.owner_eq_of_parent? up inside, ih]
  | case3 name scope up outside =>
    refine (SymbolTable.owner_eq_self ?_).symm
    rintro ⟨other, again, inside⟩
    rw [up] at again
    cases again
    rw [same] at outside
    exact outside inside

/-- The top-level messages of a compiled schema are those of the flat one, under
their new names. -/
lemma Stages.isTop_iff {options : NamingOptions} {document : Document} {aliases : Aliases}
    {types : List (TypeDecl Reference)} {compiled : Compiled}
    (stages : Stages options document aliases table types compiled)
    (sound : Document.Sound document) {name : String} :
    compiled.IsTop name ↔ ∃ written, .message written ∈ flatten (qualify document) ∧
      (aliases.applyScope written.id).text = name := by
  have steps := (Scope.resolveTypes_eq_ok_iff _ _ _).mp stages.resolved
  rw [Compiled.IsTop, stages.types_eq sound, topMessages_alias]
  constructor
  · rintro ⟨top, member, isName⟩
    rcases List.mem_map.mp member with ⟨old, listed, same⟩
    rcases mem_of_forall₂ steps (mem_topMessages.mp listed) with ⟨written | written, found, done⟩
    · cases done
    · rcases exceptDone : Scope.resolveMessage _ written with error | result
      · rw [Scope.resolveDecl, exceptDone] at done
        cases done
      · rw [Scope.resolveDecl, exceptDone] at done
        cases done
        refine ⟨written, found, ?_⟩
        rw [← isName, ← same, Message.id_alias, Scope.id_of_resolveMessage _ exceptDone]
  · rintro ⟨written, member, isName⟩
    rcases mem_of_forall₂ steps.flip member with ⟨result, found, done⟩
    rcases exceptDone : Scope.resolveMessage _ written with error | top
    · rw [Scope.resolveDecl, exceptDone] at done
      cases done
    · rw [Scope.resolveDecl, exceptDone] at done
      cases done
      refine ⟨top.alias aliases, mem_map_of_mem (mem_topMessages.mpr found), ?_⟩
      rw [← isName, Message.id_alias, Scope.id_of_resolveMessage _ exceptDone]

namespace Run.Reorders

variable {options : NamingOptions} {aliases : Aliases} {left right : Run options aliases}

lemma isTop_iff (reorders : left.Reorders right) {name : String} :
    left.compiled.IsTop name ↔ right.compiled.IsTop name := by
  rw [left.stages.isTop_iff left.sound, right.stages.isTop_iff right.sound]
  simp only [List.Perm.mem_iff reorders]

lemma mem_refs_of_mem_refs (reorders : left.Reorders right) {outer inner : String}
    (noted : inner ∈ left.compiled.references.refs outer) :
    inner ∈ right.compiled.references.refs outer := by
  rw [left.stages.related] at noted
  rcases mem_refs_dependencies_iff.mp noted with
    ⟨decl, target, member, depends, isMessage, isOuter, isInner, different⟩
  rcases reorders.exists_final_twin member with ⟨twin, listed, twins⟩
  rw [right.stages.related]
  refine mem_refs_dependencies_iff.mpr ⟨twin, target, listed, ?_, ?_, ?_, ?_, different⟩
  · rw [← twins.ownDependencies_eq]
    exact depends
  · rw [← reorders.contains_eq]
    exact isMessage
  · rw [isOuter, twins.id, SymbolTable.owner_congr reorders.contains_eq]
  · rw [isInner, SymbolTable.owner_congr reorders.contains_eq]

/-- Both runs work out the same closures, of the same messages. -/
lemma closure?_eq (reorders : left.Reorders right) (name : String) :
    left.compiled.references.closure? name = right.compiled.references.closure? name := by
  have sameClosures : left.compiled.references.closureOf = right.compiled.references.closureOf :=
    References.closureOf_eq_of_mem_refs_iff fun _ _ =>
      ⟨reorders.mem_refs_of_mem_refs, reorders.symm.mem_refs_of_mem_refs⟩
  have sameTops : left.compiled.IsTop name ↔ right.compiled.IsTop name := reorders.isTop_iff
  rw [left.stages.related, right.stages.related] at sameClosures ⊢
  apply Option.ext
  intro closure
  rw [closure?_dependencies_eq_some_iff, closure?_dependencies_eq_some_iff, sameClosures]
  exact and_congr_left' sameTops

end Run.Reorders
end MessageSchema

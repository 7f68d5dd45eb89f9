import MessageSchema.Proofs.Compile.Containment

namespace MessageSchema

open List Option

/-!
A schema under two names.

Compiled with aliases it has the same types as without, under new names, and its
messages use the same definitions.  A name goes along with its scope, except where
the scope itself is an aliased path.
-/

variable {scope : Identifier} {table : SymbolTable Nat} {aliases : Aliases} {document : Document}
    {options : NamingOptions}

namespace Aliases

lemma replaceLeading_append_single (replacement : Identifier) {rest : List String}
    (filled : rest ≠ []) (word : String) : replaceLeading replacement (rest ++ [word]) =
      (replaceLeading replacement rest).append (.single word) := by
  have longer : rest ++ [word] ≠ [] := append_ne_nil_of_left_ne_nil filled _
  have same : (replaceLeading replacement (rest ++ [word])).segments =
      ((replaceLeading replacement rest).append (.single word)).segments := by
    rw [segments_replaceLeading replacement longer, Identifier.append,
      segments_replaceLeading replacement filled, List.append_assoc, Identifier.single]
  exact congrArg Identifier.mk same

variable {name : Identifier}

section
variable {options : NamingOptions} {aliases : Aliases}

/-- A scope that is no aliased path itself takes the names in it along. -/
lemma applyScope_append_single (built : options.Built aliases) (filled : scope.segments ≠ [])
    (free : ∀ wish ∈ options.aliases, .ofDotted wish.1 ≠ scope) (word : String) :
    aliases.applyScope (scope.append (.single word)) =
      (aliases.applyScope scope).append (.single word) := by
  have parts : scope.segments = scope.segments.dropLast ++ [scope.segments.getLast filled] :=
    (dropLast_append_getLast filled).symm
  have last : scope.segments.getLast?.toList = [scope.segments.getLast filled] := by
    rw [getLast?_eq_some_getLast filled]
    rfl
  rw [applyScope, applyScope, longest?_none, longest?_none, Identifier.append, Identifier.single,
    dropLast_concat, getLast?_concat, last]
  cases matched : match? aliases.children scope.segments with
  | some found =>
    rcases found with ⟨replacement, rest⟩
    rcases (built.holds.match?_eq_some_iff _ _ _).mp matched with ⟨path, member, same⟩
    rcases List.mem_map.mp (List.mem_reverse.mp member) with ⟨wish, listed, wished⟩
    cases wished
    -- The path ends above the scope, so it is found from there as well.
    have goesOn : rest ≠ [] := by
      intro none
      rw [none, append_nil] at same
      exact free wish listed (congrArg Identifier.mk same.symm)
    have above : scope.segments.dropLast =
        (Identifier.ofDotted wish.1).segments ++ rest.dropLast := by
      rw [same, dropLast_append_of_ne_nil goesOn]
    have matchedAbove := (built.holds.match?_eq_some_iff scope.segments.dropLast rest.dropLast
      (.ofDotted wish.2)).mpr ⟨_, member, above⟩
    have sameLast : rest.dropLast ++ [scope.segments.getLast filled] = rest := by
      have ends : scope.segments.getLast filled = rest.getLast goesOn := by
        simp only [same, getLast_append_of_ne_nil _ goesOn]
      rw [ends, dropLast_append_getLast]
    rw [matchedAbove]
    simp only [toList_some, sameLast]
    exact replaceLeading_append_single _ goesOn word
  | none =>
    have unmatched : match? aliases.children scope.segments.dropLast = none := by
      cases matchedAbove : match? aliases.children scope.segments.dropLast with
      | none => rfl
      | some found =>
        rcases found with ⟨replacement, rest⟩
        rcases (built.holds.match?_eq_some_iff _ _ _).mp matchedAbove with ⟨path, member, same⟩
        have longer := (built.holds.match?_eq_some_iff scope.segments
          (rest ++ [scope.segments.getLast filled]) replacement).mpr
          ⟨path, member, by rw [← List.append_assoc, ← same, ← parts]⟩
        rw [matched] at longer
        cases longer
    rw [unmatched]
    cases aliases.outer with
    | none => rfl
    | some outer => exact replaceLeading_append_single outer filled word

lemma parent?_applyScope (built : options.Built aliases) (proper : scope.Proper)
    (up : name.parent? = some scope) (free : ∀ wish ∈ options.aliases, .ofDotted wish.1 ≠ scope) :
    (aliases.applyScope name).parent? = some (aliases.applyScope scope) := by
  rcases Identifier.exists_append_of_parent? up with ⟨filled, word, same⟩
  rw [same, applyScope_append_single built filled free]
  exact Identifier.parent?_append_single (proper_applyScope built proper).some word

end

/-- The renaming of full names, as text. -/
def rename (aliases : Aliases) (name : String) : String :=
  (aliases.applyScope (.ofDotted name)).text

lemma rename_text (aliases : Aliases) (proper : name.Proper) :
    aliases.rename name.text = (aliases.applyScope name).text := by
  rw [rename, Identifier.ofDotted_text proper]

end Aliases

section
variable (aliases : Aliases)

lemma EnumDecl.alias_alias_empty (decl : EnumDecl) :
    (decl.alias Aliases.empty).alias aliases = decl.alias aliases := by
  simp only [EnumDecl.alias, Aliases.applyScope_empty]

lemma Field.alias_alias_empty (field : Field Reference) :
    (field.alias Aliases.empty).alias aliases = field.alias aliases := by
  cases isType : field.type with
  | primitive type => simp only [Field.alias, isType, FieldType.alias]
  | user reference =>
    simp only [Field.alias, isType, FieldType.alias, Reference.alias, Aliases.applyScope_empty]

lemma Message.alias_alias_empty (message : Message Reference) :
    (message.alias Aliases.empty).alias aliases = message.alias aliases := by
  induction message using Message.nestedInduction with
  | external name =>
    simp only [Message.alias, MessageName.alias, Aliases.applyScope_empty, getD_some]
  | defined name parents enums messages fields ih =>
    have sameParents : (parents.map Aliases.empty.applyScope).map aliases.applyScope =
        parents.map aliases.applyScope := by
      simp
    have sameEnums := map_congr_left (l := enums) fun decl _ =>
      decl.alias_alias_empty aliases
    have sameMessages := map_congr_left ih
    have sameFields := map_congr_left (l := fields) fun field _ =>
      field.alias_alias_empty aliases
    simp only [Message.alias, Message.aliasAll_eq_map, MessageName.alias,
      Aliases.applyScope_empty, getD_some, sameParents, List.map_map]
    simp only [Function.comp_def, sameEnums, sameMessages, sameFields]

lemma TypeDecl.alias_alias_empty (type : TypeDecl Reference) :
    (type.alias Aliases.empty).alias aliases = type.alias aliases := by
  rcases type with decl | message
  · exact congrArg TypeDecl.enum (decl.alias_alias_empty aliases)
  · exact congrArg TypeDecl.message (message.alias_alias_empty aliases)

end

lemma SymbolTable.handle_of_find?_message {name : String} {handle : Nat}
    (found : table.find? name = some (.message handle)) :
    (table.messages.find? name).map MessageEntry.handle = some handle := by
  rcases cases_of_find? found with ⟨_, _, isEnum⟩ | ⟨entry, foundMessage, isMessage⟩
  · cases isEnum
  · cases isMessage
    rw [foundMessage]
    rfl

lemma Stages.uses_final {types : List (TypeDecl Reference)} {compiled : Compiled}
    (stages : Stages options document aliases table types compiled)
    (sound : Document.Sound document) {decl : Message Reference}
    (member : .message decl ∈ definitionsOf types) :
    compiled.table.uses (decl.alias aliases) = table.uses decl := by
  have linked := stages.linked_resolved sound member
  rw [SymbolTable.uses, SymbolTable.uses, Message.parents_alias, Message.fields_alias,
    filterMap_map, filterMap_map]
  congr 1
  · apply filterMap_congr
    intro parent listed
    rcases linked.parents parent listed with ⟨known, handle, found⟩
    have moved := find?_of_aliasNames (stages.indexes_resolved sound) stages.renamed known found
    rw [SymbolTable.handle_of_find?_message found]
    exact SymbolTable.handle_of_find?_message moved
  · apply filterMap_congr
    intro field _
    cases isType : field.type with
    | primitive type => simp [Field.alias, FieldType.alias, isType]
    | user reference => simp [Field.alias, FieldType.alias, Reference.alias, isType]

/-- Two compiled schemas, of which the second one is the first one with its
types renamed. -/
structure Compiled.Renames (options : NamingOptions) (aliases : Aliases)
    (before after : Compiled) : Prop where
  plain : before.Plain
  coherent : after.Coherent
  built : options.Built aliases
  types : after.types = before.types.map (TypeDecl.alias aliases)
  apart : aliases.KeepsApart ((definitionsOf before.types).map TypeDecl.id)
  uses : ∀ source, .message source ∈ definitionsOf before.types ->
    after.table.uses (source.alias aliases) = before.table.uses source

lemma renames_of_compile {source : List UInt8} {before after : Compiled}
    (parsed : Syntax.parse source = .ok document) (doneBefore : compile {} document = .ok before)
    (wished : options.build = .ok aliases) (done : compile options document = .ok after) :
    Compiled.Renames options aliases before after := by
  have sound : Document.Sound document := Syntax.sound_of_parse parsed
  rcases compile_eq_ok_iff.mp doneBefore with ⟨unaliased, table, types, stagesBefore⟩
  rcases compile_eq_ok_iff.mp done with ⟨again, tableAgain, typesAgain, stages⟩
  -- Up to the renaming, both compilations go the same way.
  have noAliases : unaliased = Aliases.empty := (Except.ok.inj stagesBefore.wished).symm
  have sameAliases : again = aliases := Except.ok.inj (stages.wished.symm.trans wished)
  have sameTable : tableAgain = table :=
    Except.ok.inj (stages.indexed.symm.trans stagesBefore.indexed)
  subst noAliases sameAliases sameTable
  have sameTypes : typesAgain = types :=
    Except.ok.inj (stages.resolved.symm.trans stagesBefore.resolved)
  subst sameTypes
  have indexes := stages.indexes_resolved sound
  have built := NamingOptions.built_of_build wished
  constructor
  · exact plain_of_compile parsed doneBefore
  · exact stages.coherent sound
  · exact built
  · rw [stages.types_eq sound, stagesBefore.types_eq sound, List.map_map]
    apply map_congr_left
    intro type _
    exact (type.alias_alias_empty again).symm
  · have apart := (exists_aliasNames_iff indexes built).mp ⟨_, stages.renamed⟩
    have sameNames : ((definitionsOf typesAgain).map TypeDecl.id).map Aliases.empty.applyScope =
        (definitionsOf typesAgain).map TypeDecl.id := by
      simp
    rw [stagesBefore.map_id_final sound, sameNames]
    exact apart
  · intro source member
    rcases stagesBefore.exists_resolved sound member with ⟨old, listed, rfl⟩
    rw [Message.alias_alias_empty, stages.uses_final sound listed,
      stagesBefore.uses_final sound listed]

/-- This is the name of a top-level message. -/
def Compiled.IsTop (compiled : Compiled) (name : String) : Prop :=
  ∃ top ∈ topMessages compiled.types, top.id.text = name

lemma topMessages_alias (aliases : Aliases) (types : List (TypeDecl Reference)) :
    topMessages (types.map (TypeDecl.alias aliases)) =
      (topMessages types).map (Message.alias aliases) := by
  rw [topMessages, topMessages, filterMap_map, map_filterMap]
  apply filterMap_congr
  intro type _
  cases type <;> rfl

namespace Compiled.Renames

variable {options : NamingOptions} {aliases : Aliases} {before after : Compiled}

lemma definitions (renames : Renames options aliases before after) :
    definitionsOf after.types = (definitionsOf before.types).map (TypeDecl.alias aliases) := by
  rw [renames.types, definitionsOf_alias]

lemma mem_refs_iff (renames : Renames options aliases before after) {outer inner : String} :
    inner ∈ after.references.refs outer ↔
      ∃ (handle target : Nat) (source : Message Reference) (type : TypeDecl Reference),
        (definitionsOf before.types)[handle]? = some (.message source) ∧
        target ∈ before.table.uses source ∧ (definitionsOf before.types)[target]? = some type ∧
        after.table.Notes (aliases.applyScope source.id) (type.alias aliases) outer inner := by
  rw [renames.coherent.mem_refs_iff, renames.definitions]
  constructor
  · rintro ⟨handle, target, moved, movedType, listed, used, place, notes⟩
    rcases getElem?_alias_message.mp listed with ⟨source, listedSource, same⟩
    rw [getElem?_map] at place
    rcases Option.map_eq_some_iff.mp place with ⟨type, listedType, sameType⟩
    subst same sameType
    rw [renames.uses source (mem_of_getElem? listedSource)] at used
    rw [Message.id_alias] at notes
    exact ⟨handle, target, source, type, listedSource, used, listedType, notes⟩
  · rintro ⟨handle, target, source, type, listed, used, place, notes⟩
    refine ⟨handle, target, source.alias aliases, type.alias aliases,
      getElem?_alias_message.mpr ⟨source, listed, rfl⟩, ?_, ?_, ?_⟩
    · rw [renames.uses source (mem_of_getElem? listed)]
      exact used
    · rw [getElem?_map, place]
      rfl
    · rw [Message.id_alias]
      exact notes

section
variable (renames : Renames options aliases before after)
include renames

lemma rename_top {top : Message Reference} (member : top ∈ topMessages before.types) :
    aliases.rename top.id.text = (aliases.applyScope top.id).text :=
  aliases.rename_text (renames.plain.proper_of_top member)

lemma isTop_after_iff {name : String} :
    after.IsTop name ↔ ∃ old, before.IsTop old ∧ aliases.rename old = name := by
  unfold IsTop
  rw [renames.types, topMessages_alias]
  constructor
  · rintro ⟨moved, member, same⟩
    rcases List.mem_map.mp member with ⟨top, listed, isMoved⟩
    refine ⟨top.id.text, ⟨top, listed, rfl⟩, ?_⟩
    rw [renames.rename_top listed, ← same, ← isMoved, Message.id_alias]
  · rintro ⟨old, ⟨top, listed, same⟩, isName⟩
    refine ⟨top.alias aliases, List.mem_map_of_mem listed, ?_⟩
    rw [← isName, ← same, renames.rename_top listed, Message.id_alias]

lemma eq_of_rename_eq {left right : String}
    (isLeft : before.IsTop left) (isRight : before.IsTop right)
    (same : aliases.rename left = aliases.rename right) : left = right := by
  rcases isLeft with ⟨first, memberFirst, isFirst⟩
  rcases isRight with ⟨second, memberSecond, isSecond⟩
  rw [← isFirst, ← isSecond, renames.rename_top memberFirst,
    renames.rename_top memberSecond] at same
  rw [← isFirst, ← isSecond]
  exact (renames.plain.indexes.text_applyScope_eq_iff renames.built renames.apart
    (mem_definitionsOf_of_mem (mem_topMessages.mp memberFirst))
    (mem_definitionsOf_of_mem (mem_topMessages.mp memberSecond))).mp same

lemma contains_applyScope (proper : scope.Proper)
    (isMessage : before.table.messages.contains scope.text = true) :
    (∃ decl, .message decl ∈ definitionsOf before.types ∧ decl.id = scope) ∧
      after.table.messages.contains (aliases.applyScope scope).text = true := by
  rcases renames.plain.indexes.messages_contains_iff.mp isMessage with ⟨decl, member, sameText⟩
  have same : decl.id = scope :=
    Identifier.eq_of_text_eq (renames.plain.indexes.proper _ member) proper sameText
  refine ⟨⟨decl, member, same⟩, renames.coherent.indexes.messages_contains_iff.mpr
    ⟨decl.alias aliases, ?_, ?_⟩⟩
  · rw [renames.definitions]
    exact List.mem_map.mpr ⟨_, member, rfl⟩
  · rw [Message.id_alias, same]

end

end Compiled.Renames
end MessageSchema

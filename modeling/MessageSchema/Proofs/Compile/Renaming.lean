import Mathlib.Data.List.Nodup
import MessageSchema.Compile.Aliased
import MessageSchema.Proofs.Compile.AliasTree
import MessageSchema.Proofs.Compile.Resolution

namespace MessageSchema

open List

/-!
Renaming a schema together with its symbol table.

All definitions get their aliased names at once, and the keys of the table follow.
This succeeds exactly if different names stay different, and the table then
describes the renamed definitions, at the same handles.
-/

/-! ## The definitions of a renamed schema -/

section
variable (aliases : Aliases)

lemma Message.aliasAll_eq_map (messages : List (Message Reference)) :
    Message.aliasAll aliases messages = messages.map (Message.alias aliases) := by
  induction messages with
  | nil => rw [Message.aliasAll, map_nil]
  | cons message rest ih => rw [Message.aliasAll, ih, map_cons]

@[simp] lemma Message.id_alias (message : Message Reference) :
    (message.alias aliases).id = aliases.applyScope message.id := by
  cases message <;> rw [Message.alias] <;> rfl

@[simp] lemma Message.isExtern_alias (message : Message Reference) :
    (message.alias aliases).isExtern = message.isExtern := by
  cases message <;> rw [Message.alias] <;> rfl

@[simp] lemma TypeDecl.id_alias (type : TypeDecl Reference) :
    (type.alias aliases).id = aliases.applyScope type.id := by
  rcases type with decl | message
  · rfl
  · exact message.id_alias aliases

lemma Message.definitions_alias (message : Message Reference) :
    (message.alias aliases).definitions = message.definitions.map (TypeDecl.alias aliases) := by
  induction message using Message.nestedInduction with
  | external name =>
    rw [Message.alias, Message.definitions, Message.definitions, map_singleton,
      TypeDecl.alias, Message.alias]
  | defined name parents enums messages fields ih =>
    have inner : (messages.map (Message.alias aliases)).flatMap Message.definitions =
        (messages.flatMap Message.definitions).map (TypeDecl.alias aliases) := by
      rw [flatMap_map, map_flatMap]
      exact flatMap_congr ih
    rw [Message.definitions_defined, map_cons, map_append, ← inner, TypeDecl.alias,
      Message.alias, Message.definitions_defined, Message.aliasAll_eq_map, List.map_map,
      List.map_map]
    rfl

lemma TypeDecl.definitions_alias (type : TypeDecl Reference) :
    (type.alias aliases).definitions = type.definitions.map (TypeDecl.alias aliases) := by
  rcases type with decl | message
  · rfl
  · exact message.definitions_alias aliases

lemma definitionsOf_alias (types : List (TypeDecl Reference)) :
    definitionsOf (types.map (TypeDecl.alias aliases)) =
      (definitionsOf types).map (TypeDecl.alias aliases) := by
  rw [definitionsOf, definitionsOf, flatMap_map, map_flatMap]
  exact flatMap_congr fun type _ => type.definitions_alias aliases

end

/-! ## Claiming the new names -/

variable {name : String}

namespace SymbolTable

/-- New names can be claimed if they differ from each other and from those that
are taken. -/
lemma exists_claimNames_iff (renamed : String -> String) (owners : Name.Table String)
    (names : List String) : (∃ next, claimNames renamed owners names = .ok next) ↔
      (names.map renamed).Nodup ∧ ∀ name ∈ names, owners.find? (renamed name) = none := by
  induction names generalizing owners with
  | nil => simp [claimNames]
  | cons name rest ih =>
    rw [claimNames]
    cases taken : owners.find? (renamed name) with
    | some earlier => simp [taken]
    | none =>
      simp only [ih, map_cons, nodup_cons, forall_mem_cons, taken,
        Name.Table.find?_insert, mem_map]
      constructor
      · rintro ⟨distinct, free⟩
        have apart : ∀ other ∈ rest, renamed other ≠ renamed name := by
          intro other member same
          have found := free other member
          rw [if_pos same] at found
          cases found
        refine ⟨⟨?_, distinct⟩, trivial, ?_⟩
        · rintro ⟨other, member, same⟩
          exact apart other member same
        · intro other member
          have found := free other member
          rwa [if_neg (apart other member)] at found
      · rintro ⟨⟨apart, distinct⟩, _, free⟩
        refine ⟨distinct, ?_⟩
        intro other member
        rw [if_neg fun same => apart ⟨other, member, same⟩]
        exact free other member

/-- A name that would move onto the new name of another one. -/
structure Intrudes (renamed : String -> String) (names : List String) (name : String) : Prop where
  listed : name ∈ names
  moves : renamed name ≠ name
  shared : ∃ other ∈ names, other ≠ name ∧ renamed other = renamed name

/-- The error names such a name.  The induction carries which names have claimed theirs. -/
lemma intrudes_of_claimNames {renamed : String -> String} {owners : Name.Table String}
    {seen names : List String} {error : CompileError} (distinct : (seen ++ names).Nodup)
    (owned : ∀ name earlier, owners.find? name = some earlier ->
      earlier ∈ seen ∧ renamed earlier = name)
    (failed : claimNames renamed owners names = .error error) :
    ∃ name, Intrudes renamed (seen ++ names) name ∧
      error = .aliasedNameConflict name (renamed name) := by
  induction names generalizing seen owners with
  | nil => cases failed
  | cons name rest ih =>
    rw [claimNames] at failed
    cases taken : owners.find? (renamed name) with
    | some earlier =>
      rcases owned _ _ taken with ⟨listed, shared⟩
      have differ : earlier ≠ name := (nodup_append.mp distinct).2.2 _ listed _ mem_cons_self
      have first := mem_append_left (name :: rest) listed
      have second : name ∈ seen ++ name :: rest := mem_append_right seen mem_cons_self
      rw [taken] at failed
      cases failed
      by_cases stays : name = renamed name
      · have moves : renamed earlier ≠ earlier := by
          rw [shared, ← stays]
          exact differ.symm
        rw [if_pos stays, ← shared]
        exact ⟨earlier, ⟨first, moves, name, second, differ.symm, shared.symm⟩, rfl⟩
      · rw [if_neg stays]
        exact ⟨name, ⟨second, Ne.symm stays, earlier, first, differ, shared⟩, rfl⟩
    | none =>
      rw [taken] at failed
      rw [append_cons] at distinct ⊢
      refine ih distinct ?_ failed
      intro key earlier found
      rw [Name.Table.find?_insert] at found
      split at found
      · next same =>
        cases found
        exact ⟨mem_append_right _ mem_cons_self, same.symm⟩
      · rcases owned _ _ found with ⟨listed, same⟩
        exact ⟨mem_append_left _ listed, same⟩

lemma find?_map_ofList {α : Type} {table : Name.Table α} {renamed : String -> String}
    (distinct : (table.names.map renamed).Nodup) {value : α} :
    (Name.Table.ofList (table.entries.map fun entry => (renamed entry.1, entry.2))).find? name =
        some value ↔ ∃ old, table.find? old = some value ∧ renamed old = name := by
  rw [Name.Table.find?_ofList]
  · simp only [mem_map, Prod.exists, Prod.mk.injEq, Name.Table.mem_entries_iff]
    constructor
    · rintro ⟨old, found, held, same, equal⟩
      exact ⟨old, equal ▸ held, same⟩
    · rintro ⟨old, held, same⟩
      exact ⟨old, value, held, same, rfl⟩
  · rw [List.map_map]
    rw [Name.Table.names, List.map_map] at distinct
    exact distinct

/-- All names of a table, those of the enums first. -/
def keys (table : SymbolTable Nat) : List String :=
  table.enums.names ++ table.messages.names

variable {table : SymbolTable Nat} {ρ : Type}

lemma Describes.keys_nodup {definitions : List (TypeDecl ρ)}
    (describes : table.Describes definitions) : table.keys.Nodup := by
  refine List.nodup_append.mpr ⟨table.enums.names_nodup, table.messages.names_nodup, ?_⟩
  intro name memberEnum other memberMessage same
  subst same
  rcases Name.Table.mem_names_iff.mp memberEnum with ⟨handle, foundEnum⟩
  rcases Name.Table.mem_names_iff.mp memberMessage with ⟨entry, foundMessage⟩
  exact describes.apart name handle entry foundEnum foundMessage

lemma Describes.mem_keys_iff {definitions : List (TypeDecl ρ)}
    (describes : table.Describes definitions) :
    name ∈ table.keys ↔ ∃ type ∈ definitions, type.id.text = name := by
  rw [keys, mem_append, ← Name.Table.contains_iff_mem_names, describes.enums_contains_iff,
    ← Name.Table.contains_iff_mem_names, describes.messages_contains_iff]
  constructor
  · rintro (⟨decl, member, same⟩ | ⟨decl, member, same⟩)
    · exact ⟨.enum decl, member, same⟩
    · exact ⟨.message decl, member, same⟩
  · rintro ⟨decl | decl, member, same⟩
    · exact .inl ⟨decl, member, same⟩
    · exact .inr ⟨decl, member, same⟩

end SymbolTable

section
variable {types : List (TypeDecl Reference)} {table next : SymbolTable Nat} {aliases : Aliases}

/-- Different names of the schema stay different. -/
def Aliases.KeepsApart (aliases : Aliases) (names : List Identifier) : Prop :=
  ∀ left ∈ names, ∀ right ∈ names, aliases.applyScope left = aliases.applyScope right ->
    left = right

variable {type : TypeDecl Reference} {definitions newTypes : List (TypeDecl Reference)}
    {decl : Message Reference} {symbol : Symbol Nat}

/-- The key of a definition moves to the text of its new name. -/
lemma SymbolTable.Indexes.find?_renamesOf (indexes : table.Indexes (definitionsOf types))
    (member : type ∈ definitionsOf types) :
    (renamesOf aliases (Scope.of types table)).find? type.id.text =
      some (aliases.applyScope type.id).text := by
  have nameOf : ∀ (symbol : Symbol Nat) {found : TypeDecl Reference},
      (definitionsOf types)[symbol.handle]? = some found -> found.id.text = type.id.text ->
      (Scope.of types table).nameOf symbol = type.id := by
    intro symbol found listed same
    rw [Scope.nameOf_of listed]
    exact Identifier.eq_of_text_eq (indexes.proper _ (mem_of_getElem? listed))
      (indexes.proper type member) same
  rw [renamesOf, Name.Table.find?_ofList]
  · rw [mem_append, mem_map, mem_map]
    rcases List.mem_append.mp (indexes.mem_keys_iff.mpr ⟨type, member, rfl⟩) with listed | listed
    · left
      rcases Name.Table.mem_names_iff.mp listed with ⟨handle, found⟩
      refine ⟨(type.id.text, handle), Name.Table.mem_entries_iff.mpr found, ?_⟩
      rcases (indexes.enums _ handle).mp found with ⟨decl, place, same⟩
      simp only [nameOf (.enum handle) place same]
    · right
      rcases Name.Table.mem_names_iff.mp listed with ⟨entry, found⟩
      refine ⟨(type.id.text, entry), Name.Table.mem_entries_iff.mpr found, ?_⟩
      rcases (indexes.messages _ entry).mp found with ⟨decl, place, same, _⟩
      simp only [nameOf (.message entry.handle) place same]
  · rw [map_append, List.map_map, List.map_map]
    exact indexes.keys_nodup

/-- The renaming of the keys of a table, as far as they are names of the
schema. -/
lemma SymbolTable.Indexes.renamed_eq (indexes : table.Indexes (definitionsOf types))
    (member : type ∈ definitionsOf types) :
    ((renamesOf aliases (Scope.of types table)).find? type.id.text).getD type.id.text =
      (aliases.applyScope type.id).text := by
  rw [indexes.find?_renamesOf member, Option.getD_some]

variable {options : NamingOptions} {handle : Nat}

lemma SymbolTable.Indexes.nodup_renamed_iff (indexes : table.Indexes (definitionsOf types))
    (built : options.Built aliases) : (table.keys.map fun name =>
        ((renamesOf aliases (Scope.of types table)).find? name).getD name).Nodup ↔
      aliases.KeepsApart ((definitionsOf types).map TypeDecl.id) := by
  rw [nodup_map_iff_inj_on indexes.keys_nodup]
  constructor
  · rintro apart left memberLeft right memberRight same
    rcases List.mem_map.mp memberLeft with ⟨first, memberFirst, isFirst⟩
    rcases List.mem_map.mp memberRight with ⟨second, memberSecond, isSecond⟩
    subst isFirst isSecond
    apply Identifier.eq_of_text_eq (indexes.proper _ memberFirst) (indexes.proper _ memberSecond)
    apply apart _ (indexes.mem_keys_iff.mpr ⟨first, memberFirst, rfl⟩) _
      (indexes.mem_keys_iff.mpr ⟨second, memberSecond, rfl⟩)
    rw [indexes.renamed_eq memberFirst, indexes.renamed_eq memberSecond, same]
  · intro apart left memberLeft right memberRight same
    rcases indexes.mem_keys_iff.mp memberLeft with ⟨first, memberFirst, isFirst⟩
    rcases indexes.mem_keys_iff.mp memberRight with ⟨second, memberSecond, isSecond⟩
    subst isFirst isSecond
    rw [indexes.renamed_eq memberFirst, indexes.renamed_eq memberSecond] at same
    have sameName := Identifier.eq_of_text_eq
      (Aliases.proper_applyScope built (indexes.proper _ memberFirst))
      (Aliases.proper_applyScope built (indexes.proper _ memberSecond)) same
    rw [apart _ (mem_map_of_mem memberFirst) _ (mem_map_of_mem memberSecond) sameName]

lemma SymbolTable.rekey_eq_ok_iff (renames : Name.Table String) : table.rekey renames = .ok next ↔
      (table.keys.map fun name => (renames.find? name).getD name).Nodup ∧
        next = ⟨.ofList (table.enums.entries.map fun entry =>
            ((renames.find? entry.1).getD entry.1, entry.2)),
          .ofList (table.messages.entries.map fun entry =>
            ((renames.find? entry.1).getD entry.1, entry.2))⟩ := by
  have claim := exists_claimNames_iff (fun name => (renames.find? name).getD name) .empty
    table.keys
  have able : (∃ owners, claimNames (fun name => (renames.find? name).getD name) .empty
      table.keys = .ok owners) ↔
      (table.keys.map fun name => (renames.find? name).getD name).Nodup := by
    rw [claim]
    simp
  unfold rekey
  dsimp only
  rw [← able, ← keys]
  cases claimNames (fun name => (renames.find? name).getD name) .empty table.keys with
  | error error => simp
  | ok owners => simp [eq_comm]

lemma SymbolTable.intrudes_of_rekey {renames : Name.Table String}
    {error : CompileError} (distinct : table.keys.Nodup)
    (failed : table.rekey renames = .error error) :
    ∃ name, Intrudes (fun name => (renames.find? name).getD name) table.keys name ∧
      error = .aliasedNameConflict name ((renames.find? name).getD name) := by
  unfold rekey at failed
  dsimp only at failed
  split at failed
  · next found claimed =>
    cases failed
    refine @intrudes_of_claimNames _ _ [] _ _ distinct ?_ claimed
    intro name earlier found
    cases found
  · cases failed

lemma exists_aliasNames_iff (indexes : table.Indexes (definitionsOf types))
    (built : options.Built aliases) : (∃ result, aliasNames aliases types table = .ok result) ↔
      aliases.KeepsApart ((definitionsOf types).map TypeDecl.id) := by
  rw [← indexes.nodup_renamed_iff built, aliasNames]
  cases done : table.rekey (renamesOf aliases (Scope.of types table)) with
  | ok next => simpa using (SymbolTable.rekey_eq_ok_iff _).mp done |>.1
  | error error =>
    constructor
    · rintro ⟨_, impossible⟩
      cases impossible
    · intro distinct
      rw [(SymbolTable.rekey_eq_ok_iff _).mpr ⟨distinct, rfl⟩] at done
      cases done

/-! ## The table of the renamed schema -/

lemma getElem?_alias_enum {decl : EnumDecl} :
    (definitions.map (TypeDecl.alias aliases))[handle]? = some (.enum decl) ↔
      ∃ old, definitions[handle]? = some (.enum old) ∧ old.alias aliases = decl := by
  rw [getElem?_map, Option.map_eq_some_iff]
  constructor
  · rintro ⟨old | old, listed, same⟩
    · exact ⟨old, listed, TypeDecl.enum.inj same⟩
    · cases same
  · rintro ⟨old, listed, same⟩
    exact ⟨.enum old, listed, by rw [TypeDecl.alias, same]⟩

lemma getElem?_alias_message :
    (definitions.map (TypeDecl.alias aliases))[handle]? = some (.message decl) ↔
      ∃ old, definitions[handle]? = some (.message old) ∧ old.alias aliases = decl := by
  rw [getElem?_map, Option.map_eq_some_iff]
  constructor
  · rintro ⟨old | old, listed, same⟩
    · cases same
    · exact ⟨old, listed, TypeDecl.message.inj same⟩
  · rintro ⟨old, listed, same⟩
    exact ⟨.message old, listed, by rw [TypeDecl.alias, same]⟩

section
variable (indexes : table.Indexes (definitionsOf types)) (built : options.Built aliases)
  (apart : aliases.KeepsApart ((definitionsOf types).map TypeDecl.id))
include indexes built apart

/-- Renaming keeps it which definitions share a name. -/
lemma SymbolTable.Indexes.text_applyScope_eq_iff
    {left right : TypeDecl Reference} (memberLeft : left ∈ definitionsOf types)
    (memberRight : right ∈ definitionsOf types) :
    (aliases.applyScope left.id).text = (aliases.applyScope right.id).text ↔
      left.id.text = right.id.text := by
  constructor
  · intro same
    have sameName := Identifier.eq_of_text_eq
      (Aliases.proper_applyScope built (indexes.proper _ memberLeft))
      (Aliases.proper_applyScope built (indexes.proper _ memberRight)) same
    rw [apart _ (mem_map_of_mem memberLeft) _ (mem_map_of_mem memberRight) sameName]
  · intro same
    rw [Identifier.eq_of_text_eq (indexes.proper _ memberLeft) (indexes.proper _ memberRight) same]

lemma SymbolTable.Indexes.standsFor_alias_iff (member : .message decl ∈ definitionsOf types) :
    StandsFor ((definitionsOf types).map (TypeDecl.alias aliases)) handle (decl.alias aliases) ↔
      StandsFor (definitionsOf types) handle decl := by
  simp only [StandsFor, Message.isExtern_alias, Message.id_alias, getElem?_alias_message]
  constructor
  · intro stands announced other found listed same
    have sameText := (indexes.text_applyScope_eq_iff built apart
      (mem_of_getElem? listed) member).mpr same
    have first := stands announced other (found.alias aliases) ⟨found, listed, rfl⟩
      (by rw [Message.id_alias]; exact sameText)
    rwa [Message.isExtern_alias] at first
  · rintro stands announced other _ ⟨found, listed, rfl⟩ same
    rw [Message.id_alias] at same
    have sameText := (indexes.text_applyScope_eq_iff built apart
      (mem_of_getElem? listed) member).mp same
    rw [Message.isExtern_alias]
    exact stands announced other found listed sameText

end

/-- One table holds what another one holds, with every name replaced. -/
structure SymbolTable.Moves (table next : SymbolTable Nat) (renamed : String -> String) : Prop where
  enums : ∀ name handle, next.enums.find? name = some handle ↔
    ∃ old, table.enums.find? old = some handle ∧ renamed old = name
  messages : ∀ name entry, next.messages.find? name = some entry ↔
    ∃ old, table.messages.find? old = some entry ∧ renamed old = name
  apart : ∀ name handle entry, next.enums.find? name = some handle ->
    next.messages.find? name ≠ some entry

lemma SymbolTable.moves_of_rekey {renames : Name.Table String}
    (done : table.rekey renames = .ok next) :
    table.Moves next fun name => (renames.find? name).getD name := by
  rcases (rekey_eq_ok_iff renames).mp done with ⟨distinct, same⟩
  subst same
  rw [keys, map_append, nodup_append] at distinct
  rcases distinct with ⟨distinctEnums, distinctMessages, apart⟩
  refine ⟨fun _ _ => find?_map_ofList distinctEnums, fun _ _ => find?_map_ofList distinctMessages,
    ?_⟩
  intro name handle entry foundEnum foundMessage
  rcases (find?_map_ofList distinctEnums).mp foundEnum with ⟨first, heldFirst, isFirst⟩
  rcases (find?_map_ofList distinctMessages).mp foundMessage with ⟨second, heldSecond, isSecond⟩
  exact apart _ (mem_map_of_mem (Name.Table.mem_names_iff.mpr ⟨_, heldFirst⟩)) _
    (mem_map_of_mem (Name.Table.mem_names_iff.mpr ⟨_, heldSecond⟩))
    (isFirst.trans isSecond.symm)

/-- A table whose names are replaced along with those of the definitions
describes the definitions as before. -/
lemma SymbolTable.Indexes.alias (indexes : table.Indexes (definitionsOf types))
    (built : options.Built aliases)
    (apart : aliases.KeepsApart ((definitionsOf types).map TypeDecl.id))
    {renamed : String -> String}
    (moves : table.Moves next renamed) (follows : ∀ type ∈ definitionsOf types,
      renamed type.id.text = (aliases.applyScope type.id).text) :
    next.Indexes ((definitionsOf types).map (TypeDecl.alias aliases)) where
  enums := by
    intro name handle
    rw [moves.enums]
    constructor
    · rintro ⟨old, found, same⟩
      rcases (indexes.enums old handle).mp found with ⟨decl, place, isOld⟩
      refine ⟨decl.alias aliases, getElem?_alias_enum.mpr ⟨decl, place, rfl⟩, ?_⟩
      rw [← same, ← isOld]
      exact (follows _ (mem_of_getElem? place)).symm
    · rintro ⟨_, listed, same⟩
      rcases getElem?_alias_enum.mp listed with ⟨decl, place, rfl⟩
      refine ⟨decl.name.text, (indexes.enums _ handle).mpr ⟨decl, place, rfl⟩, ?_⟩
      rw [← same]
      exact follows _ (mem_of_getElem? place)
  messages := by
    intro name entry
    rw [moves.messages]
    constructor
    · rintro ⟨old, found, same⟩
      rcases (indexes.messages old entry).mp found with ⟨decl, place, isOld, flag, stands⟩
      have member := mem_of_getElem? place
      refine ⟨decl.alias aliases, getElem?_alias_message.mpr ⟨decl, place, rfl⟩, ?_,
        by rw [flag, Message.isExtern_alias],
        (indexes.standsFor_alias_iff built apart member).mpr stands⟩
      rw [← same, ← isOld, Message.id_alias]
      exact (follows _ member).symm
    · rintro ⟨_, listed, same, flag, stands⟩
      rcases getElem?_alias_message.mp listed with ⟨decl, place, rfl⟩
      have member := mem_of_getElem? place
      rw [Message.isExtern_alias] at flag
      refine ⟨decl.id.text, (indexes.messages _ entry).mpr ⟨decl, place, rfl, flag,
        (indexes.standsFor_alias_iff built apart member).mp stands⟩, ?_⟩
      rw [← same, Message.id_alias]
      exact follows _ member
  known := by
    intro decl member
    rcases List.mem_map.mp member with ⟨old | old, listed, isOld⟩
    · cases isOld
    · cases isOld
      rcases indexes.known old listed with ⟨entry, found⟩
      refine ⟨entry, (moves.messages _ entry).mpr ⟨old.id.text, found, ?_⟩⟩
      rw [Message.id_alias]
      exact follows _ listed
  apart := moves.apart
  proper := by
    intro type member
    rcases List.mem_map.mp member with ⟨old, listed, isOld⟩
    rw [← isOld, TypeDecl.id_alias]
    exact Aliases.proper_applyScope built (indexes.proper old listed)

/-- What renaming gives: the renamed types, and a table whose names follow. -/
lemma aliasNames_ok (indexes : table.Indexes (definitionsOf types))
    (done : aliasNames aliases types table = .ok (newTypes, next)) :
    newTypes = types.map (TypeDecl.alias aliases) ∧
      ∃ renamed, table.Moves next renamed ∧ ∀ type ∈ definitionsOf types,
        renamed type.id.text = (aliases.applyScope type.id).text := by
  rw [aliasNames] at done
  split at done
  · next moved rekeyed =>
    cases done
    exact ⟨rfl, _, SymbolTable.moves_of_rekey rekeyed, fun _ member => indexes.renamed_eq member⟩
  · cases done

lemma SymbolTable.Indexes.renamed (indexes : table.Indexes (definitionsOf types))
    (built : options.Built aliases) (done : aliasNames aliases types table = .ok (newTypes, next)) :
    next.Indexes (definitionsOf newTypes) := by
  have apart := (exists_aliasNames_iff indexes built).mp ⟨_, done⟩
  rcases aliasNames_ok indexes done with ⟨same, renamed, moves, follows⟩
  rw [same, definitionsOf_alias]
  exact indexes.alias built apart moves follows

lemma SymbolTable.Moves.find?_eq_some {renamed : String -> String}
    (moves : table.Moves next renamed) (found : table.find? name = some symbol) :
    next.find? (renamed name) = some symbol := by
  rcases cases_of_find? found with ⟨handle, foundEnum, isEnum⟩ | ⟨entry, foundMessage, isMessage⟩
  · have moved := (moves.enums _ handle).mpr ⟨name, foundEnum, rfl⟩
    rw [find?, moved, isEnum]
  · have moved := (moves.messages _ entry).mpr ⟨name, foundMessage, rfl⟩
    have noEnum : next.enums.find? (renamed name) = none := by
      cases taken : next.enums.find? (renamed name) with
      | none => rfl
      | some handle => exact absurd moved (moves.apart _ handle entry taken)
    rw [find?, noEnum, moved, isMessage]
    rfl

/-- A name of the schema refers, when it has been renamed, to what it referred
to before. -/
lemma find?_of_aliasNames (indexes : table.Indexes (definitionsOf types))
    (done : aliasNames aliases types table = .ok (newTypes, next)) {name : Identifier}
    (member : name ∈ (definitionsOf types).map TypeDecl.id)
    (found : table.find? name.text = some symbol) :
    next.find? (aliases.applyScope name).text = some symbol := by
  rcases aliasNames_ok indexes done with ⟨_, renamed, moves, follows⟩
  rcases List.mem_map.mp member with ⟨type, listed, same⟩
  subst same
  rw [← follows type listed]
  exact moves.find?_eq_some found

end
end MessageSchema

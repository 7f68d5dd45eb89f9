import MessageSchema.Proofs.Workbench.Aliasing
import MessageSchema.Proofs.Workbench.Resolving

namespace MessageSchema.Workbench

open List

/-!
Field types that follow the names of their targets.

Once all definitions have their aliased names, the entries of the symbol table move,
and every field type takes over the name of its target.  Until then it has the one
that its target had before.
-/

variable {α : Type} {key : Key} {types : List (TypeDecl Reference)}
  {decl message : Message Reference}

/-- A resolved field type under the name that its target had before. -/
def staleName (place : Nat -> Nat) (names : Nat -> Option Identifier) (reference : Reference) :
    TypeView :=
  ⟨none, names reference.symbol.handle, some (place reference.symbol.handle)⟩

variable {store : Store}

/-! ### Field types under other names -/

/-- A way to leave all definitions alone. -/
lemma framing_types : Framing fun _ types => Alters nowhere types where
  alters altered := altered.mono (fun _ => False.elim) fun _ => id
  refl _ := Alters.refl nowhere
  trans := Alters.trans
  mono altered _ within := altered.mono (fun _ => id) within
  leave := framing_alters.leave

/-- Where the field types change one after the other, the definitions stay. -/
lemma yields_forM_retyping [Extent α] {shows shown : Store -> Site α -> Prop}
    {sites : List (Site α)} {visitAt : Site α -> Work Unit} (lasting : Lasting shows)
    (lastingShown : Lasting shown) (apart : sites.Pairwise Site.Apart)
    (visited : ∀ site ∈ sites, ∀ middle, Alters nowhere (CoveredTypes sites) store middle ->
      shows middle site -> Yields (visitAt site) middle fun _ after =>
        shown after site ∧ Alters nowhere site.CoversType middle after)
    (shows_sites : ∀ site ∈ sites, shows store site) :
    Yields (sites.forM visitAt) store fun _ after =>
      (∀ site ∈ sites, shown after site) ∧ Alters nowhere (CoveredTypes sites) store after := by
  have all : Follows (sites.forM visitAt) store _
      ((sites.map Site.item).mapM fun item => pure (id item)) :=
    framing_types.follows_sites lasting lastingShown apart ?_ shows_sites
  · rw [mapM_pure, map_id] at all
    refine all.yields.mono ?_
    rintro _ after ⟨become, alters⟩
    rw [Become, forall₂_map_right_iff, forall₂_same] at become
    exact ⟨fun site listed => (become site listed).1, alters⟩
  · intro site listed middle alters showsSite
    refine (visited site listed middle alters showsSite).follows ?_
    rintro _ after ⟨shownSite, further⟩
    exact ⟨⟨shownSite, rfl, rfl⟩, further⟩

lemma forM_flatMap {β : Type} (items : List α) (parts : α -> List β) (visit : β -> Work Unit) :
    (items.flatMap parts).forM visit = items.forM fun item => (parts item).forM visit := by
  induction items with
  | nil => rfl
  | cons item rest ih =>
    rw [forM_eq_forM, forM_eq_forM] at ih ⊢
    rw [flatMap_cons, forM_append, ih, forM_cons]

lemma renameFieldTypes_eq_forM (message : Key) (keys : List Key) :
    renameFieldTypes message keys = keys.forM fun key => renameFieldTypes message [key] := by
  induction keys with
  | nil => rfl
  | cons key rest ih =>
    rw [forM_eq_forM, forM_cons, ← forM_eq_forM, ← ih, renameFieldTypes, renameFieldTypes,
      bind_assoc]
    congr 1
    funext store
    cases store.node key with
    | field field =>
      simp only [renameFieldTypes]
      split
      · split
        · rfl
        · simp only [bind_assoc, pure_bind]
      · rfl
    | enum node => rfl
    | message node => rfl
    | scope node => rfl

section
open MessageSchema (Message)
variable {place : Nat -> Nat} {names : Nat -> Option Identifier} {root start typeStart : Nat}

/-- The references of a message lead to definitions of their names, which say
something. -/
def Store.NamesAll (store : Store) (place : Nat -> Nat) (message : Message Reference) : Prop :=
  ∀ field ∈ message.fields, ∀ reference, field.type = .user reference ->
    store.Meets place reference ∧ reference.name.isBlank = false

lemma Store.NamesAll.lasts {types : Key -> Prop} {after : Store}
    (named : store.NamesAll place message) (alters : Alters nowhere types store after) :
    after.NamesAll place message := by
  intro field listed reference isType
  rcases named field listed reference isType with ⟨meets, filled⟩
  exact ⟨meets.lasts alters.toPersists, filled⟩

/-- The type of a field takes over the name of its target. -/
lemma yields_renameFieldType {site : Site (Field Reference)} {message : Key}
    (shows : ShowsField (staleName place names) store site)
    (meets : ∀ reference, site.item.type = .user reference ->
      store.Meets place reference ∧ reference.name.isBlank = false) :
    Yields (renameFieldTypes message [site.key]) store fun _ after =>
      ShowsField (resolvedName place) after site ∧ Alters nowhere site.CoversType store after := by
  rcases site with ⟨start, typeStart, name, type, modifiers, bounds, ordinal, default⟩
  rcases shows with ⟨node, typeShown⟩
  rcases node.field with ⟨nameKey, isField, _⟩
  rw [renameFieldTypes]
  refine .get_bind ?_
  simp only [key_field, isField]
  cases type with
  | primitive type =>
    rcases typeShown.type with ⟨typeName, known, _⟩
    simp only [known, Option.isNone_some, Bool.false_eq_true, if_false]
    exact .pure ⟨⟨node, typeShown⟩, Alters.refl _ _ store⟩
  | user reference =>
    rcases typeShown.type with ⟨typeName, known, _⟩
    rcases meets reference rfl with ⟨⟨view, shown, named, _⟩, filled⟩
    simp only [known, Option.isNone_none, if_true, shown.id, named, Option.getD_some]
    refine (yields_newName reference.name store).bind ?_
    rintro nameAt middle ⟨found, added⟩
    refine (yields_renameType (added.showsType _ _ id typeShown) found filled).bind ?_
    rintro _ after ⟨renamed, second⟩
    have alters := added.anywhere.trans second
    refine .pure ⟨⟨alters.shows _ _ id node, renamed⟩, alters.mono (fun _ => id) ?_⟩
    exact fun key same => same ▸ ⟨Nat.le_refl _, Nat.lt_succ_self _⟩

/-- The types of the fields of a message take over the names of their targets. -/
lemma yields_renameTypesOf {name declared : Option Identifier} {announced : Bool}
    {parents : List (Option Identifier)} {enums messages : List Key}
    {fields : List (Field Reference)}
    (node : store.Shows key (.message name announced declared parents enums messages
      (keysFrom start fields))) (shows : ∀ site ∈ sitesFrom start typeStart fields,
      ShowsField (staleName place names) store site)
    (meets : ∀ field ∈ fields, ∀ reference, field.type = .user reference ->
      store.Meets place reference ∧ reference.name.isBlank = false) :
    Yields (renameTypesOf key) store fun _ after =>
      (∀ site ∈ sitesFrom start typeStart fields, ShowsField (resolvedName place) after site) ∧
        Alters nowhere (Stretch typeStart (typeStart + typesOf fields)) store after := by
  rcases node.message with ⟨nameKey, parentKeys, isMessage, _, _⟩
  refine .get_bind ?_
  simp only [isMessage]
  rw [renameFieldTypes_eq_forM, ← map_key_sitesFrom fields start typeStart, forM_eq_forM,
    forM_map]
  have lastingField : Lasting (ShowsField (resolvedName place)) := lasting_showsField
  refine (yields_forM_retyping lasting_showsField lastingField
    (apart_sitesFrom fields start typeStart) ?_ shows).mono ?_
  · intro site listed middle alters showsSite
    refine yields_renameFieldType showsSite fun reference isType => ?_
    rcases meets site.item (item_mem_of_mem_sitesFrom listed) reference isType with ⟨meets, filled⟩
    exact ⟨meets.lasts alters.toPersists, filled⟩
  · rintro _ after ⟨shown, alters⟩
    exact ⟨shown, alters.mono (fun _ => id) fun _ => stretch_of_coveredTypes⟩

/-- The types of all fields in a message take over the names of their targets, nested
messages first. -/
lemma yields_retype_message
    (shows : ShowsMessage (staleName place names) store ⟨start, typeStart, message⟩)
    (named : ∀ decl, .message decl ∈ message.definitions -> store.NamesAll place decl) :
    Yields ((messageVisits start message).forM renameTypesOf) store fun _ after =>
      ShowsMessage (resolvedName place) after ⟨start, typeStart, message⟩ ∧
        Alters nowhere (Site.CoversType ⟨start, typeStart, message⟩) store after := by
  induction message using Message.nestedInduction generalizing start typeStart store with
  | external name =>
    cases shows with
    | external node =>
    have unfielded : ∀ site ∈ sitesFrom start typeStart ([] : List (Field Reference)),
        ShowsField (staleName place names) store site :=
      fun _ listed => absurd listed not_mem_nil
    refine (yields_renameTypesOf node unfielded
      fun _ listed => absurd listed not_mem_nil).bind ?_
    rintro _ after ⟨_, alters⟩
    exact .pure ⟨.external (alters.shows _ _ id node), alters⟩
  | defined name parents enums messages fields ih =>
    have parts := shows.parts
    rw [Message.definitions_defined] at named
    rw [coversType_defined, messageVisits, messageVisitsAll_eq_flatMap _ _ typeStart,
      forM_eq_forM, forM_append, ← forM_eq_forM, forM_flatMap]
    -- the messages
    have lastingMessage : Lasting (ShowsMessage (resolvedName place)) := lasting_showsMessage
    refine (yields_forM_retyping lasting_showsMessage lastingMessage
      (apart_sitesFrom messages _ typeStart) ?_ parts.ownMessages).bind ?_
    · intro site listed middle alters showsSite
      have member := item_mem_of_mem_sitesFrom listed
      refine ih site.item member showsSite fun decl inside => (named decl ?_).lasts alters
      exact mem_cons_of_mem _ (mem_append_right _
        (List.mem_flatMap.mpr ⟨site.item, member, inside⟩))
    rintro _ middle ⟨messagesShown, first⟩
    replace first := first.mono (fun _ => id) fun _ => stretch_of_coveredTypes
    replace parts := parts.after_messages lasting_showsField messagesShown ⟨rfl, rfl, rfl⟩
      (first.toPersists.mono (fun _ => False.elim) fun _ => id)
    -- the fields
    refine (yields_renameTypesOf parts.node parts.ownFields
      ((named _ mem_cons_self).lasts first)).bind ?_
    rintro _ after ⟨fieldsShown, second⟩
    replace parts := parts.after_fields lasting_showsMessage fieldsShown ⟨rfl, rfl, rfl⟩
      (second.toPersists.mono (fun _ => False.elim) fun _ => id)
    refine .pure ⟨parts.showsMessage, (first.mono (fun _ => id) ?_).trans
      (second.mono (fun _ => id) ?_)⟩
    · exact Stretch.mono (Nat.le_refl _) (Nat.le_add_right _ _)
    · exact Stretch.mono (Nat.le_add_right _ _) (Nat.le_refl _)

lemma yields_retype_decl {site : Site (TypeDecl Reference)}
    (shows : ShowsDecl (staleName place names) store site)
    (named : ∀ decl, .message decl ∈ site.item.definitions -> store.NamesAll place decl) :
    Yields (site.visits.forM renameTypesOf) store fun _ after =>
      ShowsDecl (resolvedName place) after site ∧ Alters nowhere site.CoversType store after := by
  cases shows with
  | enum shows => exact .pure ⟨.enum shows, Alters.refl _ _ store⟩
  | message shows =>
    refine (yields_retype_message shows named).mono ?_
    rintro _ after ⟨shown, alters⟩
    exact ⟨.message shown, alters⟩

lemma yields_retype_flat {sites : List (Site (TypeDecl Reference))}
    (shows : ShowsFlat (staleName place names) store root sites)
    (named : ∀ decl, .message decl ∈ definitionsOf (sites.map Site.item) ->
      store.NamesAll place decl) :
    Yields ((sites.flatMap Site.visits).forM renameTypesOf) store fun _ after =>
      ShowsFlat (resolvedName place) after root sites ∧ after.equipment = store.equipment := by
  have lastingDecl : Lasting (ShowsDecl (resolvedName place)) := lasting_showsDecl
  rw [forM_flatMap]
  refine (yields_forM_retyping lasting_showsDecl lastingDecl shows.apart ?_ shows.types).mono ?_
  · intro site listed middle alters showsSite
    refine yields_retype_decl showsSite fun decl inside => (named decl ?_).lasts alters
    exact List.mem_flatMap.mpr ⟨site.item, mem_map_of_mem listed, inside⟩
  · rintro _ after ⟨shown, alters⟩
    exact ⟨⟨alters.shows _ _ id shows.node, shown, shows.apart, shows.below⟩, alters.equipment⟩

/-! ### The entries of the symbol table -/

variable {aliases : Aliases} {sites : List (Site (TypeDecl Reference))} {table : SymbolTable Nat}

lemma mem_movesOf {table : SymbolTable Key} {name : Identifier} {entry : String × String} :
    entry ∈ movesOf aliases table key name ↔ (table.find? name.text).map Symbol.handle = some key ∧
        entry = (name.text, (aliases.applyScope name).text) := by
  rw [movesOf]
  split
  · next owns => simp [owns]
  · next owns => simp [owns]

/-- What is noted about the definitions of a schema moves the entries of its symbol
table to the aliased names. -/
lemma rekey_of_moves (indexes : table.Indexes (definitionsOf (sites.map Site.item))) :
    (table.map (keyOf sites)).rekey (.ofList ((definitionSites sites).flatMap
        (Site.moves aliases (table.map (keyOf sites))))) =
      (table.rekey (renamesOf aliases (Scope.of (sites.map Site.item) table))).map
        (SymbolTable.map (keyOf sites)) := by
  rw [SymbolTable.rekey_map]
  congr 1
  refine SymbolTable.rekey_congr fun name listed => ?_
  rcases indexes.mem_keys_iff.mp listed with ⟨type, member, same⟩
  subst same
  have present : table.find? type.id.text ≠ none := fun missing =>
    indexes.find?_eq_none_iff.mp missing type member rfl
  rcases Option.ne_none_iff_exists'.mp present with ⟨symbol, found⟩
  rcases indexes.definition_of_find? found with ⟨owner, place, _, sameText⟩
  have sameId := Identifier.eq_of_text_eq (indexes.proper owner (mem_of_getElem? place))
    (indexes.proper type member) sameText
  rcases exists_site_of_handle place with ⟨site, known, isOwner, isKey⟩
  have noted : (type.id.text, (aliases.applyScope type.id).text) ∈
      (definitionSites sites).flatMap (Site.moves aliases (table.map (keyOf sites))) := by
    refine List.mem_flatMap.mpr ⟨site, known, mem_movesOf.mpr ⟨?_, ?_⟩⟩
    · rw [isOwner, sameId, SymbolTable.find?_map, found, Option.map_some, Option.map_some,
        Symbol.handle_map, isKey]
    · rw [isOwner, sameId]
  rw [indexes.find?_renamesOf member, Name.Table.find?_ofList_of_forall noted]
  intro other listedOther
  rcases List.mem_flatMap.mp listedOther with ⟨rival, rivalListed, moved⟩
  have sameEntry := (mem_movesOf.mp moved).2
  have rivalDefined : rival.item ∈ definitionsOf (sites.map Site.item) := by
    rw [← map_item_definitionSites]
    exact mem_map_of_mem rivalListed
  have sameRival := Identifier.eq_of_text_eq (indexes.proper type member)
    (indexes.proper _ rivalDefined) (congrArg Prod.fst sameEntry)
  rw [sameRival]
  exact congrArg Prod.snd sameEntry

lemma notesAll_declNotes (aliases : Aliases) (table : SymbolTable Key)
    (sites : List (Site (TypeDecl Reference))) : notesAll (declNotes aliases table) sites =
      ⟨(definitionSites sites).flatMap (Site.moves aliases table), sites.flatMap Site.visits⟩ := by
  rw [notesAll, definitionSites, flatMap_assoc]
  rfl

/-! ### The run of the stage -/

lemma messageVisits_alias (message : Message Reference) (start : Nat) :
    messageVisits start (message.alias aliases) = messageVisits start message := by
  induction message using Message.nestedInduction generalizing start with
  | external name => rw [Message.alias, messageVisits, messageVisits]
  | defined name parents enums messages fields ih =>
    have extents : ∀ inner ∈ messages, SameExtent inner (inner.alias aliases) :=
      fun inner _ => (sameLayout_alias inner).extent
    rw [Message.alias, Message.aliasAll_eq_map, messageVisits, messageVisits,
      messageVisitsAll_eq_flatMap _ _ 0, messageVisitsAll_eq_flatMap _ _ 0, sitesFrom_map extents,
      flatMap_map, nodesOf_map extents, nodesOf_enums, nodesOf_enums, nodesOf_fields,
      nodesOf_fields, length_map, length_map]
    congr 1
    exact flatMap_congr fun site listed => ih site.item (item_mem_of_mem_sitesFrom listed) _

lemma visits_putAll_alias (sites : List (Site (TypeDecl Reference))) :
    (putAll sites ((sites.map Site.item).map (TypeDecl.alias aliases))).flatMap Site.visits =
      sites.flatMap Site.visits := by
  rw [putAll, List.map_map, zipWith_map_right, zipWith_self, flatMap_map]
  refine flatMap_congr ?_
  rintro ⟨start, typeStart, decl | decl⟩ _
  · rfl
  · exact messageVisits_alias decl start
/-- The name of the definition with a handle. -/
def nameOfHandle (types : List (TypeDecl Reference)) (handle : Nat) : Option Identifier :=
  (definitionsOf types)[handle]?.map TypeDecl.id

/-- The names of the targets are known by their handles. -/
lemma keepsViews_of_leads (leads : decl.Leads (definitionsOf types)) :
    KeepsViews aliases (resolvedName place) (staleName place (nameOfHandle types)) decl := by
  intro field listed
  cases isType : field.type with
  | primitive type => rfl
  | user reference =>
    rcases leads field listed reference isType with ⟨owner, found, named, _⟩
    rw [FieldType.alias, fieldTypeView, fieldTypeView, staleName, resolvedName, Reference.alias,
      nameOfHandle, found, Option.map_some, named]

/-- After the visits the references lead to definitions under their aliased names. -/
lemma namesAll_of_leads {typed : Reference -> TypeView}
    (proper : ∀ type ∈ definitionsOf types, type.id.Proper) (leads : AllLead (definitionsOf types))
    (shows : ShowsFlat typed store root sites)
    (renamed : sites.map Site.item = types.map (TypeDecl.alias aliases))
    (defined : .message decl ∈ definitionsOf (sites.map Site.item)) :
    store.NamesAll (keyOf sites) decl := by
  have leadsOn : AllLead (definitionsOf (sites.map Site.item)) := by
    rw [renamed, definitionsOf_alias]
    exact leads.alias aliases
  intro field listed reference isType
  refine ⟨meetsAll_of_leads shows (leadsOn decl defined) field listed reference isType, ?_⟩
  rcases leadsOn decl defined field listed reference isType with ⟨owner, found, named, _⟩
  have member := mem_of_getElem? found
  rw [renamed, definitionsOf_alias] at member
  rcases List.mem_map.mp member with ⟨old, oldListed, same⟩
  rw [← named, ← same, TypeDecl.id_alias]
  exact aliases.isBlank_applyScope (proper old oldListed)

variable {runner tableKey : Key}
  (shows : ShowsFlat (resolvedName (keyOf sites)) store root sites)
  (indexes : table.Indexes (definitionsOf (sites.map Site.item)))
  (leads : AllLead (definitionsOf (sites.map Site.item)))
  (inside : runner < store.runners.size) (isTable : (store.runner runner).table = tableKey)
  (room : tableKey < store.tables.size)
  (isFilled : store.table tableKey = table.map (keyOf sites))
  (isStage : (store.runner runner).stage = .substitute)

include indexes leads inside isTable room isFilled isStage

/-- After its visits the stage moves the entries of the symbol table and renames the
field types. -/
lemma follows_finish_substitute {middle : Store} {others : List (Site (TypeDecl Reference))}
    (shown : ShowsFlat (staleName (keyOf others) names) middle root others)
    (renamed : others.map Site.item = (sites.map Site.item).map (TypeDecl.alias aliases))
    (sameKeys : keyOf others = keyOf sites)
    (sameVisits : others.flatMap Site.visits = sites.flatMap Site.visits)
    (noted : Noted runner (notesAll (declNotes aliases (table.map (keyOf sites))) sites)
      (store.clearRunner runner) middle) : Follows (finish runner) middle
      (fun _ result after => ∃ others, others.map Site.item = result.1 ∧
        keyOf others = keyOf sites ∧ ShowsFlat (resolvedName (keyOf others)) after root others ∧
        after.table tableKey = result.2.map (keyOf others))
      (aliasNames aliases (sites.map Site.item) table) := by
  rw [notesAll_declNotes] at noted
  have current := (runner_of_equipment noted runner).trans
    (Store.runner_noting (size_clearRunner.symm ▸ inside) _)
  have filled : middle.table tableKey = table.map (keyOf sites) :=
    (table_of_equipment noted tableKey).trans isFilled
  have step : aliasNames aliases (sites.map Site.item) table =
      (table.rekey (renamesOf aliases (Scope.of (sites.map Site.item) table))).bind fun next =>
        .ok ((sites.map Site.item).map (TypeDecl.alias aliases), next) := by
    rw [aliasNames]
    cases table.rekey (renamesOf aliases (Scope.of (sites.map Site.item) table)) <;> rfl
  refine .get_bind ?_
  simp only [current, runner_clearRunner inside, Runner.cleared, Runner.noting, isStage, isTable,
    nil_append, filled, rekey_of_moves indexes]
  rw [step]
  refine (Follows.lift_map _ _ middle).bind ?_
  intro _ next _ both
  rw [both.1, both.2]
  refine .of_yields (yields_setTable middle tableKey _) ?_
  rintro _ _ rfl
  have roomMiddle : tableKey < middle.tables.size := by
    rw [show middle.tables = store.tables from congrArg Store.Equipment.tables noted]
    exact room
  have still := shown.lasts (persists_withTable middle tableKey (next.map (keyOf sites)))
  rw [← sameVisits]
  refine (yields_retype_flat still fun decl defined =>
    namesAll_of_leads indexes.proper leads still renamed defined).follows ?_
  rintro _ after ⟨retyped, equipment⟩
  refine ⟨others, renamed, sameKeys, retyped, ?_⟩
  rw [table_of_equipment equipment, Store.table_withTable roomMiddle, sameKeys]

include shows

/-- A stage with aliases gives the schema and the symbol table their aliased names,
or fails as the compilation does. -/
lemma follows_run_substitute (isAliases : store.aliasesAt (store.runner runner).aliases = aliases) :
    Follows (run runner root) store
      (fun _ result after => ∃ others, others.map Site.item = result.1 ∧
        keyOf others = keyOf sites ∧ ShowsFlat (resolvedName (keyOf others)) after root others ∧
        after.table tableKey = result.2.map (keyOf others))
      (aliasNames aliases (sites.map Site.item) table) := by
  have noTable : (store.runner runner).stage ≠ .index := by
    rw [isStage]
    decide
  have noReferences : (store.runner runner).stage ≠ .depend := by
    rw [isStage]
    decide
  refine .of_yields (yields_reset inside noTable noReferences) ?_
  rintro _ _ rfl
  have cleared := runner_clearRunner inside
  have substitutes : Substitutes aliases (table.map (keyOf sites)) runner
      (store.clearRunner runner) := by
    refine ⟨size_clearRunner.symm ▸ inside, ?_, ?_⟩
    · rw [cleared]
      exact isAliases
    · rw [cleared]
      exact (congrArg store.table isTable).trans isFilled
  have started := shows.lasts (persists_start store runner root)
  have sameKeys := keyOf_putAll (@sameLayout_aliasNames aliases (sites.map Site.item))
  have visited : Yields (visitAs runner root) (store.start runner root) fun _ after =>
      ShowsFlat (staleName (keyOf sites) (nameOfHandle (sites.map Site.item))) after root
        (putAll sites ((sites.map Site.item).map (TypeDecl.alias aliases))) ∧
      Noted runner (notesAll (declNotes aliases (table.map (keyOf sites))) sites)
        (store.start runner root) after := by
    refine .get_bind ?_
    simp only [runner_start inside root, Runner.cleared, isStage]
    exact yields_visitAlias_root (substitutes.enter root) started
      (fun decl defined => keepsViews_of_leads (leads decl defined)) (stackOf_start inside root)
      (Nat.lt_succ_of_lt started.node.lt_size)
  refine .of_yields (Yields.walk_noting substitutes.inside
    (fun _ _ persists shown => ShowsFlat.lasts persists shown) visited) ?_
  rintro _ middle ⟨shown, noted⟩
  rw [← sameKeys] at shown
  refine follows_finish_substitute indexes leads inside isTable room isFilled isStage shown ?_
    sameKeys (visits_putAll_alias sites) noted
  rw [putAll, List.map_map, zipWith_map_right, zipWith_self, List.map_map]
  rfl

end

/-! ### Moving the entries of a table -/

/-- The name of an entry after a move. -/
def movedName (renames : Name.Table String) (name : String) : String :=
  (renames.find? name).getD name

/-- The entries of a table move all at once.  This succeeds exactly if they keep different
names; then the table holds what it held, each entry under its new name, and nothing else has
changed.  Otherwise nothing has changed, and the error names an entry that moves, and its new
name, which another entry gets as well. -/
theorem entries_move_at_once {store : Store} {key : Key} (inside : key < store.tables.size)
    (apart : (store.table key).enums.names.Disjoint (store.table key).messages.names)
    (renames : Name.Table String) :
    ((∃ after, (rekeyTable key renames).run store = (.ok (), after)) ↔
      ∀ first ∈ (store.table key).keys, ∀ second ∈ (store.table key).keys,
        movedName renames first = movedName renames second -> first = second) ∧
    (∀ after, (rekeyTable key renames).run store = (.ok (), after) ->
      (store.table key).Moves (after.table key) (movedName renames) ∧
        after = store.withTable key (after.table key)) ∧
    ∀ failure after, (rekeyTable key renames).run store = (.error failure, after) ->
      after = store ∧ ∃ name, failure = .compile (.aliasedNameConflict name
        (movedName renames name)) ∧ SymbolTable.Intrudes (movedName renames)
          (store.table key).keys name := by
  have distinct : (store.table key).keys.Nodup :=
    (store.table key).enums.names_nodup.append (store.table key).messages.names_nodup apart
  cases done : (store.table key).rekey renames with
  | ok next =>
    have ran : (rekeyTable key renames).run store = (.ok (), store.withTable key next) := by
      rw [rekeyTable, run_get_bind, done]
      rfl
    have injective := inj_on_of_nodup_map ((SymbolTable.rekey_eq_ok_iff renames).mp done).1
    rw [ran]
    refine ⟨⟨fun _ _ listed _ other => injective listed other, fun _ => ⟨_, rfl⟩⟩, ?_, ?_⟩
    · intro after same
      cases same
      rw [Store.table_withTable inside]
      exact ⟨SymbolTable.moves_of_rekey done, rfl⟩
    · intro failure after same
      cases same
  | error error =>
    have ran : (rekeyTable key renames).run store = (.error (.compile error), store) := by
      rw [rekeyTable, run_get_bind, done]
      rfl
    rcases SymbolTable.intrudes_of_rekey distinct done with ⟨name, intrudes, isError⟩
    rw [ran]
    refine ⟨⟨?_, ?_⟩, ?_, ?_⟩
    · rintro ⟨after, same⟩
      cases same
    · intro injective
      rcases intrudes.shared with ⟨other, listed, differ, shared⟩
      exact absurd (injective other listed name intrudes.listed shared) differ
    · intro after same
      cases same
    · intro failure after same
      cases same
      exact ⟨rfl, name, congrArg Failure.compile isError, intrudes⟩

/-- An enum and a message swap their names. -/
theorem entries_swap_names :
    ∃ after, (rekeyTable 0 (.ofList [("A", "B"), ("B", "A")])).run
        { tables := #[⟨.ofList [("A", 1)], .ofList [("B", ⟨2, false⟩)]⟩] } = (.ok (), after) ∧
      (after.table 0).enums.find? "B" = some 1 ∧
        (after.table 0).messages.find? "A" = some ⟨2, false⟩ := by
  have moved := @entries_move_at_once { tables := #[⟨.ofList [("A", 1)],
    .ofList [("B", ⟨2, false⟩)]⟩] } 0 (by decide) (show ["A"].Disjoint ["B"] by simp)
      (.ofList [("A", "B"), ("B", "A")])
  rcases moved.1.mpr (by decide +kernel) with ⟨after, ran⟩
  have moves := (moved.2.1 after ran).1
  exact ⟨after, ran, (moves.enums _ _).mpr ⟨"A", by decide +kernel, by decide +kernel⟩,
    (moves.messages _ _).mpr ⟨"B", by decide +kernel, by decide +kernel⟩⟩

end MessageSchema.Workbench

import MessageSchema.Proofs.Compile.Renaming
import MessageSchema.Proofs.Workbench.Changes
import MessageSchema.Proofs.Workbench.Handles
import MessageSchema.Proofs.Workbench.Parts
import MessageSchema.Proofs.Workbench.Running

namespace MessageSchema.Workbench

open List

/-!
Visits that give definitions their aliased names.

Every visit renames and takes notes: which entries of the symbol table move, and
which messages were visited, in the order in which their visits end.  Field types
keep their names until all definitions have theirs.
-/

/-! ### Notes -/

variable {announced : Bool} {parents : List Identifier} {enums fields messages : List Key}
  {name : MessageName}

/-- What is noted during visits. -/
structure Notes where
  renames : List (String × String)
  messages : List Key

def Notes.append (first second : Notes) : Notes :=
  ⟨first.renames ++ second.renames, first.messages ++ second.messages⟩

/-- The stage with further notes in mind. -/
def Runner.noting (runner : Runner) (notes : Notes) : Runner :=
  { runner with
    renames := runner.renames ++ notes.renames
    messages := runner.messages ++ notes.messages }

variable {notes : Notes}

namespace Store

/-- The store with further notes in the mind of a stage. -/
def noting (store : Store) (runner : Key) (notes : Notes) : Store :=
  { store with
    runners := store.runners.setIfInBounds runner ((store.runner runner).noting notes) }

variable {store after : Store} {runner key : Key}

lemma runner_noting (inside : runner < store.runners.size) (notes : Notes) :
    (store.noting runner notes).runner runner = (store.runner runner).noting notes := by
  rw [Store.runner, Array.getD_eq_getD_getElem?, noting,
    Array.getElem?_setIfInBounds_self_of_lt inside, Option.getD_some]

lemma noting_noting (inside : runner < store.runners.size) (first second : Notes) :
    (store.noting runner first).noting runner second = store.noting runner
      (first.append second) := by
  rw [noting, runner_noting inside, noting, noting, Array.setIfInBounds_setIfInBounds,
    Runner.noting, Runner.noting, Runner.noting, List.append_assoc, List.append_assoc]
  rfl

lemma noting_nothing (store : Store) (runner : Key) : store.noting runner ⟨[], []⟩ = store := by
  rw [noting, Runner.noting, append_nil, append_nil, Store.mk.injEq]
  exact ⟨rfl, rfl, rfl, rfl, rfl, rfl, setIfInBounds_getD store.runners runner default⟩

lemma equipment_noting (same : after.equipment = store.equipment) (notes : Notes) :
    (after.noting runner notes).equipment = (store.noting runner notes).equipment := by
  have runners : after.runners = store.runners := congrArg Equipment.runners same
  rw [noting, noting, runner_of_equipment same, runners, Store.equipment, Store.equipment,
    Equipment.mk.injEq]
  exact ⟨congrArg Equipment.tables same, congrArg Equipment.references same,
    congrArg Equipment.aliases same, rfl⟩

lemma equipment_noting_leave (inside : runner < store.runners.size)
    (same : after.equipment = ((store.enter runner key).noting runner notes).equipment) :
    (after.leave runner).equipment = (store.noting runner notes).equipment := by
  have entered : runner < (store.enter runner key).runners.size := by
    rw [enter, Array.size_setIfInBounds]
    exact inside
  have current : after.runner runner = ((store.enter runner key).runner runner).noting notes := by
    rw [runner_of_equipment same, runner_noting entered]
  have runners : after.runners = ((store.enter runner key).noting runner notes).runners :=
    congrArg Equipment.runners same
  rw [leave, stackOf, current, runner_enter inside, runners, Store.equipment, Store.equipment,
    Equipment.mk.injEq]
  refine ⟨congrArg Equipment.tables same, congrArg Equipment.references same,
    congrArg Equipment.aliases same, ?_⟩
  rw [noting, noting, enter]
  simp only [Array.setIfInBounds_setIfInBounds]
  rfl

end Store

/-- The stage has taken notes, and nothing else that a compilation works with has
changed. -/
def Noted (runner : Key) (notes : Notes) (before after : Store) : Prop :=
  after.equipment = (before.noting runner notes).equipment

/-- The stage has aliases and a symbol table to work with. -/
structure Substitutes (aliases : Aliases) (table : SymbolTable Key) (runner : Key) (store : Store) :
    Prop where
  inside : runner < store.runners.size
  aliases : store.aliasesAt (store.runner runner).aliases = aliases
  table : store.table (store.runner runner).table = table

section
variable {aliases : Aliases} {table : SymbolTable Key} {runner key : Key}
  {store before middle after : Store}

lemma Noted.of_equipment (same : after.equipment = before.equipment) :
    Noted runner ⟨[], []⟩ before after := by
  rw [Noted, Store.noting_nothing, same]

lemma Noted.trans {further : Notes} (inside : runner < before.runners.size)
    (first : Noted runner notes before middle) (second : Noted runner further middle after) :
    Noted runner (notes.append further) before after := by
  rw [Noted, second, Store.equipment_noting first, Store.noting_noting inside]

lemma Substitutes.noted (substitutes : Substitutes aliases table runner before)
    (noted : Noted runner notes before after) : Substitutes aliases table runner after := by
  have current : after.runner runner = (before.runner runner).noting notes := by
    rw [runner_of_equipment noted, Store.runner_noting substitutes.inside]
  refine ⟨?_, ?_, ?_⟩
  · rw [size_runners_of_equipment noted, Store.noting, Array.size_setIfInBounds]
    exact substitutes.inside
  · rw [current, aliasesAt_of_equipment noted]
    exact substitutes.aliases
  · rw [current, table_of_equipment noted]
    exact substitutes.table

lemma Substitutes.enter (substitutes : Substitutes aliases table runner store) (key : Key) :
    Substitutes aliases table runner (store.enter runner key) := by
  refine ⟨?_, ?_, ?_⟩
  · rw [Store.enter, Array.size_setIfInBounds]
    exact substitutes.inside
  · rw [runner_enter substitutes.inside]
    exact substitutes.aliases
  · rw [runner_enter substitutes.inside]
    exact substitutes.table

lemma Yields.walk_noting {visit : Key -> Work Unit} {post : Store -> Prop}
    (inside : runner < store.runners.size)
    (lasting : ∀ before after, Persists nowhere nowhere before after -> post before -> post after)
    (visited : Yields (visit key) (store.enter runner key) fun _ after =>
      post after ∧ Noted runner notes (store.enter runner key) after) :
    Yields (Workbench.walk runner visit key) store fun _ after =>
      post after ∧ Noted runner notes store after := by
  refine .walk (visited.mono ?_)
  intro _ after done
  exact ⟨lasting after _ (persists_leave after runner) done.1,
    Store.equipment_noting_leave inside done.2⟩

end

/-! ### What is noted -/

/-- The entry of the symbol table moves to the aliased name of a definition, if it
is the definition's own. -/
def movesOf (aliases : Aliases) (table : SymbolTable Key) (key : Key) (name : Identifier) :
    List (String × String) :=
  if (table.find? name.text).map Symbol.handle = some key then
    [(name.text, (aliases.applyScope name).text)]
  else []

section
open MessageSchema (Message)
variable {ρ : Type}

mutual

/-- The keys of a message and of those in it, in the order in which visits end. -/
def messageVisits (start : Nat) : Message ρ -> List Key
  | .external _ => [start]
  | .defined _ _ enums messages fields =>
    messageVisitsAll (start + nodesOf enums) messages ++
      [start + nodesOf enums + nodesOf messages + nodesOf fields]

def messageVisitsAll (start : Nat) : List (Message ρ) -> List Key
  | [] => []
  | message :: rest =>
    messageVisits start message ++ messageVisitsAll (start + Extent.nodes message) rest

end

lemma messageVisitsAll_eq_flatMap (messages : List (Message ρ)) (start typeStart : Nat) :
    messageVisitsAll start messages = (sitesFrom start typeStart messages).flatMap fun site =>
        messageVisits site.start site.item := by
  induction messages generalizing start typeStart with
  | nil => rfl
  | cons message rest ih => rw [messageVisitsAll, sitesFrom, flatMap_cons, ih]

def Site.visits (site : Site (TypeDecl ρ)) : List Key :=
  match site.item with
  | .enum _ => []
  | .message decl => messageVisits site.start decl

/-- What is noted on the visits to the sites of a list. -/
def notesAll {α : Type} (notes : Site α -> Notes) (sites : List (Site α)) : Notes :=
  ⟨sites.flatMap fun site => (notes site).renames, sites.flatMap fun site => (notes site).messages⟩

section
variable (aliases : Aliases) (table : SymbolTable Key)

def Site.moves (site : Site (TypeDecl ρ)) : List (String × String) :=
  movesOf aliases table site.key site.item.id

def enumNotes (site : Site EnumDecl) : Notes :=
  ⟨movesOf aliases table site.key site.item.name, []⟩

def messageNotes (site : Site (Message ρ)) : Notes :=
  ⟨(messageSites site.start site.typeStart site.item).flatMap (Site.moves aliases table),
    messageVisits site.start site.item⟩

def declNotes (site : Site (TypeDecl ρ)) : Notes :=
  ⟨site.definitions.flatMap (Site.moves aliases table), site.visits⟩

variable {start typeStart : Nat} {name : MessageName} {parents : List Identifier}
  {enums : List EnumDecl} {messages : List (Message ρ)} {fields : List (Field ρ)}

lemma key_message_defined {messages : List (Message ρ)} {fields : List (Field ρ)} :
    Site.key ⟨start, typeStart, TypeDecl.message (.defined name parents enums messages fields)⟩ =
      start + nodesOf enums + nodesOf messages + nodesOf fields :=
  @key_defined ρ start typeStart name parents enums messages fields

/-- A message is noted at the beginning of its visit for its entry, and at the end
for its fields. -/
lemma messageNotes_defined :
    messageNotes aliases table ⟨start, typeStart, .defined name parents enums messages fields⟩ =
      (((⟨movesOf aliases table (placesFrom start typeStart enums messages fields).own
          name.current, []⟩ : Notes).append
        (notesAll (enumNotes aliases table) (sitesFrom start typeStart enums))).append
        (notesAll (messageNotes aliases table)
          (sitesFrom (start + nodesOf enums) typeStart messages))).append
        ⟨[], [(placesFrom start typeStart enums messages fields).own]⟩ := by
  have own : Site.moves aliases table
      ⟨start, typeStart, .message (.defined name parents enums messages fields)⟩ =
      movesOf aliases table (placesFrom start typeStart enums messages fields).own
        name.current := by
    rw [Site.moves, key_message_defined]
    rfl
  have noneIn : ((sitesFrom start typeStart enums).flatMap fun _ => ([] : List Key)) = [] :=
    List.flatMap_eq_nil_iff.mpr fun _ _ => rfl
  rw [messageNotes, messageSites_defined, messageVisits, messageVisitsAll_eq_flatMap _ _ typeStart]
  simp only [Notes.append, notesAll, enumNotes, flatMap_cons, flatMap_append, own,
    flatMap_map, flatMap_assoc, List.append_assoc, append_nil, nil_append,
    noneIn]
  rfl

end

end

/-! ### Visits to several definitions -/

section
variable {α : Type} [Extent α] {aliases : Aliases} {table : SymbolTable Key} {runner : Key}
  {shows shown : Store -> Site α -> Prop} {visit : Key -> Work Unit} {store : Store}
  {notes : Site α -> Notes} {change : α -> α}

/-- A visit to a site gives what is defined there its aliased names, and takes
notes. -/
def AliasesAt (aliases : Aliases) (table : SymbolTable Key) (runner : Key)
    (shows shown : Store -> Site α -> Prop) (visit : Key -> Work Unit) (change : α -> α)
    (notes : Site α -> Notes) (site : Site α) : Prop :=
  ∀ store, Substitutes aliases table runner store -> shows store site ->
    Yields (visit site.key) store fun _ after =>
      (Replaces shown after site (change site.item) ∧
        Persists site.Covers site.CoversType store after) ∧ Noted runner (notes site) store after

/-- Definitions apart from each other are visited one after the other. -/
lemma yields_forM_aliasing {sites : List (Site α)} (lasting : Lasting shows)
    (lastingShown : Lasting shown) (apart : sites.Pairwise Site.Apart) (visited : ∀ site ∈ sites,
      AliasesAt aliases table runner shows shown visit change notes site)
    (substitutes : Substitutes aliases table runner store)
    (shows_sites : ∀ site ∈ sites, shows store site) :
    Yields ((sites.map Site.key).forM (walk runner visit)) store fun _ after =>
      Become shown after sites ((sites.map Site.item).map change) ∧
        Persists (Covered sites) (CoveredTypes sites) store after ∧
        Noted runner (notesAll notes sites) store after := by
  have all : Follows (sites.forM fun site => walk runner visit site.key) store _
      ((sites.map Site.item).mapM fun item => pure (change item)) :=
    follows_forM_sites (fun rest middle => Substitutes aliases table runner middle ∧
      (middle.noting runner (notesAll notes rest)).equipment =
        (store.noting runner (notesAll notes sites)).equipment)
      lasting lastingShown apart ?_ ⟨substitutes, rfl⟩ shows_sites
  · rw [mapM_pure] at all
    rw [forM_eq_forM, forM_map]
    refine all.yields.mono ?_
    rintro _ after ⟨become, persists, _, same⟩
    refine ⟨become, persists, ?_⟩
    rw [Noted, ← same]
    exact (Noted.of_equipment rfl : Noted runner ⟨[], []⟩ after after)
  · rintro site listed rest middle ⟨substitutes, same⟩ showsSite
    have entered := persists_enter middle runner site.key
    refine (Yields.walk_noting substitutes.inside ?_ (visited site listed _
      (substitutes.enter site.key) (lasting.lasts entered showsSite))).follows ?_
    · rintro before after left ⟨replaces, persists⟩
      exact ⟨lastingShown.replaces _ _ _ left replaces, persists.trans left.anywhere⟩
    · rintro _ after ⟨⟨replaces, persists⟩, noted⟩
      refine ⟨replaces, entered.anywhere.trans persists, substitutes.noted noted, ?_⟩
      rw [← same, Store.equipment_noting noted, Store.noting_noting substitutes.inside]
      rfl

lemma yields_row_aliasing {start typeStart : Nat} {items : List α} (lasting : Lasting shows)
    (lastingShown : Lasting shown) (visited : ∀ site ∈ sitesFrom start typeStart items,
      AliasesAt aliases table runner shows shown visit change notes site)
    (substitutes : Substitutes aliases table runner store)
    (shows_sites : ∀ site ∈ sitesFrom start typeStart items, shows store site) :
    Yields ((keysFrom start items).forM (walk runner visit)) store fun _ after =>
      BecomeRow shown after start typeStart items (items.map change) ∧
        Persists (Stretch start (start + nodesOf items))
          (Stretch typeStart (typeStart + typesOf items)) store after ∧
        Noted runner (notesAll notes (sitesFrom start typeStart items)) store after := by
  rw [← map_key_sitesFrom items start typeStart]
  refine (yields_forM_aliasing lasting lastingShown (apart_sitesFrom items start typeStart) visited
    substitutes shows_sites).mono ?_
  rintro _ after ⟨become, persists, noted⟩
  rw [map_item_sitesFrom] at become
  exact ⟨become.row, persists.mono (fun _ => stretch_of_covered)
    (fun _ => stretch_of_coveredTypes), noted⟩

end

/-! ### One definition -/

section
variable {aliases : Aliases} {table : SymbolTable Key} {runner key : Key} {store : Store}

lemma persists_noting (store : Store) (runner : Key) (notes : Notes) :
    Persists nowhere nowhere store (store.noting runner notes) :=
  .of_equipment rfl rfl rfl

lemma yields_noteRenames (renames : List (String × String)) :
    Yields (changeRunner runner fun stage => { stage with renames := stage.renames ++ renames })
      store fun _ after => after = store.noting runner ⟨renames, []⟩ := by
  refine (yields_changeRunner _).mono ?_
  rintro _ _ rfl
  rw [Store.noting, Runner.noting, append_nil]

lemma yields_noteMessages (messages : List Key) :
    Yields (changeRunner runner fun stage => { stage with messages := stage.messages ++ messages })
      store fun _ after => after = store.noting runner ⟨[], messages⟩ := by
  refine (yields_changeRunner _).mono ?_
  rintro _ _ rfl
  rw [Store.noting, Runner.noting, append_nil]

variable {view : NodeView} {depth start typeStart : Nat}

lemma yields_putName (shows : store.Shows key view) (named : view.name.isSome) (name : Identifier) :
    Yields (newName name >>= fun place => renameDefinition key (some place)) store fun _ after =>
      after.Shows key (view.withName (some name)) ∧ Alters (· = key) nowhere store after := by
  refine (yields_newName name store).bind ?_
  rintro place middle ⟨found, added⟩
  refine (yields_renameDefinition (added.shows key _ id shows) named found).mono ?_
  rintro _ after ⟨shown, alters⟩
  exact ⟨shown, added.anywhere.trans alters⟩

/-- A definition gets its aliased name, and what becomes of its entry is noted. -/
lemma yields_aliasDefinition {name : Identifier}
    (substitutes : Substitutes aliases table runner store) (shows : store.Shows key view)
    (named : view.name = some name) : Yields (aliasDefinition runner key) store fun _ after =>
      after.Shows key (view.withName (some (aliases.applyScope name))) ∧
        Persists (· = key) nowhere store after ∧
        Noted runner ⟨movesOf aliases table key name, []⟩ store after := by
  have isName : store.id key = some name := by
    rw [shows.id, named]
  have text : store.idText key = name.text := by
    rw [Store.idText, isName]
    rfl
  have hasName : view.name.isSome := by
    rw [named]
    rfl
  rw [movesOf]
  refine .get_bind ?_
  simp only [substitutes.aliases, substitutes.table, isName, text, Option.getD_some, beq_iff_eq]
  by_cases owns : (table.find? name.text).map Symbol.handle = some key
  · rw [if_pos owns, if_pos owns]
    refine (yields_noteRenames _).bind ?_
    rintro _ _ rfl
    have noted := persists_noting store runner ⟨[(name.text, (aliases.applyScope name).text)], []⟩
    refine (yields_putName (noted.shows key view id shows) hasName (aliases.applyScope name)).mono
      ?_
    rintro _ after ⟨shown, alters⟩
    exact ⟨shown, noted.anywhere.trans alters.toPersists, alters.equipment⟩
  · rw [if_neg owns, if_neg owns]
    refine (yields_putName shows hasName (aliases.applyScope name)).mono ?_
    rintro _ after ⟨shown, alters⟩
    exact ⟨shown, alters.toPersists, Noted.of_equipment alters.equipment⟩

lemma aliasesAt_enum {site : Site EnumDecl} (deep : site.key < depth) :
    AliasesAt aliases table runner ShowsEnum ShowsEnum (visitAlias runner depth)
      (EnumDecl.alias aliases) (enumNotes aliases table) site := by
  intro store substitutes shows
  cases depth with
  | zero => omega
  | succ depth =>
    rcases shows.enum with ⟨node, isEnum, _⟩
    rw [visitAlias]
    refine .get_bind ?_
    rw [key_enum, isEnum]
    refine (yields_aliasDefinition substitutes shows rfl).mono ?_
    rintro _ after ⟨shown, persists, noted⟩
    exact ⟨⟨⟨shown, rfl, rfl⟩, persists.mono (fun key same => same ▸ site.covers_key)
      fun _ => False.elim⟩, noted⟩

/-- The parents of a message get their aliased names one after the other. -/
lemma yields_aliasParents {aliasesKey : Key} {name declared : Option Identifier}
    (done : List Identifier) {remaining : List Identifier} {keys : List (Option Key)}
    (isAliases : store.aliasesAt aliasesKey = aliases)
    (shows : store.Shows key (.message name announced declared
      (done.map some ++ remaining.map some) enums messages fields))
    (holds : store.HoldsNames keys) (read : keys.map store.name? = remaining.map some) :
    Yields (aliasParents aliasesKey key done.length keys) store fun _ after =>
      after.Shows key (.message name announced declared
        ((done ++ remaining.map aliases.applyScope).map some) enums messages fields) ∧
      Alters (· = key) nowhere store after := by
  induction remaining generalizing store keys done with
  | nil =>
    cases List.map_eq_nil_iff.mp read
    refine .pure ⟨?_, Alters.refl _ _ store⟩
    rw [map_append]
    exact shows
  | cons parent rest ih =>
    rcases List.map_eq_cons_iff.mp read with ⟨parentKey, others, same, isParent, readRest⟩
    subst same
    rw [aliasParents]
    refine .get_bind ?_
    simp only [isParent, isAliases, Option.getD_some]
    rw [← bind_assoc]
    refine (yields_putParent shows (aliases.applyScope parent)).bind ?_
    rintro _ middle ⟨shown, first⟩
    have held : store.HoldsNames others := fun name listed =>
      holds name (mem_cons_of_mem _ listed)
    have isAliasesMiddle : middle.aliasesAt aliasesKey = aliases := by
      rw [aliasesAt_of_equipment first.equipment]
      exact isAliases
    have later := ih (done ++ [aliases.applyScope parent]) isAliasesMiddle shown
      (held.kept first.names) ((held.map_name?_eq first.names).trans readRest)
    rw [length_append, length_singleton] at later
    refine later.mono ?_
    rintro _ after ⟨shownAfter, second⟩
    rw [List.append_assoc] at shownAfter
    exact ⟨shownAfter, first.trans second⟩

/-- A message itself gets its aliased name, and its parents get theirs. -/
lemma yields_aliasOwn {parentKeys : List (Option Key)} {next : Work Unit}
    {last : Unit -> Store -> Prop} (substitutes : Substitutes aliases table runner store)
    (shows : store.Shows key (.message (some name.current) announced name.declared
      (parents.map some) enums messages fields)) (holds : store.HoldsNames parentKeys)
    (read : parentKeys.map store.name? = parents.map some)
    (rest : ∀ after, after.Shows key (.message (some (name.alias aliases).current) announced
      (name.alias aliases).declared ((parents.map aliases.applyScope).map some) enums messages
      fields) -> Persists (· = key) nowhere store after ->
      Noted runner ⟨movesOf aliases table key name.current, []⟩ store after ->
      Yields next after last) : Yields (do
        keepDeclaredName key
        aliasDefinition runner key
        aliasParents (store.runner runner).aliases key 0 parentKeys
        next) store last := by
  have declared : name.declared.or (some name.current) = (name.alias aliases).declared := by
    rcases name with ⟨current, _ | declared⟩ <;> rfl
  refine (yields_keepDeclaredName shows).bind ?_
  rintro _ first ⟨shownFirst, kept⟩
  have unnoted : Noted runner ⟨[], []⟩ store first := Noted.of_equipment kept.equipment
  refine (yields_aliasDefinition (substitutes.noted unnoted) shownFirst rfl).bind ?_
  rintro _ second ⟨shownSecond, persists, noted⟩
  have toSecond := kept.toPersists.trans persists
  have isAliases : second.aliasesAt (store.runner runner).aliases = aliases := by
    rw [aliasesAt_of_equipment noted]
    change first.aliasesAt (store.runner runner).aliases = aliases
    rw [aliasesAt_of_equipment kept.equipment]
    exact substitutes.aliases
  refine (yields_aliasParents [] isAliases shownSecond (holds.kept toSecond.names)
    ((holds.map_name?_eq toSecond.names).trans read)).bind ?_
  rintro _ third ⟨shownThird, parentsAliased⟩
  rw [declared, nil_append] at shownThird
  refine rest third shownThird (toSecond.trans parentsAliased.toPersists) ?_
  rw [Noted, parentsAliased.equipment]
  exact unnoted.trans substitutes.inside noted

open MessageSchema (Message)
variable {typed other : Reference -> TypeView}

/-- The field types of a message keep their views when they get their aliased names. -/
def KeepsViews (aliases : Aliases) (typed other : Reference -> TypeView)
    (message : Message Reference) : Prop :=
  ∀ field ∈ message.fields, fieldTypeView other (field.type.alias aliases) =
    fieldTypeView typed field.type

lemma sameLayout_alias (message : Message Reference) :
    SameLayout message (message.alias aliases) := by
  induction message using Message.nestedInduction with
  | external name =>
    rw [Message.alias]
    exact .external name _
  | defined name parents enums messages fields ih =>
    rw [Message.alias, Message.aliasAll_eq_map]
    refine .defined (length_map _) ?_ (length_map _)
    rw [forall₂_map_right_iff, forall₂_same]
    exact ih

lemma sameLayout_aliasNames (types : List (TypeDecl Reference)) :
    List.Forall₂ SameDeclLayout types (types.map (TypeDecl.alias aliases)) := by
  rw [forall₂_map_right_iff, forall₂_same]
  rintro (decl | decl) _
  · exact .enum decl _
  · exact .message (sameLayout_alias decl)

/-- A message gets its aliased name, and then its enums and messages get theirs. -/
lemma yields_visitAlias_parts {places : Places}
    {enums : List EnumDecl} {messages : List (Message Reference)} {fields : List (Field Reference)}
    (substitutes : Substitutes aliases table runner store)
    (parts : Parts (ShowsMessage typed) (ShowsField typed) store store places enums messages fields
      (places.view name (parents.map some) enums messages fields))
    (keeps : ∀ field ∈ fields, fieldTypeView other (field.type.alias aliases) =
      fieldTypeView typed field.type)
    (nested : ∀ site ∈ sitesFrom places.messages places.types messages,
      AliasesAt aliases table runner (ShowsMessage typed) (ShowsMessage other)
        (visitAlias runner depth) (Message.alias aliases) (messageNotes aliases table) site)
    (deep : places.own <= depth) :
    Yields (visitAlias runner (depth + 1) places.own) store fun _ after =>
      Parts (ShowsMessage other) (ShowsField other) store after places
        (enums.map (EnumDecl.alias aliases)) (messages.map (Message.alias aliases))
        (fields.map (Field.alias aliases))
        (places.view (name.alias aliases) ((parents.map aliases.applyScope).map some)
          (enums.map (EnumDecl.alias aliases)) (messages.map (Message.alias aliases))
          (fields.map (Field.alias aliases))) ∧
      Noted runner ((((⟨movesOf aliases table places.own name.current, []⟩ : Notes).append
        (notesAll (enumNotes aliases table) (sitesFrom places.enums places.types enums))).append
        (notesAll (messageNotes aliases table)
          (sitesFrom places.messages places.types messages))).append ⟨[], [places.own]⟩)
        store after := by
  rcases parts.fill with ⟨_, atFields, atOwn, _, _⟩
  have holds := parts.node.holdsNames
  rcases parts.node.message with ⟨nameKey, parentKeys, isMessage, _, read⟩
  rw [isMessage] at holds
  rw [visitAlias]
  refine .get_bind ?_
  simp only [isMessage]
  refine yields_aliasOwn substitutes parts.node
    (fun name listed => holds name (mem_cons_of_mem _ listed)) read ?_
  intro first shownNode ownPersists notedOwn
  replace parts := parts.after_node lasting_showsMessage lasting_showsField shownNode ownPersists
  -- the enums
  have substitutesFirst := substitutes.noted notedOwn
  have enumsVisited : ∀ site ∈ sitesFrom places.enums places.types enums,
      AliasesAt aliases table runner ShowsEnum ShowsEnum (visitAlias runner depth)
        (EnumDecl.alias aliases) (enumNotes aliases table) site := by
    intro site listed
    have below := key_lt_of_mem_sitesFrom listed
    exact aliasesAt_enum (by omega)
  refine (yields_row_aliasing lasting_showsEnum lasting_showsEnum enumsVisited substitutesFirst
    parts.ownEnums).bind ?_
  rintro _ second ⟨⟨enumsShown, sameEnums⟩, enumsPersist, notedEnums⟩
  replace parts := parts.after_enums lasting_showsMessage lasting_showsField enumsShown sameEnums
    enumsPersist
  -- the messages
  refine (yields_row_aliasing lasting_showsMessage lasting_showsMessage nested
    (substitutesFirst.noted notedEnums) parts.ownMessages).bind ?_
  rintro _ third ⟨⟨messagesShown, sameMessages⟩, messagesPersist, notedMessages⟩
  replace parts := parts.after_messages lasting_showsField messagesShown sameMessages
    messagesPersist
  -- the fields keep their types for now
  have sameFields : ∀ field ∈ fields, SameExtent field (field.alias aliases) :=
    fun _ _ => ⟨rfl, rfl⟩
  have fieldsShown : ∀ site ∈ sitesFrom places.fields places.fieldTypes
      (fields.map (Field.alias aliases)), ShowsField other third site := by
    rw [sitesFrom_map sameFields, forall_mem_map]
    intro site listed
    refine ⟨(parts.ownFields site listed).node, ?_⟩
    have shown := (parts.ownFields site listed).type
    rw [← keeps site.item (item_mem_of_mem_sitesFrom listed)] at shown
    exact shown
  replace parts := parts.after_fields lasting_showsMessage fieldsShown
    ⟨nodesOf_map sameFields, typesOf_map sameFields, keysFrom_map sameFields _⟩
    (Persists.refl _ _ third)
  -- the visit is noted
  refine (yields_noteMessages [places.own]).mono ?_
  rintro _ _ rfl
  have notedOnce := persists_noting third runner ⟨[], [places.own]⟩
  refine ⟨?_, ((notedOwn.trans substitutes.inside notedEnums).trans substitutes.inside
    notedMessages).trans substitutes.inside rfl⟩
  rw [Places.view, sameEnums.keys, sameMessages.keys, keysFrom_map sameFields]
  exact parts.after_node lasting_showsMessage lasting_showsField
    (notedOnce.shows _ _ id parts.node) notedOnce.anywhere

/-- A message gets its aliased name, and so does everything in it. -/
lemma aliasesAt_message {message : Message Reference}
    (deep : Site.key ⟨start, typeStart, message⟩ < depth)
    (keeps : ∀ decl, .message decl ∈ message.definitions -> KeepsViews aliases typed other decl) :
    AliasesAt aliases table runner (ShowsMessage typed) (ShowsMessage other)
      (visitAlias runner depth) (Message.alias aliases) (messageNotes aliases table)
      ⟨start, typeStart, message⟩ := by
  induction message using Message.nestedInduction generalizing start typeStart depth with
  | external name =>
    intro store substitutes shows
    cases depth with
    | zero => omega
    | succ depth =>
      cases shows with
      | external node =>
      rcases node.message with ⟨nameKey, parentKeys, isMessage, _, read⟩
      cases List.map_eq_nil_iff.mp read
      rw [visitAlias]
      refine .get_bind ?_
      rw [key_external, isMessage, Message.alias]
      have own : store.Shows start (.message (some name.current) true name.declared
          (([] : List Identifier).map some) [] [] []) := node
      refine yields_aliasOwn substitutes own (fun _ listed => absurd listed not_mem_nil) rfl ?_
      intro middle shown persists noted
      refine (yields_noteMessages [start]).mono ?_
      rintro _ _ rfl
      have notedOnce := persists_noting middle runner ⟨[], [start]⟩
      refine ⟨⟨⟨.external (notedOnce.shows _ _ id shown), rfl, rfl⟩, ?_⟩,
        noted.trans substitutes.inside rfl⟩
      exact (persists.mono (fun key same => same ▸ Site.covers_key _)
        fun _ => False.elim).trans notedOnce.anywhere
  | defined name parents enums messages fields ih =>
    intro store substitutes shows
    cases depth with
    | zero => omega
    | succ depth =>
      have parts := shows.parts
      rw [Message.definitions_defined] at keeps
      rw [key_placesFrom] at deep
      rw [covers_defined, coversType_defined, key_placesFrom, messageNotes_defined]
      refine (yields_visitAlias_parts substitutes parts (keeps _ mem_cons_self) ?_
        (Nat.le_of_lt_succ deep)).mono ?_
      · intro site listed
        rcases parts.fill with ⟨_, atFields, atOwn, _, _⟩
        have below := key_lt_of_mem_sitesFrom listed
        have member := item_mem_of_mem_sitesFrom listed
        refine ih site.item member (show site.key < depth by omega) fun decl inside => ?_
        exact keeps decl (mem_cons_of_mem _ (mem_append_right _
          (List.mem_flatMap.mpr ⟨site.item, member, inside⟩)))
      · rintro _ after ⟨done, noted⟩
        refine ⟨⟨⟨?_, (sameLayout_alias _).extent⟩, done.persists⟩, noted⟩
        rw [Message.alias, Message.aliasAll_eq_map]
        exact done.showsMessage

lemma aliasesAt_decl {site : Site (TypeDecl Reference)} (deep : site.key < depth)
    (keeps : ∀ decl, .message decl ∈ site.item.definitions -> KeepsViews aliases typed other decl) :
    AliasesAt aliases table runner (ShowsDecl typed) (ShowsDecl other) (visitAlias runner depth)
      (TypeDecl.alias aliases) (declNotes aliases table) site := by
  intro store substitutes shows
  cases shows with
  | enum shows =>
    refine (aliasesAt_enum deep store substitutes shows).mono ?_
    rintro _ after ⟨⟨⟨shown, same⟩, persists⟩, noted⟩
    refine ⟨⟨⟨.enum shown, same.nodes, same.types⟩, persists⟩, ?_⟩
    rw [declNotes, Site.definitions, flatMap_singleton]
    exact noted
  | message shows =>
    refine (aliasesAt_message deep keeps store substitutes shows).mono ?_
    rintro _ after ⟨⟨⟨shown, same⟩, persists⟩, noted⟩
    exact ⟨⟨⟨.message shown, same.nodes, same.types⟩, persists⟩, noted⟩

lemma yields_visitAlias_root {root : Nat} {sites : List (Site (TypeDecl Reference))}
    (substitutes : Substitutes aliases table runner store)
    (shows : ShowsFlat typed store root sites)
    (keeps : ∀ decl, .message decl ∈ definitionsOf (sites.map Site.item) ->
      KeepsViews aliases typed other decl)
    (stacked : store.stackOf runner = [root]) (deep : root < depth) :
    Yields (visitAlias runner depth root) store fun _ after =>
      ShowsFlat other after root
        (putAll sites ((sites.map Site.item).map (TypeDecl.alias aliases))) ∧
      Noted runner (notesAll (declNotes aliases table) sites) store after := by
  cases depth with
  | zero => omega
  | succ depth =>
    rcases shows.node.scope with ⟨nameKey, isScope, _⟩
    rw [visitAlias]
    refine .get_bind ?_
    simp only [isScope]
    refine (yields_checkFlat .substitute shows.node stacked).bind ?_
    intro _ after same
    rw [same]
    have visited : ∀ site ∈ sites, AliasesAt aliases table runner (ShowsDecl typed)
        (ShowsDecl other) (visitAlias runner depth) (TypeDecl.alias aliases)
        (declNotes aliases table) site := by
      intro site listed
      have below := shows.below site listed
      have covered := site.covers_key.2
      refine aliasesAt_decl (by omega) fun decl inside => keeps decl ?_
      exact List.mem_flatMap.mpr ⟨site.item, mem_map_of_mem listed, inside⟩
    refine (yields_forM_aliasing lasting_showsDecl lasting_showsDecl shows.apart visited substitutes
      shows.types).mono ?_
    rintro _ last ⟨become, persists, noted⟩
    refine ⟨shows.become become (persists.shows _ _ ?_ shows.node), noted⟩
    rintro ⟨site, listed, covers⟩
    exact Nat.not_lt.mpr (shows.below site listed) covers.2

end

end MessageSchema.Workbench

import MessageSchema.Proofs.Compile.Handles
import MessageSchema.Proofs.Workbench.Handles
import MessageSchema.Proofs.Workbench.Running

namespace MessageSchema.Workbench

open List

/-!
Entering a schema in a symbol table on the workbench.

The stage changes nothing but the table.  It enters the definitions in the same
order as the compilation, with keys in place of handles, so the table is that of the
schema under a change of handles.  Both fail at the same definition.
-/

namespace Store

/-- The store with another symbol table under a key. -/
def withTable (store : Store) (key : Key) (table : SymbolTable Key) : Store :=
  { store with tables := store.tables.setIfInBounds key table }

lemma table_withTable {store : Store} {key : Key} (room : key < store.tables.size)
    (table : SymbolTable Key) : (store.withTable key table).table key = table := by
  rw [Store.table, withTable, Array.getD_eq_getD_getElem?,
    Array.getElem?_setIfInBounds_self_of_lt room, Option.getD_some]

lemma withTable_withTable (store : Store) (key : Key) (first second : SymbolTable Key) :
    (store.withTable key first).withTable key second = store.withTable key second := by
  rw [withTable, withTable, withTable, Array.setIfInBounds_setIfInBounds]

lemma leave_withTable (store : Store) (runner key place : Key) (table : SymbolTable Key) :
    ((store.enter runner key).withTable place table).leave runner =
      store.withTable place table := by
  have back : (((store.enter runner key).withTable place table).leave runner).runners =
      store.runners := runners_leave rfl
  rw [Store.leave] at back ⊢
  rw [withTable, mk.injEq]
  exact ⟨rfl, rfl, rfl, rfl, rfl, rfl, back⟩

end Store

lemma yields_setTable (store : Store) (key : Key) (table : SymbolTable Key) :
    Yields (setTable key table) store fun _ after => after = store.withTable key table :=
  ⟨(), _, rfl, rfl⟩

lemma persists_withTable (store : Store) (key : Key) (table : SymbolTable Key) :
    Persists nowhere nowhere store (store.withTable key table) :=
  .of_equipment rfl rfl rfl

section
variable {ρ : Type}

/-- The handles from a number on stand for the places of these sites, one after the
other. -/
def Counts (place : Nat -> Nat) (handle : Nat) (sites : List (Site (TypeDecl ρ))) : Prop :=
  ∀ index site, sites[index]? = some site -> place (handle + index) = site.key

variable {handle : Nat} {place : Nat -> Nat}

lemma Counts.head {site : Site (TypeDecl ρ)} {rest : List (Site (TypeDecl ρ))}
    (counts : Counts place handle (site :: rest)) : place handle = site.key :=
  counts 0 site rfl

lemma Counts.tail {site : Site (TypeDecl ρ)} {rest : List (Site (TypeDecl ρ))}
    (counts : Counts place handle (site :: rest)) : Counts place (handle + 1) rest := by
  intro index other listed
  rw [Nat.add_assoc, Nat.add_comm 1 index]
  exact counts (index + 1) other listed

lemma Counts.left {first second : List (Site (TypeDecl ρ))}
    (counts : Counts place handle (first ++ second)) : Counts place handle first := by
  intro index site listed
  refine counts index site ?_
  rw [getElem?_append_left (List.getElem?_eq_some_iff.mp listed).1]
  exact listed

lemma Counts.right {first second : List (Site (TypeDecl ρ))}
    (counts : Counts place handle (first ++ second)) :
    Counts place (handle + first.length) second := by
  intro index site listed
  rw [Nat.add_assoc]
  refine counts (first.length + index) site ?_
  rw [getElem?_append_right (Nat.le_add_right _ _), Nat.add_sub_cancel_left]
  exact listed

lemma counts_keyOf (sites : List (Site (TypeDecl ρ))) :
    Counts (keyOf sites) 0 (definitionSites sites) := by
  intro index site listed
  rw [Nat.zero_add, keyOf, getD_eq_getElem?_getD, getElem?_map, listed]
  rfl

lemma addDefinitions_append (table : SymbolTable Nat) (handle : Nat)
    (first second : List (TypeDecl ρ)) : table.addDefinitions handle (first ++ second) =
      (table.addDefinitions handle first).bind fun next =>
        next.addDefinitions (handle + first.length) second := by
  induction first generalizing table handle with
  | nil => rfl
  | cons definition rest ih =>
    rw [cons_append, SymbolTable.addDefinitions, SymbolTable.addDefinitions]
    cases table.addDefinition handle definition with
    | error error => rfl
    | ok next =>
      simp only
      rw [ih, length_cons, Nat.add_assoc, Nat.add_comm 1]

lemma addDefinitions_cons (table : SymbolTable Nat) (handle : Nat) (definition : TypeDecl ρ)
    (rest : List (TypeDecl ρ)) : table.addDefinitions handle (definition :: rest) =
      (table.addDefinition handle definition).bind fun next =>
        next.addDefinitions (handle + 1) rest := by
  rw [SymbolTable.addDefinitions]
  cases table.addDefinition handle definition <;> rfl

end

lemma bind_map {ε α β γ : Type} (step : Except ε α) (change : α -> β) (later : β -> Except ε γ) :
    (step.map change).bind later = step.bind fun value => later (change value) := by
  cases step <;> rfl

lemma map_map {ε α β γ : Type} (step : Except ε α) (first : α -> β) (second : β -> γ) :
    (step.map first).map second = step.map fun value => second (first value) := by
  cases step <;> rfl

/-- An action enters definitions in the symbol table under a key, and changes nothing else.
Handles count from the given one, each with its place. -/
def Enters {ρ : Type} (place : Nat -> Nat) (key : Key) (action : Work Unit) (store : Store)
    (sites : List (Site (TypeDecl ρ))) : Prop :=
  ∀ (table : SymbolTable Nat) (handle : Nat), Counts place handle sites ->
    Follows action (store.withTable key (table.map place))
      (fun _ next after => after = store.withTable key (next.map place))
      (table.addDefinitions handle (sites.map Site.item))

section
open MessageSchema (Message)
variable {ρ : Type} {typed : ρ -> TypeView} {place : Nat -> Nat} {store : Store}
  {runner tableKey : Key} {depth : Nat}

lemma Enters.append {action : Work Unit} {next : Work Unit}
    {first second : List (Site (TypeDecl ρ))} (enters : Enters place tableKey action store first)
    (rest : Enters place tableKey next store second) :
    Enters place tableKey (action >>= fun _ => next) store (first ++ second) := by
  intro table handle counts
  rw [map_append, addDefinitions_append, length_map]
  refine (enters table handle counts.left).bind ?_
  rintro _ further _ rfl
  exact rest further _ counts.right

lemma Enters.walk {visit : Key -> Work Unit} {key : Key} {sites : List (Site (TypeDecl ρ))}
    (enters : Enters place tableKey (visit key) (store.enter runner key) sites) :
    Enters place tableKey (Workbench.walk runner visit key) store sites := by
  intro table handle counts
  refine .walk ((enters table handle counts).mono ?_)
  rintro _ next _ rfl
  exact Store.leave_withTable store runner key tableKey (next.map place)

lemma Enters.forM {α : Type} [Extent α] {visit : Key -> Work Unit} {outer : List (Site α)}
    {inner : Site α -> List (Site (TypeDecl ρ))}
    (visited : ∀ site ∈ outer, Enters place tableKey (visit site.key) store (inner site)) :
    Enters place tableKey ((outer.map Site.key).forM visit) store (outer.flatMap inner) := by
  induction outer with
  | nil =>
    intro table handle _
    exact .done rfl rfl
  | cons site rest ih =>
    rw [map_cons, flatMap_cons]
    exact (visited site mem_cons_self).append
      (ih fun other listed => visited other (mem_cons_of_mem _ listed))

/-- The stage is at work, and has a table to fill. -/
structure Fills (store : Store) (runner tableKey : Key) : Prop where
  inside : runner < store.runners.size
  table : (store.runner runner).table = tableKey
  room : tableKey < store.tables.size

lemma Fills.enter (fills : Fills store runner tableKey) (key : Key) :
    Fills (store.enter runner key) runner tableKey where
  inside := by
    rw [Store.enter, Array.size_setIfInBounds]
    exact fills.inside
  table := by
    rw [runner_enter fills.inside]
    exact fills.table
  room := fills.room

lemma enters_visitIndex_enum {site : Site EnumDecl} (shows : ShowsEnum store site)
    (fills : Fills store runner tableKey) (deep : site.key < depth) :
    Enters place tableKey (visitIndex runner depth site.key) store
      [(site.put (.enum site.item) : Site (TypeDecl ρ))] := by
  intro table handle counts
  cases depth with
  | zero => omega
  | succ depth =>
    have shown := (persists_withTable store tableKey (table.map place)).shows _ _ id shows
    rcases shown.enum with ⟨node, isEnum, _⟩
    have current : (store.withTable tableKey (table.map place)).runner runner =
        store.runner runner := rfl
    have own : place handle = site.start := counts.head
    rw [visitIndex]
    refine .get_bind ?_
    simp only [key_enum, isEnum, shown.idText, current, fills.table,
      Store.table_withTable fills.room]
    rw [← own, SymbolTable.addEnum_map, map_cons, map_nil, addDefinitions_cons]
    refine (Follows.lift_map _ _ _).bind ?_
    rintro _ next _ ⟨rfl, rfl⟩
    refine (yields_setTable _ _ _).follows ?_
    rintro _ _ rfl
    exact Store.withTable_withTable store tableKey _ _

lemma addDefinition_message (table : SymbolTable Nat) (handle : Nat) (decl : Message ρ) :
    table.addDefinition handle (.message decl) =
      (table.addMessage decl.id.text decl.isExtern handle).map (·.getD table) := by
  rw [SymbolTable.addDefinition]
  cases table.addMessage decl.id.text decl.isExtern handle <;> rfl

/-- A message that is defined is never passed over. -/
lemma exists_addMessage_defined (table : SymbolTable Nat) (name : String) (handle : Nat) :
    ∃ entered : Except CompileError (SymbolTable Nat),
      table.addMessage name false handle = entered.map some := by
  rw [SymbolTable.addMessage]
  split
  · exact ⟨.error _, rfl⟩
  · simp only [Bool.false_eq_true, if_false]
    split
    · exact ⟨.ok _, rfl⟩
    · split
      · exact ⟨.ok _, rfl⟩
      · exact ⟨.error _, rfl⟩

lemma enters_visitIndex_message {message : Message ρ} {start typeStart : Nat}
    (shows : ShowsMessage typed store ⟨start, typeStart, message⟩)
    (fills : Fills store runner tableKey) (deep : Site.key ⟨start, typeStart, message⟩ < depth) :
    Enters place tableKey (visitIndex runner depth (Site.key ⟨start, typeStart, message⟩)) store
      (messageSites start typeStart message) := by
  induction message using Message.nestedInduction generalizing start typeStart store depth with
  | external name =>
    intro table handle counts
    cases depth with
    | zero => omega
    | succ depth =>
      cases shows with
      | external node =>
      have shown := (persists_withTable store tableKey (table.map place)).shows _ _ id node
      rcases shown.message with ⟨nameKey, parentKeys, isMessage, _⟩
      have current : (store.withTable tableKey (table.map place)).runner runner =
          store.runner runner := rfl
      have own : place handle = start := counts.head
      rw [visitIndex]
      refine .get_bind ?_
      simp only [key_external, isMessage, shown.idText, current, fills.table,
        Store.table_withTable fills.room]
      rw [← own, SymbolTable.addMessage_map, messageSites, map_singleton,
        addDefinitions_cons, addDefinition_message, bind_map]
      refine (Follows.lift_map _ _ _).bind ?_
      rintro _ entered _ ⟨rfl, rfl⟩
      cases entered with
      | none => exact .done rfl rfl
      | some next => exact .done rfl (Store.withTable_withTable store tableKey _ _)
  | defined name parents enums messages fields ih =>
    intro table handle counts
    cases depth with
    | zero => omega
    | succ depth =>
      rw [messageSites_defined] at counts ⊢
      rw [key_defined] at deep ⊢
      have own : place handle = start + nodesOf enums + nodesOf messages + nodesOf fields :=
        counts.head.trans (@key_defined ρ start typeStart name parents enums messages fields)
      cases shows with
      | defined ownEnums ownMessages ownFields node =>
      have shown := (persists_withTable store tableKey (table.map place)).shows _ _ id node
      rcases shown.message with ⟨nameKey, parentKeys, isMessage, _⟩
      have current : (store.withTable tableKey (table.map place)).runner runner =
          store.runner runner := rfl
      have text : (store.withTable tableKey (table.map place)).idText
          (start + nodesOf enums + nodesOf messages + nodesOf fields) = name.current.text :=
        shown.idText
      rcases exists_addMessage_defined table name.current.text handle with ⟨added, isAdded⟩
      rw [visitIndex]
      refine .get_bind ?_
      simp only [isMessage, text, current, fills.table, Store.table_withTable fills.room]
      rw [← own, SymbolTable.addMessage_map, map_cons, addDefinitions_cons,
        addDefinition_message, bind_map, Message.id, Message.name, Message.isExtern, isAdded,
        bind_map, map_map]
      refine (Follows.lift_map _ _ _).bind ?_
      rintro _ next _ ⟨rfl, rfl⟩
      refine .of_yields (yields_setTable _ _ _) ?_
      rintro _ _ rfl
      have first : Enters place tableKey
          (((sitesFrom start typeStart enums).map Site.key).forM
            (walk runner (visitIndex runner depth))) store
          ((sitesFrom start typeStart enums).flatMap fun site =>
            [(site.put (.enum site.item) : Site (TypeDecl ρ))]) := by
        refine .forM fun site listed => ?_
        have within := within_of_mem_sitesFrom listed
        have below := site.covers_key.2
        refine .walk (enters_visitIndex_enum ?_ (fills.enter site.key) (by omega))
        exact (persists_enter store runner site.key).shows _ _ id (ownEnums site listed)
      have second : Enters place tableKey
          (((sitesFrom (start + nodesOf enums) typeStart messages).map Site.key).forM
            (walk runner (visitIndex runner depth))) store
          ((sitesFrom (start + nodesOf enums) typeStart messages).flatMap fun site =>
            messageSites site.start site.typeStart site.item) := by
        refine .forM fun site listed => ?_
        have within := within_of_mem_sitesFrom listed
        have below := site.covers_key.2
        refine .walk (ih site.item (item_mem_of_mem_sitesFrom listed) ?_
          (fills.enter site.key) ?_)
        · exact lasting_showsMessage.lasts (persists_enter store runner site.key)
            (ownMessages site listed)
        · change site.key < depth
          omega
      rw [map_key_sitesFrom, ← map_eq_flatMap] at first
      rw [map_key_sitesFrom] at second
      rw [Store.withTable_withTable]
      exact first.append second next (handle + 1) counts.tail

lemma enters_visitIndex_decl {site : Site (TypeDecl ρ)} (shows : ShowsDecl typed store site)
    (fills : Fills store runner tableKey) (deep : site.key < depth) :
    Enters place tableKey (visitIndex runner depth site.key) store site.definitions := by
  cases shows with
  | enum shows => exact enters_visitIndex_enum shows fills deep
  | message shows => exact enters_visitIndex_message shows fills deep

variable {root : Nat} {sites : List (Site (TypeDecl ρ))}

lemma enters_visitIndex_root (shows : ShowsFlat typed store root sites)
    (fills : Fills store runner tableKey) (stacked : store.stackOf runner = [root])
    (deep : root < depth) :
    Enters place tableKey (visitIndex runner depth root) store (definitionSites sites) := by
  intro table handle counts
  cases depth with
  | zero => omega
  | succ depth =>
    have shown := (persists_withTable store tableKey (table.map place)).shows _ _ id shows.node
    rcases shown.scope with ⟨nameKey, isScope, _⟩
    rw [visitIndex]
    refine .get_bind ?_
    simp only [isScope]
    refine .of_yields (yields_checkFlat .index shown stacked) ?_
    rintro _ _ rfl
    refine Enters.forM (fun site listed => Enters.walk ?_) table handle counts
    have below := shows.below site listed
    have covered := site.covers_key.2
    have entered : ShowsDecl typed (store.enter runner site.key) site :=
      lasting_showsDecl.lasts (persists_enter store runner site.key) (shows.types site listed)
    exact enters_visitIndex_decl entered (fills.enter site.key) (by omega)

/-! ### The fields of the messages -/

lemma fieldName_of_single {nameKey : Option Key} {name : String}
    (named : store.name? nameKey = some (.single name)) (type : Key) (modifiers : Modifiers)
    (bounds : List Int) (ordinal : Option Int) (default : Option Literal) :
    store.fieldName ⟨nameKey, type, modifiers, bounds, ordinal, default⟩ = name := by
  rw [Store.fieldName, named]
  rfl

/-- What is read off the places of things side by side, one by one. -/
lemma filterMap_keysFrom {α β : Type} [Extent α] {start typeStart : Nat} {items : List α}
    {shows : Site α -> Prop} {read : Nat -> Option β} {seen : α -> β}
    (shown : ∀ site ∈ sitesFrom start typeStart items, shows site)
    (reads : ∀ site, shows site -> read site.key = some (seen site.item)) :
    (keysFrom start items).filterMap read = items.map seen := by
  rw [← map_key_sitesFrom items start typeStart, filterMap_map]
  conv_rhs => rw [← map_item_sitesFrom items start typeStart, List.map_map]
  rw [← filterMap_eq_map]
  exact filterMap_congr fun site listed => reads site (shown site listed)

lemma fieldKeys_of_shows {site : Site (Message ρ)} (shows : ShowsMessage typed store site) :
    store.fieldKeys site.key = site.item.fieldKeys := by
  cases shows with
  | external node =>
    rcases node.message with ⟨nameKey, parentKeys, isMessage, _⟩
    rw [Store.fieldKeys, key_external, isMessage]
    rfl
  | defined ownEnums ownMessages ownFields node =>
    rcases node.message with ⟨nameKey, parentKeys, isMessage, _⟩
    rw [Store.fieldKeys, key_defined, isMessage]
    refine filterMap_keysFrom ownFields fun site shows => ?_
    rcases shows.node.field with ⟨fieldKey, isField, named⟩
    rw [key_field, isField]
    simp only [fieldName_of_single named]

/-- The fields of the messages are checked in the order of the messages' names. -/
lemma follows_checkMessages (shows : ShowsFlat typed store root sites)
    {entries : List (String × MessageEntry Nat)} (known : ∀ entry ∈ entries, ∃ decl,
      (definitionsOf (sites.map Site.item))[entry.2.handle]? = some (.message decl)) :
    Follows ((entries.map fun entry => (entry.1, entry.2.map (keyOf sites))).forM fun entry =>
        liftCompile (checkFields entry.1 (store.fieldKeys entry.2.handle))) store
      (fun _ _ after => after = store)
      (checkMessages (definitionsOf (sites.map Site.item)) entries) := by
  induction entries with
  | nil => exact .done rfl rfl
  | cons first rest ih =>
    rcases first with ⟨name, entry⟩
    rcases known _ mem_cons_self with ⟨decl, listed⟩
    rcases shows.of_handle listed with ⟨site, shown, same, place⟩
    have keys : store.fieldKeys (keyOf sites entry.handle) = decl.fieldKeys := by
      rcases site with ⟨start, typeStart, item⟩
      cases same
      cases shown with
      | message shown =>
        rw [place]
        exact fieldKeys_of_shows shown
    have step : checkMessages (definitionsOf (sites.map Site.item)) ((name, entry) :: rest) =
        (checkFields name decl.fieldKeys).bind fun _ =>
          checkMessages (definitionsOf (sites.map Site.item)) rest := by
      rw [checkMessages, listed]
      cases checkFields name decl.fieldKeys <;> rfl
    rw [step, map_cons, ← keys]
    refine (Follows.lift _ store).bind ?_
    rintro _ _ _ ⟨_, rfl⟩
    exact ih fun other listed => known other (mem_cons_of_mem _ listed)

/-! ### The run of the stage -/

lemma fills_clearRunner (fills : Fills store runner tableKey) :
    Fills (store.clearRunner runner) runner tableKey where
  inside := by
    rw [size_clearRunner]
    exact fills.inside
  table := by
    rw [runner_clearRunner fills.inside]
    exact fills.table
  room := fills.room

lemma yields_reset_index (fills : Fills store runner tableKey)
    (isStage : (store.runner runner).stage = .index) : Yields (reset runner) store fun _ after =>
      after = (store.clearRunner runner).withTable tableKey .empty := by
  refine (yields_clear store runner).bind ?_
  rintro _ _ rfl
  refine .get_bind ?_
  rw [runner_clearRunner fills.inside]
  simp only [Runner.cleared, isStage, fills.table]
  exact yields_setTable _ _ _

lemma index_eq_bind (types : List (TypeDecl ρ)) :
    index types = (SymbolTable.empty.addDefinitions 0 (definitionsOf types)).bind fun table =>
      (checkMessages (definitionsOf types) table.messages.entries).map fun _ => table := by
  rw [index]
  cases SymbolTable.empty.addDefinitions 0 (definitionsOf types) with
  | error error => rfl
  | ok table =>
    simp only [Except.bind]
    cases checkMessages (definitionsOf types) table.messages.entries <;> rfl

/-- The stage fills the table with that of the schema, with keys in place of handles, or
fails as the compilation does. -/
lemma follows_run_index (shows : ShowsFlat typed store root sites)
    (fills : Fills store runner tableKey) (isStage : (store.runner runner).stage = .index) :
    Follows (run runner root) store (fun _ table after =>
        after = (store.clearRunner runner).withTable tableKey (table.map (keyOf sites)))
      (index (sites.map Site.item)) := by
  refine .of_yields (yields_reset_index fills isStage) ?_
  rintro _ _ rfl
  have cleared := fills_clearRunner fills
  have visited : Enters (keyOf sites) tableKey (walk runner (visitAs runner) root)
      (store.clearRunner runner) (definitionSites sites) := by
    refine .walk ?_
    rw [← Store.start]
    intro table handle counts
    have current : (((store.start runner root).withTable tableKey (table.map (keyOf sites))).runner
        runner).stage = .index := by
      change ((store.start runner root).runner runner).stage = .index
      rw [runner_start fills.inside]
      exact isStage
    refine .get_bind ?_
    simp only [current]
    refine enters_visitIndex_root (shows.lasts (persists_start store runner root))
      (cleared.enter root) (stackOf_start fills.inside root) ?_ table handle counts
    exact Nat.lt_succ_of_lt shows.node.lt_size
  have walked := visited .empty 0 (counts_keyOf sites)
  rw [map_item_definitionSites] at walked
  rw [index_eq_bind]
  refine walked.bind_ok ?_
  rintro _ table _ entered rfl
  have describes := SymbolTable.describes_empty.addDefinitions entered
  have known : ∀ entry ∈ table.messages.entries, ∃ decl,
      (definitionsOf (sites.map Site.item))[entry.2.handle]? = some (.message decl) := by
    intro entry listed
    have found := Name.Table.mem_entries_iff.mp listed
    rcases (describes.messages _ _).mp found with ⟨decl, place, _⟩
    exact ⟨decl, place⟩
  have filled := persists_withTable (store.clearRunner runner) tableKey (table.map (keyOf sites))
  have shown := shows.lasts ((persists_clearRunner store runner).trans filled)
  have current : (((store.clearRunner runner).withTable tableKey (table.map (keyOf sites))).runner
      runner).stage = .index := by
    change ((store.clearRunner runner).runner runner).stage = .index
    rw [runner_clearRunner fills.inside]
    exact isStage
  have isTable : (((store.clearRunner runner).withTable tableKey
      (table.map (keyOf sites))).runner runner).table = tableKey := cleared.table
  refine .get_bind ?_
  simp only [current, isTable, Store.table_withTable cleared.room]
  refine (follows_checkMessages shown known).map ?_
  rintro _ _ _ rfl
  rfl

end

end MessageSchema.Workbench

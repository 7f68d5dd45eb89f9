import MessageSchema.Proofs.Compile.Collecting
import MessageSchema.Proofs.Workbench.Resolving

namespace MessageSchema.Workbench

open List

/-!
Collecting the dependencies of a schema in the store.

Visits change nothing but the references, which are noted in another order than the
compilation lists them in; that makes no difference in the end.
-/

/-! ### References and roots in the store -/

namespace Store

def withReferences (store : Store) (key : Key) (references : References) : Store :=
  { store with references := store.references.setIfInBounds key references }

/-- The store with other messages to start from in the mind of a stage. -/
def withRoots (store : Store) (runner : Key) (roots : List String) : Store :=
  { store with
    runners := store.runners.setIfInBounds runner { store.runner runner with roots } }

variable {store : Store} {runner key place : Key}

lemma referencesAt_withReferences (room : key < store.references.size)
    (references : References) : (store.withReferences key references).referencesAt key =
      references := by
  rw [referencesAt, withReferences, Array.getD_eq_getD_getElem?,
    Array.getElem?_setIfInBounds_self_of_lt room, Option.getD_some]

lemma withReferences_withReferences (first second : References) :
    (store.withReferences key first).withReferences key second =
      store.withReferences key second := by
  rw [withReferences, withReferences, withReferences, Array.setIfInBounds_setIfInBounds]

lemma leave_withReferences (references : References) :
    ((store.enter runner place).withReferences key references).leave runner =
      store.withReferences key references := by
  have back : (((store.enter runner place).withReferences key references).leave runner).runners =
      store.runners := runners_leave rfl
  rw [Store.leave] at back ⊢
  rw [withReferences, mk.injEq]
  exact ⟨rfl, rfl, rfl, rfl, rfl, rfl, back⟩

lemma runner_withRoots (inside : runner < store.runners.size) (roots : List String) :
    (store.withRoots runner roots).runner runner = { store.runner runner with roots } := by
  rw [Store.runner, Array.getD_eq_getD_getElem?, withRoots,
    Array.getElem?_setIfInBounds_self_of_lt inside, Option.getD_some]

lemma leave_withRoots (inside : runner < store.runners.size) (roots : List String)
    (references : References) :
    (((store.enter runner place).withRoots runner roots).withReferences key references).leave
      runner = (store.withRoots runner roots).withReferences key references := by
  have entered : runner < (store.enter runner place).runners.size := by
    rw [enter, Array.size_setIfInBounds]
    exact inside
  have current : (((store.enter runner place).withRoots runner roots).withReferences key
      references).runner runner =
      { store.runner runner with stack := place :: store.stackOf runner, roots } := by
    change ((store.enter runner place).withRoots runner roots).runner runner = _
    rw [runner_withRoots entered, runner_enter inside]
  rw [leave, stackOf, current]
  simp only [withReferences, withRoots, enter, Array.setIfInBounds_setIfInBounds, mk.injEq]
  exact ⟨trivial, trivial, trivial, trivial, trivial, trivial, rfl⟩

lemma withRoots_roots (store : Store) (runner : Key) :
    store.withRoots runner (store.runner runner).roots = store := by
  rw [withRoots, mk.injEq]
  exact ⟨rfl, rfl, rfl, rfl, rfl, rfl, setIfInBounds_getD store.runners runner default⟩

end Store

lemma persists_withReferences (store : Store) (key : Key) (references : References) :
    Persists nowhere nowhere store (store.withReferences key references) :=
  .of_equipment rfl rfl rfl

lemma persists_withRoots (store : Store) (runner : Key) (roots : List String) :
    Persists nowhere nowhere store (store.withRoots runner roots) :=
  .of_equipment rfl rfl rfl

lemma yields_setReferences (store : Store) (key : Key) (references : References) :
    Yields (setReferences key references) store fun _ after =>
      after = store.withReferences key references :=
  ⟨(), _, rfl, rfl⟩

/-! ### Noting references -/

/-- An action notes references between messages under a key, and changes nothing
else.  They are noted in any order. -/
def Gathers (table : SymbolTable Nat) (key : Key) (action : Work Unit) (store : Store)
    (pairs : List (Identifier × Identifier)) : Prop :=
  ∀ references : References, Yields action (store.withReferences key references) fun _ after =>
    ∃ noted : List (Identifier × Identifier), (∀ pair, pair ∈ noted ↔ pair ∈ pairs) ∧
      after = store.withReferences key (noted.foldl (fun references pair =>
        table.noteReference references pair.1 pair.2) references)

/-- The stage is at work, and has a symbol table to consult and references to
fill. -/
structure Gathering (place : Nat -> Nat) (table : SymbolTable Nat) (store : Store)
    (runner key : Key) : Prop where
  inside : runner < store.runners.size
  isReferences : (store.runner runner).references = key
  room : key < store.references.size
  table : store.table (store.runner runner).table = table.map place

variable {visit : Key -> Work Unit}

section
variable {place : Nat -> Nat} {table : SymbolTable Nat} {store : Store} {runner key : Key}

lemma Gathering.enter (gathering : Gathering place table store runner key) (inner : Key) :
    Gathering place table (store.enter runner inner) runner key where
  inside := by
    rw [Store.enter, Array.size_setIfInBounds]
    exact gathering.inside
  isReferences := by
    rw [runner_enter gathering.inside]
    exact gathering.isReferences
  room := gathering.room
  table := by
    rw [runner_enter gathering.inside]
    exact gathering.table

lemma Gathering.withRoots (gathering : Gathering place table store runner key)
    (roots : List String) : Gathering place table (store.withRoots runner roots) runner key where
  inside := by
    rw [Store.withRoots, Array.size_setIfInBounds]
    exact gathering.inside
  isReferences := by
    rw [Store.runner_withRoots gathering.inside]
    exact gathering.isReferences
  room := gathering.room
  table := by
    rw [Store.runner_withRoots gathering.inside]
    exact gathering.table

namespace Gathers

variable {action next : Work Unit} {pairs others : List (Identifier × Identifier)}

lemma nothing : Gathers table key (pure ()) store [] := fun _ =>
  Yields.pure ⟨[], fun _ => .rfl, rfl⟩

lemma append (first : Gathers table key action store pairs)
    (second : Gathers table key next store others) :
    Gathers table key (action >>= fun _ => next) store (pairs ++ others) := by
  intro references
  refine (first references).bind ?_
  rintro _ _ ⟨noted, same, rfl⟩
  refine (second _).mono ?_
  rintro _ _ ⟨further, sameFurther, rfl⟩
  refine ⟨noted ++ further, fun pair => ?_, ?_⟩
  · rw [mem_append, mem_append, same, sameFurther]
  · rw [foldl_append]

lemma congr (gathers : Gathers table key action store pairs)
    (same : ∀ pair, pair ∈ pairs ↔ pair ∈ others) : Gathers table key action store others := by
  intro references
  refine (gathers references).mono ?_
  rintro _ after ⟨noted, listed, isAfter⟩
  exact ⟨noted, fun pair => (listed pair).trans (same pair), isAfter⟩

lemma walk {inner : Key}
    (gathers : Gathers table key (visit inner) (store.enter runner inner) pairs) :
    Gathers table key (Workbench.walk runner visit inner) store pairs := by
  intro references
  refine .walk ((gathers references).mono ?_)
  rintro _ _ ⟨noted, same, rfl⟩
  exact ⟨noted, same, Store.leave_withReferences _⟩

lemma forM {α β : Type} {visit : β -> Work Unit} {image : α -> β} {items : List α}
    {pairs : α -> List (Identifier × Identifier)}
    (each : ∀ item ∈ items, Gathers table key (visit (image item)) store (pairs item)) :
    Gathers table key ((items.map image).forM visit) store (items.flatMap pairs) := by
  induction items with
  | nil => exact nothing
  | cons item rest ih =>
    rw [map_cons, flatMap_cons]
    exact (each item mem_cons_self).append
      (ih fun other listed => each other (mem_cons_of_mem _ listed))

lemma row {α : Type} [Extent α] {start : Nat} (typeStart : Nat) {items : List α}
    {pairs : α -> List (Identifier × Identifier)} (each : ∀ site ∈ sitesFrom start typeStart items,
      Gathers table key (visit site.key) (store.enter runner site.key) (pairs site.item)) :
    Gathers table key ((keysFrom start items).forM (Workbench.walk runner visit)) store
      (items.flatMap pairs) := by
  have all := forM fun site listed => walk (each site listed)
  rw [map_key_sitesFrom, ← flatMap_map, map_item_sitesFrom] at all
  exact all

end Gathers

lemma gathers_noteReference (gathering : Gathering place table store runner key)
    (source target : Identifier) :
    Gathers table key (noteReference runner source target) store [(source, target)] := by
  intro references
  have current : (store.withReferences key references).runner runner = store.runner runner := rfl
  have isTable : (store.withReferences key references).table (store.runner runner).table =
      table.map place := gathering.table
  refine .get_bind ?_
  simp only [current, gathering.isReferences, isTable, SymbolTable.noteReference_map,
    Store.referencesAt_withReferences gathering.room]
  refine (yields_setReferences _ _ _).mono ?_
  rintro _ _ rfl
  refine ⟨[(source, target)], fun _ => .rfl, ?_⟩
  rw [Store.withReferences_withReferences]
  rfl

/-! ### Visits -/

end

/-- What the type of a field makes a message depend on. -/
def dependencyOf : FieldType Reference -> Option Identifier
  | .primitive _ => none
  | .user reference => reference.dependency?

section
open MessageSchema (Message)
variable {place : Nat -> Nat} {table : SymbolTable Nat} {store : Store} {runner key : Key}
  {depth : Nat}

lemma ownDependencies_eq (message : Message Reference) : message.ownDependencies =
      message.parents ++ message.fields.filterMap fun field => dependencyOf field.type :=
  rfl

variable {reference : Reference} {outer : Key} {view : NodeView} {message : Message Reference}

lemma Store.Meets.dependency?_eq (meets : store.Meets place reference) :
    store.dependency? (place reference.symbol.handle) = reference.dependency? := by
  rcases meets with ⟨view, shows, named, kind⟩
  rw [Store.dependency?, Reference.dependency?, shows.kind, shows.id, kind, named]
  cases reference.symbol.kind <;> rfl

variable {stack : List Key} {start typeStart root : Nat} {sites : List (Site (TypeDecl Reference))}

section
variable (gathering : Gathering place table store runner key)
include gathering

lemma gathers_visitDepend_field {site : Site (Field Reference)} {message : Identifier}
    (shows : ShowsField (resolvedName place) store site)
    (meets : ∀ reference, site.item.type = .user reference -> store.Meets place reference)
    (stacked : store.stackOf runner = site.key :: outer :: stack) (around : store.Shows outer view)
    (named : view.name = some message) (deep : site.key < depth) :
    Gathers table key (visitDepend runner depth site.key) store
      ((dependencyOf site.item.type).toList.map (message, ·)) := by
  intro references
  have persists := persists_withReferences store key references
  cases depth with
  | zero => omega
  | succ depth =>
    rcases (persists.shows _ _ id shows.node).field with ⟨nameKey, isField, _⟩
    have isOuter : ((store.withReferences key references).stackOf runner)[1]? = some outer := by
      change (store.stackOf runner)[1]? = some outer
      rw [stacked]
      rfl
    have outerId : (store.withReferences key references).id outer = some message := by
      rw [(persists.shows _ _ id around).id, named]
    have isType := persists.showsType _ _ id shows.type
    rw [visitDepend]
    refine .get_bind ?_
    simp only [key_field, isField, isOuter, Option.bind_some, outerId]
    cases type : site.item.type with
    | primitive primitive =>
      rw [type] at isType
      rcases isType.type with ⟨typeName, known, _⟩
      simp only [known]
      exact Gathers.nothing references
    | user reference =>
      rw [type] at isType
      rcases isType.type with ⟨typeName, known, _⟩
      have dependency := ((meets reference type).lasts persists).dependency?_eq
      simp only [known, Option.isNone_none, if_true, dependency, dependencyOf]
      cases reference.dependency? with
      | none => exact Gathers.nothing references
      | some target => exact gathers_noteReference gathering message target references

omit gathering in
lemma filterMap_name? {parentKeys : List (Option Key)} {parents : List Identifier}
    (read : parentKeys.map store.name? = parents.map some) :
    parentKeys.filterMap store.name? = parents := by
  have same : parentKeys.filterMap store.name? =
      (parentKeys.map store.name?).filterMap fun name => name := by
    rw [filterMap_map]
    rfl
  rw [same, read, filterMap_map]
  exact filterMap_some

lemma gathers_noteParents (message : Identifier) (parents : List Identifier) :
    Gathers table key (parents.forM (noteReference runner message)) store
      (parents.map (message, ·)) := by
  have each := Gathers.forM fun parent (_ : parent ∈ parents) =>
    gathers_noteReference gathering message parent
  rw [map_id_fun', id_eq, ← map_eq_flatMap] at each
  exact each

lemma gathers_forM_fields {fields : List (Field Reference)} {message : Identifier}
    (shows : ∀ site ∈ sitesFrom start typeStart fields, ShowsField (resolvedName place) store site)
    (meets : ∀ field ∈ fields, ∀ reference, field.type = .user reference ->
      store.Meets place reference) (stacked : store.stackOf runner = outer :: stack)
    (around : store.Shows outer view) (named : view.name = some message)
    (deep : start + nodesOf fields <= depth) :
    Gathers table key ((keysFrom start fields).forM (walk runner (visitDepend runner depth))) store
      ((fields.filterMap fun field => dependencyOf field.type).map (message, ·)) := by
  rw [filterMap_eq_flatMap_toList, map_flatMap]
  refine .row typeStart fun site listed => ?_
  have inside := within_of_mem_sitesFrom listed
  have shallow := site.covers_key.2
  have entered := persists_enter store runner site.key
  have stackedInside : (store.enter runner site.key).stackOf runner =
    site.key :: outer :: stack := by
    rw [stackOf_enter gathering.inside, stacked]
  refine gathers_visitDepend_field (gathering.enter site.key)
    (lasting_showsField.lasts entered (shows site listed)) ?_
    stackedInside (entered.shows _ _ id around) named (by omega)
  exact fun reference isType =>
    (meets site.item (item_mem_of_mem_sitesFrom listed) reference isType).lasts entered

/-- A message depends on what it refers to itself, and on what the messages in it
refer to. -/
lemma gathers_visitDepend_message
    (shows : ShowsMessage (resolvedName place) store ⟨start, typeStart, message⟩)
    (meets : ∀ decl, .message decl ∈ message.definitions -> store.MeetsAll place decl)
    (stacked : store.stackOf runner = Site.key ⟨start, typeStart, message⟩ :: stack)
    (deep : Site.key ⟨start, typeStart, message⟩ < depth) :
    Gathers table key (visitDepend runner depth (Site.key ⟨start, typeStart, message⟩)) store
      message.dependencies := by
  induction message using Message.nestedInduction
    generalizing start typeStart store stack depth with
  | external name =>
    intro references
    cases depth with
    | zero => omega
    | succ depth =>
      cases shows with
      | external node =>
      have persists := persists_withReferences store key references
      rcases (persists.shows _ _ id node).message with ⟨nameKey, parentKeys, isMessage, _, read⟩
      cases List.map_eq_nil_iff.mp read
      rw [visitDepend]
      refine .get_bind ?_
      rw [key_external, isMessage]
      exact Gathers.nothing references
  | defined name parents enums messages fields ih =>
    intro references
    cases depth with
    | zero => omega
    | succ depth =>
      cases shows with
      | defined ownEnums ownMessages ownFields node =>
      have shown := (persists_withReferences store key references).shows _ _ id node
      rcases shown.message with ⟨nameKey, parentKeys, isMessage, _, read⟩
      rw [key_defined] at deep stacked ⊢
      rw [visitDepend]
      refine .get_bind ?_
      simp only [isMessage, filterMap_name? read, shown.id, definedView, NodeView.name,
        Option.getD_some]
      rw [Message.definitions_defined] at meets
      have ownParents := gathers_noteParents gathering name.current parents
      have nested : Gathers table key
          ((keysFrom (start + nodesOf enums) messages).forM
            (walk runner (visitDepend runner depth))) store
          (messages.flatMap Message.dependencies) := by
        refine .row typeStart fun site listed => ?_
        have inside := within_of_mem_sitesFrom listed
        have covered := site.covers_key.2
        have shallow : site.key < depth := by omega
        have entered := persists_enter store runner site.key
        refine ih site.item (item_mem_of_mem_sitesFrom listed) (gathering.enter site.key)
          (lasting_showsMessage.lasts entered (ownMessages site listed)) ?_
            (stackOf_enter gathering.inside) shallow
        refine fun decl defined => (meets decl ?_).lasts entered
        exact mem_cons_of_mem _ (mem_append_right _
          (List.mem_flatMap.mpr ⟨site.item, item_mem_of_mem_sitesFrom listed, defined⟩))
      have own := gathers_forM_fields gathering ownFields (meets _ mem_cons_self) stacked
        node rfl (Nat.le_of_lt_succ deep)
      refine ((ownParents.append (nested.append own)).congr ?_) references
      intro pair
      rw [Message.dependencies, ownDependencies_eq, Message.dependenciesOf_eq_flatMap]
      simp only [Message.parents, Message.fields, map_append, mem_append]
      tauto

end

/-! ### The messages to start from -/

lemma yields_noteRoot (inside : runner < store.runners.size) (name : String)
    (roots : List String) (references : References) :
    Yields (noteRoot runner name) ((store.withRoots runner roots).withReferences key references)
      fun _ after => ∃ more : List String, (∀ other, other ∈ more ↔ other ∈ roots ∨ other = name) ∧
        after = (store.withRoots runner more).withReferences key references := by
  refine (yields_changeRunner _).mono ?_
  rintro _ _ rfl
  have current : ((store.withRoots runner roots).withReferences key references).runner runner =
      { store.runner runner with roots } := Store.runner_withRoots inside roots
  refine ⟨if roots.contains name then roots else roots ++ [name], fun other => ?_, ?_⟩
  · split
    · next known =>
      refine ⟨.inl, fun either => either.elim id fun same => ?_⟩
      rw [same]
      exact List.contains_iff_mem.mp known
    · rw [mem_append, mem_singleton]
  · rw [current]
    simp only [Store.withReferences, Store.withRoots, Array.setIfInBounds_setIfInBounds]
    cases roots.contains name <;> rfl

/-- These messages have been visited: they have been added to those to start from,
and their dependencies have been noted. -/
def Collected (table : SymbolTable Nat) (runner key : Key) (messages : List (Message Reference))
    (roots : List String) (references : References) (store after : Store) : Prop :=
  ∃ (found : List String) (noted : List (Identifier × Identifier)),
    (∀ name, name ∈ found ↔ name ∈ roots ∨ name ∈ messages.map fun message => message.id.text) ∧
    (∀ pair, pair ∈ noted ↔ pair ∈ messages.flatMap Message.dependencies) ∧
    after = (store.withRoots runner found).withReferences key
      (noted.foldl (fun references pair => table.noteReference references pair.1 pair.2) references)

section
variable (gathering : Gathering place table store runner key)
include gathering

/-- The visit to a message of a schema, which is one to start from. -/
lemma yields_depend_message
    (shows : ShowsMessage (resolvedName place) store ⟨start, typeStart, message⟩)
    (meets : ∀ decl, .message decl ∈ message.definitions -> store.MeetsAll place decl)
    (deep : Site.key ⟨start, typeStart, message⟩ < depth) (roots : List String)
    (references : References) :
    Yields (walkAsRoot runner (visitDepend runner depth) (Site.key ⟨start, typeStart, message⟩))
      ((store.withRoots runner roots).withReferences key references) fun _ after =>
        Collected table runner key [message] roots references store after := by
  rcases shows.shows with ⟨view, node, named, _⟩
  have persists := (persists_withRoots store runner roots).trans
    (persists_withReferences _ key references)
  have text : ((store.withRoots runner roots).withReferences key references).idText
      (Site.key ⟨start, typeStart, message⟩) = message.id.text := by
    rw [(persists.shows _ _ id node).idText, named]
    rfl
  refine .get_bind ?_
  rw [text]
  refine (yields_noteRoot gathering.inside message.id.text roots references).bind ?_
  rintro _ _ ⟨more, listed, rfl⟩
  have entered := (persists_withRoots store runner more).trans
    (persists_enter _ runner (Site.key ⟨start, typeStart, message⟩))
  have visited := gathers_visitDepend_message ((gathering.withRoots more).enter _)
    (lasting_showsMessage.lasts entered shows)
    (fun decl defined => (meets decl defined).lasts entered)
    (stackOf_enter (gathering.withRoots more).inside) deep
  refine (visited.walk references).mono ?_
  rintro _ after ⟨noted, same, isAfter⟩
  refine ⟨more, noted, fun name => ?_, fun pair => ?_, isAfter⟩
  · rw [listed, map_singleton, mem_singleton]
  · rw [same, flatMap_singleton]

omit gathering in
lemma yields_ifMessage {inner : Key} {post : Unit -> Store -> Prop}
    (isMessage : (store.node inner).kind = .message) (visited : Yields (visit inner) store post) :
    Yields (ifMessage visit inner) store post := by
  refine .get_bind ?_
  rw [if_pos isMessage]
  exact visited

/-- The visits to the messages of a schema. -/
lemma yields_forM_depend (shows : ∀ site ∈ sites, ShowsDecl (resolvedName place) store site)
    (meets : ∀ decl, .message decl ∈ definitionsOf (sites.map Site.item) ->
      store.MeetsAll place decl) (deep : ∀ site ∈ sites, site.key < depth) (roots : List String)
    (references : References) :
    Yields ((sites.map Site.key).forM (ifMessage (walkAsRoot runner (visitDepend runner depth))))
      ((store.withRoots runner roots).withReferences key references) fun _ after =>
        Collected table runner key (topMessages (sites.map Site.item)) roots references store
          after := by
  induction sites generalizing roots references with
  | nil =>
    refine .pure ⟨roots, [], fun _ => ?_, fun _ => .rfl, rfl⟩
    exact (or_iff_left not_mem_nil).symm
  | cons site rest ih =>
    rw [map_cons, definitionsOf_cons] at meets
    have later := ih (fun other listed => shows other (mem_cons_of_mem _ listed))
      (fun decl listed => meets decl (mem_append_right _ listed))
      fun other listed => deep other (mem_cons_of_mem _ listed)
    have persists := (persists_withRoots store runner roots).trans
      (persists_withReferences _ key references)
    have shown := shows site mem_cons_self
    rcases shown.shows with ⟨view, node, _, kind⟩
    have shallow := deep site mem_cons_self
    have isKind := (persists.shows _ _ id node).kind.trans kind
    rcases site with ⟨start, typeStart, decl | decl⟩
    · have skipped : Yields (ifMessage (walkAsRoot runner (visitDepend runner depth))
          (Site.key ⟨start, typeStart, TypeDecl.enum (ρ := Reference) decl⟩))
          ((store.withRoots runner roots).withReferences key references) fun _ after =>
            after = (store.withRoots runner roots).withReferences key references := by
        refine .get_bind ?_
        rw [isKind]
        exact .pure rfl
      refine skipped.bind ?_
      rintro _ _ rfl
      exact later roots references
    · cases shown with
      | message showsMessage =>
      have first := yields_depend_message gathering showsMessage
        (fun inner defined => meets inner (mem_append_left _ defined)) shallow roots references
      refine (yields_ifMessage isKind first).bind ?_
      rintro _ _ ⟨more, noted, isMore, isNoted, rfl⟩
      refine (later more _).mono ?_
      rintro _ _ ⟨found, further, isFound, isFurther, rfl⟩
      refine ⟨found, noted ++ further, fun name => ?_, fun pair => ?_, ?_⟩
      · rw [isFound, isMore, or_assoc, ← mem_append]
        rfl
      · rw [mem_append, isNoted, isFurther, ← mem_append, ← flatMap_append]
        rfl
      · rw [foldl_append]

lemma yields_visitDepend_root (shows : ShowsFlat (resolvedName place) store root sites)
    (meets : ∀ decl, .message decl ∈ definitionsOf (sites.map Site.item) ->
      store.MeetsAll place decl) (stacked : store.stackOf runner = [root]) (deep : root < depth)
    (references : References) :
    Yields (visitDepend runner depth root) (store.withReferences key references) fun _ after =>
      Collected table runner key (topMessages (sites.map Site.item)) (store.runner runner).roots
        references store after := by
  cases depth with
  | zero => omega
  | succ depth =>
    have shown := (persists_withReferences store key references).shows _ _ id shows.node
    rcases shown.scope with ⟨nameKey, isScope, _⟩
    rw [visitDepend]
    refine .get_bind ?_
    simp only [isScope]
    refine (yields_checkFlat .depend shown stacked).bind ?_
    intro _ after same
    have shallow : ∀ site ∈ sites, site.key < depth := by
      intro site listed
      have below := shows.below site listed
      have covered := site.covers_key.2
      omega
    have visited := yields_forM_depend gathering shows.types meets shallow
      (store.runner runner).roots references
    rw [Store.withRoots_roots] at visited
    rw [same]
    exact visited

/-! ### The run of the stage -/

lemma Gathering.clearRunner : Gathering place table (store.clearRunner runner) runner key where
  inside := by
    rw [size_clearRunner]
    exact gathering.inside
  isReferences := by
    rw [runner_clearRunner gathering.inside]
    exact gathering.isReferences
  room := gathering.room
  table := by
    rw [runner_clearRunner gathering.inside]
    exact gathering.table

lemma yields_reset_depend (isStage : (store.runner runner).stage = .depend) :
    Yields (reset runner) store fun _ after =>
      after = (store.clearRunner runner).withReferences key .empty := by
  refine (yields_clear store runner).bind ?_
  rintro _ _ rfl
  refine .get_bind ?_
  rw [runner_clearRunner gathering.inside]
  simp only [Runner.cleared, isStage, gathering.isReferences]
  exact yields_setReferences _ _ _

/-- After the visits the closures of the messages to start from are worked out. -/
lemma yields_finish_depend (isStage : (store.runner runner).stage = .depend)
    (references : References) :
    Yields (finish runner) (store.withReferences key references) fun _ after =>
      after = store.withReferences key
        ((store.runner runner).roots.foldl References.close references) := by
  have current : (store.withReferences key references).runner runner = store.runner runner := rfl
  refine .get_bind ?_
  simp only [current, isStage, gathering.isReferences,
    Store.referencesAt_withReferences gathering.room]
  refine (yields_setReferences _ _ _).mono ?_
  rintro _ _ rfl
  rw [Store.withReferences_withReferences]

end

lemma yields_run_depend (shows : ShowsFlat (resolvedName (keyOf sites)) store root sites)
    (leads : AllLead (definitionsOf (sites.map Site.item)))
    (gathering : Gathering (keyOf sites) table store runner key)
    (isStage : (store.runner runner).stage = .depend) :
    Yields (run runner root) store fun _ after => ∃ roots : List String,
      after = ((store.clearRunner runner).withRoots runner roots).withReferences key
        (dependencies (sites.map Site.item) table) := by
  have inside := gathering.inside
  refine (yields_reset_depend gathering isStage).bind ?_
  rintro _ _ rfl
  have cleared := gathering.clearRunner
  have started := shows.lasts (persists_start store runner root)
  have current := runner_start inside root
  have visited : Yields (visitAs runner root) ((store.start runner root).withReferences key .empty)
      fun _ after => Collected table runner key (topMessages (sites.map Site.item)) [] .empty
        (store.start runner root) after := by
    have isDepend : (((store.start runner root).withReferences key .empty).runner runner).stage =
        .depend := by
      change ((store.start runner root).runner runner).stage = .depend
      rw [current]
      exact isStage
    have fresh : ((store.start runner root).runner runner).roots = [] := by
      rw [current]
      rfl
    refine .get_bind ?_
    simp only [isDepend]
    rw [← fresh]
    exact yields_visitDepend_root (cleared.enter root) started
      (fun decl listed => (meetsAll_of_leads shows (leads decl listed)).lasts
        (persists_start store runner root))
      (stackOf_start inside root) (Nat.lt_succ_of_lt started.node.lt_size) .empty
  have walked : Yields (walk runner (visitAs runner) root)
      ((store.clearRunner runner).withReferences key .empty) fun _ after =>
        Collected table runner key (topMessages (sites.map Site.item)) [] .empty
          (store.clearRunner runner) after := by
    refine .walk (visited.mono ?_)
    rintro _ _ ⟨found, noted, isFound, isNoted, rfl⟩
    exact ⟨found, noted, isFound, isNoted, Store.leave_withRoots cleared.inside found _⟩
  refine walked.bind ?_
  rintro _ _ ⟨found, noted, isFound, isNoted, rfl⟩
  have stillDepend : (((store.clearRunner runner).withRoots runner found).runner runner).stage =
      .depend := by
    rw [Store.runner_withRoots cleared.inside, runner_clearRunner inside]
    exact isStage
  refine (yields_finish_depend (cleared.withRoots found) stillDepend _).mono ?_
  rintro _ _ rfl
  refine ⟨found, ?_⟩
  rw [Store.runner_withRoots cleared.inside,
    dependencies_eq isNoted fun name => (isFound name).trans (or_iff_right not_mem_nil)]

end

end MessageSchema.Workbench

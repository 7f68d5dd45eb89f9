import MessageSchema.Proofs.Workbench.Actions

namespace MessageSchema.Workbench

open List Option Array

/-!
What the store shows under a key.

A definition is seen with its names; what it holds stays given by keys.  An action
is described by what it shows where it writes, and by its frame.  Nothing is asked
of what the store holds besides, so a schema can lie there together with the remains
of others.
-/

/-- A definition with its names. -/
inductive NodeView where
  | enum (name : Option Identifier) (items : List EnumItem)
  | field (name : Option Identifier) (type : Key) (modifiers : Modifiers) (bounds : List Int)
      (ordinal : Option Int) (default : Option Literal)
  | message (name : Option Identifier) (announced : Bool) (declared : Option Identifier)
      (parents : List (Option Identifier)) (enums messages fields : List Key)
  | scope (name : Option Identifier) (content : List Key)

namespace NodeView

def kind : NodeView -> DefinitionKind
  | enum _ _ => .enum
  | field _ _ _ _ _ _ => .field
  | message _ _ _ _ _ _ _ => .message
  | scope _ _ => .scope

def name : NodeView -> Option Identifier
  | enum name _ => name
  | field name _ _ _ _ _ => name
  | message name _ _ _ _ _ _ => name
  | scope name _ => name

/-- The same definition under another name. -/
def withName (name : Option Identifier) : NodeView -> NodeView
  | enum _ items => .enum name items
  | field _ type modifiers bounds ordinal default =>
    .field name type modifiers bounds ordinal default
  | message _ announced declared parents enums messages fields =>
    .message name announced declared parents enums messages fields
  | scope _ content => .scope name content

end NodeView

/-- A field type with its name. -/
structure TypeView where
  primitive : Option Primitive
  name : Option Identifier
  target : Option Key

variable {node : Node}

namespace Node

/-- The definition with its names, given how the keys of names are read. -/
def view (read : Option Key -> Option Identifier) : Node -> NodeView
  | enum node => .enum (read node.name) node.items
  | field node =>
    .field (read node.name) node.type node.modifiers node.bounds node.ordinal node.default
  | message node =>
    .message (read node.name) node.announced node.declared (node.parents.map read) node.enums
      node.messages node.fields
  | scope node => .scope (read node.name) node.content

/-- The keys of names that are written in a definition. -/
def nameKeys : Node -> List (Option Key)
  | enum node => [node.name]
  | field node => [node.name]
  | message node => node.name :: node.parents
  | scope node => [node.name]

lemma view_congr {read other : Option Key -> Option Identifier}
    (same : ∀ name ∈ node.nameKeys, read name = other name) : node.view read = node.view other := by
  cases node with
  | enum node => rw [view, view, same _ mem_cons_self]
  | field node => rw [view, view, same _ mem_cons_self]
  | scope node => rw [view, view, same _ mem_cons_self]
  | message node =>
    rw [view, view, same _ mem_cons_self, List.map_congr_left fun name listed =>
      same name (mem_cons_of_mem _ listed)]

lemma kind_view (node : Node) (read : Option Key -> Option Identifier) :
    (node.view read).kind = node.kind := by
  cases node <;> rfl

lemma name_view (node : Node) (read : Option Key -> Option Identifier) :
    (node.view read).name = read node.name := by
  cases node <;> rfl

lemma view_withName (node : Node) (name : Option Key) (read : Option Key -> Option Identifier) :
    (node.withName name).view read = (node.view read).withName (read name) := by
  cases node <;> rfl

lemma mem_nameKeys_withName {name found : Option Key}
    (listed : found ∈ (node.withName name).nameKeys) : found = name ∨ found ∈ node.nameKeys := by
  cases node with
  | enum node => exact .inl (List.mem_singleton.mp listed)
  | field node => exact .inl (List.mem_singleton.mp listed)
  | scope node => exact .inl (List.mem_singleton.mp listed)
  | message node =>
    rcases List.mem_cons.mp listed with same | listed
    · exact .inl same
    · exact .inr (mem_cons_of_mem _ listed)

end Node

variable {view : NodeView}

namespace Store

/-- Does the store have the names under these keys? -/
def HoldsNames (store : Store) (keys : List (Option Key)) : Prop :=
  ∀ name ∈ keys, ∀ key ∈ name, key < store.names.size

/-- The store shows a definition under a key. -/
def Shows (store : Store) (key : Key) (view : NodeView) : Prop :=
  ∃ node, store.nodes[key]? = some node ∧ store.HoldsNames node.nameKeys ∧
    node.view store.name? = view

/-- The store shows a field type under a key. -/
def ShowsType (store : Store) (key : Key) (view : TypeView) : Prop :=
  ∃ type, store.types[key]? = some type ∧ store.HoldsNames [type.name] ∧
    (⟨type.primitive, store.name? type.name, type.target⟩ : TypeView) = view

section
variable {store : Store} {key : Key}

lemma name?_of_getElem? {name : Identifier} (found : store.names[key]? = some name) :
    store.name? (some key) = some name := by
  rw [name?, map_some, nameAt, getD_eq_getD_getElem?, found, getD_some]

section
variable (shows : store.Shows key view)
include shows

lemma Shows.lt_size : key < store.nodes.size := by
  rcases shows with ⟨node, found, _⟩
  exact (Array.getElem?_eq_some_iff.mp found).1

omit shows in
lemma node_of_getElem? (found : store.nodes[key]? = some node) : store.node key = node := by
  rw [Store.node, getD_eq_getD_getElem?, found, getD_some]

lemma Shows.view_node : (store.node key).view store.name? = view := by
  rcases shows with ⟨node, found, _, seen⟩
  rw [node_of_getElem? found, seen]

lemma Shows.unique {other : NodeView} (also : store.Shows key other) : view = other := by
  rw [← shows.view_node, ← also.view_node]

lemma Shows.kind : (store.node key).kind = view.kind := by
  rw [← shows.view_node, Node.kind_view]

lemma Shows.id : store.id key = view.name := by
  rw [← shows.view_node, Node.name_view, Store.id]

lemma Shows.idText : store.idText key = Identifier.textOf view.name := by
  rw [Store.idText, shows.id]

lemma Shows.isSome_name : (store.node key).name.isSome = view.name.isSome := by
  rw [← shows.view_node, Node.name_view, name?, isSome_map]

end

lemma Shows.enum {name : Option Identifier} {items : List EnumItem}
    (shows : store.Shows key (.enum name items)) :
    ∃ node : EnumNode, store.node key = .enum node ∧ store.name? node.name = name ∧
      node.items = items := by
  have seen := shows.view_node
  cases found : store.node key with
  | enum node =>
    rw [found] at seen
    cases seen
    exact ⟨node, rfl, rfl, rfl⟩
  | field node => rw [found] at seen; cases seen
  | message node => rw [found] at seen; cases seen
  | scope node => rw [found] at seen; cases seen

lemma Shows.field {name : Option Identifier} {type : Key} {modifiers : Modifiers}
    {bounds : List Int} {ordinal : Option Int} {default : Option Literal}
    (shows : store.Shows key (.field name type modifiers bounds ordinal default)) :
    ∃ nameKey, store.node key = .field ⟨nameKey, type, modifiers, bounds, ordinal, default⟩ ∧
      store.name? nameKey = name := by
  have seen := shows.view_node
  cases found : store.node key with
  | field node =>
    rw [found] at seen
    cases seen
    exact ⟨node.name, rfl, rfl⟩
  | enum node => rw [found] at seen; cases seen
  | message node => rw [found] at seen; cases seen
  | scope node => rw [found] at seen; cases seen

lemma Shows.message {name declared : Option Identifier} {announced : Bool}
    {parents : List (Option Identifier)} {enums messages fields : List Key}
    (shows : store.Shows key (.message name announced declared parents enums messages fields)) :
    ∃ nameKey parentKeys, store.node key =
        .message ⟨nameKey, announced, declared, parentKeys, enums, messages, fields⟩ ∧
      store.name? nameKey = name ∧ parentKeys.map store.name? = parents := by
  have seen := shows.view_node
  cases found : store.node key with
  | message node =>
    rw [found] at seen
    cases seen
    exact ⟨node.name, node.parents, rfl, rfl, rfl⟩
  | enum node => rw [found] at seen; cases seen
  | field node => rw [found] at seen; cases seen
  | scope node => rw [found] at seen; cases seen

lemma Shows.scope {name : Option Identifier} {content : List Key}
    (shows : store.Shows key (.scope name content)) :
    ∃ nameKey, store.node key = .scope ⟨nameKey, content⟩ ∧ store.name? nameKey = name := by
  have seen := shows.view_node
  cases found : store.node key with
  | scope node =>
    rw [found] at seen
    cases seen
    exact ⟨node.name, rfl, rfl⟩
  | enum node => rw [found] at seen; cases seen
  | field node => rw [found] at seen; cases seen
  | message node => rw [found] at seen; cases seen

lemma ShowsType.type {primitive : Option Primitive} {name : Option Identifier}
    {target : Option Key} (shows : store.ShowsType key ⟨primitive, name, target⟩) :
    ∃ nameKey, store.type key = ⟨primitive, nameKey, target⟩ ∧ store.name? nameKey = name := by
  rcases shows with ⟨type, found, _, seen⟩
  cases seen
  refine ⟨type.name, ?_, rfl⟩
  rw [Store.type, getD_eq_getD_getElem?, found, getD_some]

lemma ShowsType.unique {view other : TypeView} (shows : store.ShowsType key view)
    (also : store.ShowsType key other) : view = other := by
  rcases shows with ⟨type, found, _, seen⟩
  rcases also with ⟨type', found', _, seen'⟩
  rw [found] at found'
  cases found'
  rw [← seen, ← seen']

end

/-- What a compilation works with besides the schema. -/
structure Equipment where
  tables : Array (SymbolTable Key)
  references : Array References
  aliases : Array Aliases
  runners : Array Runner

def equipment (store : Store) : Equipment :=
  ⟨store.tables, store.references, store.aliases, store.runners⟩

end Store

/-- What was shown is still shown, except under the given keys of definitions and
of types. -/
structure Persists (nodes types : Key -> Prop) (before after : Store) : Prop where
  names : ∀ (key : Key) (name : Identifier), before.names[key]? = some name ->
    after.names[key]? = some name
  shows : ∀ key view, ¬ nodes key -> before.Shows key view -> after.Shows key view
  showsType : ∀ key view, ¬ types key -> before.ShowsType key view -> after.ShowsType key view

/-- Moreover, nothing has happened to what a compilation works with. -/
structure Alters (nodes types : Key -> Prop) (before after : Store) : Prop
    extends Persists nodes types before after where
  equipment : after.equipment = before.equipment

def nowhere (_ : Key) : Prop := False

namespace Persists

variable {nodes types nodes' types' : Key -> Prop} {before middle after : Store}

lemma refl (nodes types : Key -> Prop) (store : Store) : Persists nodes types store store :=
  ⟨fun _ _ found => found, fun _ _ _ shows => shows, fun _ _ _ shows => shows⟩

lemma trans (first : Persists nodes types before middle)
    (second : Persists nodes types middle after) : Persists nodes types before after :=
  ⟨fun key name found => second.names key name (first.names key name found),
    fun key view outside shows => second.shows key view outside
      (first.shows key view outside shows),
    fun key view outside shows =>
      second.showsType key view outside (first.showsType key view outside shows)⟩

lemma mono (persists : Persists nodes types before after)
    (nodesWithin : ∀ key, nodes key -> nodes' key) (typesWithin : ∀ key, types key -> types' key) :
    Persists nodes' types' before after :=
  ⟨persists.names,
    fun key view outside => persists.shows key view fun inside => outside (nodesWithin key inside),
    fun key view outside =>
      persists.showsType key view fun inside => outside (typesWithin key inside)⟩

lemma anywhere (persists : Persists nowhere nowhere before after) :
    Persists nodes types before after :=
  persists.mono (fun _ => False.elim) fun _ => False.elim

end Persists

namespace Alters

variable {nodes types nodes' types' : Key -> Prop} {before middle after : Store}

lemma refl (nodes types : Key -> Prop) (store : Store) : Alters nodes types store store :=
  ⟨Persists.refl nodes types store, rfl⟩

lemma trans (first : Alters nodes types before middle) (second : Alters nodes types middle after) :
    Alters nodes types before after :=
  ⟨first.toPersists.trans second.toPersists, second.equipment.trans first.equipment⟩

lemma mono (alters : Alters nodes types before after)
    (nodesWithin : ∀ key, nodes key -> nodes' key) (typesWithin : ∀ key, types key -> types' key) :
    Alters nodes' types' before after :=
  ⟨alters.toPersists.mono nodesWithin typesWithin, alters.equipment⟩

lemma anywhere (alters : Alters nowhere nowhere before after) : Alters nodes types before after :=
  ⟨alters.toPersists.anywhere, alters.equipment⟩

end Alters

section
variable {store : Store} {key : Key}

variable {keys : List (Option Key)} {more : Store}

section
variable (holds : store.HoldsNames keys)
  (same : ∀ (key : Key) (name : Identifier), store.names[key]? = some name -> more.names[key]? =
    some name)
include holds same

lemma Store.HoldsNames.kept : more.HoldsNames keys := by
  intro name listed key member
  have found := same key _ (Array.getElem?_eq_getElem (holds name listed key member))
  exact (Array.getElem?_eq_some_iff.mp found).1

/-- Names are read in the same way as before as long as the store keeps them. -/
lemma Store.HoldsNames.name?_eq : ∀ name ∈ keys, store.name? name = more.name? name := by
  intro name listed
  cases name with
  | none => rfl
  | some key =>
    have found := Array.getElem?_eq_getElem (holds _ listed key rfl)
    rw [Store.name?_of_getElem? found, Store.name?_of_getElem? (same key _ found)]

lemma Store.HoldsNames.map_name?_eq : keys.map more.name? = keys.map store.name? :=
  List.map_congr_left fun name listed => (holds.name?_eq same name listed).symm

end

/-- A store that keeps its names, and all but some of its definitions and field
types, persists outside of these. -/
lemma Persists.of_arrays {nodes types : Key -> Prop} {before after : Store}
    (names : ∀ (key : Key) (name : Identifier), before.names[key]? = some name ->
    after.names[key]? = some name)
    (kept : ∀ key : Key, ¬ nodes key -> ∀ node, before.nodes[key]? = some node ->
      after.nodes[key]? = some node)
    (keptTypes : ∀ key : Key, ¬ types key -> ∀ type, before.types[key]? = some type ->
      after.types[key]? = some type) : Persists nodes types before after := by
  refine ⟨names, ?_, ?_⟩
  · rintro key view outside ⟨node, found, holds, seen⟩
    refine ⟨node, kept key outside node found, holds.kept names, ?_⟩
    rw [← seen]
    exact (Node.view_congr (holds.name?_eq names)).symm
  · rintro key view outside ⟨type, found, holds, seen⟩
    refine ⟨type, keptTypes key outside type found, holds.kept names, ?_⟩
    rw [← seen, holds.name?_eq names _ mem_cons_self]

/-- What changes the equipment only leaves everything shown. -/
lemma Persists.of_equipment {before after : Store} (names : after.names = before.names)
    (nodes : after.nodes = before.nodes) (types : after.types = before.types) :
    Persists nowhere nowhere before after := by
  refine .of_arrays ?_ ?_ ?_
  · exact fun _ _ found => names ▸ found
  · exact fun _ _ _ found => nodes ▸ found
  · exact fun _ _ _ found => types ▸ found

lemma getElem?_push_of_some {α : Type} {items : Array α} {item last : α} {index : Nat}
    (found : items[index]? = some item) : (items.push last)[index]? = some item := by
  have inside := (Array.getElem?_eq_some_iff.mp found).1
  rw [getElem?_push, if_neg (Nat.ne_of_lt inside), found]

lemma yields_newName (name : Identifier) (store : Store) :
    Yields (newName name) store fun key after =>
      after.names[key]? = some name ∧ Alters nowhere nowhere store after := by
  refine ⟨_, _, rfl, getElem?_push_size, ?_, rfl⟩
  exact .of_arrays (fun _ _ => getElem?_push_of_some) (fun _ _ _ found => found)
    fun _ _ _ found => found

/-- Putting another definition in a place alters just that place. -/
lemma alters_setNode (store : Store) (key : Key) (node : Node) : Alters (· = key) nowhere store
      { store with nodes := store.nodes.setIfInBounds key node } := by
  refine ⟨Persists.of_arrays (fun _ _ found => found) ?_ fun _ _ _ found => found, rfl⟩
  intro place outside other found
  rw [getElem?_setIfInBounds_ne (Ne.symm outside), found]

lemma alters_setType (store : Store) (key : Key) (type : TypeNode) : Alters nowhere (· = key) store
      { store with types := store.types.setIfInBounds key type } := by
  refine ⟨Persists.of_arrays (fun _ _ found => found) (fun _ _ _ found => found) ?_, rfl⟩
  intro place outside other found
  rw [getElem?_setIfInBounds_ne (Ne.symm outside), found]

lemma shows_setNode (shows : store.Shows key view) (holds : store.HoldsNames node.nameKeys) :
    Store.Shows { store with nodes := store.nodes.setIfInBounds key node } key
      (node.view store.name?) := by
  refine ⟨node, ?_, holds, rfl⟩
  exact getElem?_setIfInBounds_self_of_lt shows.lt_size

lemma showsType_setType {view : TypeView} (shows : store.ShowsType key view) {type : TypeNode}
    (holds : store.HoldsNames [type.name]) :
    Store.ShowsType { store with types := store.types.setIfInBounds key type } key
      ⟨type.primitive, store.name? type.name, type.target⟩ := by
  rcases shows with ⟨other, found, _⟩
  have inside := (Array.getElem?_eq_some_iff.mp found).1
  exact ⟨type, getElem?_setIfInBounds_self_of_lt inside, holds, rfl⟩

end

end MessageSchema.Workbench

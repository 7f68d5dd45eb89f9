import MessageSchema.Proofs.Workbench.Changes
import MessageSchema.Proofs.Workbench.Entering
import MessageSchema.Proofs.Workbench.Parts

namespace MessageSchema.Workbench

open List

/-!
Resolving names on the workbench.

The stage reads the full name and the kind of what it finds in the symbol table off
the store.  Meanwhile no definition changes its name or its kind, so this is what a
compilation knows about the schema before the stage.
-/

/-- Besides, every definition has kept its name and its kind. -/
structure Revises (nodes types : Key -> Prop) (before after : Store) : Prop
    extends Alters nodes types before after where
  heads : ∀ key view, before.Shows key view -> ∃ other, after.Shows key other ∧
    other.name = view.name ∧ other.kind = view.kind

variable {view : NodeView}

namespace Revises

variable {nodes types nodes' types' : Key -> Prop} {before middle after : Store}

lemma refl (nodes types : Key -> Prop) (store : Store) : Revises nodes types store store :=
  ⟨Alters.refl _ _ store, fun _ view shows => ⟨view, shows, rfl, rfl⟩⟩

lemma trans (first : Revises nodes types before middle)
    (second : Revises nodes types middle after) : Revises nodes types before after := by
  refine ⟨first.toAlters.trans second.toAlters, ?_⟩
  intro key view shows
  rcases first.heads key view shows with ⟨other, shown, sameName, sameKind⟩
  rcases second.heads key other shown with ⟨last, shownLast, lastName, lastKind⟩
  exact ⟨last, shownLast, lastName.trans sameName, lastKind.trans sameKind⟩

lemma mono (revises : Revises nodes types before after)
    (nodesWithin : ∀ key, nodes key -> nodes' key) (typesWithin : ∀ key, types key -> types' key) :
    Revises nodes' types' before after :=
  ⟨revises.toAlters.mono nodesWithin typesWithin, revises.heads⟩

/-- A change of field types only. -/
lemma of_types (alters : Alters nowhere types before after) : Revises nowhere types before after :=
  ⟨alters, fun key view shows => ⟨view, alters.shows key view id shows, rfl, rfl⟩⟩

lemma of_node {key : Key} {other : NodeView} (alters : Alters (· = key) nowhere before after)
    (shows : before.Shows key view) (shown : after.Shows key other)
    (sameName : other.name = view.name) (sameKind : other.kind = view.kind) :
    Revises (· = key) nowhere before after := by
  refine ⟨alters, fun place found also => ?_⟩
  by_cases same : place = key
  · subst same
    rw [also.unique shows]
    exact ⟨other, shown, sameName, sameKind⟩
  · exact ⟨found, alters.shows place found same also, rfl, rfl⟩

end Revises

lemma framing_revises : Framing Revises where
  alters revises := revises.toAlters
  refl := Revises.refl
  trans := Revises.trans
  mono := Revises.mono
  leave {_ _ store after runner key} revises := by
    refine ⟨framing_alters.leave revises.toAlters, fun place view shows => ?_⟩
    have entered := (persists_enter store runner key).shows place view id shows
    rcases revises.heads place view entered with ⟨other, shown, same⟩
    exact ⟨other, (persists_leave after runner).shows place other id shown, same⟩

/-! ### Looking names up -/

/-- A reference to a definition in the store: its full name, and its place. -/
def resolvedName (place : Nat -> Nat) (reference : Reference) : TypeView :=
  ⟨none, some reference.name, some (place reference.symbol.handle)⟩

/-- The stage consults a symbol table, and the store shows the names and the kinds
of what the table leads to. -/
structure Consults (place : Nat -> Nat) (scope : Scope) (store : Store) (runner tableKey : Key) :
    Prop where
  inside : runner < store.runners.size
  isTable : (store.runner runner).table = tableKey
  table : store.table tableKey = scope.table.map place
  known : ∀ name symbol, scope.table.find? name = some symbol ->
    ∃ view, store.Shows (place symbol.handle) view ∧ view.name = some (scope.nameOf symbol) ∧
      view.kind = symbol.kind ∧ (scope.nameOf symbol).isBlank = false

section
variable {place : Nat -> Nat} {scope : Scope} {store : Store} {runner tableKey key : Key}

section
variable (consults : Consults place scope store runner tableKey)
include consults

lemma Consults.revises {nodes types : Key -> Prop} {after : Store}
    (revises : Revises nodes types store after) : Consults place scope after runner tableKey where
  inside := by
    rw [size_runners_of_equipment revises.equipment]
    exact consults.inside
  isTable := by
    rw [runner_of_equipment revises.equipment]
    exact consults.isTable
  table := by
    rw [table_of_equipment revises.equipment]
    exact consults.table
  known name symbol found := by
    rcases consults.known name symbol found with ⟨view, shows, named, kind, filled⟩
    rcases revises.heads _ view shows with ⟨other, shown, sameName, sameKind⟩
    exact ⟨other, shown, sameName.trans named, sameKind.trans kind, filled⟩

lemma Consults.enter (key : Key) :
    Consults place scope (store.enter runner key) runner tableKey where
  inside := by
    rw [Store.enter, Array.size_setIfInBounds]
    exact consults.inside
  isTable := by
    rw [runner_enter consults.inside]
    exact consults.isTable
  table := consults.table
  known name symbol found := by
    rcases consults.known name symbol found with ⟨view, shows, rest⟩
    exact ⟨view, (persists_enter store runner key).shows _ view id shows, rest⟩

variable {message : Identifier}

/-- Names are resolved to what a compilation resolves them to. -/
lemma Consults.resolve?_eq (named : store.id key = some message) (name : Identifier) :
    store.resolve? tableKey (some name) key =
      (scope.reference? name message).map fun found => found.symbol.map place := by
  rw [Store.resolve?, consults.table, named, SymbolTable.resolve?_map, Scope.reference?,
    Option.map_map]
  rfl

lemma Consults.reference {name : Identifier} {found : Reference}
    (refers : scope.reference? name message = some found) :
    ∃ view, store.Shows (place found.symbol.handle) view ∧ view.name = some found.name ∧
      view.kind = found.symbol.kind ∧ found.name.isBlank = false := by
  rcases Option.map_eq_some_iff.mp refers with ⟨symbol, resolved, same⟩
  rcases exists_of_findSome?_eq_some resolved with ⟨candidate, _, entry⟩
  rw [← same]
  exact consults.known candidate symbol entry

end

/-! ### Parents -/

variable {found : Reference} {field : Field Identifier}

lemma resolveParents_cons (message parent : Identifier) (rest : List Identifier)
    (refers : scope.reference? parent message = some found)
    (isMessage : found.symbol.kind = .message) : scope.resolveParents message (parent :: rest) =
      (scope.resolveParents message rest).map (found.name :: ·) := by
  rw [Scope.resolveParents, refers]
  simp only [isMessage, ne_eq, not_true_eq_false, if_false]
  cases scope.resolveParents message rest <;> rfl

lemma follows_resolveParents {announced : Bool} {declared : Option Identifier}
    {enums messages fields : List Key} (done : List Identifier) {remaining : List Identifier}
    {keys : List (Option Key)} (consults : Consults place scope store runner tableKey)
    (shows : store.Shows key (.message (some message) announced declared
      (done.map some ++ remaining.map some) enums messages fields)) (holds : store.HoldsNames keys)
    (read : keys.map store.name? = remaining.map some) :
    Follows (resolveParents tableKey key done.length keys) store
      (fun _ resolved after => after.Shows key (.message (some message) announced declared
          ((done ++ resolved).map some) enums messages fields) ∧
        Revises (· = key) nowhere store after) (scope.resolveParents message remaining) := by
  induction remaining generalizing store keys done with
  | nil =>
    cases List.map_eq_nil_iff.mp read
    refine .done rfl ⟨?_, Revises.refl _ _ store⟩
    rw [map_append]
    exact shows
  | cons parent rest ih =>
    rcases List.map_eq_cons_iff.mp read with ⟨parentKey, others, same, isParent, readRest⟩
    subst same
    have text : store.idText key = message.text := shows.idText
    have parentText : store.nameText parentKey = parent.text := by
      rw [Store.nameText, isParent]
      rfl
    rw [resolveParents]
    refine .get_bind ?_
    rw [isParent, consults.resolve?_eq shows.id parent]
    cases refers : scope.reference? parent message with
    | none =>
      rw [Scope.resolveParents, refers]
      simp only [Option.map_none, text, parentText]
      exact .fail _ _ _
    | some found =>
      rcases consults.reference refers with ⟨view, shown, named, kind, _⟩
      simp only [Option.map_some, Symbol.kind_map, Symbol.handle_map]
      by_cases isMessage : found.symbol.kind = .message
      · rw [resolveParents_cons message parent rest refers isMessage]
        simp only [isMessage, ne_eq, not_true_eq_false, if_false, shown.id, named,
          Option.getD_some]
        rw [← bind_assoc]
        refine .of_yields (yields_putParent shows found.name) ?_
        rintro _ middle ⟨shownMiddle, alters⟩
        have first : Revises (· = key) nowhere store middle :=
          Revises.of_node alters shows shownMiddle rfl rfl
        have kept := first.names
        have held : store.HoldsNames others := fun name listed =>
          holds name (mem_cons_of_mem _ listed)
        have step := ih (done ++ [found.name]) (consults.revises first) shownMiddle
          (held.kept kept) ((held.map_name?_eq kept).trans readRest)
        rw [length_append, length_singleton] at step
        refine step.map ?_
        rintro _ resolved after ⟨shownAfter, further⟩
        rw [List.append_assoc] at shownAfter
        exact ⟨shownAfter, first.trans further⟩
      · have mention : store.mention (place found.symbol.handle) =
            ⟨found.symbol.kind, found.name.text⟩ := by
          rw [Store.mention, shown.kind, kind, shown.idText, named]
          rfl
        rw [Scope.resolveParents, refers]
        simp only [ne_eq, isMessage, not_false_eq_true, if_true, text, mention]
        exact .failed rfl

/-! ### Fields -/

lemma yields_settleType {written : Identifier} {typeKey : Key}
    (shows : store.ShowsType typeKey (writtenName written))
    (shown : store.Shows (place found.symbol.handle) view) (kind : view.kind = found.symbol.kind)
    (filled : found.name.isBlank = false) :
    Yields (do
        let name ← newName found.name
        renameType typeKey (some name)
        resolveType typeKey (some (place found.symbol.handle))) store
      fun _ after => after.ShowsType typeKey (resolvedName place found) ∧
        Alters nowhere (· = typeKey) store after := by
  have fits : view.kind = .enum ∨ view.kind = .message := by
    rw [kind]
    cases found.symbol with
    | enum handle => exact .inl rfl
    | message handle => exact .inr rfl
  refine (yields_newName found.name store).bind ?_
  rintro nameKey more ⟨isName, added⟩
  refine (yields_renameType (added.showsType typeKey _ id shows) isName filled).bind ?_
  rintro _ middle ⟨renamed, first⟩
  have toMiddle := added.anywhere.trans first
  refine (yields_resolveType renamed (toMiddle.shows _ view id shown) fits).mono ?_
  rintro _ after ⟨resolved, second⟩
  exact ⟨resolved, toMiddle.trans second⟩

lemma follows_resolveFieldType {node : FieldNode}
    (consults : Consults place scope store runner tableKey) (named : store.id key = some message)
    (fieldName : store.fieldName node = field.name)
    (shows : store.ShowsType node.type (fieldTypeView writtenName field.type)) :
    Follows (resolveFieldType tableKey key node) store (fun _ type after =>
        after.ShowsType node.type (fieldTypeView (resolvedName place) type) ∧
          Revises nowhere (· = node.type) store after)
      (scope.resolveType message field.name field.type) := by
  refine .get_bind ?_
  cases isType : field.type with
  | primitive primitive =>
    rw [isType] at shows
    rcases shows.type with ⟨nameKey, found, _⟩
    simp only [found, Option.isNone_some, Bool.false_eq_true, if_false]
    exact .done rfl ⟨shows, Revises.refl _ _ store⟩
  | user written =>
    rw [isType] at shows
    rcases shows.type with ⟨nameKey, found, isName⟩
    simp only [found, Option.isNone_none, if_true, isName, consults.resolve?_eq named written]
    cases refers : scope.reference? written message with
    | none =>
      have text : store.idText key = message.text := by
        rw [Store.idText, named]
        rfl
      have nameText : store.nameText nameKey = written.text := by
        rw [Store.nameText, isName]
        rfl
      rw [Scope.resolveType, refers]
      simp only [Option.map_none, text, fieldName, nameText]
      exact .fail _ _ _
    | some reference =>
      rcases consults.reference refers with ⟨view, shown, isNamed, kind, filled⟩
      rw [Scope.resolveType, refers]
      simp only [Option.map_some, Symbol.handle_map, shown.id, isNamed, Option.getD_some]
      refine (yields_settleType shows shown kind filled).follows ?_
      rintro _ after ⟨resolved, alters⟩
      exact ⟨resolved, Revises.of_types alters⟩

lemma resolveField_of_inRange
    (inRange : (field.ordinal.filter fun ordinal => !Scope.ordinalInRange ordinal) = none) :
    scope.resolveField message field =
      (scope.resolveType message field.name field.type).map fun type =>
        ⟨field.name, type, field.modifiers, field.bounds, field.ordinal, field.default⟩ := by
  rw [Scope.resolveField, inRange]
  simp only
  cases scope.resolveType message field.name field.type <;> rfl

lemma follows_visitResolve_field {site : Site (Field Identifier)} {outer : Key} {stack : List Key}
    {depth : Nat} (consults : Consults place scope store runner tableKey)
    (stacked : store.stackOf runner = site.key :: outer :: stack)
    (named : store.id outer = some message) (shows : ShowsField writtenName store site)
    (deep : site.key < depth) : Follows (visitResolve runner depth site.key) store
      (fun _ field after => Replaces (ShowsField (resolvedName place)) after site field ∧
        Revises site.Covers site.CoversType store after)
      (scope.resolveField message site.item) := by
  cases depth with
  | zero => omega
  | succ depth =>
    rcases shows.node.field with ⟨nameKey, isField, isName⟩
    have fieldName := fieldName_of_single isName site.typeStart site.item.modifiers
      site.item.bounds site.item.ordinal site.item.default
    rw [visitResolve]
    refine .get_bind ?_
    rw [key_field] at stacked ⊢
    simp only [isField, stacked, consults.isTable]
    cases range : site.item.ordinal.filter fun ordinal => !Scope.ordinalInRange ordinal with
    | some ordinal =>
      have text : store.idText outer = message.text := by
        rw [Store.idText, named]
        rfl
      rw [Scope.resolveField, range]
      simp only [getElem?_cons_succ, getElem?_cons_zero, Option.map_some,
        Option.getD_some, text, fieldName]
      exact .fail _ _ _
    | none =>
      rw [resolveField_of_inRange range]
      refine (follows_resolveFieldType consults named fieldName shows.type).map ?_
      rintro _ type after ⟨resolved, revises⟩
      have inside : site.CoversType site.typeStart :=
        ⟨Nat.le_refl _, Nat.lt_succ_self _⟩
      refine ⟨⟨⟨revises.shows _ _ id shows.node, resolved⟩, rfl, rfl⟩, revises.mono ?_ ?_⟩
      · exact fun _ => False.elim
      · exact fun key same => same ▸ inside

/-! ### Messages -/

section
open MessageSchema (Message)

lemma resolveMessage_defined (name : MessageName) (parents : List Identifier)
    (enums : List EnumDecl) (messages : List (Message Identifier))
    (fields : List (Field Identifier)) :
    scope.resolveMessage (.defined name parents enums messages fields) =
      (scope.resolveParents name.current parents).bind fun parents =>
        (messages.mapM scope.resolveMessage).bind fun messages =>
          (fields.mapM (scope.resolveField name.current)).map fun fields =>
            .defined name parents enums messages fields := by
  rw [Scope.resolveMessage, Scope.resolveMessages_eq_mapM, Scope.resolveFields_eq_mapM]
  cases scope.resolveParents name.current parents with
  | error error => rfl
  | ok parents =>
    cases messages.mapM scope.resolveMessage with
    | error error => rfl
    | ok messages => cases fields.mapM (scope.resolveField name.current) <;> rfl

variable {depth start typeStart root : Nat} {stack : List Key}

/-- A visit resolves the message at a site. -/
def ResolvesAt (place : Nat -> Nat) (scope : Scope) (runner tableKey : Key) (depth : Nat)
    (stack : List Key) (site : Site (Message Identifier)) : Prop :=
  ∀ store, Consults place scope store runner tableKey -> store.stackOf runner = site.key :: stack ->
    ShowsMessage writtenName store site ->
    Follows (visitResolve runner depth site.key) store
      (fun _ message after => Replaces (ShowsMessage (resolvedName place)) after site message ∧
        Revises site.Covers site.CoversType store after)
      (scope.resolveMessage site.item)

lemma follows_visitResolve_parts {places : Places} {name : MessageName}
    {parents : List Identifier} {enums : List EnumDecl} {messages : List (Message Identifier)}
    {fields : List (Field Identifier)} (consults : Consults place scope store runner tableKey)
    (parts : Parts (ShowsMessage writtenName) (ShowsField writtenName) store store places enums
      messages fields (places.view name (parents.map some) enums messages fields))
    (inner : ∀ site ∈ sitesFrom places.messages places.types messages,
      ResolvesAt place scope runner tableKey depth (places.own :: stack) site)
    (stacked : store.stackOf runner = places.own :: stack) (deep : places.own <= depth) :
    Follows (visitResolve runner (depth + 1) places.own) store
      (fun _ message after => ∃ parents messages fields,
        message = .defined name parents enums messages fields ∧
        Parts (ShowsMessage (resolvedName place)) (ShowsField (resolvedName place)) store after
          places enums messages fields (places.view name (parents.map some) enums messages fields) ∧
        Revises places.Covers places.CoversType store after)
      (scope.resolveMessage (.defined name parents enums messages fields)) := by
  rcases parts.fill with ⟨atMessages, atFields, atOwn, atFieldTypes, atEnd⟩
  have holds := parts.node.holdsNames
  rcases parts.node.message with ⟨nameKey, parentKeys, isMessage, _, read⟩
  rw [isMessage] at holds
  have held : store.HoldsNames parentKeys := fun name listed =>
    holds name (mem_cons_of_mem _ listed)
  rw [visitResolve, resolveMessage_defined]
  refine .get_bind ?_
  simp only [isMessage, consults.isTable]
  -- the parents
  refine (follows_resolveParents [] consults parts.node held read).bind ?_
  rintro _ resolvedParents first ⟨shownNode, revisesNode⟩
  replace parts := parts.after_node lasting_showsMessage lasting_showsField shownNode
    revisesNode.toPersists
  have toFirst : Revises places.Covers places.CoversType store first :=
    revisesNode.mono (fun key same => same ▸ ⟨by omega, Nat.lt_succ_self _⟩) fun _ => False.elim
  have consultsFirst := consults.revises toFirst
  -- the messages
  have lastingMessage : Lasting (ShowsMessage (resolvedName place)) := lasting_showsMessage
  refine (framing_revises.follows_row lasting_showsMessage lastingMessage consultsFirst.inside ?_
    parts.ownMessages).bind ?_
  · rintro site listed middle _ rfl revises stackedSite shows
    rw [stackOf_of_equipment toFirst.equipment, stacked] at stackedSite
    exact inner site listed _ ((consultsFirst.revises revises).enter site.key) stackedSite shows
  rintro _ resolvedMessages second ⟨⟨messagesShown, sameMessages⟩, revisesMessages⟩
  replace parts := parts.after_messages lasting_showsField messagesShown sameMessages
    revisesMessages.toPersists
  have toSecond := toFirst.trans (revisesMessages.mono (Stretch.mono (by omega) (by omega))
    (Stretch.mono (Nat.le_refl _) (by omega)))
  have consultsSecond := consults.revises toSecond
  -- the fields
  have lastingField : Lasting (ShowsField (resolvedName place)) := lasting_showsField
  refine (framing_revises.follows_row lasting_showsField lastingField consultsSecond.inside ?_
    parts.ownFields).map ?_
  · rintro site listed middle _ rfl revises stackedSite shows
    have below := key_lt_of_mem_sitesFrom listed
    rw [stackOf_of_equipment toSecond.equipment, stacked] at stackedSite
    rcases revises.heads _ _ parts.node with ⟨other, shownOther, sameName, _⟩
    have entered := (persists_enter middle runner site.key).shows _ other id shownOther
    exact follows_visitResolve_field ((consultsSecond.revises revises).enter site.key) stackedSite
      (entered.id.trans sameName) shows (by omega)
  rintro _ resolvedFields after ⟨⟨fieldsShown, sameFields⟩, revisesFields⟩
  replace parts := parts.after_fields lasting_showsMessage fieldsShown sameFields
    revisesFields.toPersists
  refine ⟨resolvedParents, resolvedMessages, resolvedFields, rfl, ?_, ?_⟩
  · rw [Places.view, sameMessages.keys, sameFields.keys]
    exact parts
  · exact toSecond.trans (revisesFields.mono (Stretch.mono (by omega) (by omega))
      (Stretch.mono (by omega) (by omega)))

lemma resolvesAt_message {message : Message Identifier}
    (deep : Site.key ⟨start, typeStart, message⟩ < depth) :
    ResolvesAt place scope runner tableKey depth stack ⟨start, typeStart, message⟩ := by
  induction message using Message.nestedInduction generalizing start typeStart stack depth with
  | external name =>
    intro store _ _ shows
    cases depth with
    | zero => omega
    | succ depth =>
      cases shows with
      | external node =>
      rcases node.message with ⟨nameKey, parentKeys, isMessage, _, read⟩
      cases List.map_eq_nil_iff.mp read
      rw [visitResolve]
      refine .get_bind ?_
      rw [key_external, isMessage, Scope.resolveMessage]
      exact .done rfl ⟨⟨.external node, rfl, rfl⟩, Revises.refl _ _ store⟩
  | defined name parents enums messages fields ih =>
    intro store consults stacked shows
    cases depth with
    | zero => omega
    | succ depth =>
      have parts := shows.parts
      rw [key_placesFrom] at stacked deep
      rw [covers_defined, coversType_defined, key_placesFrom]
      refine (follows_visitResolve_parts consults parts ?_ stacked
        (Nat.le_of_lt_succ deep)).mono ?_
      · intro site listed
        rcases parts.fill with ⟨_, atFields, atOwn, _, _⟩
        have below := key_lt_of_mem_sitesFrom listed
        exact ih site.item (item_mem_of_mem_sitesFrom listed) (show site.key < depth by omega)
      · rintro _ resolved after ⟨newParents, newMessages, newFields, rfl, done, revises⟩
        rcases parts.fill with ⟨_, atFields, atOwn, atFieldTypes, atEnd⟩
        rcases done.fill with ⟨_, toFields, toOwn, toFieldTypes, toEnd⟩
        refine ⟨⟨done.showsMessage, ?_, ?_⟩, revises⟩
        · rw [nodes_defined, nodes_defined]
          omega
        · rw [types_defined, types_defined]
          omega

/-! ### The run of the stage -/

/-- Only messages of the schema are visited. -/
lemma follows_ifMessage_resolve {site : Site (TypeDecl Identifier)}
    (consults : Consults place scope store runner tableKey)
    (shows : ShowsDecl writtenName store site) (stacked : store.stackOf runner = stack)
    (deep : site.key < depth) :
    Follows (ifMessage (walk runner (visitResolve runner depth)) site.key) store
      (fun _ resolved after => Replaces (ShowsDecl (resolvedName place)) after site resolved ∧
        Revises site.Covers site.CoversType store after) (scope.resolveDecl site.item) := by
  refine .get_bind ?_
  rcases shows.shows with ⟨view, node, _, kind⟩
  rw [node.kind, kind]
  rcases site with ⟨start, typeStart, decl | decl⟩
  · cases shows with
    | enum shows => exact .done rfl ⟨⟨.enum shows, rfl, rfl⟩, Revises.refl _ _ store⟩
  · cases shows with
    | message shows =>
      have entered : ShowsMessage writtenName
          (store.enter runner (Site.key ⟨start, typeStart, decl⟩)) ⟨start, typeStart, decl⟩ :=
        lasting_showsMessage.lasts (persists_enter store runner _) shows
      have inner : (store.enter runner (Site.key ⟨start, typeStart, decl⟩)).stackOf runner =
          Site.key ⟨start, typeStart, decl⟩ :: stack := by
        rw [stackOf_enter consults.inside, stacked]
      refine (framing_revises.follows_walk lasting_showsMessage.replaces
        (resolvesAt_message deep _ (consults.enter _) inner entered)).map ?_
      rintro _ resolved after ⟨⟨shown, same⟩, revises⟩
      exact ⟨⟨.message shown, same.nodes, same.types⟩, revises⟩

variable {sites : List (Site (TypeDecl Identifier))} {table : SymbolTable Nat}

lemma follows_visitResolve_root (consults : Consults place scope store runner tableKey)
    (shows : ShowsFlat writtenName store root sites) (stacked : store.stackOf runner = [root])
    (deep : root < depth) : Follows (visitResolve runner depth root) store
      (fun _ resolved after => Become (ShowsDecl (resolvedName place)) after sites resolved ∧
        Alters (Covered sites) (CoveredTypes sites) store after)
      (scope.resolveTypes (sites.map Site.item)) := by
  cases depth with
  | zero => omega
  | succ depth =>
    rcases shows.node.scope with ⟨nameKey, isScope, _⟩
    rw [visitResolve, Scope.resolveTypes_eq_mapM]
    refine .get_bind ?_
    simp only [isScope]
    refine .of_yields (yields_checkFlat .resolve shows.node stacked) ?_
    intro _ after same
    rw [same]
    have lastingShown : Lasting (ShowsDecl (resolvedName place)) := lasting_showsDecl
    rw [forM_eq_forM, forM_map]
    refine (framing_revises.follows_sites lasting_showsDecl lastingShown shows.apart ?_
      shows.types).mono ?_
    · intro site listed middle revises showsSite
      have below := shows.below site listed
      have covered := site.covers_key.2
      have stackedMiddle : middle.stackOf runner = [root] := by
        rw [stackOf_of_equipment revises.equipment, stacked]
      exact follows_ifMessage_resolve (consults.revises revises) showsSite stackedMiddle (by omega)
    · rintro _ resolved after ⟨become, revises⟩
      exact ⟨become, revises.toAlters⟩

lemma sameLayout_of_resolveMessage {message : Message Identifier} {resolved : Message Reference}
    (done : scope.resolveMessage message = .ok resolved) : SameLayout message resolved := by
  induction message using Message.nestedInduction generalizing resolved with
  | external name =>
    rw [Scope.resolveMessage] at done
    cases done
    exact .external name name
  | defined name parents enums messages fields ih =>
    rcases (scope.resolveMessage_defined_eq_ok_iff _ _ _ _ _ _).mp done with
      ⟨newParents, newMessages, newFields, _, doneMessages, doneFields, rfl⟩
    have all := (scope.resolveMessages_eq_ok_iff _ _).mp doneMessages
    have allFields := (scope.resolveFields_eq_ok_iff _ _ _).mp doneFields
    refine .defined rfl ?_ allFields.length_eq.symm
    rw [forall₂_iff_get] at all ⊢
    refine ⟨all.1, fun index first second => ?_⟩
    exact ih _ (get_mem _ _) (all.2 index first second)

lemma sameLayout_of_resolve {types : List (TypeDecl Identifier)}
    {resolved : List (TypeDecl Reference)} (done : scope.resolveTypes types = .ok resolved) :
    List.Forall₂ SameDeclLayout types resolved := by
  refine ((scope.resolveTypes_eq_ok_iff _ _).mp done).imp fun type result step => ?_
  rcases type with decl | decl
  · cases step
    exact .enum decl decl
  · rw [Scope.resolveDecl] at step
    cases outcome : scope.resolveMessage decl with
    | error error =>
      rw [outcome] at step
      cases step
    | ok message =>
      rw [outcome] at step
      cases step
      exact .message (sameLayout_of_resolveMessage outcome)

lemma isBlank_of_proper {name : Identifier} (proper : name.Proper) : name.isBlank = false := by
  have notEmpty : name.segments ≠ [""] := by
    intro same
    exact (proper.clean "" (by rw [same]; exact List.mem_singleton.mpr rfl)).1 rfl
  rw [Identifier.isBlank, beq_eq_false_iff_ne.mpr proper.some, beq_eq_false_iff_ne.mpr notEmpty]
  rfl

lemma consults_of_showsFlat {ρ : Type} {typed : ρ -> TypeView} {sites : List (Site (TypeDecl ρ))}
    (shows : ShowsFlat typed store root sites)
    (indexes : table.Indexes (definitionsOf (sites.map Site.item)))
    (inside : runner < store.runners.size) (isTable : (store.runner runner).table = tableKey)
    (isFilled : store.table tableKey = table.map (keyOf sites)) :
    Consults (keyOf sites) (Scope.of (sites.map Site.item) table) store runner tableKey where
  inside := inside
  isTable := isTable
  table := isFilled
  known name symbol found := by
    rcases indexes.definition_of_find? found with ⟨type, listed, kind, _⟩
    rcases shows.of_handle listed with ⟨site, shown, same, isPlace⟩
    rcases shown.shows with ⟨view, node, named, sameKind⟩
    rw [isPlace, Scope.nameOf_of listed]
    refine ⟨view, node, ?_, ?_,
      isBlank_of_proper (indexes.proper type (mem_of_getElem? listed))⟩
    · rw [named, same]
    · rw [sameKind, same, kind]

/-- The stage resolves the schema, or fails as the compilation does. -/
lemma follows_run_resolve (shows : ShowsFlat writtenName store root sites)
    (indexes : table.Indexes (definitionsOf (sites.map Site.item)))
    (inside : runner < store.runners.size) (isTable : (store.runner runner).table = tableKey)
    (isFilled : store.table tableKey = table.map (keyOf sites))
    (isStage : (store.runner runner).stage = .resolve) : Follows (run runner root) store
      (fun _ resolved after => ∃ others, others.map Site.item = resolved ∧
        keyOf others = keyOf sites ∧ ShowsFlat (resolvedName (keyOf others)) after root others ∧
        after.equipment = (store.clearRunner runner).equipment)
      (resolve (sites.map Site.item) table) := by
  have started := shows.lasts (persists_start store runner root)
  have current := runner_start inside root
  have atWork : runner < (store.start runner root).runners.size :=
    lt_size_of_stackOf (stackOf_start inside root)
  have consults := consults_of_showsFlat started indexes atWork
    (by rw [current]; exact isTable) isFilled
  have asResolve : (visitAs runner root).run (store.start runner root) =
      (visitResolve runner (store.start runner root).depth root).run (store.start runner root) := by
    rw [visitAs, run_get_bind, current]
    simp only [Runner.cleared, isStage]
  have visited := follows_visitResolve_root consults started (stackOf_start inside root)
    (Nat.lt_succ_of_lt started.node.lt_size)
  have lasts : ∀ (resolved : List (TypeDecl Reference)) (before after : Store),
      Persists nowhere nowhere before after ->
      Become (ShowsDecl (resolvedName (keyOf sites))) before sites resolved ->
      Become (ShowsDecl (resolvedName (keyOf sites))) after sites resolved := by
    intro resolved before after persists become
    refine become.imp fun site item shown => ⟨?_, shown.2⟩
    exact lasting_showsDecl.lasts persists shown.1
  refine (follows_run_altering inside (.inr (.inr isStage)) lasts
    (Follows.of_run asResolve visited)).mono_ok ?_
  rintro _ resolved after done ⟨become, persists, equipment⟩
  have sameKeys := keyOf_putAll (sameLayout_of_resolve done)
  refine ⟨putAll sites resolved, become.map_item, sameKeys, ?_, equipment⟩
  rw [sameKeys]
  refine shows.become become (persists.shows _ _ ?_ shows.node)
  rintro ⟨site, listed, covers⟩
  exact Nat.not_lt.mpr (shows.below site listed) covers.2

/-! ### What has been resolved -/

/-- A reference leads to a definition of its name and kind. -/
def Store.Meets (store : Store) (place : Nat -> Nat) (reference : Reference) : Prop :=
  ∃ view, store.Shows (place reference.symbol.handle) view ∧ view.name = some reference.name ∧
    view.kind = reference.symbol.kind

/-- The references of a message lead to definitions of their names and kinds. -/
def Store.MeetsAll (store : Store) (place : Nat -> Nat) (message : Message Reference) : Prop :=
  ∀ field ∈ message.fields, ∀ reference, field.type = .user reference -> store.Meets place reference

section
variable {reference : Reference} {message : Message Reference}

lemma Store.Meets.lasts {types : Key -> Prop} {after : Store}
    (meets : store.Meets place reference) (persists : Persists nowhere types store after) :
    after.Meets place reference := by
  rcases meets with ⟨view, shows, named, kind⟩
  exact ⟨view, persists.shows _ _ not_false shows, named, kind⟩

lemma Store.MeetsAll.lasts {types : Key -> Prop} {after : Store}
    (meets : store.MeetsAll place message) (persists : Persists nowhere types store after) :
    after.MeetsAll place message := fun field listed reference isType =>
  (meets field listed reference isType).lasts persists

/-- What leads to a definition of the schema leads to its place in the store. -/
lemma meetsAll_of_leads {typed : Reference -> TypeView}
    {sites : List (Site (TypeDecl Reference))} (shows : ShowsFlat typed store root sites)
    {decl : Message Reference} (leads : decl.Leads (definitionsOf (sites.map Site.item))) :
    store.MeetsAll (keyOf sites) decl := by
  intro field listed reference isType
  rcases leads field listed reference isType with ⟨owner, place, sameId, kind⟩
  rcases shows.of_handle place with ⟨site, shown, isOwner, isKey⟩
  rcases shown.shows with ⟨view, node, named, sameKind⟩
  rw [Store.Meets, isKey]
  refine ⟨view, node, ?_, ?_⟩
  · rw [named, isOwner, sameId]
  · rw [sameKind, isOwner, kind]

end

end

end

end MessageSchema.Workbench

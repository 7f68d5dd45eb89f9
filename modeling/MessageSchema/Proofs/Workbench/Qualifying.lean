import MessageSchema.Proofs.Compile.Placement
import MessageSchema.Proofs.Workbench.Changes
import MessageSchema.Proofs.Workbench.Parts
import MessageSchema.Proofs.Workbench.Running

namespace MessageSchema.Workbench

open List

/-!
Qualifying on the workbench.

The scope of a definition is given by the names on the stack.  A definition is
renamed only after what it holds, so these are still the written ones.
-/

variable {α : Type} {document : Document} {name : Identifier} {key : Key} {view : NodeView}

/-- The definitions on a stack enclose a scope.  The schema itself, which has no
name, adds nothing to it. -/
inductive Encloses (store : Store) : List Key -> Identifier -> Prop
  | outermost : Encloses store [] .outermost
  | anonymous {key : Key} {content : List Key} {stack : List Key} {scope : Identifier}
      (shows : store.Shows key (.scope none content)) (around : Encloses store stack scope) :
      Encloses store (key :: stack) scope
  | named {key : Key} {view : NodeView} {name : Identifier} {stack : List Key}
      {scope : Identifier} (shows : store.Shows key view) (isNamed : view.name = some name)
      (around : Encloses store stack scope) :
      Encloses store (key :: stack) (scope.append name)

namespace Encloses

variable {store : Store} {stack : List Key} {scope : Identifier}

lemma persists {after : Store} {nodes types : Key -> Prop} (encloses : Encloses store stack scope)
    (persists : Persists nodes types store after) (outside : ∀ key ∈ stack, ¬ nodes key) :
    Encloses after stack scope := by
  induction encloses with
  | outermost => exact .outermost
  | anonymous shows around ih =>
    exact .anonymous (persists.shows _ _ (outside _ mem_cons_self) shows)
      (ih fun key listed => outside key (mem_cons_of_mem _ listed))
  | named shows isNamed around ih =>
    exact .named (persists.shows _ _ (outside _ mem_cons_self) shows) isNamed
      (ih fun key listed => outside key (mem_cons_of_mem _ listed))

lemma foldl_names (encloses : Encloses store stack scope) :
    (stack.reverse.filterMap store.id).foldl Identifier.append .outermost = scope := by
  induction encloses with
  | outermost => rfl
  | anonymous shows around ih =>
    rw [reverse_cons, filterMap_append, foldl_append, ih, filterMap_cons,
      shows.id]
    rfl
  | named shows isNamed around ih =>
    rw [reverse_cons, filterMap_append, foldl_append, ih, filterMap_cons,
      shows.id, isNamed]
    rfl

lemma qualifiedName (encloses : Encloses store stack scope)
    (shows : store.Shows key view) (isNamed : view.name = some name) :
    store.qualifiedName (key :: stack) = some (scope.append name) := by
  have folded := (Encloses.named shows isNamed encloses).foldl_names
  rw [Store.qualifiedName]
  cases names : (key :: stack).reverse.filterMap store.id with
  | nil =>
    rw [reverse_cons, filterMap_append, filterMap_cons, shows.id, isNamed] at names
    simp at names
  | cons first rest =>
    rw [names, foldl_cons] at folded
    simp only
    exact congrArg some folded

end Encloses

lemma yields_qualifyDefinition {store : Store} {runner : Key} {stack : List Key}
    {scope : Identifier} (shows : store.Shows key view)
    (isNamed : view.name = some name) (stacked : store.stackOf runner = key :: stack)
    (encloses : Encloses store stack scope) :
    Yields (qualifyDefinition runner key) store fun _ after =>
      after.Shows key (view.withName (some (scope.append name))) ∧
        Alters (· = key) nowhere store after := by
  refine (yields_checkNamed .rename shows (by rw [isNamed]; rfl)).bind ?_
  rintro _ _ rfl
  refine .get_bind ?_
  rw [stacked, encloses.qualifiedName shows isNamed]
  refine (yields_newName _ _).bind ?_
  rintro place middle ⟨found, first⟩
  refine (yields_renameDefinition (first.shows key view id shows) (by rw [isNamed]; rfl) found).mono
    ?_
  rintro _ after ⟨shown, second⟩
  exact ⟨shown, first.anywhere.trans second⟩

/-! ### Names do not change the extent -/

section
open MessageSchema (Message)

lemma sameExtent_enum (decl other : EnumDecl) : SameExtent decl other :=
  ⟨rfl, rfl⟩

lemma sameExtent_qualify_message (scope : Identifier) (message : Message Identifier) :
    SameExtent message (message.qualify scope) := by
  induction message using Message.nestedInduction generalizing scope with
  | external name => exact ⟨rfl, rfl⟩
  | defined name parents enums messages fields ih =>
    have same := fun inner listed => ih inner listed (scope.append name.current)
    rw [Message.qualify, Message.qualifyAll_eq_map]
    constructor
    · rw [nodes_defined, nodes_defined, nodesOf_map same,
        nodesOf_map fun decl _ => sameExtent_enum decl _]
    · rw [types_defined, types_defined, typesOf_map same]

end

lemma sameExtent_qualify_decl (scope : Identifier) (decl : TypeDecl Identifier) :
    SameExtent decl (decl.qualify scope) := by
  cases decl with
  | enum decl => exact ⟨rfl, rfl⟩
  | message decl =>
    have same := sameExtent_qualify_message scope decl
    exact ⟨same.nodes, same.types⟩

lemma sameExtent_qualify_declaration (scope : Identifier) (declaration : Declaration) :
    SameExtent declaration (declaration.qualify scope) := by
  induction declaration using Declaration.nestedInduction generalizing scope with
  | type decl =>
    have same := sameExtent_qualify_decl scope decl
    exact ⟨same.nodes, same.types⟩
  | scope name content ih =>
    have same := fun inner listed => ih inner listed (scope.append name)
    rw [Declaration.qualify, Declaration.qualifyAll_eq_map]
    constructor
    · rw [nodes_scope, nodes_scope, nodesOf_map same]
    · rw [types_scope, types_scope, typesOf_map same]

/-! ### Visits -/

section
open MessageSchema (Message)
variable {store : Store} {runner : Key} {stack : List Key} {scope : Identifier} {depth : Nat}
  {start typeStart : Nat}

/-- A visit gives what lies at a site its full name, in the scope that the stack
around it encloses. -/
def QualifiesAt [Extent α] (shows : Store -> Site α -> Prop) (runner : Key) (depth : Nat)
    (stack : List Key) (scope : Identifier) (site : Site α) (qualified : α) : Prop :=
  ∀ store, store.stackOf runner = site.key :: stack -> Encloses store stack scope ->
    (∀ key ∈ stack, ¬ site.Covers key) -> shows store site ->
    Yields (visitRename runner depth site.key) store fun _ after =>
      shows after (site.put qualified) ∧ Alters site.Covers site.CoversType store after

lemma yields_forM_visitRename [Extent α] {shows : Store -> Site α -> Prop}
    {items : List α} (qualify : α -> α) (lasting : Lasting shows)
    (same : ∀ item ∈ items, SameExtent item (qualify item))
    (visited : ∀ site ∈ sitesFrom start typeStart items,
      QualifiesAt shows runner depth stack scope site (qualify site.item))
    (inside : runner < store.runners.size) (stacked : store.stackOf runner = stack)
    (encloses : Encloses store stack scope)
    (outside : ∀ key ∈ stack, ¬ Stretch start (start + nodesOf items) key)
    (shown : ∀ site ∈ sitesFrom start typeStart items, shows store site) :
    Yields ((keysFrom start items).forM (walk runner (visitRename runner depth))) store
      fun _ after => BecomeRow shows after start typeStart items (items.map qualify) ∧
        Alters (Stretch start (start + nodesOf items))
          (Stretch typeStart (typeStart + typesOf items)) store after := by
  have row : Follows ((keysFrom start items).forM (walk runner (visitRename runner depth))) store _
      (items.mapM fun item => pure (qualify item)) :=
    framing_alters.follows_row lasting lasting inside ?_ shown
  · rw [mapM_pure] at row
    exact row.yields
  · rintro site listed middle _ rfl alters stackedSite showsSite
    rw [stacked] at stackedSite
    have around := (encloses.persists alters.toPersists outside).persists
      (persists_enter middle runner site.key) fun _ _ => id
    have apart : ∀ key ∈ stack, ¬ site.Covers key := fun key member covers =>
      outside key member (stretch_of_covered ⟨site, listed, covers⟩)
    refine (visited site listed _ stackedSite around apart showsSite).follows ?_
    rintro _ after ⟨showsItem, further⟩
    exact ⟨⟨showsItem, same _ (item_mem_of_mem_sitesFrom listed)⟩, further⟩

/-- A definition that holds a row lies behind it, and so does all around it. -/
lemma outside_cons {first last lower upper own : Nat}
    (outside : ∀ key ∈ stack, ¬ Stretch lower upper key) (behind : last <= own)
    (least : lower <= first) (largest : last <= upper) :
    ∀ key ∈ own :: stack, ¬ Stretch first last key := by
  intro key listed covers
  rcases List.mem_cons.mp listed with rfl | listed
  · exact Nat.not_lt.mpr behind covers.2
  · exact outside key listed (Stretch.mono least largest key covers)

lemma qualifiesAt_enum {site : Site EnumDecl} (deep : site.key < depth) :
    QualifiesAt ShowsEnum runner depth stack scope site (site.item.qualify scope) := by
  intro store stacked encloses _ shows
  cases depth with
  | zero => omega
  | succ depth =>
    rcases shows.enum with ⟨node, isEnum, _⟩
    rw [visitRename]
    refine .get_bind ?_
    rw [key_enum, isEnum]
    refine (yields_qualifyDefinition shows rfl stacked encloses).mono ?_
    rintro _ after ⟨shown, alters⟩
    exact ⟨shown, alters.mono (fun key same => same ▸ site.covers_key) fun _ => False.elim⟩

/-- The parts of a message get their full names, and then the message itself. -/
lemma yields_visitRename_parts {places : Places} {name : MessageName}
    {parents : List (Option Identifier)} {enums : List EnumDecl}
    {messages : List (Message Identifier)} {fields : List (Field Identifier)} {inner : Identifier}
    (isInner : inner = scope.append name.current)
    (parts : Parts (ShowsMessage writtenName) (ShowsField writtenName) store store places enums
      messages fields (places.view name parents enums messages fields))
    (nested : ∀ site ∈ sitesFrom places.messages places.types messages,
      QualifiesAt (ShowsMessage writtenName) runner depth (places.own :: stack) inner site
        (site.item.qualify inner))
    (stacked : store.stackOf runner = places.own :: stack) (encloses : Encloses store stack scope)
    (outside : ∀ key ∈ stack, ¬ places.Covers key) (deep : places.own <= depth) :
    Yields (visitRename runner (depth + 1) places.own) store fun _ after =>
      Parts (ShowsMessage writtenName) (ShowsField writtenName) store after places
        (enums.map (EnumDecl.qualify inner)) (messages.map (Message.qualify inner)) fields
        (places.view (name.qualify scope) parents (enums.map (EnumDecl.qualify inner))
          (messages.map (Message.qualify inner)) fields) ∧ after.equipment = store.equipment := by
  subst isInner
  have inside := lt_size_of_stackOf stacked
  rcases parts.fill with ⟨atMessages, atFields, atOwn, _, _⟩
  rcases parts.node.message with ⟨nameKey, parentKeys, isMessage, _, _⟩
  rw [visitRename]
  refine .get_bind ?_
  simp only [isMessage]
  -- the enums
  refine (yields_forM_visitRename (EnumDecl.qualify (scope.append name.current))
    lasting_showsEnum (fun decl _ => sameExtent_enum decl _) ?_ inside stacked
    (.named parts.node rfl encloses) ?_ parts.ownEnums).bind ?_
  · intro site listed
    have below := key_lt_of_mem_sitesFrom listed
    exact qualifiesAt_enum (by omega)
  · exact outside_cons outside (by omega) (Nat.le_refl _) (by omega)
  rintro _ middle ⟨⟨enumsShown, sameEnums⟩, first⟩
  replace parts := parts.after_enums lasting_showsMessage lasting_showsField enumsShown sameEnums
    first.toPersists
  -- the messages
  have stackedMiddle : middle.stackOf runner = places.own :: stack := by
    rw [stackOf_of_equipment first.equipment, stacked]
  refine (yields_forM_visitRename (Message.qualify (scope.append name.current))
    lasting_showsMessage (fun message _ => sameExtent_qualify_message _ message) nested
    (lt_size_of_stackOf stackedMiddle) stackedMiddle
    (.named parts.node rfl (encloses.persists parts.persists outside))
    (outside_cons outside (by omega) (by omega) (by omega)) parts.ownMessages).bind ?_
  rintro _ further ⟨⟨messagesShown, sameMessages⟩, second⟩
  replace parts := parts.after_messages lasting_showsField messagesShown sameMessages
    second.toPersists
  -- the message itself
  have stackedFurther : further.stackOf runner = places.own :: stack := by
    rw [stackOf_of_equipment second.equipment, stackedMiddle]
  refine (yields_qualifyDefinition parts.node rfl stackedFurther
    (encloses.persists parts.persists outside)).mono ?_
  rintro _ after ⟨shown, third⟩
  rw [Places.view, sameEnums.keys, sameMessages.keys]
  exact ⟨parts.after_node lasting_showsMessage lasting_showsField shown third.toPersists,
    third.equipment.trans (second.equipment.trans first.equipment)⟩

lemma qualifiesAt_message {message : Message Identifier}
    (deep : Site.key ⟨start, typeStart, message⟩ < depth) :
    QualifiesAt (ShowsMessage writtenName) runner depth stack scope ⟨start, typeStart, message⟩
      (message.qualify scope) := by
  induction message using Message.nestedInduction generalizing start typeStart stack scope depth
    with
  | external name =>
    intro store stacked encloses _ shows
    cases depth with
    | zero => omega
    | succ depth =>
      cases shows with
      | external node =>
      rcases node.message with ⟨nameKey, parentKeys, isMessage, _, _⟩
      rw [visitRename]
      refine .get_bind ?_
      rw [key_external, isMessage]
      refine (yields_qualifyDefinition node rfl stacked encloses).mono ?_
      rintro _ after ⟨shown, alters⟩
      exact ⟨.external shown, alters.mono
        (fun key same => same ▸ Site.covers_key _) fun _ => False.elim⟩
  | defined name parents enums messages fields ih =>
    intro store stacked encloses outside shows
    cases depth with
    | zero => omega
    | succ depth =>
      have parts := shows.parts
      rw [covers_defined] at outside
      rw [key_placesFrom] at stacked deep
      rw [covers_defined, coversType_defined, key_placesFrom, Message.qualify,
        Message.qualifyAll_eq_map]
      refine (yields_visitRename_parts rfl parts ?_ stacked encloses outside
        (Nat.le_of_lt_succ deep)).mono fun _ after done =>
          ⟨done.1.showsMessage, done.1.persists, done.2⟩
      intro site listed
      rcases parts.fill with ⟨_, atFields, atOwn, _, _⟩
      have below := key_lt_of_mem_sitesFrom listed
      exact ih site.item (item_mem_of_mem_sitesFrom listed) (show site.key < depth by omega)

lemma qualifiesAt_decl {decl : TypeDecl Identifier}
    (deep : Site.key ⟨start, typeStart, decl⟩ < depth) :
    QualifiesAt (ShowsDecl writtenName) runner depth stack scope ⟨start, typeStart, decl⟩
      (decl.qualify scope) := by
  intro store stacked encloses outside shows
  cases shows with
  | enum shows =>
    refine (qualifiesAt_enum deep store stacked encloses outside shows).mono ?_
    rintro _ after ⟨shown, alters⟩
    exact ⟨.enum shown, alters⟩
  | message shows =>
    refine (qualifiesAt_message deep store stacked encloses outside shows).mono ?_
    rintro _ after ⟨shown, alters⟩
    exact ⟨.message shown, alters⟩

lemma qualifiesAt_declaration {declaration : Declaration} (below : stack ≠ [])
    (deep : Site.key ⟨start, typeStart, declaration⟩ < depth) :
    QualifiesAt ShowsDeclaration runner depth stack scope ⟨start, typeStart, declaration⟩
      (declaration.qualify scope) := by
  induction declaration using Declaration.nestedInduction
    generalizing start typeStart stack scope depth with
  | type decl =>
    intro store stacked encloses outside shows
    cases shows with
    | type shows =>
    refine (qualifiesAt_decl deep store stacked encloses outside shows).mono ?_
    rintro _ after ⟨shown, alters⟩
    exact ⟨.type shown, alters⟩
  | scope name content ih =>
    intro store stacked encloses outside shows
    cases depth with
    | zero => omega
    | succ depth =>
      cases shows with
      | scope inner node =>
      have inside := lt_size_of_stackOf stacked
      have nested : ¬ (store.stackOf runner).length = 1 := by
        rw [stacked, length_cons]
        have := List.length_pos_iff.mpr below
        omega
      rcases node.scope with ⟨nameKey, isScope, _⟩
      rw [covers_scope] at outside
      rw [key_scope] at stacked deep
      rw [covers_scope, coversType_scope, key_scope, Declaration.qualify,
        Declaration.qualifyAll_eq_map, visitRename]
      refine .get_bind ?_
      simp only [isScope, if_neg nested]
      refine (yields_forM_visitRename (Declaration.qualify (scope.append name))
        lasting_showsDeclaration (fun inner _ => sameExtent_qualify_declaration _ inner) ?_
        inside stacked (.named node rfl encloses)
        (outside_cons outside (Nat.le_refl _) (Nat.le_refl _) (by omega)) inner).mono ?_
      · intro site listed
        have under := key_lt_of_mem_sitesFrom listed
        exact ih site.item (item_mem_of_mem_sitesFrom listed) (cons_ne_nil _ _)
          (show site.key < depth by omega)
      · rintro _ after ⟨⟨shown, same⟩, alters⟩
        refine ⟨.scope shown ?_, alters.mono (Stretch.mono (Nat.le_refl _) (by omega))
          fun _ => id⟩
        rw [same.nodes, same.keys]
        exact alters.shows _ _ (fun inside => Nat.lt_irrefl _ inside.2) node

lemma yields_visitRename_document (shows : ShowsDocument store start typeStart document)
    (stacked : store.stackOf runner = [start + nodesOf document])
    (deep : start + nodesOf document < depth) :
    Yields (visitRename runner depth (start + nodesOf document)) store fun _ after =>
      ShowsDocument after start typeStart (qualify document) ∧
        Alters (Stretch start (start + nodesOf document))
          (Stretch typeStart (typeStart + typesOf document)) store after := by
  cases depth with
  | zero => omega
  | succ depth =>
    have inside := lt_size_of_stackOf stacked
    have outermost : (store.stackOf runner).length = 1 := by rw [stacked]; rfl
    have outside : ∀ key ∈ ([] : List Key), ¬ Stretch start (start + nodesOf document) key :=
      fun _ listed => absurd listed not_mem_nil
    rcases shows.root.scope with ⟨nameKey, isScope, _⟩
    rw [qualify, Declaration.qualifyAll_eq_map, visitRename]
    refine .get_bind ?_
    simp only [isScope, if_pos outermost]
    refine (yields_checkRoot .rename shows.root).bind ?_
    rintro _ _ rfl
    refine (yields_forM_visitRename (Declaration.qualify .outermost) lasting_showsDeclaration
      (fun inner _ => sameExtent_qualify_declaration _ inner) ?_ inside stacked
      (.anonymous shows.root .outermost)
      (outside_cons outside (Nat.le_refl _) (Nat.le_refl _) (Nat.le_refl _)) shows.content).mono ?_
    · intro site listed
      have under := key_lt_of_mem_sitesFrom listed
      exact qualifiesAt_declaration (cons_ne_nil _ _) (show site.key < depth by omega)
    · rintro _ after ⟨⟨shown, same⟩, alters⟩
      refine ⟨⟨shown, ?_⟩, alters⟩
      rw [same.nodes, same.keys]
      exact alters.shows _ _ (fun inside => Nat.lt_irrefl _ inside.2) shows.root

/-- Qualifying a document on the workbench gives all its types their full names. -/
lemma yields_run_rename (inside : runner < store.runners.size)
    (isStage : (store.runner runner).stage = .rename)
    (shows : ShowsDocument store start typeStart document) :
    Yields (run runner (start + nodesOf document)) store fun _ after =>
      ShowsDocument after start typeStart (qualify document) ∧
        after.equipment = (store.clearRunner runner).equipment := by
  have visited : Follows (visitAs runner (start + nodesOf document))
      (store.start runner (start + nodesOf document))
      (fun _ (_ : Unit) after => ShowsDocument after start typeStart (qualify document) ∧
        Alters (Stretch start (start + nodesOf document))
          (Stretch typeStart (typeStart + typesOf document))
          (store.start runner (start + nodesOf document)) after) (.ok ()) := by
    refine .get_bind ?_
    rw [runner_start inside]
    simp only [Runner.cleared, isStage]
    have shown := shows.lasts (persists_start store runner (start + nodesOf document))
    exact (yields_visitRename_document shown (stackOf_start inside _)
      (Nat.lt_succ_of_lt shown.root.lt_size)).follows fun _ _ done => done
  refine (follows_run_altering inside (.inl isStage)
    (fun _ _ _ persists (shown : ShowsDocument _ _ _ _) => shown.lasts persists)
      visited).yields.mono
    ?_
  rintro _ after ⟨shown, _, equipment⟩
  exact ⟨shown, equipment⟩

end

end MessageSchema.Workbench

import MessageSchema.Proofs.Workbench.Changes
import MessageSchema.Proofs.Workbench.Visiting

namespace MessageSchema.Workbench

open List Array

/-!
Putting a document on the workbench.

It takes up the places behind what lies there already, and is shown at its site.
-/

variable {α : Type} {store : Store} {shows : Store -> Site α -> Prop}

/-- Something has been put behind everything else in the store. -/
structure PutBehind {α : Type} [Extent α] (shows : Store -> Site α -> Prop) (before : Store)
    (item : α)
    (key : Key) (after : Store) : Prop where
  key : key = Site.key ⟨before.nodes.size, before.types.size, item⟩
  nodes : after.nodes.size = before.nodes.size + Extent.nodes item
  types : after.types.size = before.types.size + Extent.types item
  shows : shows after ⟨before.nodes.size, before.types.size, item⟩
  alters : Alters nowhere nowhere before after

/-- Several things have been put side by side behind everything else. -/
structure RowBehind {α : Type} [Extent α] (shows : Store -> Site α -> Prop) (before : Store)
    (items : List α) (keys : List Key) (after : Store) : Prop where
  keys : keys = keysFrom before.nodes.size items
  nodes : after.nodes.size = before.nodes.size + nodesOf items
  types : after.types.size = before.types.size + typesOf items
  shows : ∀ site ∈ sitesFrom before.nodes.size before.types.size items, shows after site
  alters : Alters nowhere nowhere before after

lemma Alters.lasts [Extent α] (lasting : Lasting shows)
    {before after : Store} (alters : Alters nowhere nowhere before after) {site : Site α}
    (shown : shows before site) : shows after site :=
  lasting site _ _ _ _ alters.toPersists (fun _ _ => False.elim) (fun _ _ => False.elim) shown

lemma yields_mapM_place [Extent α]
    {place : α -> Work Key} (lasting : Lasting shows) {items : List α}
    (each : ∀ item ∈ items, ∀ store, Yields (place item) store (PutBehind shows store item))
    (store : Store) : Yields (items.mapM place) store (RowBehind shows store items) := by
  induction items generalizing store with
  | nil => exact .pure ⟨rfl, rfl, rfl, (fun _ listed => nomatch listed),
    Alters.refl _ _ store⟩
  | cons item rest ih =>
    rw [mapM_cons]
    refine (each item mem_cons_self store).bind ?_
    intro key middle placed
    refine (ih (fun other listed => each other (mem_cons_of_mem _ listed)) middle).bind ?_
    intro keys after row
    refine .pure ⟨?_, ?_, ?_, ?_, placed.alters.trans row.alters⟩
    · rw [placed.key, row.keys, placed.nodes, ← map_key_sitesFrom rest _ middle.types.size,
        ← map_key_sitesFrom (item :: rest) _ store.types.size, sitesFrom, map_cons,
        placed.types]
    · rw [row.nodes, placed.nodes, nodesOf_cons, Nat.add_assoc]
    · rw [row.types, placed.types, typesOf_cons, Nat.add_assoc]
    · intro site listed
      rw [sitesFrom, ← placed.nodes, ← placed.types] at listed
      rcases List.mem_cons.mp listed with same | listed
      · rw [same]
        exact row.alters.lasts lasting placed.shows
      · exact row.shows site listed

lemma exists_site_of_mem_keysFrom [Extent α] {items : List α} {start key : Nat} (typeStart : Nat)
    (listed : key ∈ keysFrom start items) :
    ∃ site ∈ sitesFrom start typeStart items, site.key = key := by
  rw [← map_key_sitesFrom items start typeStart] at listed
  exact List.mem_map.mp listed

/-- A new name takes no place of a definition or a field type. -/
lemma yields_newName_sized (name : Identifier) (store : Store) :
    Yields (newName name) store fun key after =>
      after.names[key]? = some name ∧ Alters nowhere nowhere store after ∧
        after.nodes.size = store.nodes.size ∧ after.types.size = store.types.size := by
  rcases yields_newName name store with ⟨key, after, ran, found, alters⟩
  cases ran
  exact ⟨_, _, rfl, found, alters, rfl, rfl⟩

lemma yields_newNode {node : Node} (holds : store.HoldsNames node.nameKeys) :
    Yields (newNode node) store fun key after =>
      key = store.nodes.size ∧ after.nodes.size = store.nodes.size + 1 ∧
        after.types.size = store.types.size ∧ after.Shows store.nodes.size (node.view store.name?) ∧
        Alters nowhere nowhere store after := by
  refine ⟨_, _, rfl, rfl, size_push _, rfl, ?_, ?_, rfl⟩
  · exact ⟨node, getElem?_push_size, holds, rfl⟩
  · exact .of_arrays (fun _ _ found => found) (fun _ _ _ => getElem?_push_of_some)
      fun _ _ _ found => found

lemma yields_newType {type : TypeNode} (holds : store.HoldsNames [type.name]) :
    Yields (newType type) store fun key after =>
      key = store.types.size ∧ after.nodes.size = store.nodes.size ∧
        after.types.size = store.types.size + 1 ∧ after.ShowsType store.types.size
          ⟨type.primitive, store.name? type.name, type.target⟩ ∧
        Alters nowhere nowhere store after := by
  refine ⟨_, _, rfl, rfl, rfl, size_push _, ?_, ?_, rfl⟩
  · exact ⟨type, getElem?_push_size, holds, rfl⟩
  · exact .of_arrays (fun _ _ found => found) (fun _ _ _ found => found)
      fun _ _ _ => getElem?_push_of_some

lemma yields_placeEnum (decl : EnumDecl) (store : Store) :
    Yields (placeEnum decl) store (PutBehind ShowsEnum store decl) := by
  refine (yields_newName_sized decl.name store).bind ?_
  rintro name middle ⟨found, first, nodes, types⟩
  have holds : middle.HoldsNames (Node.nameKeys (.enum ⟨some name, decl.items⟩)) :=
    Store.holdsNames_singleton found
  refine (yields_newNode holds).mono ?_
  rintro key after ⟨isKey, nodes', types', shows, second⟩
  rw [Node.view, Store.name?_of_getElem? found] at shows
  rw [nodes] at isKey nodes' shows
  exact ⟨isKey, nodes', types'.trans types, shows, first.trans second⟩

/-! ## Building from parts

The definition that is built lies behind its parts, so it is none of them.  All parts pass
their guards, and the store is the same as if the definition had been put there at once. -/

/-- The store with one more definition. -/
def Store.with (store : Store) (node : Node) : Store :=
  { store with nodes := store.nodes.push node }

lemma Store.node_with (store : Store) (node : Node) :
    (store.with node).node store.nodes.size = node := by
  simp [Store.with, Store.node]

/-- A definition of the store, which is not the last one. -/
def Store.Inner (store : Store) (fits : DefinitionKind -> Prop) (child : Key) : Prop :=
  child < store.nodes.size ∧ fits (store.node child).kind

lemma Store.node_with_of_lt {child : Key} (inside : child < store.nodes.size) (node : Node) :
    (store.with node).node child = store.node child := by
  simp [Store.with, Store.node, Array.getD_eq_getD_getElem?, getElem?_push,
    Nat.ne_of_lt inside]

lemma yields_newNode_with (store : Store) (node : Node) :
    Yields (newNode node) store fun key after =>
      key = store.nodes.size ∧ after = store.with node :=
  ⟨_, _, rfl, rfl, rfl⟩

lemma yields_setNode_with (store : Store) (node next : Node) :
    Yields (setNode store.nodes.size next) (store.with node) fun _ after =>
      after = store.with next := by
  refine ⟨(), _, rfl, ?_⟩
  simp only [Store.with, Array.setIfInBounds, size_push, Nat.lt_succ_self]
  rw [Store.mk.injEq]
  refine ⟨rfl, ?_, rfl, rfl, rfl, rfl, rfl⟩
  simp [Array.push, Array.set]

lemma yields_forM_with {add : Key -> Work Unit} {build : List Key -> Node} {children : List Key}
    (step : ∀ child ∈ children, ∀ seen, Yields (add child) (store.with (build seen))
      fun _ after => after = store.with (build (seen ++ [child]))) (seen : List Key) :
    Yields (children.forM add) (store.with (build seen)) fun _ after =>
      after = store.with (build (seen ++ children)) := by
  induction children generalizing seen with
  | nil => exact .pure (by rw [List.append_nil])
  | cons child rest ih =>
    rw [List.forall_mem_cons] at step
    refine (step.1 seen).bind ?_
    rintro _ _ rfl
    have further := ih step.2 (seen ++ [child])
    rwa [List.append_assoc] at further

def MessageNode.taking (node : MessageNode) (child : Key) : DefinitionKind -> MessageNode
  | .enum => { node with enums := node.enums ++ [child] }
  | .message => { node with messages := node.messages ++ [child] }
  | .field => { node with fields := node.fields ++ [child] }
  | .scope => node

lemma yields_addToMessage {node : MessageNode} {kind : DefinitionKind} {child : Key}
    (inner : store.Inner (· = kind) child) (fits : kind ≠ .scope)
    (isDefined : node.announced = false) :
    Yields (addToMessage store.nodes.size (some child)) (store.with (.message node)) fun _ after =>
      after = store.with (.message (node.taking child kind)) := by
  rcases inner with ⟨inside, rfl⟩
  refine .get_bind ?_
  have notSelf : child ≠ store.nodes.size := Nat.ne_of_lt inside
  have guarded : ¬ node.announced = true := by
    rw [isDefined]
    decide
  simp only [Store.node_with, Store.node_with_of_lt inside, if_neg guarded]
  cases found : store.node child with
  | scope _ =>
    rw [found] at fits
    exact absurd rfl fits
  | enum _ | field _ | message _ =>
    simp only [if_neg notSelf]
    exact yields_setNode_with store _ _

lemma run_buildMessage {node : MessageNode} (isDefined : node.announced = false)
    (enums : ∀ child ∈ node.enums, store.Inner (· = .enum) child)
    (messages : ∀ child ∈ node.messages, store.Inner (· = .message) child)
    (fields : ∀ child ∈ node.fields, store.Inner (· = .field) child) :
    (buildMessage node).run store = (newNode (.message node)).run store := by
  rcases node with ⟨name, announced, declared, parents, ownEnums, ownMessages, ownFields⟩
  cases isDefined
  let built (enums messages fields : List Key) : Node :=
    .message ⟨name, false, declared, parents, enums, messages, fields⟩
  have inherits : Yields (addParents store.nodes.size parents)
      (store.with (.message { name, announced := false, declared })) fun _ after =>
        after = store.with (built [] [] []) := by
    refine .get_bind ?_
    simp only [Store.node_with]
    exact yields_setNode_with store _ _
  have done : Yields (buildMessage ⟨name, false, declared, parents, ownEnums, ownMessages,
      ownFields⟩) store fun key after =>
        key = store.nodes.size ∧ after = store.with (built ownEnums ownMessages ownFields) := by
    refine (yields_newNode_with store _).bind ?_
    rintro _ _ ⟨rfl, rfl⟩
    refine inherits.bind ?_
    rintro _ _ rfl
    refine (@yields_forM_with store _ (built · [] []) ownEnums (fun child listed _ =>
      yields_addToMessage (enums child listed) (by decide) rfl) []).bind ?_
    rintro _ _ rfl
    refine (@yields_forM_with store _ (built ownEnums · []) ownMessages (fun child listed _ =>
      yields_addToMessage (messages child listed) (by decide) rfl) []).bind ?_
    rintro _ _ rfl
    refine (@yields_forM_with store _ (built ownEnums ownMessages) ownFields (fun child listed _ =>
      yields_addToMessage (fields child listed) (by decide) rfl) []).bind ?_
    rintro _ _ rfl
    exact .pure ⟨rfl, rfl⟩
  rcases done with ⟨_, _, ran, rfl, rfl⟩
  exact ran

lemma run_buildScope {node : ScopeNode}
    (content : ∀ child ∈ node.content, store.Inner (· ≠ .field) child) :
    (buildScope node).run store = (newNode (.scope node)).run store := by
  have takes : ∀ child ∈ node.content, ∀ seen,
      Yields (addToScope store.nodes.size (some child)) (store.with (.scope ⟨node.name, seen⟩))
        fun _ after => after = store.with (.scope ⟨node.name, seen ++ [child]⟩) := by
    intro child listed seen
    rcases content child listed with ⟨inside, fits⟩
    refine .get_bind ?_
    have notSelf : child ≠ store.nodes.size := Nat.ne_of_lt inside
    simp only [Store.node_with, Store.node_with_of_lt inside]
    cases found : store.node child with
    | field _ =>
      rw [found] at fits
      exact absurd rfl fits
    | enum _ | message _ => exact yields_setNode_with store _ _
    | scope _ =>
      simp only [bne_iff_ne.mpr notSelf]
      exact yields_setNode_with store _ _
  have done : Yields (buildScope node) store fun key after =>
      key = store.nodes.size ∧ after = store.with (.scope node) := by
    refine (yields_newNode_with store _).bind ?_
    rintro _ _ ⟨rfl, rfl⟩
    refine (@yields_forM_with store _ (.scope ⟨node.name, ·⟩) _ takes []).bind ?_
    rintro _ _ rfl
    exact .pure ⟨rfl, rfl⟩
  rcases done with ⟨_, _, ran, rfl, rfl⟩
  exact ran

/-- What is shown at a site is in the store, and of the kind that is shown. -/
lemma inner_of_mem_keysFrom [Extent α] {items : List α} {start typeStart : Nat}
    (fits : DefinitionKind -> Prop) (shown : ∀ site ∈ sitesFrom start typeStart items,
      ∃ view, store.Shows site.key view ∧ fits view.kind) :
    ∀ child ∈ keysFrom start items, store.Inner fits child := by
  intro child listed
  rcases exists_site_of_mem_keysFrom typeStart listed with ⟨site, among, rfl⟩
  rcases shown site among with ⟨view, shows, fit⟩
  exact ⟨shows.lt_size, shows.kind ▸ fit⟩

section
open MessageSchema (Message)

lemma yields_placeType (type : FieldType Identifier) (store : Store) :
    Yields (placeType type) store fun key after =>
      key = store.types.size ∧ after.nodes.size = store.nodes.size ∧
        after.types.size = store.types.size + 1 ∧
        after.ShowsType store.types.size (fieldTypeView writtenName type) ∧
        Alters nowhere nowhere store after := by
  cases type with
  | primitive primitive =>
    have holds : store.HoldsNames [none] := by
      intro slot listed key member
      cases List.mem_singleton.mp listed
      cases member
    rw [placeType, primitiveType, Primitive.ofCode?_code]
    exact yields_newType holds
  | user name =>
    refine (yields_newName_sized name store).bind ?_
    rintro place middle ⟨found, first, nodes, types⟩
    refine (yields_newType (Store.holdsNames_singleton found)).mono ?_
    rintro key after ⟨isKey, nodes', types', shows, second⟩
    rw [Store.name?_of_getElem? found] at shows
    rw [types] at isKey types' shows
    exact ⟨isKey, nodes'.trans nodes, types', shows, first.trans second⟩

lemma yields_placeField (field : Field Identifier) (store : Store) :
    Yields (placeField field) store (PutBehind (ShowsField writtenName) store field) := by
  refine (yields_placeType field.type store).bind ?_
  rintro type middle ⟨isType, nodes, types, showsType, first⟩
  refine (yields_newName_sized (.single field.name) middle).bind ?_
  rintro name further ⟨found, second, nodes', types'⟩
  have holds : further.HoldsNames (Node.nameKeys (.field
      ⟨some name, type, field.modifiers, field.bounds, field.ordinal, field.default⟩)) :=
    Store.holdsNames_singleton found
  refine (yields_newNode holds).mono ?_
  rintro key after ⟨isKey, nodes'', types'', shows, third⟩
  rw [Node.view, Store.name?_of_getElem? found, isType] at shows
  rw [nodes', nodes] at isKey nodes'' shows
  refine ⟨isKey, nodes'', types''.trans (types'.trans types), ⟨shows, ?_⟩,
    (first.trans second).trans third⟩
  exact third.showsType _ _ id (second.showsType _ _ id showsType)

lemma yields_placeParents (parents : List Identifier) (store : Store) :
    Yields (parents.mapM fun parent => return some (← newName parent)) store
      fun keys after => after.HoldsNames keys ∧ keys.map after.name? = parents.map some ∧
        after.nodes.size = store.nodes.size ∧ after.types.size = store.types.size ∧
        Alters nowhere nowhere store after := by
  induction parents generalizing store with
  | nil =>
    exact .pure ⟨(fun _ listed => nomatch listed), rfl, rfl, rfl, Alters.refl _ _ store⟩
  | cons parent rest ih =>
    rw [mapM_cons]
    have first : Yields (do return some (← newName parent)) store fun slot after =>
        ∃ key, slot = some key ∧ after.names[key]? = some parent ∧
          Alters nowhere nowhere store after ∧ after.nodes.size = store.nodes.size ∧
            after.types.size = store.types.size :=
      (yields_newName_sized parent store).bind fun key after done =>
        Yields.pure ⟨key, rfl, done⟩
    refine first.bind ?_
    rintro _ middle ⟨key, rfl, found, alters, nodes, types⟩
    refine (ih middle).bind ?_
    rintro keys after ⟨holds, same, nodes', types', alters'⟩
    have kept := alters'.names key parent found
    refine .pure ⟨?_, ?_, nodes'.trans nodes, types'.trans types, alters.trans alters'⟩
    · intro slot listed
      rcases List.mem_cons.mp listed with isFirst | listed
      · exact Store.holdsNames_singleton kept slot (List.mem_singleton.mpr isFirst)
      · exact holds slot listed
    · rw [map_cons, map_cons, same, Store.name?_of_getElem? kept]

lemma placeMessages_eq_mapM (messages : List (Message Identifier)) :
    placeMessages messages = messages.mapM placeMessage := by
  induction messages with
  | nil => rfl
  | cons message rest ih => rw [placeMessages, mapM_cons, ih]

lemma yields_placeMessage (message : Message Identifier) (store : Store) :
    Yields (placeMessage message) store (PutBehind (ShowsMessage writtenName) store message) := by
  induction message using Message.nestedInduction generalizing store with
  | external name =>
    refine (yields_newName_sized name.current store).bind ?_
    rintro place middle ⟨found, first, nodes, types⟩
    have holds : middle.HoldsNames (Node.nameKeys (.message
        { name := some place, announced := true, declared := name.declared })) :=
      Store.holdsNames_singleton found
    refine (yields_newNode holds).mono ?_
    rintro key after ⟨isKey, nodes', types', shows, second⟩
    simp only [Node.view, Store.name?_of_getElem? found] at shows
    rw [nodes] at isKey nodes' shows
    exact ⟨isKey, nodes', types'.trans types, .external shows, first.trans second⟩
  | defined name parents enums messages fields ih =>
    rw [placeMessage, placeMessages_eq_mapM]
    refine (yields_newName_sized name.current store).bind ?_
    rintro place named ⟨found, alters₁, nodes₁, types₁⟩
    refine (yields_placeParents parents named).bind ?_
    rintro parentKeys inherited ⟨holdsParents, sameParents, nodes₂, types₂, alters₂⟩
    refine (yields_mapM_place lasting_showsEnum (fun decl _ => yields_placeEnum decl)
      inherited).bind ?_
    intro enumKeys withEnums rowEnums
    refine (yields_mapM_place lasting_showsMessage ih withEnums).bind ?_
    intro messageKeys withMessages rowMessages
    refine (yields_mapM_place lasting_showsField (fun field _ => yields_placeField field)
      withMessages).bind ?_
    intro fieldKeys withFields rowFields
    have alters₃ := (rowEnums.alters.trans rowMessages.alters).trans rowFields.alters
    have kept := alters₃.names _ _ (alters₂.names _ _ found)
    have nodes : inherited.nodes.size = store.nodes.size := nodes₂.trans nodes₁
    have types : inherited.types.size = store.types.size := types₂.trans types₁
    let node : MessageNode := ⟨some place, false, name.declared, parentKeys, enumKeys, messageKeys,
      fieldKeys⟩
    have holds : withFields.HoldsNames (Node.nameKeys (.message node)) := by
      intro slot listed
      rcases List.mem_cons.mp listed with isName | listed
      · exact Store.holdsNames_singleton kept slot (List.mem_singleton.mpr isName)
      · exact holdsParents.kept alters₃.names slot listed
    have enumsShown : ∀ site ∈ sitesFrom inherited.nodes.size inherited.types.size enums,
        ShowsEnum withFields site := fun site listed =>
      (rowMessages.alters.trans rowFields.alters).lasts lasting_showsEnum
        (rowEnums.shows site listed)
    have messagesShown : ∀ site ∈ sitesFrom withEnums.nodes.size withEnums.types.size messages,
        ShowsMessage writtenName withFields site := fun site listed =>
      rowFields.alters.lasts lasting_showsMessage (rowMessages.shows site listed)
    have fieldsShown := rowFields.shows
    have built : (buildMessage node).run withFields =
        (newNode (.message node)).run withFields := by
      apply run_buildMessage rfl
      · change ∀ child ∈ enumKeys, _
        rw [rowEnums.keys]
        exact inner_of_mem_keysFrom (· = .enum) fun site listed => ⟨_, enumsShown site listed, rfl⟩
      · change ∀ child ∈ messageKeys, _
        rw [rowMessages.keys]
        exact inner_of_mem_keysFrom (· = .message) fun site listed =>
          (messagesShown site listed).shows.imp fun _ shown => ⟨shown.1, shown.2.2⟩
      · change ∀ child ∈ fieldKeys, _
        rw [rowFields.keys]
        exact inner_of_mem_keysFrom (· = .field) fun site listed =>
          ⟨_, (fieldsShown site listed).node, rfl⟩
    refine ((yields_newNode holds).of_run built).mono ?_
    rintro key after ⟨isKey, nodes₄, types₄, shows, alters₄⟩
    have enumsTypes := typesOf_enums enums
    simp only [node, Node.view, Store.name?_of_getElem? kept, rowEnums.keys, rowMessages.keys,
      rowFields.keys, List.map_congr_left fun slot listed =>
        (holdsParents.name?_eq alters₃.names slot listed).symm, sameParents] at shows
    simp only [rowFields.nodes, rowFields.types, rowMessages.nodes, rowMessages.types,
      rowEnums.nodes, rowEnums.types, nodes, types, enumsTypes, Nat.add_zero] at *
    refine ⟨?_, ?_, ?_, ?_, ((alters₁.trans alters₂).trans alters₃).trans alters₄⟩
    · rw [isKey, key_defined]
    · rw [nodes₄, nodes_defined]
      omega
    · rw [types₄, types_defined]
      omega
    · exact .defined
        (fun site listed => alters₄.lasts lasting_showsEnum (enumsShown site listed))
        (fun site listed => alters₄.lasts lasting_showsMessage (messagesShown site listed))
        (fun site listed => alters₄.lasts lasting_showsField (fieldsShown site listed)) shows

lemma yields_placeDecl (decl : TypeDecl Identifier) (store : Store) :
    Yields (placeDeclaration (.type decl)) store
      (PutBehind (ShowsDecl writtenName) store decl) := by
  cases decl with
  | enum decl =>
    refine (yields_placeEnum decl store).mono fun key after placed => ?_
    exact ⟨placed.key, placed.nodes, placed.types, .enum placed.shows, placed.alters⟩
  | message decl =>
    refine (yields_placeMessage decl store).mono fun key after placed => ?_
    exact ⟨placed.key, placed.nodes, placed.types, .message placed.shows, placed.alters⟩

end

lemma placeDeclarations_eq_mapM (content : List Declaration) :
    placeDeclarations content = content.mapM placeDeclaration := by
  induction content with
  | nil => rfl
  | cons declaration rest ih => rw [placeDeclarations, mapM_cons, ih]

/-- The place of a declaration itself, which is no field. -/
lemma ShowsDeclaration.found {site : Site Declaration} (shown : ShowsDeclaration store site) :
    ∃ view, store.Shows site.key view ∧ view.kind ≠ .field := by
  cases shown with
  | @type _ _ decl shows =>
    rcases shows.shows with ⟨view, shown, _, isKind⟩
    refine ⟨view, shown, ?_⟩
    rw [isKind]
    cases decl <;> nofun
  | scope inner node =>
    rw [← key_scope] at node
    exact ⟨_, node, nofun⟩

lemma RowBehind.run_buildScope {before after : Store} {content : List Declaration}
    {keys : List Key} (row : RowBehind ShowsDeclaration before content keys after)
    (name : Option Key) :
    (buildScope ⟨name, keys⟩).run after = (newNode (.scope ⟨name, keys⟩)).run after := by
  apply Workbench.run_buildScope
  change ∀ child ∈ keys, _
  rw [row.keys]
  exact inner_of_mem_keysFrom (· ≠ .field) fun site listed => (row.shows site listed).found

lemma yields_placeDeclaration (declaration : Declaration) (store : Store) :
    Yields (placeDeclaration declaration) store (PutBehind ShowsDeclaration store declaration) := by
  induction declaration using Declaration.nestedInduction generalizing store with
  | type decl =>
    refine (yields_placeDecl decl store).mono fun key after placed => ?_
    exact ⟨placed.key, placed.nodes, placed.types, .type placed.shows, placed.alters⟩
  | scope name content ih =>
    rw [placeDeclaration, placeDeclarations_eq_mapM]
    refine (yields_newName_sized name store).bind ?_
    rintro place named ⟨found, alters, nodes, types⟩
    refine (yields_mapM_place lasting_showsDeclaration ih named).bind ?_
    intro keys filled row
    have kept := row.alters.names _ _ found
    have holds : filled.HoldsNames (Node.nameKeys (.scope ⟨some place, keys⟩)) :=
      Store.holdsNames_singleton kept
    refine ((yields_newNode holds).of_run (row.run_buildScope _)).mono ?_
    rintro key after ⟨isKey, nodes', types', shows, last⟩
    have contentShown := row.shows
    simp only [Node.view, Store.name?_of_getElem? kept, row.keys] at shows
    simp only [row.nodes, row.types, nodes, types] at *
    refine ⟨?_, ?_, ?_, ?_, (alters.trans row.alters).trans last⟩
    · rw [isKey, key_scope]
    · rw [nodes', nodes_scope]
      omega
    · rw [types', types_scope]
    · exact .scope
        (fun site listed => last.lasts lasting_showsDeclaration (contentShown site listed)) shows

/-- A document can be put on any workbench, and nothing that lies there changes. -/
lemma yields_placeDocument (document : Document) (store : Store) :
    Yields (placeDocument document) store fun root after =>
      root = store.nodes.size + nodesOf document ∧
        ShowsDocument after store.nodes.size store.types.size document ∧
        Alters nowhere nowhere store after := by
  rw [placeDocument, placeDeclarations_eq_mapM]
  refine (yields_mapM_place lasting_showsDeclaration
    (fun declaration _ => yields_placeDeclaration declaration) store).bind ?_
  intro keys filled row
  have holds : filled.HoldsNames (Node.nameKeys (.scope ⟨none, keys⟩)) := by
    intro slot listed key member
    cases List.mem_singleton.mp listed
    cases member
  refine ((yields_newNode holds).of_run (row.run_buildScope _)).mono ?_
  rintro key after ⟨isKey, _, _, shows, last⟩
  simp only [Node.view, row.keys] at shows
  rw [row.nodes] at isKey shows
  exact ⟨isKey, ⟨fun site listed => last.lasts lasting_showsDeclaration (row.shows site listed),
    shows⟩, row.alters.trans last⟩

end MessageSchema.Workbench

import MessageSchema.Proofs.Workbench.Visiting

namespace MessageSchema.Workbench

open List

/-!
Where a definition lies that has a given handle.

The sites of the definitions are listed in the order of visits, so a handle leads to
a place in the store.
-/

section
open MessageSchema (Message)
variable {ρ : Type}

mutual

/-- The sites of a message and of everything defined in it. -/
def messageSites (start typeStart : Nat) : Message ρ -> List (Site (TypeDecl ρ))
  | .external name => [⟨start, typeStart, .message (.external name)⟩]
  | .defined name parents enums messages fields =>
    ⟨start, typeStart, .message (.defined name parents enums messages fields)⟩ ::
      ((sitesFrom start typeStart enums).map (fun site => site.put (.enum site.item)) ++
        messageSitesAll (start + nodesOf enums) typeStart messages)

def messageSitesAll (start typeStart : Nat) : List (Message ρ) -> List (Site (TypeDecl ρ))
  | [] => []
  | message :: rest =>
    messageSites start typeStart message ++
      messageSitesAll (start + Extent.nodes message) (typeStart + Extent.types message) rest

end

/-- The sites of an enum, or of a message and of everything defined in it. -/
def Site.definitions (site : Site (TypeDecl ρ)) : List (Site (TypeDecl ρ)) :=
  match site.item with
  | .enum _ => [site]
  | .message decl => messageSites site.start site.typeStart decl

/-- The sites of all definitions of a flat schema. -/
def definitionSites (sites : List (Site (TypeDecl ρ))) : List (Site (TypeDecl ρ)) :=
  sites.flatMap Site.definitions

/-- The place of the definition with a handle. -/
def keyOf (sites : List (Site (TypeDecl ρ))) (handle : Nat) : Nat :=
  ((definitionSites sites).map Site.key).getD handle 0

lemma messageSitesAll_eq_flatMap (messages : List (Message ρ)) (start typeStart : Nat) :
    messageSitesAll start typeStart messages =
      (sitesFrom start typeStart messages).flatMap fun site =>
        messageSites site.start site.typeStart site.item := by
  induction messages generalizing start typeStart with
  | nil => rfl
  | cons message rest ih => rw [messageSitesAll, sitesFrom, flatMap_cons, ih]

lemma messageSites_defined (start typeStart : Nat) (name : MessageName)
    (parents : List Identifier) (enums : List EnumDecl) (messages : List (Message ρ))
    (fields : List (Field ρ)) :
    messageSites start typeStart (.defined name parents enums messages fields) =
      ⟨start, typeStart, .message (.defined name parents enums messages fields)⟩ ::
        ((sitesFrom start typeStart enums).map (fun site => site.put (.enum site.item)) ++
          (sitesFrom (start + nodesOf enums) typeStart messages).flatMap fun site =>
            messageSites site.start site.typeStart site.item) := by
  rw [messageSites, messageSitesAll_eq_flatMap]

lemma nodesOf_enums (enums : List EnumDecl) : nodesOf enums = enums.length := by
  induction enums with
  | nil => rfl
  | cons decl rest ih =>
    rw [nodesOf_cons, ih, length_cons, Nat.add_comm]
    rfl

lemma keysFrom_enums (start : Nat) (enums : List EnumDecl) :
    keysFrom start enums = range' start enums.length := by
  induction enums generalizing start with
  | nil => rfl
  | cons decl rest ih =>
    rw [length_cons, range'_succ, ← ih, ← map_key_sitesFrom rest _ 0]
    rfl

lemma map_item_put_enum (start typeStart : Nat) (enums : List EnumDecl) :
    ((sitesFrom start typeStart enums).map fun site =>
        (site.put (TypeDecl.enum (ρ := ρ) site.item))).map Site.item =
      enums.map TypeDecl.enum := by
  rw [List.map_map]
  conv_rhs => rw [← map_item_sitesFrom enums start typeStart, List.map_map]
  rfl

lemma map_key_put_enum (start typeStart : Nat) (enums : List EnumDecl) :
    ((sitesFrom start typeStart enums).map fun site =>
        (site.put (TypeDecl.enum (ρ := ρ) site.item))).map Site.key =
      range' start enums.length := by
  rw [List.map_map, ← keysFrom_enums, ← map_key_sitesFrom enums start typeStart]
  rfl

lemma map_item_messageSites (message : Message ρ) (start typeStart : Nat) :
    (messageSites start typeStart message).map Site.item = message.definitions := by
  induction message using Message.nestedInduction generalizing start typeStart with
  | external name => rfl
  | defined name parents enums messages fields ih =>
    rw [messageSites_defined, Message.definitions_defined, map_cons, map_append,
      map_item_put_enum, map_flatMap]
    congr 2
    conv_rhs => rw [← map_item_sitesFrom messages (start + nodesOf enums) typeStart]
    rw [flatMap_map]
    refine flatMap_congr fun site listed => ?_
    exact ih site.item (item_mem_of_mem_sitesFrom listed) _ _

lemma Site.map_item_definitions (site : Site (TypeDecl ρ)) :
    site.definitions.map Site.item = site.item.definitions := by
  rcases site with ⟨start, typeStart, decl | decl⟩
  · rfl
  · exact map_item_messageSites decl start typeStart

lemma map_item_definitionSites (sites : List (Site (TypeDecl ρ))) :
    (definitionSites sites).map Site.item = definitionsOf (sites.map Site.item) := by
  rw [definitionSites, map_flatMap, definitionsOf, flatMap_map]
  exact flatMap_congr fun site _ => site.map_item_definitions

/-- The definition with a handle lies at the place for that handle. -/
lemma exists_site_of_handle {sites : List (Site (TypeDecl ρ))} {handle : Nat}
    {type : TypeDecl ρ} (listed : (definitionsOf (sites.map Site.item))[handle]? = some type) :
    ∃ site ∈ definitionSites sites, site.item = type ∧ keyOf sites handle = site.key := by
  rw [← map_item_definitionSites, getElem?_map, Option.map_eq_some_iff] at listed
  rcases listed with ⟨site, found, same⟩
  refine ⟨site, mem_of_getElem? found, same, ?_⟩
  rw [keyOf, getD_eq_getElem?_getD, getElem?_map, found]
  rfl

lemma nodesOf_fields (fields : List (Field ρ)) : nodesOf fields = fields.length := by
  induction fields with
  | nil => rfl
  | cons field rest ih =>
    rw [nodesOf_cons, ih, length_cons, Nat.add_comm]
    rfl

lemma typesOf_fields (fields : List (Field ρ)) : typesOf fields = fields.length := by
  induction fields with
  | nil => rfl
  | cons field rest ih =>
    rw [typesOf_cons, ih, length_cons, Nat.add_comm]
    rfl

/-- The definitions of two messages lie in the same places. -/
structure SameLayout {σ : Type} (message : Message ρ) (other : Message σ) : Prop where
  extent : SameExtent message other
  keys : ∀ start typeStart, (messageSites start typeStart other).map Site.key =
    (messageSites start typeStart message).map Site.key

section
variable {σ : Type}

lemma SameLayout.external (name : MessageName) (newName : MessageName) :
    SameLayout (.external name : Message ρ) (.external newName : Message σ) :=
  ⟨⟨rfl, rfl⟩, fun _ _ => rfl⟩

variable {messages : List (Message ρ)}

lemma nodesOf_of_sameLayout {others : List (Message σ)}
    (same : List.Forall₂ SameLayout messages others) :
    nodesOf others = nodesOf messages ∧ typesOf others = typesOf messages := by
  induction same with
  | nil => exact ⟨rfl, rfl⟩
  | cons first _ ih =>
    rw [nodesOf_cons, nodesOf_cons, typesOf_cons, typesOf_cons, first.extent.nodes,
      first.extent.types, ih.1, ih.2]
    exact ⟨rfl, rfl⟩

lemma keys_of_sameLayout {others : List (Message σ)}
    (same : List.Forall₂ SameLayout messages others) (start typeStart : Nat) :
    (messageSitesAll start typeStart others).map Site.key =
      (messageSitesAll start typeStart messages).map Site.key := by
  induction same generalizing start typeStart with
  | nil => rfl
  | cons first _ ih =>
    rw [messageSitesAll, messageSitesAll, map_append, map_append, first.keys,
      first.extent.nodes, first.extent.types, ih]

lemma SameLayout.defined {name newName : MessageName} {parents newParents : List Identifier}
    {enums newEnums : List EnumDecl} {newMessages : List (Message σ)} {fields : List (Field ρ)}
    {newFields : List (Field σ)} (sameEnums : newEnums.length = enums.length)
    (sameMessages : List.Forall₂ SameLayout messages newMessages)
    (sameFields : newFields.length = fields.length) :
    SameLayout (.defined name parents enums messages fields)
      (.defined newName newParents newEnums newMessages newFields) := by
  rcases nodesOf_of_sameLayout sameMessages with ⟨sameNodes, sameTypes⟩
  have extent : SameExtent (Message.defined name parents enums messages fields)
      (Message.defined newName newParents newEnums newMessages newFields) := by
    constructor
    · rw [nodes_defined, nodes_defined, nodesOf_enums, nodesOf_enums, nodesOf_fields,
        nodesOf_fields, sameEnums, sameNodes, sameFields]
    · rw [types_defined, types_defined, typesOf_fields, typesOf_fields, sameTypes, sameFields]
  refine ⟨extent, fun start typeStart => ?_⟩
  have own : start + Extent.nodes
    (Message.defined newName newParents newEnums newMessages newFields)
      - 1 = start + Extent.nodes (Message.defined name parents enums messages fields) - 1 := by
    rw [extent.nodes]
  rw [messageSites, messageSites, map_cons, map_cons, map_append, map_append,
    map_key_put_enum, map_key_put_enum, nodesOf_enums, nodesOf_enums, sameEnums,
    keys_of_sameLayout sameMessages]
  congr 1

/-- The definitions of two types lie in the same places. -/
inductive SameDeclLayout : TypeDecl ρ -> TypeDecl σ -> Prop
  | enum (decl newDecl : EnumDecl) : SameDeclLayout (.enum decl) (.enum newDecl)
  | message {message : Message ρ} {other : Message σ} (same : SameLayout message other) :
      SameDeclLayout (.message message) (.message other)

/-- Handles lead to the same places in schemas of the same layout. -/
lemma keyOf_putAll {sites : List (Site (TypeDecl ρ))} {items : List (TypeDecl σ)}
    (same : List.Forall₂ SameDeclLayout (sites.map Site.item) items) :
    keyOf (putAll sites items) = keyOf sites := by
  have keys : (definitionSites (putAll sites items)).map Site.key =
      (definitionSites sites).map Site.key := by
    induction sites generalizing items with
    | nil =>
      cases same
      rfl
    | cons site rest ih =>
      rcases List.forall₂_cons_left_iff.mp same with ⟨item, others, first, sameRest, isList⟩
      subst isList
      have later := ih sameRest
      rw [definitionSites, definitionSites] at later ⊢
      rw [putAll, zipWith_cons_cons, flatMap_cons, flatMap_cons, map_append,
        map_append]
      rw [putAll] at later
      rw [later]
      congr 1
      rcases site with ⟨start, typeStart, type⟩
      cases first with
      | enum decl newDecl => rfl
      | message sameLayout => exact sameLayout.keys start typeStart
  funext handle
  rw [keyOf, keys, keyOf]

end

end

section
open MessageSchema (Message)
variable {ρ : Type} {typed : ρ -> TypeView} {store : Store}

/-- With a message the store shows everything that is defined in it. -/
lemma ShowsMessage.definitions {message : Message ρ} {start typeStart : Nat}
    (shows : ShowsMessage typed store ⟨start, typeStart, message⟩) :
    ∀ site ∈ messageSites start typeStart message, ShowsDecl typed store site := by
  induction message using Message.nestedInduction generalizing start typeStart with
  | external name =>
    intro site listed
    rw [List.mem_singleton.mp listed]
    exact .message shows
  | defined name parents enums messages fields ih =>
    rw [messageSites_defined]
    intro site listed
    rcases List.mem_cons.mp listed with own | listed
    · rw [own]
      exact .message shows
    cases shows with
    | defined ownEnums ownMessages ownFields node =>
    rcases List.mem_append.mp listed with listed | listed
    · rcases List.mem_map.mp listed with ⟨inner, innerListed, same⟩
      rw [← same]
      exact .enum (ownEnums inner innerListed)
    · rcases List.mem_flatMap.mp listed with ⟨inner, innerListed, deeper⟩
      exact ih inner.item (item_mem_of_mem_sitesFrom innerListed) (ownMessages inner innerListed)
        site deeper

lemma ShowsDecl.definitions {site : Site (TypeDecl ρ)} (shows : ShowsDecl typed store site) :
    ∀ inner ∈ site.definitions, ShowsDecl typed store inner := by
  cases shows with
  | enum shows =>
    intro inner listed
    rw [List.mem_singleton.mp listed]
    exact .enum shows
  | message shows => exact shows.definitions

variable {root : Nat}

lemma ShowsFlat.definitions {sites : List (Site (TypeDecl ρ))}
    (shows : ShowsFlat typed store root sites) :
    ∀ site ∈ definitionSites sites, ShowsDecl typed store site := by
  intro site listed
  rcases List.mem_flatMap.mp listed with ⟨outer, outerListed, inside⟩
  exact (shows.types outer outerListed).definitions site inside

lemma ShowsFlat.become {σ : Type} {other : σ -> TypeView} {before : Store}
    {sites : List (Site (TypeDecl ρ))} {items : List (TypeDecl σ)}
    (shows : ShowsFlat typed before root sites)
    (become : Become (ShowsDecl other) store sites items)
    (node : store.Shows root (.scope none (sites.map Site.key))) :
    ShowsFlat other store root (putAll sites items) where
  node := by
    rw [become.map_key]
    exact node
  types site listed := by
    rcases become.origin listed with ⟨_, _, _, _, _, shown⟩
    exact shown
  apart := become.apart shows.apart
  below site listed := by
    rcases become.origin listed with ⟨origin, member, item, same, sameItem, _⟩
    rw [same]
    simp only [Site.stop, Site.put, sameItem.nodes]
    exact shows.below origin member

lemma ShowsFlat.of_handle {sites : List (Site (TypeDecl ρ))}
    (shows : ShowsFlat typed store root sites) {handle : Nat} {type : TypeDecl ρ}
    (listed : (definitionsOf (sites.map Site.item))[handle]? = some type) :
    ∃ site, ShowsDecl typed store site ∧ site.item = type ∧ keyOf sites handle = site.key := by
  rcases exists_site_of_handle listed with ⟨site, known, same, place⟩
  exact ⟨site, shows.definitions site known, same, place⟩

end

end MessageSchema.Workbench

import MessageSchema.Proofs.Workbench.Depending
import MessageSchema.Proofs.Workbench.Relinking
import MessageSchema.Workbench.Compile

namespace MessageSchema.Workbench

open List Option

/-!
What a compiled schema in the store is turned into.

With its symbol table and dependencies it gives the same products as the schema by
itself: the store shows just what goes into them.
-/

open Export (MessageInfo Products)

variable {start typeStart root : Nat} {α β : Type} {sites : List (Site (TypeDecl Reference))}
    {compiled : Compiled} {store : Store} {items : List α}

lemma map_keysFrom [Extent α] {shows : Site α -> Prop} {read : Nat -> β} {seen : α -> β}
    (shown : ∀ site ∈ sitesFrom start typeStart items, shows site)
    (reads : ∀ site, shows site -> read site.key = seen site.item) :
    (keysFrom start items).map read = items.map seen := by
  rw [← map_key_sitesFrom items start typeStart, List.map_map]
  conv_rhs => rw [← map_item_sitesFrom items start typeStart, List.map_map]
  exact map_congr_left fun site listed => reads site (shown site listed)

lemma flatMap_keysFrom [Extent α] (typeStart : Nat) {read : Nat -> List β} {seen : α -> List β}
    (reads : ∀ site ∈ sitesFrom start typeStart items, read site.key = seen site.item) :
    (keysFrom start items).flatMap read = items.flatMap seen := by
  rw [← map_key_sitesFrom items start typeStart, flatMap_map]
  conv_rhs => rw [← map_item_sitesFrom items start typeStart, flatMap_map]
  exact flatMap_congr reads

section
open MessageSchema (Message)
variable {place : Nat -> Nat} {table : SymbolTable Nat} {store : Store} {depth indent : Nat}

lemma map_nameText {parentKeys : List (Option Key)} {parents : List Identifier}
    (read : parentKeys.map store.name? = parents.map some) :
    parentKeys.map store.nameText = parents.map Identifier.text := by
  have texts : parentKeys.map store.nameText =
      (parentKeys.map store.name?).map Identifier.textOf := by
    rw [List.map_map]
    rfl
  rw [texts, read, List.map_map]
  rfl

lemma typeText_of_shows {site : Site (Field Reference)}
    (shows : ShowsField (resolvedName place) store site) :
    store.typeText site.typeStart = site.item.type.render fun reference => reference.name.text := by
  have isType := shows.type
  cases type : site.item.type with
  | primitive primitive =>
    rw [type] at isType
    rcases isType.type with ⟨nameKey, known, _⟩
    rw [Store.typeText, known]
    rfl
  | user reference =>
    rw [type] at isType
    rcases isType.type with ⟨nameKey, known, named⟩
    rw [Store.typeText, known]
    simp only [Store.nameText, named]
    rfl

lemma treeLines_enum {site : Site EnumDecl} (shows : ShowsEnum store site)
    (deep : site.key < depth) : store.treeLines depth indent site.key =
      Report.enumLines indent site.item.name.text site.item.items := by
  cases depth with
  | zero => omega
  | succ depth =>
    rcases shows.enum with ⟨node, isEnum, _, items⟩
    rw [Store.treeLines, key_enum, isEnum]
    simp only [shows.idText, items]
    rfl

lemma treeLines_field {site : Site (Field Reference)}
    (shows : ShowsField (resolvedName place) store site) (deep : site.key < depth) :
    store.treeLines depth indent site.key =
      [Report.fieldLine (fun reference => reference.name.text) indent site.item] := by
  cases depth with
  | zero => omega
  | succ depth =>
    rcases shows.node.field with ⟨nameKey, isField, named⟩
    rw [Store.treeLines, key_field, isField]
    simp only [Store.fieldText, fieldName_of_single named, typeText_of_shows shows]
    rfl

lemma messagesLines_eq_flatMap {ρ : Type} (shown : ρ -> String) (messages : List (Message ρ)) :
    Report.messagesLines shown indent messages =
      messages.flatMap (Report.messageLines shown indent) := by
  induction messages with
  | nil => rfl
  | cons message rest ih => rw [Report.messagesLines, flatMap_cons, ih]

lemma treeLines_message {message : Message Reference}
    (shows : ShowsMessage (resolvedName place) store ⟨start, typeStart, message⟩)
    (deep : Site.key ⟨start, typeStart, message⟩ < depth) :
    store.treeLines depth indent (Site.key ⟨start, typeStart, message⟩) =
      Report.messageLines (fun reference => reference.name.text) indent message := by
  induction message using Message.nestedInduction
    generalizing start typeStart depth indent with
  | external name =>
    cases depth with
    | zero => omega
    | succ depth =>
      cases shows with
      | external node =>
      rcases node.message with ⟨nameKey, parentKeys, isMessage, _⟩
      rw [Store.treeLines, key_external, isMessage, Report.messageLines]
      simp only [node.idText, if_true]
      rfl
  | defined name parents enums messages fields ih =>
    cases depth with
    | zero => omega
    | succ depth =>
      cases shows with
      | defined ownEnums ownMessages ownFields node =>
      rcases node.message with ⟨nameKey, parentKeys, isMessage, _, read⟩
      rw [key_defined] at deep ⊢
      have enumLines : (keysFrom start enums).flatMap (store.treeLines depth (indent + 1)) =
          enums.flatMap fun decl =>
            Report.enumLines (indent + 1) decl.name.text decl.items := by
        refine flatMap_keysFrom typeStart fun site listed => ?_
        have inside := within_of_mem_sitesFrom listed
        have covered := site.covers_key.2
        exact treeLines_enum (ownEnums site listed) (by omega)
      have messageLines : (keysFrom (start + nodesOf enums) messages).flatMap
          (store.treeLines depth (indent + 1)) =
          messages.flatMap
            (Report.messageLines (fun reference => reference.name.text) (indent + 1)) := by
        refine flatMap_keysFrom typeStart fun site listed => ?_
        have inside := within_of_mem_sitesFrom listed
        have covered := site.covers_key.2
        exact ih site.item (item_mem_of_mem_sitesFrom listed) (ownMessages site listed) (by
          change site.key < depth
          omega)
      have fieldLines : (keysFrom (start + nodesOf enums + nodesOf messages) fields).flatMap
          (store.treeLines depth (indent + 1)) =
          fields.map
            (Report.fieldLine (fun reference => reference.name.text) (indent + 1)) := by
        rw [map_eq_flatMap]
        refine flatMap_keysFrom (typeStart + typesOf messages) fun site listed => ?_
        have inside := within_of_mem_sitesFrom listed
        have covered := site.covers_key.2
        exact treeLines_field (ownFields site listed) (by omega)
      rw [Store.treeLines, isMessage, Report.messageLines, messagesLines_eq_flatMap]
      simp only [node.idText, map_nameText read, Bool.false_eq_true, if_false,
        flatMap_append, enumLines, messageLines, fieldLines]
      rfl

variable {site : Site (TypeDecl Reference)}

lemma treeLines_decl (shows : ShowsDecl (resolvedName place) store site) (deep : site.key < depth) :
    store.treeLines depth indent site.key =
      Report.typeLines (fun reference => reference.name.text) indent site.item := by
  cases shows with
  | enum shows => exact treeLines_enum shows deep
  | message shows => exact treeLines_message shows deep

/-- A flat schema in the store is drawn as the schema by itself. -/
lemma tree_of_showsFlat (shows : ShowsFlat (resolvedName place) store root sites) :
    store.tree (some root) =
      Report.typesLines (fun reference => reference.name.text) (sites.map Site.item) := by
  rcases shows.node.scope with ⟨nameKey, isScope, named⟩
  have anonymous : nameKey.isNone = true := by
    rw [← not_isSome, ← isSome_map, ← Store.name?, named]
    rfl
  have inside : root < store.nodes.size := shows.node.lt_size
  rw [Store.tree, Store.depth, Store.treeLines, isScope, Report.typesLines, flatMap_map]
  simp only [anonymous, if_true]
  rw [flatMap_map]
  refine flatMap_congr fun site listed => ?_
  have below := shows.below site listed
  have covered := site.covers_key.2
  exact treeLines_decl (shows.types site listed) (by omega)


lemma describeField_of_shows {site : Site (Field Reference)}
    (shows : ShowsField (resolvedName place) store site) {nameKey : Option Key}
    (named : store.name? nameKey = some (.single site.item.name))
    (meets : ∀ reference, site.item.type = .user reference -> store.Meets place reference) :
    store.describeField ⟨nameKey, site.typeStart, site.item.modifiers, site.item.bounds,
      site.item.ordinal, site.item.default⟩ = Export.describeField site.item := by
  have kind : (store.type site.typeStart).target.elim "primitive"
      (fun key => (store.node key).kind.name) = Export.typeKind site.item.type := by
    have isType := shows.type
    cases type : site.item.type with
    | primitive primitive =>
      rw [type] at isType
      rcases isType.type with ⟨typeKey, known, _⟩
      rw [known]
      rfl
    | user reference =>
      rw [type] at isType
      rcases isType.type with ⟨typeKey, known, _⟩
      rcases meets reference type with ⟨view, shown, _, sameKind⟩
      rw [known]
      simp only [elim_some]
      rw [shown.kind, sameKind]
      rfl
  rw [Store.describeField, Export.describeField]
  simp only [fieldName_of_single named, typeText_of_shows shows, kind]

lemma text_wire (name : MessageName) :
    (name.declared.map Identifier.text).getD name.current.text = name.wire.text := by
  rw [MessageName.wire]
  cases name.declared <;> rfl

lemma describeMessage?_of_shows {decl : Message Reference} (isMessage : site.item = .message decl)
    (shows : ShowsDecl (resolvedName place) store site) (meets : store.MeetsAll place decl)
    (references : References) (name : String) : store.describeMessage? references name site.key =
      some (Export.describeMessage references name decl) := by
  rcases site with ⟨start, typeStart, item⟩
  cases isMessage
  cases shows with
  | message shows =>
  cases shows with
  | @external _ _ written node =>
    rcases node.message with ⟨nameKey, parentKeys, isNode, _, read⟩
    change store.describeMessage? references name start = _
    rw [Store.describeMessage?, isNode, Export.describeMessage, some_inj,
      MessageInfo.mk.injEq]
    refine ⟨rfl, ?_, ?_, rfl, ?_, rfl, rfl, rfl, rfl⟩
    · rw [node.idText]
      exact text_wire written
    · rw [node.id]
      rfl
    · rw [List.map_eq_nil_iff.mp read]
      rfl
  | @defined _ _ written parents enums messages fields ownEnums ownMessages ownFields node =>
    rcases node.message with ⟨nameKey, parentKeys, isNode, _, read⟩
    have ownTypes : ∀ site ∈ sitesFrom (start + nodesOf enums + nodesOf messages)
        (typeStart + typesOf messages) fields, ShowsField (resolvedName place) store site ∧
          ∀ reference, site.item.type = .user reference -> store.Meets place reference :=
      fun site listed => ⟨ownFields site listed,
        meets site.item (item_mem_of_mem_sitesFrom listed)⟩
    rw [key_message_defined, Store.describeMessage?, isNode, Export.describeMessage,
      some_inj, MessageInfo.mk.injEq]
    refine ⟨rfl, ?_, ?_, rfl, map_nameText read, ?_, ?_, ?_, rfl⟩
    · rw [node.idText]
      exact text_wire written
    · rw [node.id]
      rfl
    · refine filterMap_keysFrom ownTypes fun site shown => ?_
      rcases shown.1.node.field with ⟨fieldKey, isField, named⟩
      rw [key_field, isField]
      simp only [describeField_of_shows shown.1 named shown.2]
    · exact map_keysFrom ownEnums fun site shown => shown.idText
    · refine map_keysFrom ownMessages fun site shown => ?_
      rcases shown.shows with ⟨view, seen, named, _⟩
      rw [seen.idText, named]
      rfl

lemma describeEnum?_of_shows {decl : EnumDecl} (isEnum : site.item = .enum decl)
    (shows : ShowsDecl (resolvedName place) store site) (name : String) :
    store.describeEnum? name site.key = some (Export.describeEnum name decl.items) := by
  rcases site with ⟨start, typeStart, item⟩
  cases isEnum
  cases shows with
  | enum shows =>
    rcases shows.enum with ⟨node, isNode, _, items⟩
    change store.describeEnum? name start = _
    rw [Store.describeEnum?, isNode]
    simp only [items]

end

/-- The store holds a compiled schema: its resolved types under one key, and under two
others its symbol table, with places for handles, and its dependencies. -/
def Store.Holds (store : Store) (root table references : Key) (compiled : Compiled) : Prop :=
  ∃ sites : List (Site (TypeDecl Reference)), sites.map Site.item = compiled.types ∧
    ShowsFlat (resolvedName (keyOf sites)) store root sites ∧
    store.table table = compiled.table.map (keyOf sites) ∧
    store.referencesAt references = compiled.references

lemma describe_of_holds (isTypes : sites.map Site.item = compiled.types)
    (shows : ShowsFlat (resolvedName (keyOf sites)) store root sites) (sound : compiled.Sound) :
    store.describe (compiled.table.map (keyOf sites)) compiled.references =
      Export.describe compiled := by
  rw [Store.describe, Export.describe, Export.Description.mk.injEq]
  constructor
  · rw [some_inj]
    change filterMap _ (compiled.table.enums.entries.map _) = _
    rw [filterMap_map]
    refine filterMap_congr fun entry listed => ?_
    rcases sound.points.enums _ _ (Name.Table.mem_entries_iff.mp listed) with ⟨decl, place⟩
    rw [← isTypes] at place
    rcases shows.of_handle place with ⟨site, shown, isEnum, isKey⟩
    simp only [Function.comp_apply, Export.enumAt?, getElem?_toArray, ← isTypes, place, isKey]
    exact describeEnum?_of_shows isEnum shown entry.1
  · rw [some_inj]
    change filterMap _ (compiled.table.messages.entries.map _) = _
    rw [filterMap_map]
    refine filterMap_congr fun entry listed => ?_
    rcases sound.points.messages _ _ (Name.Table.mem_entries_iff.mp listed) with ⟨decl, place⟩
    have leads := sound.leads decl (mem_of_getElem? place)
    rw [← isTypes] at place leads
    rcases shows.of_handle place with ⟨site, shown, isMessage, isKey⟩
    simp only [Function.comp_apply, Export.messageAt?, getElem?_toArray, ← isTypes, place,
      MessageEntry.map, isKey]
    exact describeMessage?_of_shows isMessage shown (meetsAll_of_leads shows leads) _ entry.1

/-- What a store makes of a schema that it holds is what is made of the schema by
itself. -/
lemma products_of_holds {root table references : Key}
    (holds : store.Holds root table references compiled) (sound : compiled.Sound) :
    store.products root table references = Products.of compiled := by
  rcases holds with ⟨sites, isTypes, shows, isTable, isReferences⟩
  rw [Store.products, Products.of, Products.mk.injEq]
  refine ⟨?_, ?_, ?_, isReferences⟩
  · rw [tree_of_showsFlat shows, isTypes]
  · rw [isTable, Report.indexLines, SymbolTable.listing_map, Report.indexLines]
  · rw [isTable, isReferences]
    exact describe_of_holds isTypes shows sound

end MessageSchema.Workbench

import MessageSchema.Proofs.Workbench.Visiting

namespace MessageSchema.Workbench

/-!
A message while a stage works on it.

Work on one part leaves the other parts as they are, so the message can be put
together again at the end.
-/

/-- The places of a message: where its enums, messages and fields start, its own place, and
where its field types start, those of its own fields start, and they end. -/
structure Places where
  enums : Nat
  messages : Nat
  fields : Nat
  own : Nat
  types : Nat
  fieldTypes : Nat
  typesEnd : Nat

namespace Places

/-- The places of the definitions of the message. -/
def Covers (places : Places) : Nat -> Prop :=
  Stretch places.enums (places.own + 1)

def CoversType (places : Places) : Nat -> Prop :=
  Stretch places.types places.typesEnd

end Places

section
variable {μ φ : Type} [Extent μ] [Extent φ]

/-- The view of a message by itself, which is defined with what lies in its places. -/
def Places.view (places : Places) (name : MessageName) (parents : List (Option Identifier))
    (enums : List EnumDecl) (messages : List μ) (fields : List φ) : NodeView :=
  .message (some name.current) false name.declared parents (keysFrom places.enums enums)
    (keysFrom places.messages messages) (keysFrom places.fields fields)

structure Fill (places : Places) (enums : List EnumDecl) (messages : List μ) (fields : List φ) :
    Prop where
  atMessages : places.messages = places.enums + nodesOf enums
  atFields : places.fields = places.messages + nodesOf messages
  atOwn : places.own = places.fields + nodesOf fields
  atFieldTypes : places.fieldTypes = places.types + typesOf messages
  atTypesEnd : places.typesEnd = places.fieldTypes + typesOf fields

/-- A message while a stage works on it: its parts are shown in their places, and nothing
has changed elsewhere. -/
structure Parts (showsMessage : Store -> Site μ -> Prop) (showsField : Store -> Site φ -> Prop)
    (origin store : Store) (places : Places) (enums : List EnumDecl) (messages : List μ)
    (fields : List φ) (view : NodeView) : Prop where
  fill : Fill places enums messages fields
  ownEnums : ∀ site ∈ sitesFrom places.enums places.types enums, ShowsEnum store site
  ownMessages : ∀ site ∈ sitesFrom places.messages places.types messages, showsMessage store site
  ownFields : ∀ site ∈ sitesFrom places.fields places.fieldTypes fields, showsField store site
  node : store.Shows places.own view
  persists : Persists places.Covers places.CoversType origin store

namespace Parts

variable {μ' φ' : Type} [Extent μ'] [Extent φ'] {showsMessage : Store -> Site μ -> Prop}
  {showsField : Store -> Site φ -> Prop} {showsMessage' : Store -> Site μ' -> Prop}
  {showsField' : Store -> Site φ' -> Prop} {origin store after : Store} {places : Places}
  {enums enums' : List EnumDecl} {messages : List μ} {messages' : List μ'} {fields : List φ}
  {fields' : List φ'} {view view' : NodeView}

section
variable (parts : Parts showsMessage showsField origin store places enums messages fields view)
include parts

lemma after_enums (lastingMessage : Lasting showsMessage) (lastingField : Lasting showsField)
    (shown : ∀ site ∈ sitesFrom places.enums places.types enums', ShowsEnum after site)
    (same : SameRow places.enums enums enums')
    (persists : Persists (Stretch places.enums (places.enums + nodesOf enums)) (Stretch places.types
      (places.types + typesOf enums)) store after) :
    Parts showsMessage showsField origin after places enums' messages fields view := by
  rcases parts.fill with ⟨atMessages, atFields, atOwn, atFieldTypes, atEnd⟩
  have typeless := typesOf_enums enums
  refine ⟨⟨same.nodes ▸ atMessages, atFields, atOwn, atFieldTypes, atEnd⟩, shown, ?_, ?_, ?_, ?_⟩
  · exact lastingMessage.row persists (.inl (by omega)) (.inl (by omega))
      parts.ownMessages
  · exact lastingField.row persists (.inl (by omega)) (.inl (by omega))
      parts.ownFields
  · exact persists.shows _ _ (by unfold Stretch; omega) parts.node
  · exact parts.persists.trans (persists.mono (Stretch.mono (by omega) (by omega))
      (Stretch.mono (by omega) (by omega)))

lemma after_messages (lastingField : Lasting showsField)
    (shown : ∀ site ∈ sitesFrom places.messages places.types messages', showsMessage' after site)
    (same : SameRow places.messages messages messages')
    (persists : Persists (Stretch places.messages (places.messages + nodesOf messages)) (Stretch
      places.types (places.types + typesOf messages)) store after) :
    Parts showsMessage' showsField origin after places enums messages' fields view := by
  rcases parts.fill with ⟨atMessages, atFields, atOwn, atFieldTypes, atEnd⟩
  have typeless := typesOf_enums enums
  refine ⟨⟨atMessages, same.nodes ▸ atFields, atOwn, same.types ▸ atFieldTypes, atEnd⟩, ?_, shown,
    ?_, ?_, ?_⟩
  · exact lasting_showsEnum.row persists (.inr (by omega)) (.inr (by omega))
      parts.ownEnums
  · exact lastingField.row persists (.inl (by omega)) (.inl (by omega))
      parts.ownFields
  · exact persists.shows _ _ (by unfold Stretch; omega) parts.node
  · exact parts.persists.trans (persists.mono (Stretch.mono (by omega) (by omega))
      (Stretch.mono (by omega) (by omega)))

lemma after_fields (lastingMessage : Lasting showsMessage)
    (shown : ∀ site ∈ sitesFrom places.fields places.fieldTypes fields', showsField' after site)
    (same : SameRow places.fields fields fields')
    (persists : Persists (Stretch places.fields (places.fields + nodesOf fields)) (Stretch
      places.fieldTypes (places.fieldTypes + typesOf fields)) store after) :
    Parts showsMessage showsField' origin after places enums messages fields' view := by
  rcases parts.fill with ⟨atMessages, atFields, atOwn, atFieldTypes, atEnd⟩
  have typeless := typesOf_enums enums
  refine ⟨⟨atMessages, atFields, same.nodes ▸ atOwn, atFieldTypes, same.types ▸ atEnd⟩, ?_, ?_,
    shown,
    ?_, ?_⟩
  · exact lasting_showsEnum.row persists (.inr (by omega)) (.inr (by omega))
      parts.ownEnums
  · exact lastingMessage.row persists (.inr (by omega)) (.inr (by omega))
      parts.ownMessages
  · exact persists.shows _ _ (by unfold Stretch; omega) parts.node
  · exact parts.persists.trans (persists.mono (Stretch.mono (by omega) (by omega))
      (Stretch.mono (by omega) (by omega)))

lemma after_node (lastingMessage : Lasting showsMessage) (lastingField : Lasting showsField)
    (shown : after.Shows places.own view')
    (persists : Persists (· = places.own) nowhere store after) :
    Parts showsMessage showsField origin after places enums messages fields view' := by
  rcases parts.fill with ⟨atMessages, atFields, atOwn, atFieldTypes, atEnd⟩
  have stretched : Persists (Stretch places.own (places.own + 1))
    (Stretch places.types places.types)
      store after :=
    persists.mono (fun key same => ⟨Nat.le_of_eq same.symm, Nat.lt_succ_of_le (Nat.le_of_eq same)⟩)
      fun _ => False.elim
  refine ⟨parts.fill, ?_, ?_, ?_, shown, ?_⟩
  · exact lasting_showsEnum.row stretched (.inr (by omega)) (.inl (Nat.le_refl _))
      parts.ownEnums
  · exact lastingMessage.row stretched (.inr (by omega)) (.inl (Nat.le_refl _))
      parts.ownMessages
  · exact lastingField.row stretched (.inr (by omega)) (.inl (by omega))
      parts.ownFields
  · exact parts.persists.trans (stretched.mono (Stretch.mono (by omega) (by omega))
      (Stretch.mono (by omega) (by omega)))

end

end Parts

/-- The places of a message that starts somewhere. -/
def placesFrom (start typeStart : Nat) (enums : List EnumDecl) (messages : List μ)
    (fields : List φ) : Places where
  enums := start
  messages := start + nodesOf enums
  fields := start + nodesOf enums + nodesOf messages
  own := start + nodesOf enums + nodesOf messages + nodesOf fields
  types := typeStart
  fieldTypes := typeStart + typesOf messages
  typesEnd := typeStart + typesOf messages + typesOf fields

end

section
open MessageSchema (Message)
variable {ρ : Type} {typed : ρ -> TypeView} {store : Store} {start typeStart : Nat}
  {name : MessageName} {parents : List Identifier} {enums : List EnumDecl}
  {messages : List (Message ρ)} {fields : List (Field ρ)}

lemma ShowsMessage.parts (shows : ShowsMessage typed store
      ⟨start, typeStart, .defined name parents enums messages fields⟩) :
    Parts (ShowsMessage typed) (ShowsField typed) store store
      (placesFrom start typeStart enums messages fields) enums messages fields
      (definedView name parents start enums messages fields) := by
  cases shows with
  | defined ownEnums ownMessages ownFields node =>
    exact ⟨⟨rfl, rfl, rfl, rfl, rfl⟩, ownEnums, ownMessages, ownFields, node,
      Persists.refl _ _ store⟩

/-- The message that its parts make up after the work. -/
lemma Parts.showsMessage {origin : Store} {places : Places}
    (parts : Parts (ShowsMessage typed) (ShowsField typed) origin store places enums messages fields
      (places.view name (parents.map some) enums messages fields)) : ShowsMessage typed store
      ⟨places.enums, places.types, .defined name parents enums messages fields⟩ := by
  rcases parts with ⟨fill, ownEnums, ownMessages, ownFields, node, _⟩
  rw [Places.view, fill.atOwn, fill.atFields, fill.atMessages] at node
  rw [fill.atFields, fill.atMessages, fill.atFieldTypes] at ownFields
  rw [fill.atMessages] at ownMessages
  exact .defined ownEnums ownMessages ownFields node

/-- The places of a message are those of its parts. -/
lemma covers_defined :
    Site.Covers (⟨start, typeStart, .defined name parents enums messages fields⟩ :
      Site (Message ρ)) = (placesFrom start typeStart enums messages fields).Covers := by
  rw [Site.Covers, Site.stop, nodes_defined, ← Nat.add_assoc, ← Nat.add_assoc, ← Nat.add_assoc]
  rfl

lemma coversType_defined :
    Site.CoversType (⟨start, typeStart, .defined name parents enums messages fields⟩ :
      Site (Message ρ)) = (placesFrom start typeStart enums messages fields).CoversType := by
  rw [Site.CoversType, Site.typeStop, types_defined, ← Nat.add_assoc]
  rfl

lemma key_placesFrom : Site.key (⟨start, typeStart, .defined name parents enums messages fields⟩ :
      Site (Message ρ)) = (placesFrom start typeStart enums messages fields).own :=
  key_defined

end

end MessageSchema.Workbench

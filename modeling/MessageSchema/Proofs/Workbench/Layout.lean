import MessageSchema.Proofs.Schema.Definitions
import MessageSchema.Proofs.Workbench.Views

namespace MessageSchema.Workbench

/-!
How a schema lies in the store.

A definition takes up a stretch of places for what is in it, followed by its own,
and a stretch for field types.  What a message or a namespace holds lies side by
side.  So the layout is given by where a definition starts, and different stretches
do not meet.
-/

/-- How many places something takes up, for definitions and for field types. -/
class Extent (α : Type) where
  nodes : α -> Nat
  types : α -> Nat
  nodes_pos : ∀ item, 0 < nodes item

section
variable {α : Type} [Extent α]

/-- The places for the definitions of several things side by side. -/
def nodesOf (items : List α) : Nat :=
  (items.map Extent.nodes).foldr (· + ·) 0

/-- The places for the field types of several things side by side. -/
def typesOf (items : List α) : Nat :=
  (items.map Extent.types).foldr (· + ·) 0

@[simp] lemma nodesOf_cons (item : α) (rest : List α) :
    nodesOf (item :: rest) = Extent.nodes item + nodesOf rest := by
  rw [nodesOf, List.map_cons, List.foldr_cons, nodesOf]

@[simp] lemma typesOf_cons (item : α) (rest : List α) :
    typesOf (item :: rest) = Extent.types item + typesOf rest := by
  rw [typesOf, List.map_cons, List.foldr_cons, typesOf]

end

/-- The places from one up to another. -/
def Stretch (start stop key : Nat) : Prop :=
  start <= key ∧ key < stop

variable {start typeStart : Nat} {content : List Declaration} {name : Identifier}

lemma Stretch.mono {stop start' stop' : Nat} (before : start' <= start) (behind : stop <= stop')
    (key : Nat) (inside : Stretch start stop key) : Stretch start' stop' key :=
  ⟨Nat.le_trans before inside.1, Nat.lt_of_lt_of_le inside.2 behind⟩

/-- Something with the places where its definitions and its field types start. -/
structure Site (α : Type) where
  start : Nat
  typeStart : Nat
  item : α

namespace Site

variable {α : Type} [Extent α]

/-- The place after the last definition. -/
def stop (site : Site α) : Nat :=
  site.start + Extent.nodes site.item

/-- The place after the last field type. -/
def typeStop (site : Site α) : Nat :=
  site.typeStart + Extent.types site.item

/-- The place of the definition itself, after those in it. -/
def key (site : Site α) : Nat :=
  site.stop - 1

/-- The places of the definitions. -/
def Covers (site : Site α) : Nat -> Prop :=
  Stretch site.start site.stop

/-- The places of the field types. -/
def CoversType (site : Site α) : Nat -> Prop :=
  Stretch site.typeStart site.typeStop

/-- One site lies within another. -/
structure Within {β : Type} [Extent β] (inner : Site α) (outer : Site β) : Prop where
  start : outer.start <= inner.start
  stop : inner.stop <= outer.stop
  typeStart : outer.typeStart <= inner.typeStart
  typeStop : inner.typeStop <= outer.typeStop

/-- Two sites that do not meet. -/
def Apart (site other : Site α) : Prop :=
  (site.stop <= other.start ∨ other.stop <= site.start) ∧
    (site.typeStop <= other.typeStart ∨ other.typeStop <= site.typeStart)

lemma start_lt_stop (site : Site α) : site.start < site.stop :=
  Nat.lt_add_of_pos_right (Extent.nodes_pos site.item)

lemma covers_key (site : Site α) : site.Covers site.key := by
  have := site.start_lt_stop
  unfold Covers Stretch key
  omega

lemma Within.covers {β : Type} [Extent β] {inner : Site α} {outer : Site β}
    (within : inner.Within outer) {key : Nat} (covers : inner.Covers key) : outer.Covers key :=
  ⟨Nat.le_trans within.start covers.1, Nat.lt_of_lt_of_le covers.2 within.stop⟩

lemma Within.coversType {β : Type} [Extent β] {inner : Site α} {outer : Site β}
    (within : inner.Within outer) {key : Nat} (covers : inner.CoversType key) :
    outer.CoversType key :=
  ⟨Nat.le_trans within.typeStart covers.1, Nat.lt_of_lt_of_le covers.2 within.typeStop⟩

lemma Apart.symm {site other : Site α} (apart : site.Apart other) : other.Apart site :=
  ⟨apart.1.symm, apart.2.symm⟩

end Site

section
variable {α : Type} [Extent α]

/-- The sites of things side by side. -/
def sitesFrom (start typeStart : Nat) : List α -> List (Site α)
  | [] => []
  | item :: rest =>
    ⟨start, typeStart, item⟩ ::
      sitesFrom (start + Extent.nodes item) (typeStart + Extent.types item) rest

variable {items : List α} {start : Nat}

/-- The sites side by side lie within the whole stretch. -/
lemma within_of_mem_sitesFrom {typeStart : Nat} {site : Site α}
    (listed : site ∈ sitesFrom start typeStart items) :
    (start <= site.start ∧ site.stop <= start + nodesOf items) ∧
      typeStart <= site.typeStart ∧ site.typeStop <= typeStart + typesOf items := by
  induction items generalizing start typeStart with
  | nil => cases listed
  | cons item rest ih =>
    rw [nodesOf_cons, typesOf_cons]
    rcases List.mem_cons.mp listed with same | listed
    · rw [same, Site.stop, Site.typeStop]
      simp only
      omega
    · have inside := ih listed
      omega

lemma key_lt_of_mem_sitesFrom {typeStart : Nat} {site : Site α}
    (listed : site ∈ sitesFrom start typeStart items) : site.key < start + nodesOf items :=
  Nat.lt_of_lt_of_le site.covers_key.2 (within_of_mem_sitesFrom listed).1.2

lemma apart_sitesFrom (items : List α) (start typeStart : Nat) :
    (sitesFrom start typeStart items).Pairwise Site.Apart := by
  induction items generalizing start typeStart with
  | nil => exact List.Pairwise.nil
  | cons item rest ih =>
    refine List.pairwise_cons.mpr ⟨?_, ih _ _⟩
    intro other listed
    have inside := within_of_mem_sitesFrom listed
    exact ⟨.inl inside.1.1, .inl inside.2.1⟩

lemma map_item_sitesFrom (items : List α) (start typeStart : Nat) :
    (sitesFrom start typeStart items).map Site.item = items := by
  induction items generalizing start typeStart with
  | nil => rfl
  | cons item rest ih => rw [sitesFrom, List.map_cons, ih]

lemma item_mem_of_mem_sitesFrom {typeStart : Nat} {site : Site α}
    (listed : site ∈ sitesFrom start typeStart items) : site.item ∈ items := by
  rw [← map_item_sitesFrom items start typeStart]
  exact List.mem_map_of_mem listed

/-- The keys of things side by side. -/
def keysFrom (start : Nat) (items : List α) : List Nat :=
  (sitesFrom start 0 items).map Site.key

lemma map_key_sitesFrom (items : List α) (start typeStart : Nat) :
    (sitesFrom start typeStart items).map Site.key = keysFrom start items := by
  have same : ∀ items : List α, ∀ start first second : Nat,
      (sitesFrom start first items).map Site.key = (sitesFrom start second items).map Site.key := by
    intro items
    induction items with
    | nil => intros; rfl
    | cons item rest ih =>
      intro start first second
      rw [sitesFrom, sitesFrom, List.map_cons, List.map_cons, ih]
      rfl
  exact same items start typeStart 0

end

/-! ### Definitions -/

instance : Extent EnumDecl := ⟨fun _ => 1, fun _ => 0, fun _ => Nat.one_pos⟩

instance {ρ : Type} : Extent (Field ρ) := ⟨fun _ => 1, fun _ => 1, fun _ => Nat.one_pos⟩

section
open MessageSchema (Message)
variable {ρ : Type}

mutual

/-- The number of definitions in a message, with fields and with itself. -/
def messageNodes : Message ρ -> Nat
  | .external _ => 1
  | .defined _ _ enums messages fields =>
    nodesOf enums + messageNodesAll messages + nodesOf fields + 1

def messageNodesAll : List (Message ρ) -> Nat
  | [] => 0
  | message :: rest => messageNodes message + messageNodesAll rest

end

mutual

/-- The number of fields in a message at any depth. -/
def messageTypes : Message ρ -> Nat
  | .external _ => 0
  | .defined _ _ _ messages fields => messageTypesAll messages + typesOf fields

def messageTypesAll : List (Message ρ) -> Nat
  | [] => 0
  | message :: rest => messageTypes message + messageTypesAll rest

end

instance : Extent (Message ρ) :=
  ⟨messageNodes, messageTypes, fun message => by
    cases message with
    | external name => exact Nat.one_pos
    | defined name parents enums messages fields => exact Nat.succ_pos _⟩

lemma messageNodesAll_eq (messages : List (Message ρ)) :
    messageNodesAll messages = nodesOf messages := by
  induction messages with
  | nil => rfl
  | cons message rest ih => rw [messageNodesAll, nodesOf_cons, ih]; rfl

lemma messageTypesAll_eq (messages : List (Message ρ)) :
    messageTypesAll messages = typesOf messages := by
  induction messages with
  | nil => rfl
  | cons message rest ih => rw [messageTypesAll, typesOf_cons, ih]; rfl

lemma nodes_defined (name : MessageName) (parents : List Identifier) (enums : List EnumDecl)
    (messages : List (Message ρ)) (fields : List (Field ρ)) :
    Extent.nodes (Message.defined name parents enums messages fields) =
      nodesOf enums + nodesOf messages + nodesOf fields + 1 := by
  rw [← messageNodesAll_eq]
  rfl

lemma types_defined (name : MessageName) (parents : List Identifier) (enums : List EnumDecl)
    (messages : List (Message ρ)) (fields : List (Field ρ)) :
    Extent.types (Message.defined name parents enums messages fields) =
      typesOf messages + typesOf fields := by
  rw [← messageTypesAll_eq]
  rfl

instance : Extent (TypeDecl ρ) where
  nodes
    | .enum decl => Extent.nodes decl
    | .message decl => Extent.nodes decl
  types
    | .enum decl => Extent.types decl
    | .message decl => Extent.types decl
  nodes_pos
    | .enum decl => Extent.nodes_pos decl
    | .message decl => Extent.nodes_pos decl

end

mutual

/-- The number of definitions in a declaration, with itself. -/
def declarationNodes : Declaration -> Nat
  | .type decl => Extent.nodes decl
  | .scope _ content => declarationNodesAll content + 1

def declarationNodesAll : List Declaration -> Nat
  | [] => 0
  | declaration :: rest => declarationNodes declaration + declarationNodesAll rest

end

mutual

/-- The number of fields in a declaration at any depth. -/
def declarationTypes : Declaration -> Nat
  | .type decl => Extent.types decl
  | .scope _ content => declarationTypesAll content

def declarationTypesAll : List Declaration -> Nat
  | [] => 0
  | declaration :: rest => declarationTypes declaration + declarationTypesAll rest

end

instance : Extent Declaration :=
  ⟨declarationNodes, declarationTypes, fun declaration => by
    cases declaration with
    | type decl => exact Extent.nodes_pos decl
    | scope name content => exact Nat.succ_pos _⟩

lemma declarationNodesAll_eq (content : List Declaration) :
    declarationNodesAll content = nodesOf content := by
  induction content with
  | nil => rfl
  | cons declaration rest ih => rw [declarationNodesAll, nodesOf_cons, ih]; rfl

lemma declarationTypesAll_eq (content : List Declaration) :
    declarationTypesAll content = typesOf content := by
  induction content with
  | nil => rfl
  | cons declaration rest ih => rw [declarationTypesAll, typesOf_cons, ih]; rfl

lemma nodes_scope (name : Identifier) (content : List Declaration) :
    Extent.nodes (Declaration.scope name content) = nodesOf content + 1 := by
  rw [← declarationNodesAll_eq]
  rfl

lemma types_scope (name : Identifier) (content : List Declaration) :
    Extent.types (Declaration.scope name content) = typesOf content := by
  rw [← declarationTypesAll_eq]
  rfl

lemma key_enum (site : Site EnumDecl) : site.key = site.start :=
  rfl

lemma key_field {ρ : Type} (site : Site (Field ρ)) : site.key = site.start :=
  rfl

lemma typesOf_enums (enums : List EnumDecl) : typesOf enums = 0 := by
  induction enums with
  | nil => rfl
  | cons decl rest ih => rw [typesOf_cons, ih]; rfl

section
open MessageSchema (Message)
variable {ρ : Type} {start typeStart : Nat} {name : MessageName} {parents : List Identifier}
  {enums : List EnumDecl} {messages : List (Message ρ)} {fields : List (Field ρ)}

lemma within_of_ownEnum {site : Site EnumDecl} (listed : site ∈ sitesFrom start typeStart enums) :
    site.Within (⟨start, typeStart, .defined name parents enums messages fields⟩ :
      Site (Message ρ)) := by
  have inside := within_of_mem_sitesFrom listed
  rw [typesOf_enums] at inside
  constructor <;> simp only [Site.stop, Site.typeStop, nodes_defined, types_defined] at * <;> omega

lemma within_of_ownMessage {site : Site (Message ρ)}
    (listed : site ∈ sitesFrom (start + nodesOf enums) typeStart messages) :
    site.Within (⟨start, typeStart, .defined name parents enums messages fields⟩ :
      Site (Message ρ)) := by
  have inside := within_of_mem_sitesFrom listed
  constructor <;> simp only [Site.stop, Site.typeStop, nodes_defined, types_defined] at * <;> omega

lemma within_of_ownField {site : Site (Field ρ)}
    (listed : site ∈ sitesFrom (start + nodesOf enums + nodesOf messages)
      (typeStart + typesOf messages) fields) :
    site.Within (⟨start, typeStart, .defined name parents enums messages fields⟩ :
      Site (Message ρ)) := by
  have inside := within_of_mem_sitesFrom listed
  constructor <;> simp only [Site.stop, Site.typeStop, nodes_defined, types_defined] at * <;> omega

lemma key_external : (⟨start, typeStart, .external name⟩ : Site (Message ρ)).key = start :=
  rfl

lemma key_defined :
    (⟨start, typeStart, .defined name parents enums messages fields⟩ : Site (Message ρ)).key =
      start + nodesOf enums + nodesOf messages + nodesOf fields := by
  simp only [Site.key, Site.stop, nodes_defined]
  omega

end

lemma within_of_content {site : Site Declaration}
    (listed : site ∈ sitesFrom start typeStart content) :
    site.Within (⟨start, typeStart, .scope name content⟩ : Site Declaration) := by
  have inside := within_of_mem_sitesFrom listed
  constructor <;> simp only [Site.stop, Site.typeStop, nodes_scope, types_scope] at * <;> omega

lemma key_scope :
    (⟨start, typeStart, .scope name content⟩ : Site Declaration).key = start + nodesOf content := by
  simp only [Site.key, Site.stop, nodes_scope]
  omega

lemma covers_scope : Site.Covers (⟨start, typeStart, .scope name content⟩ : Site Declaration) =
      Stretch start (start + nodesOf content + 1) := by
  rw [Site.Covers, Site.stop, nodes_scope, ← Nat.add_assoc]

lemma coversType_scope :
    Site.CoversType (⟨start, typeStart, .scope name content⟩ : Site Declaration) =
      Stretch typeStart (typeStart + typesOf content) := by
  rw [Site.CoversType, Site.typeStop, types_scope]

/-! ### What the store shows at a site -/

def ShowsEnum (store : Store) (site : Site EnumDecl) : Prop :=
  store.Shows site.start (.enum (some site.item.name) site.item.items)

section
open MessageSchema (Message)
variable {ρ : Type}

/-- A field type in the store, given how a reference to a definition lies there. -/
def fieldTypeView (typed : ρ -> TypeView) : FieldType ρ -> TypeView
  | .primitive type => ⟨some type, none, none⟩
  | .user reference => typed reference

structure ShowsField (typed : ρ -> TypeView) (store : Store) (site : Site (Field ρ)) : Prop where
  node : store.Shows site.start
    (.field (some (.single site.item.name)) site.typeStart site.item.modifiers site.item.bounds
      site.item.ordinal site.item.default)
  type : store.ShowsType site.typeStart (fieldTypeView typed site.item.type)

/-- The view of a message by itself, which is defined with what lies in front of
it. -/
def definedView {μ φ : Type} [Extent μ] [Extent φ] (name : MessageName) (parents : List Identifier)
    (start : Nat) (enums : List EnumDecl) (messages : List μ) (fields : List φ) : NodeView :=
  .message (some name.current) false name.declared (parents.map some) (keysFrom start enums)
    (keysFrom (start + nodesOf enums) messages)
    (keysFrom (start + nodesOf enums + nodesOf messages) fields)

/-- The store shows a message with everything in it. -/
inductive ShowsMessage (typed : ρ -> TypeView) (store : Store) : Site (Message ρ) -> Prop
  | external {start typeStart : Nat} {name : MessageName}
      (node : store.Shows start (.message (some name.current) true name.declared [] [] [] [])) :
      ShowsMessage typed store ⟨start, typeStart, .external name⟩
  | defined {start typeStart : Nat} {name : MessageName} {parents : List Identifier}
      {enums : List EnumDecl} {messages : List (Message ρ)} {fields : List (Field ρ)}
      (ownEnums : ∀ site ∈ sitesFrom start typeStart enums, ShowsEnum store site)
      (ownMessages : ∀ site ∈ sitesFrom (start + nodesOf enums) typeStart messages,
        ShowsMessage typed store site)
      (ownFields : ∀ site ∈ sitesFrom (start + nodesOf enums + nodesOf messages)
        (typeStart + typesOf messages) fields, ShowsField typed store site)
      (node : store.Shows (start + nodesOf enums + nodesOf messages + nodesOf fields)
        (definedView name parents start enums messages fields)) :
      ShowsMessage typed store ⟨start, typeStart, .defined name parents enums messages fields⟩

inductive ShowsDecl (typed : ρ -> TypeView) (store : Store) : Site (TypeDecl ρ) -> Prop
  | enum {start typeStart : Nat} {decl : EnumDecl}
      (shows : ShowsEnum store ⟨start, typeStart, decl⟩) :
      ShowsDecl typed store ⟨start, typeStart, .enum decl⟩
  | message {start typeStart : Nat} {decl : Message ρ}
      (shows : ShowsMessage typed store ⟨start, typeStart, decl⟩) :
      ShowsDecl typed store ⟨start, typeStart, .message decl⟩

/-- A written name in the store, which is not resolved. -/
def writtenName (name : Identifier) : TypeView :=
  ⟨none, some name, none⟩

/-- The store shows a declaration with everything in it. -/
inductive ShowsDeclaration (store : Store) : Site Declaration -> Prop
  | type {start typeStart : Nat} {decl : TypeDecl Identifier}
      (shows : ShowsDecl writtenName store ⟨start, typeStart, decl⟩) :
      ShowsDeclaration store ⟨start, typeStart, .type decl⟩
  | scope {start typeStart : Nat} {name : Identifier} {content : List Declaration}
      (inner : ∀ site ∈ sitesFrom start typeStart content, ShowsDeclaration store site)
      (node : store.Shows (start + nodesOf content) (.scope (some name) (keysFrom start content))) :
      ShowsDeclaration store ⟨start, typeStart, .scope name content⟩

end

/-- The store shows a document at its site: declarations side by side, and behind them the
namespace without name around them. -/
structure ShowsDocument (store : Store) (start typeStart : Nat) (document : Document) : Prop where
  content : ∀ site ∈ sitesFrom start typeStart document, ShowsDeclaration store site
  root : store.Shows (start + nodesOf document) (.scope none (keysFrom start document))

/-- The store shows a flat schema: a namespace without name, and in front of it the enums
and messages in it, which do not meet. -/
structure ShowsFlat {ρ : Type} (typed : ρ -> TypeView) (store : Store) (root : Nat)
    (sites : List (Site (TypeDecl ρ))) : Prop where
  node : store.Shows root (.scope none (sites.map Site.key))
  types : ∀ site ∈ sites, ShowsDecl typed store site
  apart : sites.Pairwise Site.Apart
  below : ∀ site ∈ sites, site.stop <= root

section
open MessageSchema (Message)
variable {ρ : Type} {typed : ρ -> TypeView} {store : Store}

lemma ShowsMessage.shows {site : Site (Message ρ)} (shows : ShowsMessage typed store site) :
    ∃ view, store.Shows site.key view ∧ view.name = some site.item.id ∧ view.kind = .message := by
  cases shows with
  | external node => exact ⟨_, node, rfl, rfl⟩
  | defined ownEnums ownMessages ownFields node =>
    rw [← key_defined] at node
    exact ⟨_, node, rfl, rfl⟩

lemma ShowsDecl.shows {site : Site (TypeDecl ρ)} (shows : ShowsDecl typed store site) :
    ∃ view, store.Shows site.key view ∧ view.name = some site.item.id ∧
      view.kind = site.item.kind := by
  cases shows with
  | enum shows => exact ⟨_, shows, rfl, rfl⟩
  | message shows => exact shows.shows

end

/-! ### What persists at a site -/

section
open MessageSchema (Message)
variable {ρ : Type} {typed : ρ -> TypeView} {nodes types : Nat -> Prop} {before after : Store}

/-- What is shown at the site does not hang on anything outside of it. -/
def Lasting {α : Type} [Extent α] (shows : Store -> Site α -> Prop) : Prop :=
  ∀ (site : Site α) (nodes types : Nat -> Prop) (before after : Store),
    Persists nodes types before after -> (∀ key, site.Covers key -> ¬ nodes key) ->
    (∀ key, site.CoversType key -> ¬ types key) -> shows before site -> shows after site

/-- What lasts at a site lasts if nothing changes in the schema. -/
lemma Lasting.lasts {α : Type} [Extent α] {shows : Store -> Site α -> Prop}
    (lasting : Lasting shows) {site : Site α} (persists : Persists nowhere nowhere before after)
    (shown : shows before site) : shows after site :=
  lasting site _ _ _ _ persists (fun _ _ => id) (fun _ _ => id) shown

lemma lasting_showsEnum : Lasting ShowsEnum :=
  fun site _ _ _ _ persists outside _ shows =>
    persists.shows _ _ (outside _ ⟨Nat.le_refl _, site.start_lt_stop⟩) shows

lemma lasting_showsField : Lasting (ShowsField typed) := by
  intro site nodes types before after persists outside outsideTypes shows
  exact ⟨persists.shows _ _ (outside _ ⟨Nat.le_refl _, site.start_lt_stop⟩) shows.node,
    persists.showsType _ _ (outsideTypes _ ⟨Nat.le_refl _, Nat.lt_succ_self _⟩) shows.type⟩

/-- What is no namespace at a site is shown as before. -/
structure Site.Kept {α : Type} [Extent α] (site : Site α) (before after : Store) : Prop where
  nodes : ∀ key view, site.Covers key -> view.kind ≠ .scope -> before.Shows key view ->
    after.Shows key view
  types : ∀ key view, site.CoversType key -> before.ShowsType key view -> after.ShowsType key view

lemma Persists.kept {α : Type} [Extent α] {site : Site α}
    (persists : Persists nodes types before after) (outside : ∀ key, site.Covers key -> ¬ nodes key)
    (outsideTypes : ∀ key, site.CoversType key -> ¬ types key) : site.Kept before after :=
  ⟨fun key view covers _ => persists.shows key view (outside key covers),
    fun key view covers => persists.showsType key view (outsideTypes key covers)⟩

lemma ShowsMessage.keep {site : Site (Message ρ)} (kept : site.Kept before after)
    (shows : ShowsMessage typed before site) : ShowsMessage typed after site := by
  induction shows with
  | external node =>
    exact .external (kept.nodes _ _ (Site.covers_key _) (by intro is; cases is) node)
  | defined ownEnums _ ownFields node ih =>
    refine .defined ?_ ?_ ?_ ?_
    · intro inner listed
      exact kept.nodes _ _ ((within_of_ownEnum listed).covers inner.covers_key)
        (by intro is; cases is) (ownEnums inner listed)
    · intro inner listed
      exact ih inner listed
        ⟨fun key view covers => kept.nodes key view ((within_of_ownMessage listed).covers covers),
          fun key view covers => kept.types key view
            ((within_of_ownMessage listed).coversType covers)⟩
    · intro inner listed
      have shown := ownFields inner listed
      exact ⟨kept.nodes _ _ ((within_of_ownField listed).covers inner.covers_key)
        (by intro is; cases is) shown.node, kept.types _ _
          ((within_of_ownField listed).coversType ⟨Nat.le_refl _, Nat.lt_succ_self _⟩) shown.type⟩
    · refine kept.nodes _ _ ?_ (by intro is; cases is) node
      rw [← key_defined]
      exact Site.covers_key _

lemma ShowsDecl.keep {site : Site (TypeDecl ρ)} (kept : site.Kept before after)
    (shows : ShowsDecl typed before site) : ShowsDecl typed after site := by
  cases shows with
  | enum shows => exact .enum (kept.nodes _ _ (Site.covers_key _) (by intro is; cases is) shows)
  | message shows => exact .message (shows.keep ⟨kept.nodes, kept.types⟩)

lemma lasting_showsMessage : Lasting (ShowsMessage typed) :=
  fun _ _ _ _ _ persists outside outsideTypes => .keep (persists.kept outside outsideTypes)

lemma lasting_showsDecl : Lasting (ShowsDecl typed) :=
  fun _ _ _ _ _ persists outside outsideTypes => .keep (persists.kept outside outsideTypes)

lemma lasting_showsDeclaration : Lasting ShowsDeclaration := by
  intro site nodes types before after persists outside outsideTypes shows
  induction shows with
  | type shows => exact .type (lasting_showsDecl _ _ _ _ _ persists outside outsideTypes shows)
  | scope inner node ih =>
    refine .scope ?_ ?_
    · intro inner listed
      exact ih inner listed
        (fun key covers => outside key ((within_of_content listed).covers covers))
        fun key covers => outsideTypes key ((within_of_content listed).coversType covers)
    · refine persists.shows _ _ (outside _ ?_) node
      rw [← key_scope]
      exact Site.covers_key _

lemma ShowsDocument.lasts {start typeStart : Nat} {document : Document}
    (persists : Persists nowhere nowhere before after)
    (shows : ShowsDocument before start typeStart document) :
    ShowsDocument after start typeStart document where
  content site listed := lasting_showsDeclaration.lasts persists (shows.content site listed)
  root := persists.shows _ _ id shows.root

lemma ShowsFlat.lasts {root : Nat} {sites : List (Site (TypeDecl ρ))}
    (persists : Persists nowhere nowhere before after) (shows : ShowsFlat typed before root sites) :
    ShowsFlat typed after root sites where
  node := persists.shows _ _ id shows.node
  types site listed := lasting_showsDecl.lasts persists (shows.types site listed)
  apart := shows.apart
  below := shows.below

end

end MessageSchema.Workbench

import MessageSchema.Proofs.Workbench.Compiling
import MessageSchema.Proofs.Workbench.FullNames

namespace MessageSchema.Workbench

open List

/-!
Where the types of dissolved namespaces go.

The types of a namespace come first, and behind them those of each namespace in it.
Flattening leaves them in this order in the root.  The order is read off the store
before the stage is run, by the keys alone; the stage adds to a namespace while it
visits what is in it.
-/

variable {name : Option Identifier}

namespace Store

/-- The enums and messages that a namespace itself holds. -/
def ownTypes (store : Store) (key : Key) : List Key :=
  (store.children key).filter fun child =>
    (store.node child).kind = .enum ∨ (store.node child).kind = .message

/-- The namespaces that a namespace itself holds. -/
def ownScopes (store : Store) (key : Key) : List Key :=
  (store.children key).filter fun child => (store.node child).kind = .scope

/-- The types of several namespaces in order: those of each one, and behind them those of
the namespaces in it. -/
inductive Flat (store : Store) : List Key -> List Key -> Prop
  | nil : Flat store [] []
  | cons {key : Key} {rest inner others : List Key}
    (scopes : Flat store (store.ownScopes key) inner)
      (further : Flat store rest others) :
      Flat store (key :: rest) ((store.ownTypes key ++ inner) ++ others)

variable {keys : List Key} {store : Store}

variable {others scopes : List Key}

/-- There is one order only. -/
lemma Flat.unique (flat : store.Flat scopes keys) (also : store.Flat scopes others) :
    keys = others := by
  induction flat generalizing others with
  | nil =>
    cases also
    rfl
  | cons _ _ ihScopes ihRest =>
    cases also with
    | cons alsoScopes alsoRest => rw [ihScopes alsoScopes, ihRest alsoRest]

lemma Flat.single {key : Key} {inner : List Key} (scopes : store.Flat (store.ownScopes key) inner) :
    store.Flat [key] (store.ownTypes key ++ inner) := by
  have single := Flat.cons scopes .nil
  rwa [append_nil] at single

lemma Flat.append {more : List Key} (flat : store.Flat scopes keys)
    (further : store.Flat more others) : store.Flat (scopes ++ more) (keys ++ others) := by
  induction flat with
  | nil => exact further
  | cons inner _ _ ih =>
    rw [List.append_assoc]
    exact .cons inner ih

/-- A path to an enum or a message that does not pass through a message. -/
structure Outside (store : Store) (root : Key) (keys : List Key) (key : Key) : Prop where
  path : store.Path root keys key
  type : (store.node key).kind = .enum ∨ (store.node key).kind = .message
  noMessage : ∀ outer ∈ keys.dropLast, (store.node outer).kind ≠ .message

lemma Path.ne_nil {first last : Key} (path : store.Path first keys last) : keys ≠ [] := by
  cases path <;> exact cons_ne_nil _ _

lemma exists_outside_scope {outer key : Key} {content : List Key}
    (node : store.Shows outer (.scope name content)) :
    (∃ keys, store.Outside outer keys key) ↔ ∃ inner ∈ content, ∃ keys,
      store.Outside inner keys key := by
  constructor
  · rintro ⟨keys, path, type, noMessage⟩
    cases path with
    | here =>
      rw [node.kind] at type
      rcases type with type | type <;> cases type
    | down held further =>
      rw [dropLast_cons_of_ne_nil further.ne_nil] at noMessage
      rw [node.children] at held
      exact ⟨_, held, _, further, type, fun outer listed =>
        noMessage outer (mem_cons_of_mem _ listed)⟩
  · rintro ⟨inner, held, keys, path, type, noMessage⟩
    refine ⟨outer :: keys, .down ?_ path, type, ?_⟩
    · rw [node.children]
      exact held
    rw [dropLast_cons_of_ne_nil path.ne_nil, forall_mem_cons]
    refine ⟨?_, noMessage⟩
    rw [node.kind]
    exact nofun

end Store

section
open MessageSchema (Message)
variable {store : Store} {start typeStart : Nat}

variable {site : Site (TypeDecl Identifier)} {after before : Store}

variable {key last : Key} {content : List Declaration} {declaration : Declaration} {keys : List Key}

/-- An enum or a message is not left without passing through it. -/
lemma exists_outside_decl (shows : ShowsDecl writtenName store site) :
    (∃ keys, store.Outside site.key keys key) ↔ key = site.key := by
  rcases shows.shows with ⟨view, shown, _, _⟩
  have isType := isType_of_showsDecl shows
  constructor
  · rintro ⟨keys, path, _, noMessage⟩
    cases path with
    | here => rfl
    | down held further =>
      rcases isType with isEnum | isMessage
      · rw [shown.children] at held
        rw [shown.kind] at isEnum
        cases view with
        | enum _ _ => exact absurd held not_mem_nil
        | _ => cases isEnum
      · rw [dropLast_cons_of_ne_nil further.ne_nil] at noMessage
        exact absurd isMessage (noMessage _ mem_cons_self)
  · rintro rfl
    exact ⟨[site.key], .here _, isType, fun _ none => absurd none not_mem_nil⟩

lemma mem_keys_flatSites_iff (each : ∀ site ∈ sitesFrom start typeStart content,
      (key ∈ site.outerTypes.map Site.key ↔ ∃ keys, store.Outside site.key keys key)) :
    key ∈ (flatSites start typeStart content).map Site.key ↔
      ∃ inner ∈ keysFrom start content, ∃ keys, store.Outside inner keys key := by
  constructor
  · intro listed
    rcases List.mem_map.mp listed with ⟨found, among, rfl⟩
    rcases mem_flatSites_iff.mp among with ⟨site, listed, within⟩
    rw [← map_key_sitesFrom content start typeStart]
    exact ⟨site.key, mem_map_of_mem listed,
      (each site listed).mp (mem_map_of_mem within)⟩
  · rintro ⟨inner, listed, outside⟩
    rcases exists_site_of_mem_keysFrom typeStart listed with ⟨site, among, rfl⟩
    rcases List.mem_map.mp ((each site among).mpr outside) with ⟨found, within, rfl⟩
    exact mem_map_of_mem (mem_flatSites_iff.mpr ⟨site, among, within⟩)

lemma mem_outerTypes_iff (shows : ShowsDeclaration store ⟨start, typeStart, declaration⟩) :
    key ∈ (Site.outerTypes ⟨start, typeStart, declaration⟩).map Site.key ↔
      ∃ keys, store.Outside (Site.key ⟨start, typeStart, declaration⟩) keys key := by
  induction declaration using Declaration.nestedInduction generalizing start typeStart with
  | type decl =>
    cases shows with
    | type shows => exact List.mem_singleton.trans (exists_outside_decl shows).symm
  | scope name content ih =>
    cases shows with
    | scope inner node =>
      rw [key_scope, Store.exists_outside_scope node]
      exact mem_keys_flatSites_iff fun site listed =>
        ih site.item (item_mem_of_mem_sitesFrom listed) (inner site listed)

/-! ### The order of the types -/

lemma flat_of_sites {sites : List (Site Declaration)}
    (shown : ∀ site ∈ sites, ShowsDeclaration store site)
    (inner : ∀ site ∈ sites, (store.node site.key).kind = .scope ->
      store.Flat [site.key] ((innerSites site.start site.typeStart site.item).map Site.key)) :
    store.Flat ((sites.map Site.key).filter fun child => (store.node child).kind = .scope)
      ((sites.flatMap fun site => innerSites site.start site.typeStart site.item).map Site.key) :=
        by
  induction sites with
  | nil => exact .nil
  | cons site rest ih =>
    rw [forall_mem_cons] at shown inner
    have further := ih shown.2 inner.2
    rw [map_cons, flatMap_cons, map_append]
    by_cases isScope : (store.node site.key).kind = .scope
    · rw [filter_cons, if_pos (decide_eq_true isScope)]
      exact (inner.1 isScope).append further
    · rw [filter_cons, if_neg (by rw [decide_eq_true_iff]; exact isScope)]
      cases shown.1 with
      | type shows => exact further
      | scope _ node =>
        rw [← key_scope] at node
        exact absurd node.kind isScope

/-- The types of a namespace are in order if those of the namespaces in it are. -/
lemma flat_of_content (node : store.Shows key (.scope name (keysFrom start content)))
    (shown : ∀ site ∈ sitesFrom start typeStart content, ShowsDeclaration store site)
    (inner : ∀ site ∈ sitesFrom start typeStart content, (store.node site.key).kind = .scope ->
      store.Flat [site.key] ((innerSites site.start site.typeStart site.item).map Site.key)) :
    store.Flat [key] ((flatSites start typeStart content).map Site.key) := by
  have held : store.children key = (sitesFrom start typeStart content).map Site.key := by
    rw [node.children, map_key_sitesFrom]
    rfl
  have own : store.ownTypes key =
      ((sitesFrom start typeStart content).filterMap Site.type?).map Site.key := by
    rw [Store.ownTypes, held, ← filter_keys_of_sites shown]
    refine filter_congr fun child listed => ?_
    rcases List.mem_map.mp listed with ⟨site, among, rfl⟩
    cases shown site among with
    | @type first firstType decl shows =>
      have isType := isType_of_showsDecl shows
      change (store.node (Site.key ⟨first, firstType, Declaration.type decl⟩)).kind = .enum ∨
        (store.node (Site.key ⟨first, firstType, Declaration.type decl⟩)).kind = .message at isType
      rcases isType with is | is <;> rw [is] <;> rfl
    | scope _ node =>
      rw [← key_scope] at node
      rw [node.kind]
      rfl
  have scopes := flat_of_sites shown inner
  rw [← held] at scopes
  rw [flatSites, map_append, ← own, innerSitesOf_eq_flatMap]
  exact .single scopes

/-- The types of a namespace are in order. -/
lemma flat_of_declaration (shows : ShowsDeclaration store ⟨start, typeStart, declaration⟩)
    (isScope : (store.node (Site.key ⟨start, typeStart, declaration⟩)).kind = .scope) :
    store.Flat [Site.key ⟨start, typeStart, declaration⟩]
      ((innerSites start typeStart declaration).map Site.key) := by
  induction declaration using Declaration.nestedInduction generalizing start typeStart with
  | type decl =>
    cases shows with
    | type shows => exact absurd isScope (noScope_of_showsDecl shows)
  | scope name content ih =>
    cases shows with
    | scope inner node =>
      rw [key_scope]
      exact flat_of_content node inner fun site listed =>
        ih site.item (item_mem_of_mem_sitesFrom listed) (inner site listed)

lemma nodup_keys {sites : List (Site (TypeDecl Identifier))} (apart : sites.Pairwise Site.Apart) :
    (sites.map Site.key).Nodup := by
  refine List.pairwise_map.mpr (apart.imp ?_)
  intro site other apart same
  have covers := site.covers_key
  have also := other.covers_key
  rw [← same] at also
  have := apart.1
  unfold Site.Covers Stretch at covers also
  omega

/-! ### Namespaces that are left behind -/

/-- No path leads from a message to a namespace. -/
lemma kind_of_path_message {message : Message Identifier}
    (shows : ShowsMessage writtenName store ⟨start, typeStart, message⟩)
    (path : store.Path (Site.key ⟨start, typeStart, message⟩) keys last) :
    (store.node last).kind ≠ .scope := by
  induction message using Message.nestedInduction generalizing start typeStart keys with
  | external name =>
    cases shows with
    | external node =>
      rcases path.eq_of_children node.children with ⟨rfl, rfl⟩
      exact node.kind ▸ nofun
  | defined name parents enums messages fields ih =>
    cases shows with
    | defined ownEnums ownMessages ownFields node =>
    rw [key_defined] at path
    cases path with
    | here => exact node.kind ▸ nofun
    | down held further =>
      rw [node.children] at held
      rcases List.mem_append.mp held with held | held
      · rcases List.mem_append.mp held with held | held
        · rcases exists_site_of_mem_keysFrom typeStart held with ⟨site, listed, rfl⟩
          have shown := ownEnums site listed
          rcases further.eq_of_children (Store.Shows.children shown) with ⟨rfl, rfl⟩
          exact Store.Shows.kind shown ▸ nofun
        · rcases exists_site_of_mem_keysFrom typeStart held with ⟨site, listed, rfl⟩
          exact ih site.item (item_mem_of_mem_sitesFrom listed) (ownMessages site listed) further
      · rcases exists_site_of_mem_keysFrom (typeStart + typesOf messages) held with
          ⟨site, listed, rfl⟩
        have shown := (ownFields site listed).node
        rcases further.eq_of_children shown.children with ⟨rfl, rfl⟩
        exact shown.kind ▸ nofun

lemma kind_of_path_decl {decl : TypeDecl Identifier}
    (shows : ShowsDecl writtenName store ⟨start, typeStart, decl⟩)
    (path : store.Path (Site.key ⟨start, typeStart, decl⟩) keys last) :
    (store.node last).kind ≠ .scope := by
  cases shows with
  | enum shows =>
    rcases path.eq_of_children (Store.Shows.children shows) with ⟨rfl, rfl⟩
    exact Store.Shows.kind shows ▸ nofun
  | message shows => exact kind_of_path_message shows path

/-- Every namespace of a declaration that a path leads to is one of those that are
left empty. -/
lemma emptied_of_path {content : List Key}
    (shows : ShowsDeclaration before ⟨start, typeStart, declaration⟩)
    (emptied : ShowsEmptied after ⟨start, typeStart, declaration⟩)
    (path : before.Path (Site.key ⟨start, typeStart, declaration⟩) keys last)
    (isScope : before.Shows last (.scope name content)) : after.Shows last (.scope name []) := by
  induction declaration using Declaration.nestedInduction generalizing start typeStart keys with
  | type decl =>
    cases shows with
    | type shows => exact absurd isScope.kind (kind_of_path_decl shows path)
  | scope scopeName inner ih =>
    cases shows with
    | scope shown node =>
    cases emptied with
    | scope shownEmpty empty =>
    rw [key_scope] at path
    cases path with
    | here =>
      cases isScope.unique node
      exact empty
    | down held further =>
      rw [node.children] at held
      rcases exists_site_of_mem_keysFrom typeStart held with ⟨site, listed, rfl⟩
      exact ih site.item (item_mem_of_mem_sitesFrom listed) (shown site listed)
        (shownEmpty site listed) further

/-! ### The flat schema -/

/-- The root has been left with the types of a schema, in order and without the
namespaces. -/
structure Flattened (before : Store) (root : Key) (content : List Key)
    (types : List (TypeDecl Identifier)) (after : Store) : Prop where
  node : after.Shows root (.scope none content)
  order : ∀ keys, before.Flat [root] keys ↔ keys = content
  /-- Nothing is lost. -/
  complete : ∀ key, key ∈ content ↔ ∃ keys, before.Outside root keys key
  /-- Nothing is there twice. -/
  once : content.Nodup
  /-- There is no namespace left. -/
  noScope : ∀ key ∈ content, (after.node key).kind ≠ .scope
  /-- What is no namespace is as it was, at any depth. -/
  kept : ∀ key view, view.kind ≠ .scope -> before.Shows key view -> after.Shows key view
  keptTypes : ∀ key view, before.ShowsType key view -> after.ShowsType key view
  /-- The namespaces below the root are empty, under the names that they had. -/
  emptied : ∀ keys key name inner, before.Path root keys key -> key ≠ root ->
    before.Shows key (.scope name inner) -> after.Shows key (.scope name [])
  shown : ∃ sites, ShowsFlat writtenName after root sites ∧ sites.map Site.key = content ∧
    sites.map Site.item = types

lemma flattened_of_dissolved {document : Document}
    (shows : ShowsDocument before start typeStart document)
    (dissolved : Dissolved start typeStart document before after) :
    Flattened before (start + nodesOf document) ((flatSites start typeStart document).map Site.key)
      (flatten document) after where
  node := dissolved.flat.node
  order := by
    have flat := flat_of_content shows.root shows.content fun site listed =>
      flat_of_declaration (shows.content site listed)
    exact fun keys => ⟨fun also => also.unique flat, fun same => same ▸ flat⟩
  complete := fun key => by
    rw [Store.exists_outside_scope shows.root]
    exact mem_keys_flatSites_iff fun site listed => mem_outerTypes_iff (shows.content site listed)
  once := nodup_keys dissolved.flat.apart
  noScope := by
    intro key listed
    rcases List.mem_map.mp listed with ⟨site, among, rfl⟩
    exact noScope_of_showsDecl (dissolved.flat.types site among)
  kept := dissolved.kept
  keptTypes := dissolved.keptTypes
  emptied := by
    intro keys key name inner path below isScope
    cases path with
    | here => exact absurd rfl below
    | down held further =>
      rw [shows.root.children] at held
      rcases exists_site_of_mem_keysFrom typeStart held with ⟨site, listed, rfl⟩
      exact emptied_of_path (shows.content site listed) (dissolved.emptied site listed) further
        isScope
  shown := ⟨_, dissolved.flat, rfl, map_item_flatSites document start typeStart⟩

end

/-- Flattening dissolves the namespaces of every document, be its names qualified or
not.  The types that are left are those that the schema is compiled from. -/
theorem flatten_leaves_types_in_order (document : Document) (store : Store)
    (renamer flattener : Key) (insideRenamer : renamer < store.runners.size)
    (isRenamer : (store.runner renamer).stage = .rename)
    (insideFlattener : flattener < store.runners.size)
    (isFlattener : (store.runner flattener).stage = .flatten) :
    Yields (placeDocument document) store fun root placed =>
      (Yields (run flattener root) placed fun _ after =>
        ∃ content, Flattened placed root content (flatten document) after) ∧
      Yields (run renamer root) placed fun _ renamed =>
        Yields (run flattener root) renamed fun _ after =>
          ∃ content, Flattened renamed root content (flatten (qualify document)) after := by
  refine (yields_placeDocument document store).mono ?_
  rintro root placed ⟨rfl, shows, alters⟩
  have sameRunner := runner_of_equipment alters.equipment
  have sameSize := size_runners_of_equipment alters.equipment
  rw [← sameSize] at insideRenamer insideFlattener
  rw [← sameRunner] at isRenamer isFlattener
  constructor
  · refine (yields_run_flatten insideFlattener isFlattener shows).mono ?_
    rintro _ after ⟨dissolved, _⟩
    exact ⟨_, flattened_of_dissolved shows dissolved⟩
  · have wiring := keeps_run renamer (store.nodes.size + nodesOf document) placed
    rcases yields_run_rename insideRenamer isRenamer shows with ⟨_, renamed, ran, shown, _⟩
    rw [ran] at wiring
    refine ⟨(), renamed, ran, ?_⟩
    have stage : (renamed.runner flattener).stage = .flatten :=
      (congrArg Runner.stage (wiring.cleared_runner flattener)).trans isFlattener
    rw [← nodesOf_qualify document]
    refine (yields_run_flatten (wiring.size_runners ▸ insideFlattener) stage shown).mono ?_
    rintro _ after ⟨dissolved, _⟩
    exact ⟨_, flattened_of_dissolved shown dissolved⟩

/-- A message between two namespaces, the first of which holds another one.  The types
of the inner namespace come behind the enum that follows it. -/
theorem message_stays_before_dissolved_namespaces :
    ∃ document, Syntax.parse
        ("namespace a \x7b namespace b \x7b enum E \x7b Z \x7d \x7d enum F \x7b Z \x7d \x7d " ++
          "message M \x7b \x7d namespace c \x7b enum G \x7b Z \x7d \x7d").toUTF8.toList =
          .ok document ∧
      Yields (placeDocument document)
        { runners := #[{ stage := .rename }, { stage := .flatten }] } fun root placed =>
        placed.children root = [3, 4, 6] ∧ placed.children 3 = [1, 2] ∧
        (Yields (run 1 root) placed fun _ after => after.Shows root (.scope none [4, 2, 0, 5])) ∧
        Yields (run 0 root) placed fun _ renamed =>
          Yields (run 1 root) renamed fun _ after =>
            ∃ content, Flattened renamed root content (flatten (qualify document)) after := by
  have checked : (Syntax.parse
      ("namespace a \x7b namespace b \x7b enum E \x7b Z \x7d \x7d enum F \x7b Z \x7d \x7d " ++
        "message M \x7b \x7d namespace c \x7b enum G \x7b Z \x7d \x7d").toUTF8.toList).toOption.any
        (fun document =>
          let placed := (placeDocument document).run
            { runners := #[{ stage := .rename }, { stage := .flatten }] }
          placed.1.toOption == some 7 && placed.2.children 7 == [3, 4, 6] &&
            placed.2.children 3 == [1, 2] &&
              ((run 1 7).run placed.2).2.children 7 == [4, 2, 0, 5]) =
        true := by
    decide +kernel
  rcases (Option.any_eq_true _ _).mp checked with ⟨document, isDocument, checked⟩
  rcases flatten_leaves_types_in_order document
    { runners := #[{ stage := .rename }, { stage := .flatten }] } 0 1 (by decide) rfl
      (by decide) rfl
    with ⟨root, placed, ran, flattens, renames⟩
  rw [ran] at checked
  simp only [Except.toOption, Bool.and_eq_true, beq_iff_eq, Option.some.injEq] at checked
  rcases checked with ⟨⟨⟨rfl, held⟩, inner⟩, left⟩
  refine ⟨document, eq_ok_of_toOption isDocument, 7, placed, ran, held, inner, ?_, renames⟩
  rcases flattens with ⟨_, after, flat, content, flattened⟩
  refine ⟨(), after, flat, ?_⟩
  have shown := flattened.node
  rw [flat, shown.children] at left
  cases left
  exact shown

end MessageSchema.Workbench

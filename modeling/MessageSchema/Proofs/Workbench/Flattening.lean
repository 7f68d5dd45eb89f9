import Mathlib.Data.List.Perm.Basic
import MessageSchema.Compile.Flat
import MessageSchema.Proofs.Workbench.Changes
import MessageSchema.Proofs.Workbench.Running

namespace MessageSchema.Workbench

open List

/-!
Flattening on the workbench.

A namespace is dissolved by moving what is left in it into the namespace around it,
behind the rest; those in it have been dissolved before.  Only namespaces change.
Enums and messages stay where they lie, and so a flat schema is a list of sites that
are no longer side by side.
-/

/-- Only namespaces have changed, and of these only the ones with the given
keys. -/
structure Moves (nodes : Key -> Prop) (before after : Store) : Prop
    extends Alters nodes nowhere before after where
  types : ∀ key view, view.kind ≠ .scope -> before.Shows key view -> after.Shows key view
  kinds : ∀ key, (after.node key).kind = (before.node key).kind

namespace Moves

variable {nodes nodes' : Key -> Prop} {before middle after : Store}

lemma refl (nodes : Key -> Prop) (store : Store) : Moves nodes store store :=
  ⟨Alters.refl _ _ store, fun _ _ _ shows => shows, fun _ => rfl⟩

lemma trans (first : Moves nodes before middle) (second : Moves nodes middle after) :
    Moves nodes before after :=
  ⟨first.toAlters.trans second.toAlters, fun key view isType shows =>
    second.types key view isType (first.types key view isType shows), fun key =>
    (second.kinds key).trans (first.kinds key)⟩

lemma mono (moves : Moves nodes before after) (within : ∀ key, nodes key -> nodes' key) :
    Moves nodes' before after :=
  ⟨moves.toAlters.mono within fun _ => id, moves.types, moves.kinds⟩

lemma showsDecl {ρ : Type} {typed : ρ -> TypeView} (moves : Moves nodes before after)
    {site : Site (TypeDecl ρ)} (shows : ShowsDecl typed before site) : ShowsDecl typed after site :=
  shows.keep ⟨fun key view _ => moves.types key view, fun key view _ => moves.showsType key view id⟩

end Moves

/-! ### Changes of a namespace -/

variable {view : NodeView} {declaration : Declaration} {visit : Key -> Work Unit}

section
variable {store : Store} {key : Key} {name : Option Identifier} {content : List Key}
  (shows : store.Shows key (.scope name content))
include shows

lemma yields_setContent {nameKey : Option Key}
    (isScope : store.node key = .scope ⟨nameKey, content⟩) (others : List Key) :
    Yields (setNode key (.scope ⟨nameKey, others⟩)) store fun _ after =>
      after.Shows key (.scope name others) ∧ Moves (· = key) store after := by
  have holds := shows.holdsNames
  have seen := shows.view_node
  rw [isScope] at holds seen
  have sameName : store.name? nameKey = name := by
    cases seen
    rfl
  have held : store.HoldsNames (Node.nameKeys (.scope ⟨nameKey, others⟩)) := holds
  have shown := shows_setNode shows held
  have alters := alters_setNode store key (.scope ⟨nameKey, others⟩)
  refine ⟨(), _, rfl, sameName ▸ shown, alters, ?_, ?_⟩
  · intro place view isType also
    refine alters.shows place view ?_ also
    rintro rfl
    exact isType (by rw [also.unique shows]; rfl)
  · intro place
    by_cases same : key = place
    · rw [← same, shown.kind, shows.kind]
      rfl
    · rw [Store.node, Array.getD_eq_getD_getElem?, Array.getElem?_setIfInBounds_ne same,
        Store.node, Array.getD_eq_getD_getElem?]

lemma yields_addToScope {child : Key}
    (isType : (store.node child).kind = .enum ∨ (store.node child).kind = .message) :
    Yields (addToScope key (some child)) store fun _ after =>
      after.Shows key (.scope name (content ++ [child])) ∧ Moves (· = key) store after := by
  rcases shows.scope with ⟨nameKey, isScope, _⟩
  refine .get_bind ?_
  simp only [isScope]
  cases node : store.node child with
  | enum _ | message _ =>
    simp only [Bool.not_true, Bool.false_eq_true, if_false]
    exact yields_setContent shows isScope _
  | field _ | scope _ =>
    rw [node] at isType
    rcases isType with is | is <;> cases is

lemma yields_clearScope : Yields (clearScope key) store fun _ after =>
      after.Shows key (.scope name []) ∧ Moves (· = key) store after := by
  rcases shows.scope with ⟨nameKey, isScope, _⟩
  refine .get_bind ?_
  simp only [isScope]
  exact yields_setContent shows isScope []

lemma yields_removeFromScope : Yields (removeFromScope key .scope) store fun _ after =>
      after.Shows key
        (.scope name (content.filter fun child => (store.node child).kind != .scope)) ∧
      Moves (· = key) store after := by
  rcases shows.scope with ⟨nameKey, isScope, _⟩
  refine .get_bind ?_
  simp only [isScope]
  exact yields_setContent shows isScope _

end

/-! ### The sites of a flat schema -/

/-- The site of a type that is declared there, unless it is a namespace. -/
def Site.type? (site : Site Declaration) : Option (Site (TypeDecl Identifier)) :=
  site.item.type?.map site.put

mutual

/-- The sites of the types of a namespace, in the order of a flat schema. -/
def innerSites (start typeStart : Nat) : Declaration -> List (Site (TypeDecl Identifier))
  | .type _ => []
  | .scope _ content =>
    (sitesFrom start typeStart content).filterMap Site.type? ++
      innerSitesOf start typeStart content

/-- The sites of the types of the namespaces among declarations side by side. -/
def innerSitesOf (start typeStart : Nat) : List Declaration -> List (Site (TypeDecl Identifier))
  | [] => []
  | declaration :: rest =>
    innerSites start typeStart declaration ++
      innerSitesOf (start + Extent.nodes declaration) (typeStart + Extent.types declaration) rest

end

/-- The sites of all types outside of messages. -/
def flatSites (start typeStart : Nat) (document : Document) : List (Site (TypeDecl Identifier)) :=
  (sitesFrom start typeStart document).filterMap Site.type? ++ innerSitesOf start typeStart document

lemma innerSitesOf_eq_flatMap (content : List Declaration) (start typeStart : Nat) :
    innerSitesOf start typeStart content = (sitesFrom start typeStart content).flatMap fun site =>
        innerSites site.start site.typeStart site.item := by
  induction content generalizing start typeStart with
  | nil => rfl
  | cons declaration rest ih => rw [innerSitesOf, sitesFrom, flatMap_cons, ih]

lemma map_item_types (content : List Declaration) (start typeStart : Nat) :
    ((sitesFrom start typeStart content).filterMap Site.type?).map Site.item =
      content.filterMap Declaration.type? := by
  induction content generalizing start typeStart with
  | nil => rfl
  | cons declaration rest ih =>
    rw [sitesFrom, filterMap_cons, filterMap_cons]
    cases declaration with
    | type decl => exact congrArg (decl :: ·) (ih _ _)
    | scope name content => exact ih _ _

lemma map_item_innerSites (declaration : Declaration) (start typeStart : Nat) :
    (innerSites start typeStart declaration).map Site.item = declaration.innerTypes := by
  induction declaration using Declaration.nestedInduction generalizing start typeStart with
  | type decl => rfl
  | scope name content ih =>
    rw [innerSites, Declaration.innerTypes, map_append, map_item_types]
    congr 1
    induction content generalizing start typeStart with
    | nil => rfl
    | cons declaration rest inner =>
      rw [innerSitesOf, Declaration.innerTypesOf, map_append,
        ih declaration mem_cons_self, inner fun other listed =>
          ih other (mem_cons_of_mem _ listed)]

lemma map_item_flatSites (document : Document) (start typeStart : Nat) :
    (flatSites start typeStart document).map Site.item = flatten document :=
  map_item_innerSites (.scope .outermost document) start typeStart

/-- The types of a declaration: itself, or those of the namespace that it is. -/
def Site.outerTypes (site : Site Declaration) : List (Site (TypeDecl Identifier)) :=
  site.type?.toList ++ innerSites site.start site.typeStart site.item

variable {start typeStart : Nat} {content : List Declaration} {store : Store}
  {found : Site (TypeDecl Identifier)}

/-- Up to their order the types of a flat schema are those of its declarations. -/
lemma perm_flatSites (content : List Declaration) (start typeStart : Nat) :
    (flatSites start typeStart content).Perm
      ((sitesFrom start typeStart content).flatMap Site.outerTypes) := by
  rw [flatSites, innerSitesOf_eq_flatMap, filterMap_eq_flatMap_toList]
  exact flatMap_append_perm _ _ _

lemma mem_flatSites_iff : found ∈ flatSites start typeStart content ↔
      ∃ site ∈ sitesFrom start typeStart content, found ∈ site.outerTypes := by
  rw [(perm_flatSites content start typeStart).mem_iff, mem_flatMap]

lemma Site.Within.trans {α β γ : Type} [Extent α] [Extent β] [Extent γ] {inner : Site α}
    {middle : Site β} {outer : Site γ} (first : inner.Within middle)
      (second : middle.Within outer) : inner.Within outer :=
  ⟨Nat.le_trans second.start first.start, Nat.le_trans first.stop second.stop,
    Nat.le_trans second.typeStart first.typeStart, Nat.le_trans first.typeStop second.typeStop⟩

lemma within_of_mem_outerTypes (listed : found ∈ Site.outerTypes ⟨start, typeStart, declaration⟩) :
    found.Within (⟨start, typeStart, declaration⟩ : Site Declaration) := by
  induction declaration using Declaration.nestedInduction generalizing start typeStart with
  | type decl =>
    rw [List.mem_singleton.mp listed]
    exact ⟨Nat.le_refl _, Nat.le_refl _, Nat.le_refl _, Nat.le_refl _⟩
  | scope name content ih =>
    rcases mem_flatSites_iff.mp listed with ⟨outer, among, inner⟩
    exact (ih outer.item (item_mem_of_mem_sitesFrom among) inner).trans (within_of_content among)

lemma shows_of_mem_outerTypes (shows : ShowsDeclaration store ⟨start, typeStart, declaration⟩)
    (listed : found ∈ Site.outerTypes ⟨start, typeStart, declaration⟩) :
    ShowsDecl writtenName store found := by
  induction declaration using Declaration.nestedInduction generalizing start typeStart with
  | type decl =>
    cases shows with
    | type shows =>
      rw [List.mem_singleton.mp listed]
      exact shows
  | scope name content ih =>
    cases shows with
    | scope shown node =>
      rcases mem_flatSites_iff.mp listed with ⟨outer, among, inner⟩
      exact ih outer.item (item_mem_of_mem_sitesFrom among) (shown outer among) inner

lemma shows_flatSites
    (shows : ∀ outer ∈ sitesFrom start typeStart content, ShowsDeclaration store outer) :
    ∀ site ∈ flatSites start typeStart content, ShowsDecl writtenName store site := by
  intro site listed
  rcases mem_flatSites_iff.mp listed with ⟨outer, among, inner⟩
  exact shows_of_mem_outerTypes (shows outer among) inner

/-- Sites within sites that do not meet do not meet. -/
lemma Site.Apart.within {α β : Type} [Extent α] [Extent β] {first second : Site α}
    {site other : Site β} (apart : first.Apart second) (within : site.Within first)
    (also : other.Within second) : site.Apart other := by
  rcases apart with ⟨nodes, types⟩
  have := within.start
  have := within.stop
  have := within.typeStart
  have := within.typeStop
  have := also.start
  have := also.stop
  have := also.typeStart
  have := also.typeStop
  exact ⟨by omega, by omega⟩

lemma apart_outerTypes (declaration : Declaration) (start typeStart : Nat) :
    (Site.outerTypes ⟨start, typeStart, declaration⟩).Pairwise Site.Apart := by
  induction declaration using Declaration.nestedInduction generalizing start typeStart with
  | type decl => exact pairwise_singleton _ _
  | scope name content ih =>
    refine ((perm_flatSites content start typeStart).pairwise_iff Site.Apart.symm).mpr
      (List.pairwise_flatMap.mpr ⟨?_, ?_⟩)
    · exact fun outer listed => ih outer.item (item_mem_of_mem_sitesFrom listed) _ _
    · refine (apart_sitesFrom content start typeStart).imp ?_
      intro first second apart site listed other also
      exact apart.within (within_of_mem_outerTypes listed) (within_of_mem_outerTypes also)

lemma isType_of_showsDecl (shows : ShowsDecl writtenName store found) :
    (store.node found.key).kind = .enum ∨ (store.node found.key).kind = .message := by
  rcases shows.shows with ⟨view, shown, _, kind⟩
  rw [shown.kind, kind]
  cases found.item with
  | enum _ => exact .inl rfl
  | message _ => exact .inr rfl

lemma noScope_of_showsDecl (shows : ShowsDecl writtenName store found) :
    (store.node found.key).kind ≠ .scope := by
  rcases isType_of_showsDecl shows with is | is <;> rw [is] <;> decide

/-! ### Namespaces that have been dissolved -/

/-- All namespaces of a declaration are empty. -/
inductive ShowsEmptied (store : Store) : Site Declaration -> Prop
  | type {start typeStart : Nat} {decl : TypeDecl Identifier} :
      ShowsEmptied store ⟨start, typeStart, .type decl⟩
  | scope {start typeStart : Nat} {name : Identifier} {content : List Declaration}
      (inner : ∀ site ∈ sitesFrom start typeStart content, ShowsEmptied store site)
      (node : store.Shows (start + nodesOf content) (.scope (some name) [])) :
      ShowsEmptied store ⟨start, typeStart, .scope name content⟩

lemma lasting_showsEmptied : Lasting ShowsEmptied := by
  intro site nodes types before after persists outside outsideTypes shows
  induction shows with
  | type => exact .type
  | scope inner node ih =>
    refine .scope ?_ ?_
    · intro inner listed
      exact ih inner listed
        (fun key covers => outside key ((within_of_content listed).covers covers))
        fun key covers => outsideTypes key ((within_of_content listed).coversType covers)
    · refine persists.shows _ _ (outside _ ?_) node
      rw [← key_scope]
      exact Site.covers_key _

/-- The namespaces of a document have been dissolved.  Whatever is no namespace is as
it was. -/
structure Dissolved (start typeStart : Nat) (document : Document) (before after : Store) :
    Prop where
  flat : ShowsFlat writtenName after (start + nodesOf document) (flatSites start typeStart document)
  emptied : ∀ site ∈ sitesFrom start typeStart document, ShowsEmptied after site
  kept : ∀ key view, view.kind ≠ .scope -> before.Shows key view -> after.Shows key view
  keptTypes : ∀ key view, before.ShowsType key view -> after.ShowsType key view

namespace Dissolved

variable {document : Document} {earlier before after later : Store}

lemma lasts (persists : Persists nowhere nowhere after later)
    (dissolved : Dissolved start typeStart document before after) :
    Dissolved start typeStart document before later where
  flat := dissolved.flat.lasts persists
  emptied := fun site listed => lasting_showsEmptied.lasts persists (dissolved.emptied site listed)
  kept := fun key view isType shows => persists.shows key view id
    (dissolved.kept key view isType shows)
  keptTypes := fun key view shows => persists.showsType key view id
    (dissolved.keptTypes key view shows)

lemma since (persists : Persists nowhere nowhere earlier before)
    (dissolved : Dissolved start typeStart document before after) :
    Dissolved start typeStart document earlier after where
  flat := dissolved.flat
  emptied := dissolved.emptied
  kept := fun key view isType shows => dissolved.kept key view isType
    (persists.shows key view id shows)
  keptTypes := fun key view shows => dissolved.keptTypes key view
    (persists.showsType key view id shows)

end Dissolved

/-! ### Visits -/

/-- What the namespaces of declarations held has been moved into the one around them,
which ends up with the given content. -/
structure DissolvesInto (sites : List (Site Declaration)) (outer : Key) (name : Option Identifier)
    (content : List Key) (before after : Store) : Prop where
  shows : after.Shows outer (.scope name content)
  emptied : ∀ site ∈ sites, ShowsEmptied after site
  moves : Moves (fun key => Covered sites key ∨ key = outer) before after

section
variable {runner outer : Key} {stack base : List Key} {name : Option Identifier} {depth : Nat}
  {origin : Store} {sites : List (Site Declaration)}

/-- What has been dissolved is not affected by changes elsewhere. -/
lemma emptied_of_moves {nodes : Key -> Prop} {before after : Store}
    (moves : Moves nodes before after) (outside : ∀ key, Covered sites key -> ¬ nodes key)
    (emptied : ∀ site ∈ sites, ShowsEmptied before site) :
    ∀ site ∈ sites, ShowsEmptied after site :=
  fun site listed => lasting_showsEmptied site _ _ _ _ moves.toPersists
    (fun key covers => outside key ⟨site, listed, covers⟩) (fun _ _ => id) (emptied site listed)

lemma Yields.walk_dissolving {key : Key}
    (inside : Yields (visit key) (store.enter runner key) fun _ after =>
      DissolvesInto sites outer name base (store.enter runner key) after) :
    Yields (Workbench.walk runner visit key) store fun _ after =>
      DissolvesInto sites outer name base store after := by
  have enter := persists_enter store runner key
  refine .walk (inside.mono ?_)
  rintro _ after ⟨shows, emptied, moves⟩
  have leave := persists_leave after runner
  refine ⟨leave.shows _ _ id shows, fun site listed => lasting_showsEmptied.lasts leave
    (emptied site listed), framing_alters.leave moves.toAlters, ?_, moves.kinds⟩
  exact fun place view isType shows => leave.shows place view id
    (moves.types place view isType (enter.shows place view id shows))

/-- A visit moves the types of the namespaces at a site behind the content of the
namespace around it, and leaves these empty. -/
def DissolvesAt (visit : Key -> Work Unit) (runner : Key) (stack : List Key) (outer : Key)
    (name : Option Identifier) (site : Site Declaration) : Prop :=
  ∀ store base, store.stackOf runner = stack -> store.Shows outer (.scope name base) ->
    ShowsDeclaration store site ->
    Yields (visit site.key) store fun _ after => DissolvesInto [site] outer name
      (base ++ (innerSites site.start site.typeStart site.item).map Site.key) store after

/-- Declarations are visited.  What is left of namespaces among them ends up behind the
content of the one around them. -/
lemma yields_forM_flatten (apart : sites.Pairwise Site.Apart) (outside : ¬ Covered sites outer)
    (visited : ∀ site ∈ sites, DissolvesAt visit runner stack outer name site)
    (stacked : store.stackOf runner = stack) (shows : store.Shows outer (.scope name base))
    (shown : ∀ site ∈ sites, ShowsDeclaration store site) :
    Yields ((sites.map Site.key).forM visit) store fun _ after =>
      DissolvesInto sites outer name (base ++ (sites.flatMap fun site =>
        innerSites site.start site.typeStart site.item).map Site.key) store after := by
  induction sites generalizing store base with
  | nil =>
    rw [flatMap_nil, map_nil, map_nil, append_nil]
    exact .pure ⟨shows, fun _ none => absurd none not_mem_nil, Moves.refl _ store⟩
  | cons site rest ih =>
    rcases List.pairwise_cons.mp apart with ⟨apartFirst, apartRest⟩
    rw [forall_mem_cons] at visited shown
    rw [covered_cons, not_or] at outside
    have fresh : ∀ key, Covered rest key -> ¬ site.Covers key := by
      rintro key ⟨other, listed, covers⟩ also
      exact (apartFirst other listed).not_covers also covers
    refine (visited.1 store base stacked shows shown.1).bind ?_
    rintro _ middle ⟨shows, emptied, moves⟩
    rw [covered_single] at moves
    refine (ih apartRest outside.2 visited.2 ?_ shows ?_).mono ?_
    · rw [stackOf_of_equipment moves.equipment, stacked]
    · intro other listed
      refine lasting_showsDeclaration other _ _ _ _ moves.toPersists ?_ (fun _ _ => id)
        (shown.2 other listed)
      rintro key covers (also | rfl)
      · exact fresh key ⟨other, listed, covers⟩ also
      · exact outside.2 ⟨other, listed, covers⟩
    · rintro _ after ⟨shows, emptiedRest, further⟩
      rw [flatMap_cons, map_append, ← List.append_assoc]
      refine ⟨shows, List.forall_mem_cons.mpr ⟨?_, emptiedRest⟩,
        (moves.mono fun key => ?_).trans (further.mono fun key => ?_)⟩
      · refine emptied_of_moves further ?_ emptied site mem_cons_self
        rw [covered_single]
        rintro key covers (also | rfl)
        · exact fresh key also covers
        · exact outside.1 covers
      · rw [covered_cons]
        exact .imp_left Or.inl
      · rw [covered_cons]
        exact .imp_left Or.inr

/-- Without its namespaces a list of declarations is left with its own types. -/
lemma filter_keys_of_sites (shown : ∀ site ∈ sites, ShowsDeclaration store site) :
    ((sites.map Site.key).filter fun child => (store.node child).kind != .scope) =
      (sites.filterMap Site.type?).map Site.key := by
  induction sites with
  | nil => rfl
  | cons site rest ih =>
    rw [map_cons, filter_cons, filterMap_cons,
      ih fun other listed => shown other (mem_cons_of_mem _ listed)]
    cases shown site mem_cons_self with
    | type shows => exact if_pos (bne_iff_ne.mpr (noScope_of_showsDecl shows))
    | scope inner node =>
      rw [← key_scope] at node
      exact if_neg (by rw [node.kind]; exact Bool.false_ne_true)

/-- Beside these there are the types that have been moved there. -/
lemma filter_keys {nodes : Key -> Prop}
    (shown : ∀ site ∈ sitesFrom start typeStart content, ShowsDeclaration origin site)
    (moves : Moves nodes origin store) :
    (((sitesFrom start typeStart content).map Site.key ++ ((sitesFrom start typeStart
        content).flatMap fun site => innerSites site.start site.typeStart site.item).map
          Site.key).filter fun child => (store.node child).kind != .scope) =
      (flatSites start typeStart content).map Site.key := by
  simp only [moves.kinds]
  rw [filter_append, filter_keys_of_sites shown, ← innerSitesOf_eq_flatMap, flatSites,
    map_append]
  congr 1
  rw [filter_eq_self]
  intro key listed
  rcases List.mem_map.mp listed with ⟨site, inner, rfl⟩
  exact bne_iff_ne.mpr (noScope_of_showsDecl
    (shows_flatSites shown site (mem_append_right _ inner)))

lemma yields_forM_addToScope {sites : List (Site (TypeDecl Identifier))}
    (shows : store.Shows outer (.scope name base))
    (shown : ∀ site ∈ sites, ShowsDecl writtenName store site) :
    Yields ((sites.map Site.key).forM fun child => addToScope outer (some child)) store
      fun _ after => after.Shows outer (.scope name (base ++ sites.map Site.key)) ∧
        Moves (· = outer) store after := by
  induction sites generalizing store base with
  | nil =>
    rw [map_nil, append_nil]
    exact .pure ⟨shows, Moves.refl _ store⟩
  | cons site rest ih =>
    rw [forall_mem_cons] at shown
    refine (yields_addToScope shows (isType_of_showsDecl shown.1)).bind ?_
    rintro _ middle ⟨shows, moves⟩
    refine (ih shows fun other listed => moves.showsDecl (shown.2 other listed)).mono ?_
    rintro _ after ⟨shows, further⟩
    rw [map_cons, append_cons]
    exact ⟨shows, moves.trans further⟩

/-- What a namespace holds is visited, and what is left of the namespaces in it is
removed, before anything else is done. -/
lemma yields_empty_scopes {next : Work Unit} {post : Unit -> Store -> Prop}
    (visited : ∀ site ∈ sitesFrom start typeStart content,
      DissolvesAt visit runner stack (start + nodesOf content) name site)
    (stacked : store.stackOf runner = stack)
    (shows : store.Shows (start + nodesOf content) (.scope name (keysFrom start content)))
    (shown : ∀ site ∈ sitesFrom start typeStart content, ShowsDeclaration store site)
    (rest : ∀ after, DissolvesInto (sitesFrom start typeStart content) (start + nodesOf content)
      name ((flatSites start typeStart content).map Site.key) store after ->
        Yields next after post) :
    Yields (do
      (keysFrom start content).forM visit
      removeFromScope (start + nodesOf content) .scope
      next) store post := by
  rw [← map_key_sitesFrom content start typeStart] at shows ⊢
  have outside : ¬ Covered (sitesFrom start typeStart content) (start + nodesOf content) :=
    fun covered => Nat.lt_irrefl _ (stretch_of_covered covered).2
  refine (yields_forM_flatten (apart_sitesFrom content start typeStart)
    outside visited stacked shows
    shown).bind ?_
  rintro _ middle ⟨shows, emptied, moves⟩
  refine (yields_removeFromScope shows).bind ?_
  rintro _ after ⟨shows, further⟩
  rw [filter_keys shown moves] at shows
  refine rest after ⟨shows, emptied_of_moves further ?_ emptied,
    moves.trans (further.mono fun _ => .inr)⟩
  rintro key covered rfl
  exact outside covered

lemma yields_visitFlatten_message {site : Site (MessageSchema.Message Identifier)}
    (shows : ShowsMessage writtenName store site) (deep : site.key < depth) :
    Yields (visitFlatten runner depth site.key) store fun _ after => after = store := by
  cases depth with
  | zero => omega
  | succ depth =>
    rcases shows.shows with ⟨view, shows, named, kind⟩
    rw [visitFlatten]
    refine .get_bind ?_
    have isMessage := shows.kind.trans kind
    cases node : store.node site.key with
    | message _ => exact yields_checkNamed .flatten shows (by rw [named]; rfl)
    | enum _ => rw [node] at isMessage; cases isMessage
    | field _ => rw [node] at isMessage; cases isMessage
    | scope _ => rw [node] at isMessage; cases isMessage

/-- A namespace is dissolved: the types that are left in it move to the one around
it. -/
lemma yields_visitFlatten_scope {scopeName : Identifier}
    (visited : ∀ site ∈ sitesFrom start typeStart content,
      DissolvesAt (unlessEnum (walk runner (visitFlatten runner depth))) runner
        ((start + nodesOf content) :: outer :: stack) (start + nodesOf content)
          (some scopeName) site)
    (stacked : store.stackOf runner = (start + nodesOf content) :: outer :: stack)
    (node : store.Shows (start + nodesOf content)
      (.scope (some scopeName) (keysFrom start content)))
    (inner : ∀ site ∈ sitesFrom start typeStart content, ShowsDeclaration store site)
    (outerShows : store.Shows outer (.scope name base))
    (outside : ¬ Stretch start (start + nodesOf content + 1) outer) :
    Yields (visitFlatten runner (depth + 1) (start + nodesOf content)) store fun _ after =>
      DissolvesInto [⟨start, typeStart, .scope scopeName content⟩] outer name
        (base ++ (flatSites start typeStart content).map Site.key) store after := by
  have nested : ¬ (store.stackOf runner).length = 1 := by
    rw [stacked, length_cons, length_cons]
    omega
  have distinct : ¬ start + nodesOf content = outer := by
    rintro rfl
    exact outside ⟨Nat.le_add_right _ _, Nat.lt_succ_self _⟩
  have inside : ∀ key, Covered (sitesFrom start typeStart content) key ->
      Stretch start (start + nodesOf content + 1) key := fun key covered =>
    Stretch.mono (Nat.le_refl _) (Nat.le_succ _) key (stretch_of_covered covered)
  rcases node.scope with ⟨nameKey, isScope, _⟩
  rw [visitFlatten]
  refine .get_bind ?_
  simp only [isScope, if_neg nested]
  refine (yields_checkNamed .flatten node rfl).bind ?_
  rintro _ _ rfl
  refine yields_empty_scopes visited stacked node inner ?_
  rintro middle ⟨left, emptied, moves⟩
  have outerLeft : middle.Shows outer (.scope name base) := by
    refine moves.shows _ _ ?_ outerShows
    rintro (covered | same)
    · exact outside (inside outer covered)
    · exact distinct same.symm
  rcases left.scope with ⟨leftKey, isLeft, _⟩
  rcases outerLeft.scope with ⟨outerKey, isOuter, _⟩
  have stackedMiddle := (stackOf_of_equipment moves.equipment runner).trans stacked
  refine .get_bind ?_
  simp only [stackedMiddle, isLeft, isOuter]
  refine (yields_forM_addToScope outerLeft fun site listed =>
    moves.showsDecl (shows_flatSites inner site listed)).bind ?_
  rintro _ further ⟨outerFilled, filled⟩
  refine (yields_clearScope (filled.shows _ _ distinct left)).mono ?_
  rintro _ after ⟨empty, cleared⟩
  refine ⟨cleared.shows _ _ (Ne.symm distinct) outerFilled, ?_, ?_⟩
  · refine List.forall_mem_singleton.mpr (.scope (emptied_of_moves cleared ?_
      (emptied_of_moves filled ?_ emptied)) empty)
    · rintro key covered rfl
      exact Nat.lt_irrefl _ (stretch_of_covered covered).2
    · rintro key covered rfl
      exact outside (inside key covered)
  · rw [covered_single, covers_scope]
    refine ((moves.mono ?_).trans (filled.mono fun _ => .inr)).trans (cleared.mono ?_)
    · rintro key (covered | rfl)
      · exact .inl (inside key covered)
      · exact .inl ⟨Nat.le_add_right _ _, Nat.lt_succ_self _⟩
    · rintro key rfl
      exact .inl ⟨Nat.le_add_right _ _, Nat.lt_succ_self _⟩

/-- A declaration is visited.  A namespace is dissolved. -/
lemma dissolvesAt_declaration (outside : ¬ Site.Covers ⟨start, typeStart, declaration⟩ outer)
    (deep : Site.key ⟨start, typeStart, declaration⟩ < depth) :
    DissolvesAt (unlessEnum (walk runner (visitFlatten runner depth))) runner (outer :: stack) outer
      name ⟨start, typeStart, declaration⟩ := by
  induction declaration using Declaration.nestedInduction
    generalizing start typeStart stack name outer depth with
  | type decl =>
    intro store base stacked outerShows shows
    rw [innerSites, map_nil, append_nil]
    have emptied : ∀ store, ∀ site ∈ [(⟨start, typeStart, .type decl⟩ : Site Declaration)],
        ShowsEmptied store site := fun _ => List.forall_mem_singleton.mpr .type
    cases shows with
    | type shows =>
    cases shows with
    | enum shows =>
      refine .get_bind ?_
      rw [if_neg (fun isOther => isOther shows.kind)]
      exact .pure ⟨outerShows, emptied store, Moves.refl _ store⟩
    | message shows =>
      rename_i decl
      rcases shows.shows with ⟨view, node, _, kind⟩
      have isMessage : (store.node (Site.key (⟨start, typeStart, .type (.message decl)⟩ :
          Site Declaration))).kind = .message := node.kind.trans kind
      refine .get_bind ?_
      rw [if_pos (by rw [isMessage]; decide)]
      refine .walk_dissolving ?_
      have enter := persists_enter store runner
        (Site.key (⟨start, typeStart, .type (.message decl)⟩ : Site Declaration))
      have entered := lasting_showsMessage.lasts enter shows
      refine (yields_visitFlatten_message entered deep).mono ?_
      rintro _ _ rfl
      exact ⟨enter.shows _ _ id outerShows, emptied _, Moves.refl _ _⟩
  | scope scopeName content ih =>
    intro store base stacked outerShows shows
    cases shows with
    | scope inner node =>
    rw [covers_scope] at outside
    rw [key_scope] at deep
    rw [key_scope]
    refine .get_bind ?_
    rw [if_pos (by rw [node.kind]; exact nofun)]
    refine .walk_dissolving ?_
    have enter := persists_enter store runner (start + nodesOf content)
    have stackedInner : (store.enter runner (start + nodesOf content)).stackOf runner =
        (start + nodesOf content) :: outer :: stack := by
      rw [stackOf_enter (lt_size_of_stackOf stacked), stacked]
    cases depth with
    | zero => omega
    | succ depth =>
      refine yields_visitFlatten_scope ?_ stackedInner (enter.shows _ _ id node)
        (fun site listed => lasting_showsDeclaration.lasts enter (inner site listed))
        (enter.shows _ _ id outerShows) outside
      intro site listed
      have below := key_lt_of_mem_sitesFrom listed
      refine ih site.item (item_mem_of_mem_sitesFrom listed) (fun covers => ?_)
        (show site.key < depth by omega)
      exact Nat.lt_irrefl _ (stretch_of_covered ⟨site, listed, covers⟩).2

variable {document : Document}

lemma yields_visitFlatten_document (shows : ShowsDocument store start typeStart document)
    (stacked : store.stackOf runner = [start + nodesOf document])
    (deep : start + nodesOf document < depth) :
    Yields (visitFlatten runner depth (start + nodesOf document)) store fun _ after =>
      Dissolved start typeStart document store after ∧
      Alters (Stretch start (start + nodesOf document + 1)) nowhere store after := by
  cases depth with
  | zero => omega
  | succ depth =>
    have outermost : (store.stackOf runner).length = 1 := by rw [stacked]; rfl
    rcases shows.root.scope with ⟨nameKey, isScope, _⟩
    rw [visitFlatten]
    refine .get_bind ?_
    simp only [isScope, if_pos outermost]
    refine (yields_checkRoot .flatten shows.root).bind ?_
    rintro _ _ rfl
    refine yields_empty_scopes ?_ stacked shows.root shows.content ?_
    · intro site listed
      have below := key_lt_of_mem_sitesFrom listed
      refine dissolvesAt_declaration (fun covers => ?_) (show site.key < depth by omega)
      exact Nat.lt_irrefl _ (stretch_of_covered ⟨site, listed, covers⟩).2
    · rintro after ⟨left, emptied, moves⟩
      have stackedAfter := (stackOf_of_equipment moves.equipment runner).trans stacked
      rcases left.scope with ⟨leftKey, isLeft, _⟩
      refine .get_bind ?_
      simp only [stackedAfter, isLeft]
      refine .pure ⟨⟨⟨left, ?_, ?_, ?_⟩, emptied, moves.types,
        fun key view => moves.showsType key view id⟩, moves.toAlters.mono ?_ fun _ => id⟩
      · exact fun site listed => moves.showsDecl (shows_flatSites shows.content site listed)
      · exact apart_outerTypes (.scope .outermost document) start typeStart
      · intro site listed
        rcases mem_flatSites_iff.mp listed with ⟨outer, among, inner⟩
        exact Nat.le_trans (within_of_mem_outerTypes inner).stop (within_of_mem_sitesFrom among).1.2
      · rintro key (covered | rfl)
        · exact Stretch.mono (Nat.le_refl _) (Nat.le_succ _) key (stretch_of_covered covered)
        · exact ⟨Nat.le_add_right _ _, Nat.lt_succ_self _⟩

lemma yields_run_flatten (inside : runner < store.runners.size)
    (isStage : (store.runner runner).stage = .flatten)
    (shows : ShowsDocument store start typeStart document) :
    Yields (run runner (start + nodesOf document)) store fun _ after =>
      Dissolved start typeStart document store after ∧
      after.equipment = (store.clearRunner runner).equipment := by
  have started := persists_start store runner (start + nodesOf document)
  have visited : Follows (visitAs runner (start + nodesOf document))
      (store.start runner (start + nodesOf document))
      (fun _ (_ : Unit) after => Dissolved start typeStart document store after ∧
        Alters (Stretch start (start + nodesOf document + 1)) nowhere
          (store.start runner (start + nodesOf document)) after) (.ok ()) := by
    refine .get_bind ?_
    rw [runner_start inside]
    simp only [Runner.cleared, isStage]
    have shown := shows.lasts started
    exact (yields_visitFlatten_document shown (stackOf_start inside _)
      (Nat.lt_succ_of_lt shown.root.lt_size)).follows
        fun _ _ done => ⟨done.1.since started, done.2⟩
  refine (follows_run_altering inside (.inr (.inl isStage))
    (fun _ _ _ persists (done : Dissolved _ _ _ _ _) => done.lasts persists) visited).yields.mono ?_
  rintro _ after ⟨done, _, equipment⟩
  exact ⟨done, equipment⟩

end

end MessageSchema.Workbench

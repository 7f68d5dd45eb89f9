import MessageSchema.Proofs.Compile.Stages
import MessageSchema.Proofs.Workbench.Placing
import MessageSchema.Proofs.Workbench.Qualifying
import MessageSchema.Workbench.Compile

namespace MessageSchema.Workbench

/-!
Paths on the workbench.

A path leads from a definition down to one below it.  It is given by the keys that
it passes, so that a statement about it is one about the store alone.  In a schema
that is shown at a site every path stays within the site.
-/

/-- The keys of what a definition holds. -/
def NodeView.children : NodeView -> List Key
  | enum _ _ => []
  | field _ _ _ _ _ _ => []
  | message _ _ _ _ enums messages fields => enums ++ messages ++ fields
  | scope _ content => content

lemma Store.Shows.children {store : Store} {key : Key} {view : NodeView}
    (shows : store.Shows key view) : store.children key = view.children := by
  rw [Store.children, ← shows.view_node]
  cases store.node key <;> rfl

/-- A path from one definition down to another, by the keys of all definitions that it
passes, both ends included. -/
inductive Store.Path (store : Store) : Key -> List Key -> Key -> Prop
  | here (key : Key) : Path store key [key] key
  | down {outer inner last : Key} {keys : List Key} (held : inner ∈ store.children outer)
      (further : Path store inner keys last) : Path store outer (outer :: keys) last

namespace Store

/-- The names of definitions one behind the other.  A definition without name adds
nothing. -/
def joinedName (store : Store) (keys : List Key) : Identifier :=
  ⟨(keys.filterMap store.id).flatMap Identifier.segments⟩

section
variable {store : Store} {key : Key} {view : NodeView}

lemma joinedName_of_named {name : Identifier} (shows : store.Shows key view)
    (isNamed : view.name = some name) (keys : List Key) :
    store.joinedName (key :: keys) = name.append (store.joinedName keys) := by
  rw [joinedName, List.filterMap_cons, shows.id, isNamed]
  rfl

lemma joinedName_of_anonymous (shows : store.Shows key view) (anonymous : view.name = none)
    (keys : List Key) : store.joinedName (key :: keys) = store.joinedName keys := by
  rw [joinedName, List.filterMap_cons, shows.id, anonymous, joinedName]

end

/-- What holds nothing is where its paths end. -/
lemma Path.eq_of_children {store : Store} {key last : Key} {keys : List Key}
    (path : store.Path key keys last) (none : store.children key = []) :
    keys = [key] ∧ last = key := by
  cases path with
  | here => exact ⟨rfl, rfl⟩
  | down held further =>
    rw [none] at held
    exact absurd held List.not_mem_nil

end Store

end MessageSchema.Workbench

namespace MessageSchema

lemma Identifier.append_assoc (outer middle inner : Identifier) :
    (outer.append middle).append inner = outer.append (middle.append inner) :=
  congrArg Identifier.mk (List.append_assoc _ _ _)

namespace Workbench

/-!
Full names on the workbench.

After qualifying, every enum and message bears the names that are passed on the way
down to it, as they were before the stage, although the stage reads them off its
stack while it changes them.  Everything else stays as it is.
-/

variable {name : Identifier} {key : Key} {view : NodeView}

/-- The definition under a full name.  Only enums and messages have one. -/
def NodeView.qualified (name : Identifier) (view : NodeView) : NodeView :=
  if view.kind = .enum ∨ view.kind = .message then view.withName (some name) else view

def NodeView.fieldType? : NodeView -> Option Key
  | field _ type _ _ _ _ => some type
  | _ => none

/-- A definition has been given this full name, and nothing else has happened to it.
A field keeps its type. -/
def Store.Qualifies (before after : Store) (name : Identifier) (key : Key) : Prop :=
  ∃ view, before.Shows key view ∧ after.Shows key (view.qualified name) ∧
    ∀ type ∈ view.fieldType?, ∀ shown, before.ShowsType type shown -> after.ShowsType type shown

section
open MessageSchema (Message)
variable {before after : Store} {scope : Identifier} {keys : List Key} {last : Key}

lemma Store.Qualifies.of_no_field
    (shows : before.Shows key view) (shown : after.Shows key (view.qualified name))
    (noField : view.fieldType? = none) : before.Qualifies after name key := by
  refine ⟨view, shows, shown, ?_⟩
  rw [noField]
  intro type isType
  cases isType

lemma Store.Qualifies.here (shows : before.Shows key view) (isNamed : view.name = some name)
    (shown : after.Shows key (view.qualified (scope.append name)))
    (noField : view.fieldType? = none) :
    before.Qualifies after (scope.append (before.joinedName [key])) key := by
  have empty : name.append (before.joinedName []) = name :=
    congrArg Identifier.mk (List.append_nil _)
  rw [Store.joinedName_of_named shows isNamed, empty]
  exact .of_no_field shows shown noField

/-- A named definition at the beginning of a path is in the scope around it. -/
lemma Store.Qualifies.named (shows : before.Shows key view) (isNamed : view.name = some name)
    (inner : before.Qualifies after ((scope.append name).append (before.joinedName keys)) last) :
    before.Qualifies after (scope.append (before.joinedName (key :: keys))) last := by
  rw [Store.joinedName_of_named shows isNamed, ← Identifier.append_assoc]
  exact inner

lemma qualifies_enum {site : Site EnumDecl} (shows : ShowsEnum before site)
    (shown : ShowsEnum after (site.put (site.item.qualify scope)))
    (path : before.Path site.key keys last) :
    before.Qualifies after (scope.append (before.joinedName keys)) last := by
  rcases path.eq_of_children (Store.Shows.children shows) with ⟨rfl, rfl⟩
  exact .here shows rfl shown rfl

lemma qualifies_field {site : Site (Field Identifier)} (shows : ShowsField writtenName before site)
    (shown : ShowsField writtenName after site) (path : before.Path site.key keys last) :
    before.Qualifies after (scope.append (before.joinedName keys)) last := by
  rcases path.eq_of_children (Store.Shows.children shows.node) with ⟨rfl, rfl⟩
  refine ⟨_, shows.node, shown.node, ?_⟩
  rintro type ⟨⟩ view isShown
  rw [isShown.unique shows.type]
  exact shown.type

variable {start typeStart : Nat}

/-- Every path into a message ends at a full name. -/
lemma qualifies_message {message : Message Identifier}
    (shows : ShowsMessage writtenName before ⟨start, typeStart, message⟩)
    (shown : ShowsMessage writtenName after ⟨start, typeStart, message.qualify scope⟩)
    (path : before.Path (Site.key ⟨start, typeStart, message⟩) keys last) :
    before.Qualifies after (scope.append (before.joinedName keys)) last := by
  induction message using Message.nestedInduction
    generalizing start typeStart scope keys last with
  | external name =>
    cases shows with
    | external node =>
    cases shown with
    | external nodeAfter =>
    rcases path.eq_of_children node.children with ⟨rfl, rfl⟩
    exact .here node rfl nodeAfter rfl
  | defined name parents enums messages fields ih =>
    have sameEnums : ∀ decl ∈ enums,
        SameExtent decl (decl.qualify (scope.append name.current)) :=
      fun decl _ => sameExtent_enum decl _
    have sameMessages : ∀ inner ∈ messages,
        SameExtent inner (inner.qualify (scope.append name.current)) :=
      fun inner _ => sameExtent_qualify_message _ inner
    rw [Message.qualify, Message.qualifyAll_eq_map] at shown
    cases shows with
    | defined ownEnums ownMessages ownFields node =>
    cases shown with
    | defined enumsAfter messagesAfter fieldsAfter nodeAfter =>
    rw [definedView] at node nodeAfter
    simp only [nodesOf_map sameEnums, nodesOf_map sameMessages, typesOf_map sameMessages,
      sitesFrom_map sameEnums, sitesFrom_map sameMessages, keysFrom_map sameEnums,
      keysFrom_map sameMessages, List.forall_mem_map]
      at enumsAfter messagesAfter fieldsAfter nodeAfter
    rw [key_defined] at path
    cases path with
    | here => exact .here node rfl nodeAfter rfl
    | down held further =>
      refine .named node rfl ?_
      rw [node.children] at held
      rcases List.mem_append.mp held with held | held
      · rcases List.mem_append.mp held with held | held
        · rcases exists_site_of_mem_keysFrom typeStart held with ⟨site, listed, rfl⟩
          exact qualifies_enum (ownEnums site listed) (enumsAfter site listed) further
        · rcases exists_site_of_mem_keysFrom typeStart held with ⟨site, listed, rfl⟩
          exact ih site.item (item_mem_of_mem_sitesFrom listed) (ownMessages site listed)
            (messagesAfter site listed) further
      · rcases exists_site_of_mem_keysFrom (typeStart + typesOf messages) held with
          ⟨site, listed, rfl⟩
        exact qualifies_field (ownFields site listed) (fieldsAfter site listed) further

lemma qualifies_decl {decl : TypeDecl Identifier}
    (shows : ShowsDecl writtenName before ⟨start, typeStart, decl⟩)
    (shown : ShowsDecl writtenName after ⟨start, typeStart, decl.qualify scope⟩)
    (path : before.Path (Site.key ⟨start, typeStart, decl⟩) keys last) :
    before.Qualifies after (scope.append (before.joinedName keys)) last := by
  cases shows with
  | enum shows =>
    cases shown with
    | enum shown => exact qualifies_enum shows shown path
  | message shows =>
    cases shown with
    | message shown => exact qualifies_message shows shown path

/-- Every path into a declaration ends at a full name, or at a namespace or field that
stays as it is. -/
lemma qualifies_declaration {declaration : Declaration}
    (shows : ShowsDeclaration before ⟨start, typeStart, declaration⟩)
    (shown : ShowsDeclaration after ⟨start, typeStart, declaration.qualify scope⟩)
    (path : before.Path (Site.key ⟨start, typeStart, declaration⟩) keys last) :
    before.Qualifies after (scope.append (before.joinedName keys)) last := by
  induction declaration using Declaration.nestedInduction
    generalizing start typeStart scope keys last with
  | type decl =>
    cases shows with
    | type shows =>
    cases shown with
    | type shown => exact qualifies_decl shows shown path
  | scope name content ih =>
    have same : ∀ inner ∈ content, SameExtent inner (inner.qualify (scope.append name)) :=
      fun inner _ => sameExtent_qualify_declaration _ inner
    rw [Declaration.qualify, Declaration.qualifyAll_eq_map] at shown
    cases shows with
    | scope inner node =>
    cases shown with
    | scope innerAfter nodeAfter =>
    simp only [nodesOf_map same, sitesFrom_map same, keysFrom_map same, List.forall_mem_map]
      at innerAfter nodeAfter
    rw [key_scope] at path
    cases path with
    | here => exact .of_no_field node nodeAfter rfl
    | down held further =>
      refine .named node rfl ?_
      rw [node.children] at held
      rcases exists_site_of_mem_keysFrom typeStart held with ⟨site, listed, rfl⟩
      exact ih site.item (item_mem_of_mem_sitesFrom listed) (inner site listed)
        (innerAfter site listed) further

/-- Every path from the root of a document ends at a full name, or at something that
stays as it is. -/
lemma qualifies_document {document : Document}
    (shows : ShowsDocument before start typeStart document)
    (shown : ShowsDocument after start typeStart (qualify document))
    (path : before.Path (start + nodesOf document) keys last) :
    before.Qualifies after (before.joinedName keys) last := by
  have same : ∀ inner ∈ document, SameExtent inner (inner.qualify .outermost) :=
    fun inner _ => sameExtent_qualify_declaration _ inner
  rcases shows with ⟨content, root⟩
  rcases shown with ⟨contentAfter, rootAfter⟩
  rw [qualify, Declaration.qualifyAll_eq_map] at contentAfter rootAfter
  simp only [nodesOf_map same, sitesFrom_map same, keysFrom_map same, List.forall_mem_map]
    at contentAfter rootAfter
  cases path with
  | here => exact .of_no_field root rootAfter rfl
  | down held further =>
    rw [Store.joinedName_of_anonymous root rfl]
    rw [root.children] at held
    rcases exists_site_of_mem_keysFrom typeStart held with ⟨site, listed, rfl⟩
    exact qualifies_declaration (content site listed) (contentAfter site listed) further

end

/-- Qualifying a document gives every enum and message at any depth the names that are
passed on the path to it, one behind the other, as they were before.  Whatever else a
path leads to stays as it is.  The document is then the one that the schema is compiled
from. -/
theorem rename_joins_names_on_paths (document : Document) (store : Store) (runner : Key)
    (inside : runner < store.runners.size) (isStage : (store.runner runner).stage = .rename) :
    Yields (placeDocument document) store fun root placed =>
      Yields (run runner root) placed fun _ renamed =>
        (∀ keys key, placed.Path root keys key ->
          placed.Qualifies renamed (placed.joinedName keys) key) ∧
        ShowsDocument placed store.nodes.size store.types.size document ∧
        ShowsDocument renamed store.nodes.size store.types.size (qualify document) := by
  refine (yields_placeDocument document store).mono ?_
  rintro root placed ⟨rfl, shows, alters⟩
  have sameRunner := runner_of_equipment alters.equipment runner
  have insidePlaced : runner < placed.runners.size := by
    rw [size_runners_of_equipment alters.equipment]
    exact inside
  refine (yields_run_rename insidePlaced (sameRunner ▸ isStage) shows).mono ?_
  rintro _ renamed ⟨shown, _⟩
  exact ⟨fun keys key path => qualifies_document shows shown path, shows, shown⟩

/-- An enum in a message in another one, in a namespace with two names.  The path to it has
five definitions. -/
theorem deep_enum_gets_full_name :
    ∃ document, Syntax.parse
        ("namespace a.b \x7b message M \x7b message N \x7b enum E \x7b Z \x7d \x7d \x7d " ++
          "\x7d").toUTF8.toList = .ok document ∧
      Yields (placeDocument document) { runners := #[{ stage := .rename }] } fun root placed =>
        placed.Path root [4, 3, 2, 1, 0] 0 ∧
        placed.joinedName [4, 3, 2, 1, 0] = ⟨["a", "b", "M", "N", "E"]⟩ ∧
        Yields (run 0 root) placed fun _ renamed =>
          placed.Qualifies renamed ⟨["a", "b", "M", "N", "E"]⟩ 0 := by
  have checked : (Syntax.parse
      ("namespace a.b \x7b message M \x7b message N \x7b enum E \x7b Z \x7d \x7d \x7d " ++
        "\x7d").toUTF8.toList).toOption.any (fun document =>
          let placed := (placeDocument document).run { runners := #[{ stage := .rename }] }
          placed.1.toOption == some 4 && placed.2.children 4 == [3] && placed.2.children 3 == [2] &&
            placed.2.children 2 == [1] && placed.2.children 1 == [0] &&
            placed.2.joinedName [4, 3, 2, 1, 0] == ⟨["a", "b", "M", "N", "E"]⟩) = true := by
    decide +kernel
  rcases (Option.any_eq_true _ _).mp checked with ⟨document, isDocument, checked⟩
  rcases rename_joins_names_on_paths document { runners := #[{ stage := .rename }] } 0 (by decide)
    rfl with ⟨root, placed, ran, renames⟩
  rw [ran] at checked
  simp only [Except.toOption, Bool.and_eq_true, beq_iff_eq, Option.some.injEq] at checked
  rcases checked with ⟨⟨⟨⟨⟨rfl, root⟩, scope⟩, outer⟩, inner⟩, joined⟩
  have path : placed.Path 4 [4, 3, 2, 1, 0] 0 :=
    .down (by simp [root]) (.down (by simp [scope]) (.down (by simp [outer])
      (.down (by simp [inner]) (.here 0))))
  refine ⟨document, eq_ok_of_toOption isDocument, 4, placed, ran, path, joined, renames.mono ?_⟩
  rintro _ renamed ⟨qualifies, _⟩
  rw [← joined]
  exact qualifies _ _ path

end Workbench
end MessageSchema

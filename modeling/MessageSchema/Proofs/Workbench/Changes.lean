import MessageSchema.Proofs.Workbench.Views

namespace MessageSchema.Workbench

open List Option Bool

/-!
The changes that the stages make to definitions and field types.

The guard of each change lets it through wherever the store shows what it is meant
for; the new view and the frame are stated.
-/

variable {store : Store} {key place : Key} {name : Identifier}

lemma Store.holdsNames_singleton (found : store.names[place]? = some name) :
    store.HoldsNames [some place] := by
  intro slot listed key member
  cases List.mem_singleton.mp listed
  cases member
  exact (Array.getElem?_eq_some_iff.mp found).1

variable {view : NodeView}

lemma Store.Shows.holdsNames (shows : store.Shows key view) :
    store.HoldsNames (store.node key).nameKeys := by
  rcases shows with ⟨node, found, holds, _⟩
  rw [Store.node_of_getElem? found]
  exact holds

lemma Store.ShowsType.holdsNames {view : TypeView} (shows : store.ShowsType key view) :
    store.HoldsNames [(store.type key).name] := by
  rcases shows with ⟨type, found, holds, _⟩
  rw [Store.type, Array.getD_eq_getD_getElem?, found, getD_some]
  exact holds

lemma yields_checkNamed (stage : Stage) (shows : store.Shows key view) (named : view.name.isSome) :
    Yields (checkNamed stage key) store fun _ after => after = store := by
  have guarded : ¬ (store.node key).name.isNone := by
    rw [← not_isSome, shows.isSome_name, named]
    decide
  refine .get_bind ?_
  simp only [if_neg guarded]
  exact .pure rfl

/-- Another definition is put in the place of one that is shown. -/
lemma shown_after_setNode (shows : store.Shows key view) {node : Node}
    (holds : store.HoldsNames node.nameKeys) : Yields (setNode key node) store fun _ after =>
      after.Shows key (node.view store.name?) ∧ Alters (· = key) nowhere store after :=
  ⟨(), _, rfl, shows_setNode shows holds, alters_setNode store key node⟩

lemma yields_renameDefinition (shows : store.Shows key view) (named : view.name.isSome)
    (found : store.names[place]? = some name) :
    Yields (renameDefinition key (some place)) store fun _ after =>
      after.Shows key (view.withName (some name)) ∧ Alters (· = key) nowhere store after := by
  have guarded : ¬ (store.node key).name.isNone := by
    rw [← not_isSome, shows.isSome_name, named]
    decide
  have holds : store.HoldsNames ((store.node key).withName (some place)).nameKeys := by
    intro slot listed
    rcases Node.mem_nameKeys_withName listed with same | listed
    · exact Store.holdsNames_singleton found slot (List.mem_singleton.mpr same)
    · exact shows.holdsNames slot listed
  refine .get_bind ?_
  simp only [if_neg guarded]
  refine (shown_after_setNode shows holds).mono fun _ after done => ⟨?_, done.2⟩
  rw [← shows.view_node, ← Store.name?_of_getElem? found, ← Node.view_withName]
  exact done.1

section
variable {shownName declared : Option Identifier} {announced : Bool}
  {parents : List (Option Identifier)} {enums messages fields : List Key}

lemma yields_replaceParent (shows : store.Shows key
      (.message shownName announced declared parents enums messages fields))
    {index : Nat} (inside : index < parents.length) (found : store.names[place]? = some name) :
    Yields (replaceParent key index (some place)) store fun _ after =>
      after.Shows key (.message shownName announced declared (parents.set index (some name)) enums
        messages fields) ∧ Alters (· = key) nowhere store after := by
  have holds := shows.holdsNames
  rcases shows.message with ⟨nameKey, parentKeys, isMessage, named, same⟩
  rw [isMessage] at holds
  have guarded : ¬ ((index : Int) < 0 ∨ (parentKeys.length : Int) <= index) := by
    rw [← same, length_map] at inside
    omega
  refine .get_bind ?_
  simp only [isMessage, if_neg guarded]
  refine (shown_after_setNode shows ?_).mono fun _ after done => ⟨?_, done.2⟩
  · intro slot listed
    rcases List.mem_cons.mp listed with own | listed
    · exact holds slot (List.mem_cons.mpr (.inl own))
    · rcases mem_or_eq_of_mem_set listed with old | new
      · exact holds slot (mem_cons_of_mem _ old)
      · exact Store.holdsNames_singleton found slot (List.mem_singleton.mpr new)
  · rw [← named, ← same, ← Store.name?_of_getElem? found, ← map_set]
    exact done.1

/-- The first of the remaining parents of a message gets another name. -/
lemma yields_putParent {done rest : List Identifier} {parent : Identifier}
    (shows : store.Shows key (.message shownName announced declared
      (done.map some ++ (parent :: rest).map some) enums messages fields)) (name : Identifier) :
    Yields (newName name >>= fun place => replaceParent key done.length (some place)) store
      fun _ after =>
        after.Shows key (.message shownName announced declared
          ((done ++ [name]).map some ++ rest.map some) enums messages fields) ∧
        Alters (· = key) nowhere store after := by
  have inside : done.length < (done.map some ++ (parent :: rest).map some).length := by
    rw [length_append, length_map, length_map, length_cons]
    omega
  refine (yields_newName name store).bind ?_
  rintro place middle ⟨found, added⟩
  refine (yields_replaceParent (added.shows key _ id shows) inside found).mono ?_
  rintro _ after ⟨shown, replaced⟩
  rw [set_append_right _ _ (Nat.le_of_eq (length_map some)), length_map,
    Nat.sub_self] at shown
  rw [map_append, List.append_assoc]
  exact ⟨shown, added.anywhere.trans replaced⟩

/-- A message keeps its present name as the declared one, unless it has one. -/
lemma yields_keepDeclaredName (shows : store.Shows key
      (.message shownName announced declared parents enums messages fields)) :
    Yields (keepDeclaredName key) store fun _ after =>
      after.Shows key (.message shownName announced (declared.or shownName) parents enums messages
        fields) ∧ Alters (· = key) nowhere store after := by
  have holds := shows.holdsNames
  rcases shows.message with ⟨nameKey, parentKeys, isMessage, named, same⟩
  rw [isMessage] at holds
  refine .get_bind ?_
  cases declared with
  | some first =>
    simp only [isMessage, isNone_some, false_eq_true, if_false]
    exact .pure ⟨shows, Alters.refl _ _ store⟩
  | none =>
    simp only [isMessage, isNone_none, if_true, none_or]
    have held : store.HoldsNames (Node.nameKeys (.message
        ⟨nameKey, announced, store.id key, parentKeys, enums, messages, fields⟩)) := holds
    refine (shown_after_setNode shows held).mono fun _ after done => ⟨?_, done.2⟩
    have view := done.1
    simp only [Node.view, named, same, shows.id] at view
    exact view

end

section
variable {shownName : Option Identifier} {primitive : Option Primitive} {target : Option Key}

lemma yields_renameType (shows : store.ShowsType key ⟨none, shownName, target⟩)
    (found : store.names[place]? = some name) (filled : name.isBlank = false) :
    Yields (renameType key (some place)) store fun _ after =>
      after.ShowsType key ⟨none, some name, target⟩ ∧ Alters nowhere (· = key) store after := by
  rcases shows.type with ⟨nameKey, isType, _⟩
  have isNamed : store.isNamed (some place) = true := by
    rw [Store.isNamed, Store.name?_of_getElem? found, any_some, filled, Bool.not_false]
  refine .get_bind ?_
  simp only [isType, isNamed, isSome_none, Bool.not_true, false_eq_true, if_false]
  refine ⟨(), _, rfl, ?_, alters_setType store key _⟩
  rw [← Store.name?_of_getElem? found]
  exact showsType_setType shows (Store.holdsNames_singleton found)

lemma yields_resolveType (shows : store.ShowsType key ⟨primitive, shownName, none⟩)
    {definition : Key} (shown : store.Shows definition view)
    (fits : view.kind = .enum ∨ view.kind = .message) :
    Yields (resolveType key (some definition)) store fun _ after =>
      after.ShowsType key ⟨primitive, shownName, some definition⟩ ∧
        Alters nowhere (· = key) store after := by
  have holds := shows.holdsNames
  rcases shows.type with ⟨nameKey, isType, named⟩
  rw [isType] at holds
  have set : Yields (setType key ⟨primitive, nameKey, some definition⟩) store fun _ after =>
      after.ShowsType key ⟨primitive, shownName, some definition⟩ ∧
        Alters nowhere (· = key) store after := by
    refine ⟨(), _, rfl, ?_, alters_setType store key _⟩
    rw [← named]
    exact showsType_setType shows holds
  refine .get_bind ?_
  rcases fits with isEnum | isMessage
  · simp only [isType, shown.kind, isEnum, isSome_none, false_eq_true, if_false]
    exact set
  · simp only [isType, shown.kind, isMessage, isSome_none, false_eq_true, if_false]
    exact set

end

end MessageSchema.Workbench

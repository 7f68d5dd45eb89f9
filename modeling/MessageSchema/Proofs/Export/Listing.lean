import MessageSchema.Export.Description
import MessageSchema.Proofs.Compile.Reachability
import MessageSchema.Proofs.Compile.Uses

namespace MessageSchema.Export

open List Option

/-!
What the description of a schema lists.

Every handle in the table of a compiled schema leads to a definition of the right
kind, so the description has one item for each name of the table, in the same order.
-/

namespace Description

def enumList (description : Description) : List EnumInfo :=
  description.enums.getD []

def messageList (description : Description) : List MessageInfo :=
  description.messages.getD []

def enumNames (description : Description) : List String :=
  description.enumList.map EnumInfo.name

def messageNames (description : Description) : List String :=
  description.messageList.map MessageInfo.name

end Description

variable {definitions : List (TypeDecl Reference)} {handle : Nat} {name : String}
    {info : MessageInfo} {compiled : Compiled}

lemma enumAt?_eq_some_iff {info : EnumInfo} : enumAt? definitions.toArray name handle = some info ↔
      ∃ decl, definitions[handle]? = some (.enum decl) ∧ describeEnum name decl.items = info := by
  rw [enumAt?, getElem?_toArray]
  rcases definitions[handle]? with _ | (decl | decl) <;> simp

lemma messageAt?_eq_some_iff {references : References} :
    messageAt? references definitions.toArray name handle = some info ↔
      ∃ decl, definitions[handle]? = some (.message decl) ∧
        describeMessage references name decl = info := by
  rw [messageAt?, getElem?_toArray]
  rcases definitions[handle]? with _ | (decl | decl) <;> simp

section
variable {compiled : Compiled}

lemma mem_enumList_describe {info : EnumInfo} : info ∈ (describe compiled).enumList ↔
      ∃ name handle decl, compiled.table.enums.find? name = some handle ∧
        (definitionsOf compiled.types)[handle]? = some (.enum decl) ∧
        describeEnum name decl.items = info := by
  simp only [Description.enumList, describe, getD_some, mem_filterMap, Prod.exists,
    Name.Table.mem_entries_iff, enumAt?_eq_some_iff]
  exact exists_congr fun _ => exists_congr fun _ => exists_and_left.symm

lemma mem_messageList_describe : info ∈ (describe compiled).messageList ↔
      ∃ name entry decl, compiled.table.messages.find? name = some entry ∧
        (definitionsOf compiled.types)[entry.handle]? = some (.message decl) ∧
        describeMessage compiled.references name decl = info := by
  simp only [Description.messageList, describe, getD_some, mem_filterMap, Prod.exists,
    Name.Table.mem_entries_iff, messageAt?_eq_some_iff]
  exact exists_congr fun _ => exists_congr fun _ => exists_and_left.symm

/-- A walk that has a result for every item has the results in the order of the
items. -/
lemma map_filterMap_of_forall {α β γ : Type} {result? : α -> Option β} {left : β -> γ}
    {right : α -> γ} {items : List α}
    (each : ∀ item ∈ items, ∃ result, result? item = some result ∧ left result = right item) :
    (items.filterMap result?).map left = items.map right := by
  induction items with
  | nil => rfl
  | cons item rest ih =>
    rw [forall_mem_cons] at each
    rcases each with ⟨⟨result, found, same⟩, others⟩
    rw [filterMap_cons_some found, map_cons, map_cons, same, ih others]

section
variable (describes : compiled.table.Describes (definitionsOf compiled.types))
include describes

lemma enumNames_describe : (describe compiled).enumNames = compiled.table.enums.names := by
  refine map_filterMap_of_forall ?_
  rintro ⟨name, handle⟩ listed
  rcases (describes.enums name handle).mp (Name.Table.mem_entries_iff.mp listed) with
    ⟨decl, place, _⟩
  exact ⟨_, enumAt?_eq_some_iff.mpr ⟨decl, place, rfl⟩, rfl⟩

lemma messageNames_describe : (describe compiled).messageNames = compiled.table.messages.names := by
  refine map_filterMap_of_forall ?_
  rintro ⟨name, entry⟩ listed
  rcases (describes.messages name entry).mp (Name.Table.mem_entries_iff.mp listed) with
    ⟨decl, place, _⟩
  exact ⟨_, messageAt?_eq_some_iff.mpr ⟨decl, place, rfl⟩, rfl⟩

lemma enumNames_ascending : (describe compiled).enumNames.Pairwise (· < ·) := by
  rw [enumNames_describe describes]
  exact compiled.table.enums.names_ascending

lemma messageNames_ascending : (describe compiled).messageNames.Pairwise (· < ·) := by
  rw [messageNames_describe describes]
  exact compiled.table.messages.names_ascending

lemma mem_enumNames_describe :
    name ∈ (describe compiled).enumNames ↔ compiled.table.enums.contains name = true := by
  rw [enumNames_describe describes, Name.Table.contains_iff_mem_names]

lemma mem_messageNames_describe :
    name ∈ (describe compiled).messageNames ↔ compiled.table.messages.contains name = true := by
  rw [messageNames_describe describes, Name.Table.contains_iff_mem_names]

end

end

/-- The dependencies of a top-level message are what it reaches; of other
messages none are listed. -/
lemma mem_dependencies_describeMessage
    (related : compiled.references = dependencies compiled.types compiled.table)
    {decl : Message Reference} {target : String} :
    target ∈ (describeMessage compiled.references name decl).dependencies ↔
      (∃ top ∈ topMessages compiled.types, top.id.text = name) ∧ target ≠ name ∧
        compiled.references.Reaches name target := by
  rw [← References.mem_closureOf_iff, describeMessage]
  cases found : compiled.references.closure? name with
  | none =>
    rw [related] at found ⊢
    simp only [getD_none, not_mem_nil, false_iff]
    rintro ⟨isTop, _⟩
    rw [closure?_dependencies_eq_some_iff.mpr ⟨isTop, rfl⟩] at found
    cases found
  | some closure =>
    rw [related] at found ⊢
    rcases closure?_dependencies_eq_some_iff.mp found with ⟨isTop, same⟩
    simp only [getD_some, ← same]
    exact ⟨fun member => ⟨isTop, member⟩, And.right⟩

lemma dependencies_describeMessage_ascending
    (related : compiled.references = dependencies compiled.types compiled.table) (name : String)
    (decl : Message Reference) :
    (describeMessage compiled.references name decl).dependencies.Pairwise (· < ·) := by
  rw [describeMessage]
  cases found : compiled.references.closure? name with
  | none => exact List.Pairwise.nil
  | some closure =>
    rw [related] at found
    rw [getD_some, ← (closure?_dependencies_eq_some_iff.mp found).2]
    exact References.closureOf_ascending _ name

end MessageSchema.Export

import MessageSchema.Proofs.Compile.FinalTable
import MessageSchema.Proofs.Compile.Ownership

namespace MessageSchema

/-!
What the messages of a compiled schema use.

A use leads from a message to the definition of a parent or of a field type, given
by handles.  The references are noted from these uses, under whatever names the
types end up.
-/

/-- The name that a use of a type counts for: that of the message itself, or
the scope of the enum. -/
def TypeDecl.anchor? {ρ : Type} : TypeDecl ρ -> Option Identifier
  | .enum decl => decl.name.parent?
  | .message decl => some decl.id

/-- The handles of the definitions that a message uses, as parents or as types
of its fields. -/
def SymbolTable.uses (table : SymbolTable Nat) (message : Message Reference) : List Nat :=
  message.parents.filterMap (fun parent =>
      (table.messages.find? parent.text).map MessageEntry.handle)
    ++ message.fields.filterMap fun field =>
      match field.type with
      | .primitive _ => none
      | .user reference => some reference.symbol.handle

/-- A use of a type, by a message of the given name, is noted as a reference
between these two. -/
def SymbolTable.Notes (table : SymbolTable Nat) (source : Identifier) (type : TypeDecl Reference)
    (outer inner : String) : Prop :=
  ∃ anchor, type.anchor? = some anchor ∧ table.messages.contains anchor.text = true ∧
    outer = (table.owner source).text ∧ inner = (table.owner anchor).text ∧ outer ≠ inner

namespace Compiled

/-- The table describes the types, names lead where they should, and the references are
those of the types and the table. -/
structure Coherent (compiled : Compiled) : Prop where
  indexes : compiled.table.Indexes (definitionsOf compiled.types)
  linked : ∀ decl, .message decl ∈ definitionsOf compiled.types ->
    decl.Linked compiled.table ((definitionsOf compiled.types).map TypeDecl.id)
  related : compiled.references = dependencies compiled.types compiled.table

end Compiled

lemma Stages.coherent {options : NamingOptions} {document : Document} {aliases : Aliases}
    {table : SymbolTable Nat} {types : List (TypeDecl Reference)} {compiled : Compiled}
    (stages : Stages options document aliases table types compiled)
    (sound : Document.Sound document) : compiled.Coherent :=
  ⟨stages.indexes_final sound, fun _ => stages.linked_final sound, stages.related⟩

namespace Compiled.Coherent

variable {compiled : Compiled}

lemma proper_of_anchor (coherent : compiled.Coherent) {type : TypeDecl Reference}
    (member : type ∈ definitionsOf compiled.types) {anchor : Identifier}
    (counts : type.anchor? = some anchor) : anchor.Proper := by
  have proper := coherent.indexes.proper _ member
  rcases type with decl | decl
  · exact Identifier.proper_of_parent? proper counts
  · cases counts
    exact proper

variable {source : Message Reference}

section
variable (coherent : compiled.Coherent) (member : .message source ∈ definitionsOf compiled.types)
include coherent member

/-- A parent leads to the message of its name. -/
lemma exists_parent {parent : Identifier} (listed : parent ∈ source.parents) :
    ∃ entry target, compiled.table.messages.find? parent.text = some entry ∧
      (definitionsOf compiled.types)[entry.handle]? = some (.message target) ∧
      target.id = parent := by
  rcases (coherent.linked source member).parents parent listed with ⟨known, handle, found⟩
  rcases List.mem_map.mp known with ⟨type, defined, isParent⟩
  have proper : parent.Proper := isParent ▸ coherent.indexes.proper type defined
  rcases SymbolTable.cases_of_find? found with ⟨_, _, isEnum⟩ | ⟨entry, foundMessage, _⟩
  · cases isEnum
  · rcases (coherent.indexes.messages _ entry).mp foundMessage with ⟨target, place, same, _⟩
    exact ⟨entry, target, foundMessage, place,
      Identifier.eq_of_text_eq (coherent.indexes.proper _ (List.mem_of_getElem? place)) proper same⟩

lemma exists_target {field : Field Reference}
    (listed : field ∈ source.fields) {reference : Reference}
      (isType : field.type = .user reference) :
    ∃ type, (definitionsOf compiled.types)[reference.symbol.handle]? = some type ∧
      type.anchor? = reference.dependency? := by
  rcases (coherent.linked source member).fields field listed reference isType with ⟨known, found⟩
  rcases List.mem_map.mp known with ⟨named, defined, isName⟩
  have proper : reference.name.Proper := isName ▸ coherent.indexes.proper named defined
  rcases coherent.indexes.definition_of_find? found with ⟨type, place, sameKind, sameText⟩
  have same := Identifier.eq_of_text_eq (coherent.indexes.proper _ (List.mem_of_getElem? place))
    proper sameText
  refine ⟨type, place, ?_⟩
  rw [Reference.dependency?, ← sameKind, ← same]
  cases type <;> rfl

/-- What a message depends on is what the definitions that it uses count for. -/
lemma mem_ownDependencies_iff {anchor : Identifier} :
    anchor ∈ source.ownDependencies ↔ ∃ target ∈ compiled.table.uses source, ∃ type,
      (definitionsOf compiled.types)[target]? = some type ∧ type.anchor? = some anchor := by
  rw [Message.ownDependencies, List.mem_append]
  constructor
  · rintro (isParent | isField)
    · rcases coherent.exists_parent member isParent with ⟨entry, target, found, place, same⟩
      refine ⟨entry.handle, List.mem_append_left _ (List.mem_filterMap.mpr ⟨anchor, isParent, ?_⟩),
        .message target, place, congrArg some same⟩
      rw [found]
      rfl
    · rcases List.mem_filterMap.mp isField with ⟨field, listed, depends⟩
      cases isType : field.type with
      | primitive type => simp [isType] at depends
      | user reference =>
        simp only [isType] at depends
        rcases coherent.exists_target member listed isType with ⟨type, place, same⟩
        refine ⟨reference.symbol.handle, List.mem_append_right _ (List.mem_filterMap.mpr
          ⟨field, listed, by simp only [isType]⟩), type, place, same.trans depends⟩
  · rintro ⟨target, used, type, place, counts⟩
    rcases List.mem_append.mp used with used | used
    · left
      rcases List.mem_filterMap.mp used with ⟨parent, listed, isTarget⟩
      rcases coherent.exists_parent member listed with ⟨entry, message, found, placed, same⟩
      rw [found] at isTarget
      cases isTarget
      rw [placed] at place
      cases place
      cases counts
      rw [same]
      exact listed
    · right
      rcases List.mem_filterMap.mp used with ⟨field, listed, isTarget⟩
      refine List.mem_filterMap.mpr ⟨field, listed, ?_⟩
      cases isType : field.type with
      | primitive type => simp [isType] at isTarget
      | user reference =>
        simp only [isType, Option.some.injEq] at isTarget
        rcases coherent.exists_target member listed isType with ⟨found, placed, same⟩
        rw [isTarget, place] at placed
        cases placed
        exact same.symm.trans counts

lemma lists_of_uses {target : Nat}
    (used : target ∈ compiled.table.uses source) : compiled.table.Lists target := by
  rcases List.mem_append.mp used with used | used
  · rcases List.mem_filterMap.mp used with ⟨parent, listed, isTarget⟩
    rcases Option.map_eq_some_iff.mp isTarget with ⟨entry, found, same⟩
    exact .inr ⟨parent.text, entry, found, same⟩
  · rcases List.mem_filterMap.mp used with ⟨field, listed, isTarget⟩
    cases isType : field.type with
    | primitive type => simp [isType] at isTarget
    | user reference =>
      simp only [isType, Option.some.injEq] at isTarget
      have found := ((coherent.linked source member).fields field listed reference isType).2
      rcases SymbolTable.cases_of_find? found with
        ⟨handle, foundEnum, isEnum⟩ | ⟨entry, foundMessage, isMessage⟩
      · rw [isEnum] at isTarget
        cases isTarget
        exact .inl ⟨_, foundEnum⟩
      · rw [isMessage] at isTarget
        exact .inr ⟨_, entry, foundMessage, isTarget⟩

end

/-- A reference is noted for every use, between the owner of the user and the
owner of what the use counts for. -/
lemma mem_refs_iff (coherent : compiled.Coherent) {outer inner : String} :
    inner ∈ compiled.references.refs outer ↔
      ∃ (handle target : Nat) (source : Message Reference) (type : TypeDecl Reference),
        (definitionsOf compiled.types)[handle]? = some (.message source) ∧
        target ∈ compiled.table.uses source ∧ (definitionsOf compiled.types)[target]? = some type ∧
        compiled.table.Notes source.id type outer inner := by
  rw [coherent.related, mem_refs_dependencies_iff]
  constructor
  · rintro ⟨source, anchor, member, depends, rest⟩
    rcases List.getElem?_of_mem member with ⟨handle, listed⟩
    rcases (coherent.mem_ownDependencies_iff member).mp depends with
      ⟨target, used, type, place, counts⟩
    exact ⟨handle, target, source, type, listed, used, place, anchor, counts, rest⟩
  · rintro ⟨handle, target, source, type, listed, used, place, anchor, counts, rest⟩
    have member := List.mem_of_getElem? listed
    exact ⟨source, anchor, member,
      (coherent.mem_ownDependencies_iff member).mpr ⟨target, used, type, place, counts⟩, rest⟩

end Compiled.Coherent
end MessageSchema

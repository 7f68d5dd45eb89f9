import Mathlib.Data.List.Forall2
import MessageSchema.Proofs.Name.Dotted
import MessageSchema.Schema.Declaration

namespace MessageSchema

open List

/-!
The definitions of a schema as one list, in which every type stands in front of what
is defined in it.  The handle of a definition is its place in that list; those of
one type follow each other without a gap.
-/

section
variable {ρ : Type}

/-- Induction over a message with the messages in it, at any depth. -/
lemma Message.nestedInduction {motive : Message ρ -> Prop}
    (external : ∀ name, motive (.external name))
    (defined : ∀ name parents enums messages fields, (∀ inner ∈ messages, motive inner) ->
      motive (.defined name parents enums messages fields)) :
    ∀ message, motive message
  | .external name => external name
  | .defined name parents enums messages fields =>
    defined name parents enums messages fields fun inner _ =>
      nestedInduction external defined inner

/-- Induction over a declaration with the declarations in it, at any depth. -/
lemma Declaration.nestedInduction {motive : Declaration -> Prop}
    (type : ∀ decl, motive (.type decl))
    (scope : ∀ name content, (∀ inner ∈ content, motive inner) -> motive (.scope name content)) :
    ∀ declaration, motive declaration
  | .type decl => type decl
  | .scope name content =>
    scope name content fun inner _ => nestedInduction type scope inner

lemma Message.definitionsOf_eq_flatMap (messages : List (Message ρ)) :
    Message.definitionsOf messages = messages.flatMap Message.definitions := by
  induction messages with
  | nil => rfl
  | cons message rest ih => rw [Message.definitionsOf, ih, flatMap_cons]

lemma Message.definitions_defined (name : MessageName) (parents : List Identifier)
    (enums : List EnumDecl) (messages : List (Message ρ)) (fields : List (Field ρ)) :
    (Message.defined name parents enums messages fields).definitions =
      .message (.defined name parents enums messages fields) ::
        (enums.map .enum ++ messages.flatMap Message.definitions) := by
  rw [Message.definitions, Message.definitionsOf_eq_flatMap]

lemma TypeDecl.head?_definitions (type : TypeDecl ρ) : type.definitions.head? = some type := by
  rcases type with decl | message
  · rfl
  · cases message <;> rfl

lemma TypeDecl.self_mem_definitions (type : TypeDecl ρ) : type ∈ type.definitions :=
  mem_of_head? type.head?_definitions

lemma TypeDecl.definitions_length_pos (type : TypeDecl ρ) : 0 < type.definitions.length :=
  length_pos_of_mem type.self_mem_definitions

variable {types : List (TypeDecl ρ)} {type : TypeDecl ρ} {start : Nat}

variable {found outer : TypeDecl ρ} {handle : Nat} {message : Message ρ}

lemma mem_definitionsOf : found ∈ definitionsOf types ↔ ∃ type ∈ types, found ∈ type.definitions :=
  mem_flatMap

lemma mem_definitionsOf_of_mem (member : type ∈ types) : type ∈ definitionsOf types :=
  mem_definitionsOf.mpr ⟨type, member, type.self_mem_definitions⟩

lemma definitionsOf_append (before after : List (TypeDecl ρ)) :
    definitionsOf (before ++ after) = definitionsOf before ++ definitionsOf after :=
  flatMap_append

lemma definitionsOf_cons (type : TypeDecl ρ) (rest : List (TypeDecl ρ)) :
    definitionsOf (type :: rest) = type.definitions ++ definitionsOf rest :=
  flatMap_cons

/-- The definitions of this type of the schema stand from this handle on. -/
def StandsAt (types : List (TypeDecl ρ)) (start : Nat) (type : TypeDecl ρ) : Prop :=
  ∃ before after, types = before ++ type :: after ∧ start = (definitionsOf before).length

lemma StandsAt.mem (stands : StandsAt types start type) : type ∈ types := by
  rcases stands with ⟨before, after, same, _⟩
  rw [same]
  exact mem_append_right _ mem_cons_self

lemma StandsAt.getElem?_start (stands : StandsAt types start type) :
    (definitionsOf types)[start]? = some type := by
  rcases stands with ⟨before, after, same, isStart⟩
  rw [same, isStart, definitionsOf_append, getElem?_append_right (Nat.le_refl _),
    Nat.sub_self, definitionsOf_cons, getElem?_append_left type.definitions_length_pos,
    ← head?_eq_getElem?, type.head?_definitions]

/-- Every definition stands among the definitions of some type of the schema. -/
lemma exists_standsAt (listed : (definitionsOf types)[handle]? = some found) :
    ∃ start type, StandsAt types start type ∧ start <= handle ∧
      type.definitions[handle - start]? = some found := by
  induction types generalizing handle with
  | nil => cases listed
  | cons type rest ih =>
    rw [definitionsOf_cons] at listed
    by_cases inside : handle < type.definitions.length
    · rw [getElem?_append_left inside] at listed
      exact ⟨0, type, ⟨[], rest, rfl, rfl⟩, Nat.zero_le _, listed⟩
    · have behind := Nat.le_of_not_lt inside
      rw [getElem?_append_right behind] at listed
      rcases ih listed with ⟨start, other, ⟨before, after, same, isStart⟩, below, place⟩
      refine ⟨type.definitions.length + start, other, ⟨type :: before, after, ?_, ?_⟩, ?_, ?_⟩
      · rw [same, cons_append]
      · rw [definitionsOf_cons, length_append, isStart]
      · omega
      · rw [← Nat.sub_sub]
        exact place

/-- What holds of a message, and passes from messages to their members, holds of
everything inside the message. -/
lemma Message.forall_inside {property : TypeDecl ρ -> Prop} (message : Message ρ)
    (self : property (.message message))
    (step : ∀ outer, .message outer ∈ message.definitions -> property (.message outer) ->
      (∀ inner ∈ outer.enums, property (.enum inner)) ∧
        ∀ inner ∈ outer.messages, property (.message inner)) :
    ∀ type ∈ message.definitions, property type := by
  induction message using Message.nestedInduction with
  | external name =>
    intro type inside
    rw [List.mem_singleton.mp inside]
    exact self
  | defined name parents enums messages fields ih =>
    rw [Message.definitions_defined] at step ⊢
    rcases step _ mem_cons_self self with ⟨ownEnums, ownMessages⟩
    intro type inside
    rcases List.mem_cons.mp inside with same | inside
    · rw [same]
      exact self
    · rcases List.mem_append.mp inside with member | member
      · rcases List.mem_map.mp member with ⟨decl, listed, same⟩
        rw [← same]
        exact ownEnums decl listed
      · rcases List.mem_flatMap.mp member with ⟨inner, listed, found⟩
        refine ih inner listed (ownMessages inner listed) ?_ type found
        intro outer deeper
        exact step outer (mem_cons_of_mem _ (mem_append_right _
          (mem_flatMap_of_mem listed deeper)))

/-- In this list the definitions of every type follow the type. -/
def Laid (definitions : List (TypeDecl ρ)) : Prop :=
  ∀ index type, definitions[index]? = some type -> type.definitions <+: definitions.drop index

lemma laid_nil : Laid ([] : List (TypeDecl ρ)) := by
  intro index type listed
  cases listed

lemma Laid.append {left right : List (TypeDecl ρ)} (first : Laid left) (second : Laid right) :
    Laid (left ++ right) := by
  intro index type listed
  by_cases inside : index < left.length
  · rw [getElem?_append_left inside] at listed
    rw [drop_append_of_le_length (Nat.le_of_lt inside)]
    exact (first index type listed).trans (prefix_append _ _)
  · have behind := Nat.le_of_not_lt inside
    rw [getElem?_append_right behind] at listed
    rw [drop_append, drop_eq_nil_of_le behind, nil_append]
    exact second _ type listed

lemma Laid.flatMap {α : Type} {items : List α} {definitions : α -> List (TypeDecl ρ)}
    (each : ∀ item ∈ items, Laid (definitions item)) : Laid (items.flatMap definitions) := by
  induction items with
  | nil => exact laid_nil
  | cons item rest ih =>
    rw [flatMap_cons]
    exact (each item mem_cons_self).append
      (ih fun other member => each other (mem_cons_of_mem _ member))

lemma Laid.cons {others : List (TypeDecl ρ)} (whole : type.definitions = type :: others)
    (laid : Laid others) : Laid (type :: others) := by
  intro index found listed
  cases index with
  | zero =>
    cases listed
    rw [whole]
    exact prefix_rfl
  | succ index => exact laid index found listed

lemma laid_enums (enums : List EnumDecl) : Laid (enums.map (TypeDecl.enum (ρ := ρ))) := by
  induction enums with
  | nil => exact laid_nil
  | cons decl rest ih => exact Laid.append (Laid.cons rfl laid_nil) ih

lemma Message.laid_definitions (message : Message ρ) : Laid message.definitions := by
  induction message using Message.nestedInduction with
  | external name => exact Laid.cons rfl laid_nil
  | defined name parents enums messages fields ih =>
    have whole := Message.definitions_defined name parents enums messages fields
    rw [whole]
    exact Laid.cons whole ((laid_enums enums).append (Laid.flatMap ih))

lemma laid_definitionsOf (types : List (TypeDecl ρ)) : Laid (definitionsOf types) := by
  refine Laid.flatMap fun type _ => ?_
  rcases type with decl | message
  · exact laid_enums [decl]
  · exact message.laid_definitions

/-- What lies inside a definition is a definition. -/
lemma mem_definitionsOf_of_inside (member : outer ∈ definitionsOf types)
    (inside : type ∈ outer.definitions) : type ∈ definitionsOf types := by
  rcases getElem?_of_mem member with ⟨handle, listed⟩
  exact mem_of_mem_drop ((laid_definitionsOf types handle outer listed).subset inside)

lemma enum_mem_definitionsOf (member : .message message ∈ definitionsOf types) {decl : EnumDecl}
    (listed : decl ∈ message.enums) : .enum decl ∈ definitionsOf types := by
  refine mem_definitionsOf_of_inside member ?_
  cases message with
  | external name => cases listed
  | defined name parents enums messages fields =>
    rw [TypeDecl.definitions, Message.definitions_defined]
    exact mem_cons_of_mem _ (mem_append_left _ (mem_map_of_mem listed))

lemma message_mem_definitionsOf (member : .message message ∈ definitionsOf types)
    {inner : Message ρ} (listed : inner ∈ message.messages) :
    .message inner ∈ definitionsOf types := by
  refine mem_definitionsOf_of_inside member ?_
  cases message with
  | external name => cases listed
  | defined name parents enums messages fields =>
    rw [TypeDecl.definitions, Message.definitions_defined]
    refine mem_cons_of_mem _ (mem_append_right _ ?_)
    exact mem_flatMap_of_mem listed (TypeDecl.message inner).self_mem_definitions

/-- What stands in the room of a type lies inside it. -/
lemma mem_definitions_of_range (listed : (definitionsOf types)[start]? = some outer)
    (place : (definitionsOf types)[handle]? = some type) (behind : start <= handle)
    (before : handle < start + outer.definitions.length) : type ∈ outer.definitions := by
  have front := laid_definitionsOf types start outer listed
  have room : handle - start < outer.definitions.length := by omega
  have same := List.prefix_iff_getElem?.mp front (handle - start) room
  rw [getElem?_drop, Nat.add_sub_cancel' behind, place] at same
  cases same
  exact getElem_mem room

end

/-- All names that a message mentions, those of its parents and of the types of
its fields, are proper. -/
def Message.MentionsProper (message : Message Identifier) : Prop :=
  (∀ parent ∈ message.parents, parent.Proper) ∧
    ∀ field ∈ message.fields, ∀ name, field.type = .user name -> name.Proper

end MessageSchema

import MessageSchema.Compile.Resolved
import MessageSchema.Proofs.Name.Table
import MessageSchema.Proofs.Schema.Definitions

namespace MessageSchema

open List

/-!
What the symbol table of a schema holds.

At any time the table describes the definitions entered so far: it leads from the
name of every enum to it, and from the name of every message to its definition, or
else to its first announcement.  A definition can be entered exactly if it does not
clash with an earlier one, so a schema can exactly if no two clash.
-/

section
variable {ρ : Type}

/-- Is the type a message that is announced only? -/
def TypeDecl.isAnnounced : TypeDecl ρ -> Bool
  | .enum _ => false
  | .message decl => decl.isExtern

/-- Two types can stand beside each other: their names differ, or they are messages and one
is announced only. -/
def TypeDecl.Coexist (left right : TypeDecl ρ) : Prop :=
  left.id.text = right.id.text -> left.kind = .message ∧ right.kind = .message ∧
    (left.isAnnounced = true ∨ right.isAnnounced = true)

lemma TypeDecl.Coexist.symm {left right : TypeDecl ρ} (coexist : left.Coexist right) :
    right.Coexist left := by
  intro same
  rcases coexist same.symm with ⟨first, second, announced⟩
  exact ⟨second, first, announced.symm⟩

/-- The message under this handle stands for its name: it is defined, or all of the name are
announced and it is the first. -/
def StandsFor (definitions : List (TypeDecl ρ)) (handle : Nat) (decl : Message ρ) : Prop :=
  decl.isExtern = true -> ∀ other found, definitions[other]? = some (.message found) ->
    found.id.text = decl.id.text -> found.isExtern = true ∧ handle <= other

/-- Every entry leads to a definition of its name, every definition that stands for its name
has its entry, and no name has two. -/
structure SymbolTable.Describes (table : SymbolTable Nat) (definitions : List (TypeDecl ρ)) :
    Prop where
  enums : ∀ name handle, table.enums.find? name = some handle ↔
    ∃ decl, definitions[handle]? = some (.enum decl) ∧ decl.name.text = name
  messages : ∀ name entry, table.messages.find? name = some entry ↔
    ∃ decl, definitions[entry.handle]? = some (.message decl) ∧ decl.id.text = name ∧
      entry.announced = decl.isExtern ∧ StandsFor definitions entry.handle decl
  known : ∀ decl, .message decl ∈ definitions ->
    ∃ entry, table.messages.find? decl.id.text = some entry
  apart : ∀ name handle entry, table.enums.find? name = some handle ->
    table.messages.find? name ≠ some entry

namespace SymbolTable

lemma describes_empty : (empty : SymbolTable Nat).Describes ([] : List (TypeDecl ρ)) where
  enums := by simp [empty]
  messages := by simp [empty]
  known := by simp
  apart := by simp [empty]

variable {table : SymbolTable Nat} {definitions : List (TypeDecl ρ)}

variable {name : String}

section
variable (describes : table.Describes definitions)
include describes

lemma Describes.enums_contains_iff : table.enums.contains name = true ↔
      ∃ decl, .enum decl ∈ definitions ∧ decl.name.text = name := by
  rw [Name.Table.contains_iff]
  constructor
  · rintro ⟨handle, found⟩
    rcases (describes.enums name handle).mp found with ⟨decl, listed, same⟩
    exact ⟨decl, mem_of_getElem? listed, same⟩
  · rintro ⟨decl, member, same⟩
    rcases getElem?_of_mem member with ⟨handle, listed⟩
    exact ⟨handle, (describes.enums name handle).mpr ⟨decl, listed, same⟩⟩

lemma Describes.messages_contains_iff : table.messages.contains name = true ↔
      ∃ decl, .message decl ∈ definitions ∧ decl.id.text = name := by
  rw [Name.Table.contains_iff]
  constructor
  · rintro ⟨entry, found⟩
    rcases (describes.messages name entry).mp found with ⟨decl, listed, same, _⟩
    exact ⟨decl, mem_of_getElem? listed, same⟩
  · rintro ⟨decl, member, same⟩
    rw [← same]
    exact describes.known decl member

lemma Describes.find?_eq_none_iff :
    table.find? name = none ↔ ∀ type ∈ definitions, type.id.text ≠ name := by
  constructor
  · intro free type member same
    unfold find? at free
    split at free
    · cases free
    · next noEnum =>
      rcases type with decl | decl
      · rcases getElem?_of_mem member with ⟨handle, listed⟩
        rw [(describes.enums name handle).mpr ⟨decl, listed, same⟩] at noEnum
        cases noEnum
      · rcases describes.known decl member with ⟨entry, found⟩
        rw [show decl.id.text = name from same] at found
        rw [found] at free
        cases free
  · intro free
    unfold find?
    cases foundEnum : table.enums.find? name with
    | some handle =>
      rcases (describes.enums name handle).mp foundEnum with ⟨decl, listed, same⟩
      exact absurd same (free _ (mem_of_getElem? listed))
    | none =>
      cases foundMessage : table.messages.find? name with
      | some entry =>
        rcases (describes.messages name entry).mp foundMessage with ⟨decl, listed, same, _⟩
        exact absurd same (free _ (mem_of_getElem? listed))
      | none => rfl

end

end SymbolTable

/-! ## One definition more -/

lemma getElem?_append_singleton_iff {α : Type} {items : List α} {last found : α} {index : Nat} :
    (items ++ [last])[index]? = some found ↔
      items[index]? = some found ∨ index = items.length ∧ last = found := by
  rcases Nat.lt_trichotomy index items.length with less | same | greater
  · rw [getElem?_append_left less]
    constructor
    · exact .inl
    · rintro (found | ⟨same, _⟩)
      · exact found
      · exact absurd same (Nat.ne_of_lt less)
  · subst same
    rw [getElem?_append_right (Nat.le_refl _)]
    simp
  · rw [getElem?_eq_none (by simp; omega), getElem?_eq_none (Nat.le_of_lt greater)]
    simp
    omega

variable {decl : Message ρ} {definitions : List (TypeDecl ρ)} {handle : Nat}
    {table : SymbolTable Nat}

lemma enum_append_message {found : EnumDecl} :
    (definitions ++ [.message decl])[handle]? = some (.enum found) ↔
      definitions[handle]? = some (.enum found) := by
  simp [getElem?_append_singleton_iff]

lemma message_append_enum {decl : EnumDecl} {found : Message ρ} :
    (definitions ++ [.enum decl])[handle]? = some (.message found) ↔
      definitions[handle]? = some (.message found) := by
  simp [getElem?_append_singleton_iff]

variable {type : TypeDecl ρ} {types : List (TypeDecl ρ)}

/-- A message that stands for its name among more definitions does so among
fewer. -/
lemma StandsFor.of_append (stands : StandsFor (definitions ++ [type]) handle decl) :
    StandsFor definitions handle decl := by
  intro announced other found listed same
  exact stands announced other found (getElem?_append_singleton_iff.mpr (.inl listed)) same

/-- A message keeps standing for its name when a definition of another name, or
an announcement, comes behind it. -/
lemma StandsFor.append (stands : StandsFor definitions handle decl)
    (earlier : handle <= definitions.length)
    (yields : ∀ found, type = .message found -> found.id.text = decl.id.text -> found.isExtern =
      true) : StandsFor (definitions ++ [type]) handle decl := by
  intro announced other found listed same
  rcases getElem?_append_singleton_iff.mp listed with listed | ⟨atEnd, isLast⟩
  · exact stands announced other found listed same
  · exact ⟨yields found isLast same, atEnd ▸ earlier⟩

namespace SymbolTable

variable {table next : SymbolTable Nat} {definitions : List (TypeDecl ρ)}

section
variable (describes : table.Describes definitions)
include describes

lemma Describes.insertEnum {decl : EnumDecl}
    (free : ∀ type ∈ definitions, type.id.text ≠ decl.name.text) :
    Describes { table with enums := table.enums.insert decl.name.text definitions.length }
      (definitions ++ [.enum decl]) where
  enums := by
    intro name handle
    rw [Name.Table.find?_insert]
    by_cases same : name = decl.name.text
    · subst same
      rw [if_pos rfl]
      constructor
      · intro found
        cases found
        exact ⟨decl, getElem?_append_singleton_iff.mpr (.inr ⟨rfl, rfl⟩), rfl⟩
      · rintro ⟨other, listed, sameText⟩
        rcases getElem?_append_singleton_iff.mp listed with listed | ⟨atEnd, _⟩
        · exact absurd sameText (free _ (mem_of_getElem? listed))
        · rw [atEnd]
    · rw [if_neg same, describes.enums]
      constructor
      · rintro ⟨other, listed, sameText⟩
        exact ⟨other, getElem?_append_singleton_iff.mpr (.inl listed), sameText⟩
      · rintro ⟨other, listed, sameText⟩
        rcases getElem?_append_singleton_iff.mp listed with listed | ⟨_, isLast⟩
        · exact ⟨other, listed, sameText⟩
        · cases isLast
          exact absurd sameText.symm same
  messages := by
    intro name entry
    change table.messages.find? name = some entry ↔ _
    rw [describes.messages]
    simp only [StandsFor, message_append_enum]
  known := by
    intro other member
    rcases List.mem_append.mp member with member | member
    · exact describes.known other member
    · cases List.mem_singleton.mp member
  apart := by
    intro name handle entry foundEnum foundMessage
    rw [Name.Table.find?_insert] at foundEnum
    by_cases same : name = decl.name.text
    · rcases (describes.messages name entry).mp foundMessage with ⟨other, listed, sameText, _⟩
      exact free _ (mem_of_getElem? listed) (sameText.trans same)
    · rw [if_neg same] at foundEnum
      exact describes.apart name handle entry foundEnum foundMessage

/-- A message takes its name over: the name is new, or all messages of that name were only
announced and this one is not. -/
lemma Describes.insertMessage (noEnum : table.enums.contains decl.id.text = false)
    (yield : ∀ (other : Nat) (found : Message ρ), definitions[other]? = some (.message found) ->
      found.id.text = decl.id.text -> decl.isExtern = false ∧ found.isExtern = true) :
    Describes
      { table with
        messages := table.messages.insert decl.id.text ⟨definitions.length, decl.isExtern⟩ }
      (definitions ++ [.message decl]) where
  enums := by
    intro name handle
    change table.enums.find? name = some handle ↔ _
    simp only [describes.enums, enum_append_message]
  messages := by
    intro name entry
    have standsLast : StandsFor (definitions ++ [.message decl]) definitions.length decl := by
      intro announced other found listed same
      rcases getElem?_append_singleton_iff.mp listed with listed | ⟨atEnd, isLast⟩
      · rw [(yield other found listed same).1] at announced
        cases announced
      · cases isLast
        exact ⟨announced, Nat.le_of_eq atEnd.symm⟩
    rw [Name.Table.find?_insert]
    by_cases same : name = decl.id.text
    · subst same
      rw [if_pos rfl]
      constructor
      · intro found
        cases found
        exact ⟨decl, getElem?_append_singleton_iff.mpr (.inr ⟨rfl, rfl⟩), rfl, rfl, standsLast⟩
      · rintro ⟨other, listed, sameText, announced, stands⟩
        rcases getElem?_append_singleton_iff.mp listed with listed | ⟨atEnd, isLast⟩
        · -- An announcement cannot stand for a name that a definition bears.
          rcases yield _ other listed sameText with ⟨isDefined, isExtern⟩
          have last := (stands isExtern definitions.length decl
            (getElem?_append_singleton_iff.mpr (.inr ⟨rfl, rfl⟩)) sameText.symm).1
          rw [isDefined] at last
          cases last
        · cases isLast
          rcases entry with ⟨handle, flag⟩
          change handle = definitions.length at atEnd
          change flag = decl.isExtern at announced
          rw [atEnd, announced]
    · rw [if_neg same, describes.messages]
      constructor
      · rintro ⟨other, listed, sameText, announced, stands⟩
        have bound : entry.handle < definitions.length :=
          (List.getElem?_eq_some_iff.mp listed).1
        refine ⟨other, getElem?_append_singleton_iff.mpr (.inl listed), sameText, announced, ?_⟩
        refine stands.append (Nat.le_of_lt bound) ?_
        intro found isLast equal
        cases isLast
        exact absurd (sameText.symm.trans equal.symm) same
      · rintro ⟨other, listed, sameText, announced, stands⟩
        rcases getElem?_append_singleton_iff.mp listed with listed | ⟨_, isLast⟩
        · exact ⟨other, listed, sameText, announced, stands.of_append⟩
        · cases isLast
          exact absurd sameText.symm same
  known := by
    intro other member
    rw [Name.Table.find?_insert]
    by_cases same : other.id.text = decl.id.text
    · rw [if_pos same]
      exact ⟨_, rfl⟩
    · rw [if_neg same]
      rcases List.mem_append.mp member with member | member
      · exact describes.known other member
      · cases List.mem_singleton.mp member
        exact absurd rfl same
  apart := by
    intro name handle entry foundEnum foundMessage
    rw [Name.Table.find?_insert] at foundMessage
    by_cases same : name = decl.id.text
    · have taken := Name.Table.contains_iff.mpr ⟨handle, foundEnum⟩
      rw [same, noEnum] at taken
      cases taken
    · rw [if_neg same] at foundMessage
      exact describes.apart name handle entry foundEnum foundMessage

/-- An announcement of a message that is known already changes nothing. -/
lemma Describes.skipAnnouncement (announced : decl.isExtern = true)
    (known : ∃ entry, table.messages.find? decl.id.text = some entry) :
    table.Describes (definitions ++ [.message decl]) where
  enums := by
    intro name handle
    simp only [describes.enums, enum_append_message]
  messages := by
    intro name entry
    rw [describes.messages]
    constructor
    · rintro ⟨other, listed, sameText, flag, stands⟩
      have bound : entry.handle < definitions.length :=
        (List.getElem?_eq_some_iff.mp listed).1
      refine ⟨other, getElem?_append_singleton_iff.mpr (.inl listed), sameText, flag, ?_⟩
      refine stands.append (Nat.le_of_lt bound) ?_
      intro found isLast _
      cases isLast
      exact announced
    · rintro ⟨other, listed, sameText, flag, stands⟩
      rcases getElem?_append_singleton_iff.mp listed with listed | ⟨atEnd, isLast⟩
      · exact ⟨other, listed, sameText, flag, stands.of_append⟩
      · -- The message that is known comes first, so this one does not stand for it.
        cases isLast
        rcases known with ⟨first, found⟩
        rcases (describes.messages _ first).mp found with ⟨earlier, place, equal, _⟩
        have bound : first.handle < definitions.length :=
          (List.getElem?_eq_some_iff.mp place).1
        have behind := (stands announced first.handle earlier
          (getElem?_append_singleton_iff.mpr (.inl place)) equal).2
        omega
  known := by
    intro other member
    rcases List.mem_append.mp member with member | member
    · exact describes.known other member
    · cases List.mem_singleton.mp member
      exact known
  apart := describes.apart

/-- A definition that clashes with no earlier one can be entered. -/
lemma Describes.addDefinition (coexist : ∀ earlier ∈ definitions, earlier.Coexist type) :
    ∃ next, table.addDefinition definitions.length type = .ok next ∧
      next.Describes (definitions ++ [type]) := by
  rcases type with decl | decl
  · have free : ∀ earlier ∈ definitions, earlier.id.text ≠ decl.name.text := by
      intro earlier member same
      cases (coexist earlier member same).2.1
    refine ⟨_, ?_, describes.insertEnum free⟩
    rw [SymbolTable.addDefinition, addEnum, describes.find?_eq_none_iff.mpr free]
  · have noEnum : table.enums.contains decl.id.text = false := by
      apply Bool.eq_false_iff.mpr
      intro taken
      rcases describes.enums_contains_iff.mp taken with ⟨other, member, same⟩
      cases (coexist _ member same).1
    rw [SymbolTable.addDefinition, addMessage, noEnum]
    simp only [Bool.false_eq_true, if_false]
    cases found : table.messages.find? decl.id.text with
    | none =>
      refine ⟨_, rfl, describes.insertMessage noEnum ?_⟩
      intro other earlier listed same
      rcases describes.known earlier (mem_of_getElem? listed) with ⟨entry, known⟩
      rw [same, found] at known
      cases known
    | some existing =>
      cases announced : decl.isExtern with
      | true =>
        exact ⟨table, rfl, describes.skipAnnouncement announced ⟨existing, found⟩⟩
      | false =>
        have yield : ∀ (other : Nat) (earlier : Message ρ),
            definitions[other]? = some (.message earlier) ->
            earlier.id.text = decl.id.text ->
            decl.isExtern = false ∧ earlier.isExtern = true := by
          intro other earlier listed same
          refine ⟨announced, ?_⟩
          rcases (coexist _ (mem_of_getElem? listed) same).2.2 with isExtern | isExtern
          · exact isExtern
          · rw [TypeDecl.isAnnounced, announced] at isExtern
            cases isExtern
        rcases (describes.messages _ existing).mp found with ⟨earlier, listed, same, flag, _⟩
        have replaced : existing.announced = true := by
          rw [flag, (yield _ earlier listed same).2]
        have described := describes.insertMessage noEnum yield
        rw [announced] at described
        simp only [Bool.false_eq_true, if_false, replaced, if_true]
        exact ⟨_, rfl, described⟩

/-- A definition that can be entered clashes with no earlier one. -/
lemma Describes.coexist_of_addDefinition
    (added : table.addDefinition definitions.length type = .ok next) :
    ∀ earlier ∈ definitions, earlier.Coexist type := by
  intro earlier member same
  rcases type with decl | decl
  · rw [SymbolTable.addDefinition, addEnum] at added
    split at added
    · cases added
    · next free => exact absurd same (describes.find?_eq_none_iff.mp free earlier member)
  · rw [SymbolTable.addDefinition, addMessage] at added
    have noEnum : table.enums.contains decl.id.text = false := by
      apply Bool.eq_false_iff.mpr
      intro taken
      rw [if_pos taken] at added
      cases added
    rcases earlier with other | other
    · have taken := describes.enums_contains_iff.mpr ⟨other, member, same⟩
      rw [show (TypeDecl.message decl).id.text = decl.id.text from rfl, noEnum] at taken
      cases taken
    · refine ⟨rfl, rfl, ?_⟩
      rw [noEnum] at added
      simp only [Bool.false_eq_true, if_false] at added
      rcases describes.known other member with ⟨existing, found⟩
      rw [show other.id.text = decl.id.text from same] at found
      rw [found] at added
      cases announced : decl.isExtern with
      | true => exact .inr announced
      | false =>
        left
        simp only [announced, Bool.false_eq_true, if_false] at added
        cases flag : existing.announced with
        | false =>
          rw [flag] at added
          simp at added
        | true =>
          rcases (describes.messages _ existing).mp found with
            ⟨first, _, equal, sameFlag, stands⟩
          rcases getElem?_of_mem member with ⟨handle, place⟩
          exact (stands (sameFlag ▸ flag) handle other place (same.trans equal.symm)).1

/-- Entering the definitions of a schema succeeds exactly if no two of them
clash. -/
lemma Describes.exists_addDefinitions_iff (rest : List (TypeDecl ρ)) :
    (∃ next, table.addDefinitions definitions.length rest = .ok next) ↔
      rest.Pairwise TypeDecl.Coexist ∧
        ∀ earlier ∈ definitions, ∀ later ∈ rest, earlier.Coexist later := by
  induction rest generalizing table definitions with
  | nil => simp [addDefinitions]
  | cons type rest ih =>
    rw [addDefinitions]
    constructor
    · rintro ⟨next, entered⟩
      split at entered
      · next middle added =>
        have head := describes.coexist_of_addDefinition added
        rcases describes.addDefinition head with ⟨same, addedAgain, described⟩
        rw [added] at addedAgain
        cases addedAgain
        have tail := (ih described).mp ⟨next, by simpa using entered⟩
        refine ⟨List.pairwise_cons.mpr ⟨?_, tail.1⟩, ?_⟩
        · intro later member
          exact tail.2 type (mem_append_right _ (List.mem_singleton.mpr rfl)) later member
        · intro earlier member later listed
          rcases List.mem_cons.mp listed with same | listed
          · rw [same]
            exact head earlier member
          · exact tail.2 earlier (mem_append_left _ member) later listed
      · cases entered
    · rintro ⟨pairwise, across⟩
      have parts := List.pairwise_cons.mp pairwise
      rcases describes.addDefinition
        (fun earlier member => across earlier member type mem_cons_self) with
        ⟨middle, added, described⟩
      have remaining : ∃ next, middle.addDefinitions (definitions ++ [type]).length rest =
          .ok next := by
        refine (ih described).mpr ⟨parts.2, ?_⟩
        intro earlier member later listed
        rcases List.mem_append.mp member with member | member
        · exact across earlier member later (mem_cons_of_mem _ listed)
        · rw [List.mem_singleton.mp member]
          exact parts.1 later listed
      rw [added]
      simpa using remaining

lemma Describes.addDefinitions {rest : List (TypeDecl ρ)}
    (entered : table.addDefinitions definitions.length rest = .ok next) :
    next.Describes (definitions ++ rest) := by
  induction rest generalizing table definitions with
  | nil =>
    cases entered
    simpa using describes
  | cons type rest ih =>
    rw [SymbolTable.addDefinitions] at entered
    split at entered
    · next middle added =>
      rcases describes.addDefinition (describes.coexist_of_addDefinition added) with
        ⟨same, addedAgain, described⟩
      rw [added] at addedAgain
      cases addedAgain
      have final := ih described (by simpa using entered)
      simpa using final
    · cases entered

end

end SymbolTable

/-! ## Fields -/

/-- The fields of a message differ in their names, and in the ordinals that
they have. -/
def Message.FieldsDiffer (message : Message ρ) : Prop :=
  (message.fields.map Field.name).Nodup ∧ (message.fields.filterMap Field.ordinal).Nodup

lemma checkFieldsFrom_eq_ok_iff (message : String) (names : List String)
    (ordinals : List (Int × String)) (fields : List (String × Option Int)) :
    checkFieldsFrom message names ordinals fields = .ok () ↔
      (fields.map Prod.fst).Nodup ∧ (∀ name ∈ fields.map Prod.fst, name ∉ names) ∧
      (fields.filterMap Prod.snd).Nodup ∧
      ∀ number ∈ fields.filterMap Prod.snd, ordinals.lookup number = none := by
  induction fields generalizing names ordinals with
  | nil => simp [checkFieldsFrom]
  | cons field rest ih =>
    rcases field with ⟨name, ordinal⟩
    simp only [checkFieldsFrom]
    by_cases seen : name ∈ names
    · simp [seen]
    · have notSeen : names.contains name = false := by simpa using seen
      rw [notSeen]
      cases ordinal with
      | none =>
        simp only [Bool.false_eq_true, if_false, ih, map_cons, nodup_cons,
          mem_cons, forall_eq_or_imp, not_or, filterMap_cons_none]
        grind
      | some number =>
        simp only [Bool.false_eq_true, if_false]
        cases used : ordinals.lookup number with
        | some earlier =>
          constructor
          · intro failed
            cases failed
          · rintro ⟨_, _, _, free⟩
            have unused := free number (by simp)
            rw [used] at unused
            cases unused
        | none =>
          simp only [ih, map_cons, nodup_cons, mem_cons, forall_eq_or_imp]
          grind

lemma Message.checkFields_eq_ok_iff (name : String) (message : Message ρ) :
    checkFields name message.fieldKeys = .ok () ↔ message.FieldsDiffer := by
  have names : message.fieldKeys.map Prod.fst = message.fields.map Field.name := by
    simp [Message.fieldKeys]
  have ordinals : message.fieldKeys.filterMap Prod.snd =
      message.fields.filterMap Field.ordinal := by
    simp [Message.fieldKeys, filterMap_map]
  rw [checkFields, checkFieldsFrom_eq_ok_iff, names, ordinals, Message.FieldsDiffer]
  simp

lemma checkMessages_eq_ok_iff (definitions : List (TypeDecl ρ))
    (entries : List (String × MessageEntry Nat)) : checkMessages definitions entries = .ok () ↔
      ∀ name entry, (name, entry) ∈ entries -> ∀ decl,
        definitions[entry.handle]? = some (.message decl) -> decl.FieldsDiffer := by
  induction entries with
  | nil => simp [checkMessages]
  | cons first rest ih =>
    rcases first with ⟨name, entry⟩
    have all : checkMessages definitions ((name, entry) :: rest) = .ok () ↔
        (∀ decl, definitions[entry.handle]? = some (.message decl) -> decl.FieldsDiffer) ∧
          checkMessages definitions rest = .ok () := by
      have noFields : checkFields name [] = .ok () := rfl
      rw [checkMessages]
      rcases definitions[entry.handle]? with _ | (decl | decl)
      · simp [noFields]
      · simp [noFields]
      · have head := decl.checkFields_eq_ok_iff name
        cases outcome : checkFields name decl.fieldKeys with
        | error error => simp [← head, outcome]
        | ok => simp [← head, outcome]
    rw [all, ih]
    constructor
    · rintro ⟨one, others⟩ key found member
      rcases List.mem_cons.mp member with same | member
      · cases same
        exact one
      · exact others key found member
    · intro all
      exact ⟨all name entry mem_cons_self, fun key found member =>
        all key found (mem_cons_of_mem _ member)⟩

/-! ## The symbol table of a schema -/

lemma index_ok (indexed : index types = .ok table) :
    SymbolTable.empty.addDefinitions 0 (definitionsOf types) = .ok table ∧
      checkMessages (definitionsOf types) table.messages.entries = .ok () := by
  simp only [index] at indexed
  split at indexed
  · cases indexed
  · next entered =>
    split at indexed
    · next checked =>
      cases indexed
      exact ⟨entered, checked⟩
    · cases indexed

lemma describes_of_index (indexed : index types = .ok table) :
    table.Describes (definitionsOf types) := by
  have described := SymbolTable.describes_empty.addDefinitions (index_ok indexed).1
  simpa using described

/-- Looking at the messages in the table is looking at all messages: those left out have no
fields. -/
lemma SymbolTable.Describes.checkMessages_iff (describes : table.Describes definitions) :
    checkMessages definitions table.messages.entries = .ok () ↔
      ∀ decl, .message decl ∈ definitions -> decl.FieldsDiffer := by
  rw [checkMessages_eq_ok_iff]
  constructor
  · intro checked decl member
    cases announced : decl.isExtern with
    | true =>
      cases decl with
      | external name => exact ⟨nodup_nil, nodup_nil⟩
      | defined name parents enums messages fields => cases announced
    | false =>
      rcases getElem?_of_mem member with ⟨handle, listed⟩
      have stands : StandsFor definitions handle decl := by
        intro isExtern
        rw [announced] at isExtern
        cases isExtern
      have found := (describes.messages decl.id.text ⟨handle, false⟩).mpr
        ⟨decl, listed, rfl, announced.symm, stands⟩
      exact checked _ _ (Name.Table.mem_entries_iff.mpr found) decl listed
  · intro all name entry _ decl listed
    exact all decl (mem_of_getElem? listed)

/-- A schema has a symbol table exactly if no two of its definitions clash and
the fields of every message differ. -/
lemma exists_index_iff (types : List (TypeDecl ρ)) : (∃ table, index types = .ok table) ↔
      (definitionsOf types).Pairwise TypeDecl.Coexist ∧
        ∀ decl, .message decl ∈ definitionsOf types -> decl.FieldsDiffer := by
  have enter := (SymbolTable.describes_empty (ρ := ρ)).exists_addDefinitions_iff
    (definitionsOf types)
  constructor
  · rintro ⟨table, indexed⟩
    have parts := index_ok indexed
    exact ⟨(enter.mp ⟨table, parts.1⟩).1,
      (describes_of_index indexed).checkMessages_iff.mp parts.2⟩
  · rintro ⟨coexist, differ⟩
    rcases enter.mpr ⟨coexist, fun _ none => absurd none not_mem_nil⟩ with
      ⟨table, entered⟩
    have described := SymbolTable.describes_empty.addDefinitions entered
    have checked := described.checkMessages_iff.mpr (by simpa using differ)
    refine ⟨table, ?_⟩
    rw [length_nil] at entered
    rw [nil_append] at checked
    simp only [index, entered, checked]

end
end MessageSchema

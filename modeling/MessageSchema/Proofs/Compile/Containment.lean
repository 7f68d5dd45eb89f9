import MessageSchema.Proofs.Compile.Uses

namespace MessageSchema

open List Bool

/-!
References and what lies inside what.

One top-level message refers to another if something in the one uses something in
the other.  The references of a compiled schema, however, are noted between owners,
which are found by names: a type in a namespace with the name of a message passes
for a part of that message.  This module says exactly when the difference shows.
-/

/-! ## Owners of what lies inside a message -/

section
variable {ρ : Type}

/-- Every message inside this one names its members, and the table knows it. -/
structure Message.Rooted (table : SymbolTable Nat) (message : Message ρ) : Prop where
  names : ∀ decl, .message decl ∈ message.definitions -> decl.NamesMembers
  known : ∀ decl, .message decl ∈ message.definitions ->
    table.messages.contains decl.id.text = true

namespace Message.Rooted

variable {table : SymbolTable Nat} {message : Message ρ}

/-- What lies inside a message, but is not the message, lies directly in some
message. -/
lemma exists_enclosing (rooted : message.Rooted table) : ∀ type ∈ message.definitions,
    type = .message message ∨
      ∃ outer, .message outer ∈ message.definitions ∧ type.id.parent? = some outer.id := by
  refine message.forall_inside (.inl rfl) ?_
  intro outer member _
  have members := rooted.names outer member
  exact ⟨fun inner listed => .inr ⟨outer, member, members.1 inner listed⟩,
    fun inner listed => .inr ⟨outer, member, members.2 inner listed⟩⟩

lemma owner_of_mem (rooted : message.Rooted table) : ∀ type ∈ message.definitions,
    table.owner type.id = table.owner message.id := by
  refine message.forall_inside rfl ?_
  intro outer member same
  have members := rooted.names outer member
  have inside := rooted.known outer member
  constructor
  · intro inner listed
    exact (SymbolTable.owner_eq_of_parent? (members.1 inner listed) inside).trans same
  · intro inner listed
    exact (SymbolTable.owner_eq_of_parent? (members.2 inner listed) inside).trans same

/-- A use of something inside a message counts for the owner of that message. -/
lemma exists_anchor (rooted : message.Rooted table) {type : TypeDecl ρ}
    (inside : type ∈ message.definitions) :
    ∃ anchor, type.anchor? = some anchor ∧ table.messages.contains anchor.text = true ∧
      table.owner anchor = table.owner message.id := by
  rcases type with decl | decl
  · rcases rooted.exists_enclosing _ inside with impossible | ⟨outer, found, up⟩
    · cases impossible
    · exact ⟨outer.id, up, rooted.known outer found, rooted.owner_of_mem _ found⟩
  · exact ⟨decl.id, rfl, rooted.known decl inside, rooted.owner_of_mem _ inside⟩

end Message.Rooted
end

/-! ## Dependencies in the tree -/

variable {inner outer : String} {message top : Message Reference} {name : Identifier}

namespace Compiled

section
variable (compiled : Compiled)

/-- The definition under the handle is that of the message of this name, or it
lies inside that message. -/
def holds (name : String) (handle : Nat) : Bool :=
  match compiled.table.messages.find? name with
  | none => false
  | some entry =>
    match (definitionsOf compiled.types)[entry.handle]? with
    | some (.message decl) =>
      entry.handle <= handle && handle < entry.handle + decl.definitions.length
    | _ => false

/-- Some message in the first message uses something in the second one. -/
def dependsOn (outer inner : String) : Bool :=
  (definitionsOf compiled.types).zipIdx.any fun entry =>
    match entry.1 with
    | .enum _ => false
    | .message source =>
      compiled.holds outer entry.2 && (compiled.table.uses source).any (compiled.holds inner)

end

variable {compiled : Compiled}

lemma holds_iff {name : String} {handle : Nat} : compiled.holds name handle = true ↔
      ∃ entry decl, compiled.table.messages.find? name = some entry ∧
        (definitionsOf compiled.types)[entry.handle]? = some (.message decl) ∧
        entry.handle <= handle ∧ handle < entry.handle + decl.definitions.length := by
  unfold holds
  cases found : compiled.table.messages.find? name with
  | none => simp
  | some entry =>
    rcases listed : (definitionsOf compiled.types)[entry.handle]? with _ | (decl | decl)
    · simp [listed]
    · simp [listed]
    · simp [listed]

lemma dependsOn_iff : compiled.dependsOn outer inner = true ↔
      ∃ handle source target, (definitionsOf compiled.types)[handle]? = some (.message source) ∧
        compiled.holds outer handle = true ∧ target ∈ compiled.table.uses source ∧
        compiled.holds inner target = true := by
  rw [dependsOn, any_eq_true]
  constructor
  · rintro ⟨⟨decl | source, handle⟩, listed, found⟩
    · cases found
    · simp only [and_eq_true, any_eq_true] at found
      rcases found with ⟨inside, target, used, reached⟩
      exact ⟨handle, source, target, List.mem_zipIdx_iff_getElem?.mp listed, inside, used, reached⟩
  · rintro ⟨handle, source, target, listed, inside, used, reached⟩
    refine ⟨(.message source, handle), List.mem_zipIdx_iff_getElem?.mpr listed, ?_⟩
    simp only [and_eq_true, any_eq_true]
    exact ⟨inside, target, used, reached⟩

end Compiled

/-! ## Schemas without renamed types -/

@[simp] lemma Aliases.applyScope_empty (name : Identifier) :
    Aliases.empty.applyScope name = name := by
  have unmatched : Aliases.match? Aliases.empty.children name.segments.dropLast = none := by
    cases name.segments.dropLast <;> rfl
  rw [Aliases.applyScope, Aliases.longest?_none, unmatched]
  rfl

lemma Message.enums_alias (aliases : Aliases) (message : Message Reference) :
    (message.alias aliases).enums = message.enums.map (EnumDecl.alias aliases) := by
  cases message <;> rw [Message.alias] <;> rfl

lemma Message.messages_alias (aliases : Aliases) (message : Message Reference) :
    (message.alias aliases).messages = message.messages.map (Message.alias aliases) := by
  cases message with
  | external name => rw [Message.alias]; rfl
  | defined name parents enums messages fields =>
    rw [Message.alias, Message.aliasAll_eq_map]
    rfl

lemma Message.NamesMembers.alias_empty (names : message.NamesMembers) :
    (message.alias Aliases.empty).NamesMembers := by
  constructor
  · intro inner member
    rw [Message.enums_alias] at member
    rcases List.mem_map.mp member with ⟨old, listed, same⟩
    rw [← same, EnumDecl.alias, Message.id_alias, Aliases.applyScope_empty,
      Aliases.applyScope_empty]
    exact names.1 old listed
  · intro inner member
    rw [Message.messages_alias] at member
    rcases List.mem_map.mp member with ⟨old, listed, same⟩
    rw [← same, Message.id_alias, Message.id_alias, Aliases.applyScope_empty,
      Aliases.applyScope_empty]
    exact names.2 old listed

/-- A compiled schema in which the types still bear the names that their places
give them. -/
structure Compiled.Plain (compiled : Compiled) : Prop extends compiled.Coherent where
  names : ∀ decl, .message decl ∈ definitionsOf compiled.types -> decl.NamesMembers

lemma plain_of_compile {source : List UInt8} {document : Document} {compiled : Compiled}
    (parsed : Syntax.parse source = .ok document) (done : compile {} document = .ok compiled) :
    compiled.Plain := by
  have sound : Document.Sound document := Syntax.sound_of_parse parsed
  rcases compile_eq_ok_iff.mp done with ⟨aliases, table, types, stages⟩
  refine ⟨stages.coherent sound, ?_⟩
  intro decl member
  have noAliases : aliases = Aliases.empty := (Except.ok.inj stages.wished).symm
  rcases stages.exists_resolved sound member with ⟨old, listed, rfl⟩
  rw [noAliases]
  exact (stages.namesMembers sound listed).alias_empty

namespace Compiled.Plain

variable {compiled : Compiled}

lemma rooted (plain : compiled.Plain) (member : .message message ∈ definitionsOf compiled.types) :
    message.Rooted compiled.table := by
  have inside : ∀ decl, .message decl ∈ message.definitions ->
      .message decl ∈ definitionsOf compiled.types := fun _ found =>
    mem_definitionsOf_of_inside member found
  refine ⟨fun decl found => plain.names decl (inside decl found), ?_⟩
  intro decl found
  exact plain.indexes.messages_contains_iff.mpr ⟨decl, inside decl found, rfl⟩

variable {handle : Nat} {type : TypeDecl Reference}

variable {source : Message Reference} {target : Nat}

section
variable (plain : compiled.Plain)
include plain

/-- A message that uses something is not announced only, so it is in the
table. -/
lemma lists_of_source (listed : (definitionsOf compiled.types)[handle]? = some (.message source))
    (used : target ∈ compiled.table.uses source) : compiled.table.Lists handle := by
  refine plain.indexes.lists_of_defined listed ?_
  cases source with
  | external name => cases used
  | defined name parents enums messages fields => rfl

/-- What is in the table, and stands among the definitions of a top-level
message, is held by that message. -/
lemma holds_of_standsAt {start : Nat} (stands : StandsAt compiled.types start (.message top))
    (behind : start <= handle) (place : top.definitions[handle - start]? = some type)
    (lists : compiled.table.Lists handle) : compiled.holds top.id.text handle = true := by
  have first := stands.getElem?_start
  have room := (List.getElem?_eq_some_iff.mp place).1
  rw [holds_iff]
  cases announced : top.isExtern with
  | false =>
    have found := (plain.indexes.lists_message_iff first).mp
      (plain.indexes.lists_of_defined first announced)
    exact ⟨_, top, found, first, behind, by dsimp only; omega⟩
  | true =>
    -- An announcement stands alone, so the handle is its own.
    cases top with
    | defined name parents enums messages fields => cases announced
    | external name =>
      have single : handle = start := by
        rw [Message.definitions, length_singleton] at room
        omega
      rw [single] at lists
      have found := (plain.indexes.lists_message_iff first).mp lists
      exact ⟨_, _, found, first, behind, by dsimp only; omega⟩

/-- What a message holds lies inside a message of that name. -/
lemma exists_of_holds (proper : name.Proper) (held : compiled.holds name.text handle = true)
    (listed : (definitionsOf compiled.types)[handle]? = some type) :
    ∃ message, .message message ∈ definitionsOf compiled.types ∧ message.id = name ∧
      type ∈ message.definitions := by
  rcases holds_iff.mp held with ⟨entry, message, found, place, behind, before⟩
  rcases (plain.indexes.messages _ entry).mp found with ⟨decl, again, sameText, _⟩
  rw [place] at again
  cases again
  have member := mem_of_getElem? place
  exact ⟨message, member,
    Identifier.eq_of_text_eq (plain.indexes.proper _ member) proper sameText,
    mem_definitions_of_range place listed behind before⟩

/-- The owner of a message is a top-level message. -/
lemma exists_top_of_owner (proper : name.Proper)
    (isMessage : compiled.table.messages.contains name.text = true) :
    ∃ top ∈ topMessages compiled.types, top.id = compiled.table.owner name := by
  have properOwner : (compiled.table.owner name).Proper := SymbolTable.proper_owner proper
  rcases plain.indexes.messages_contains_iff.mp (SymbolTable.contains_owner isMessage) with
    ⟨decl, member, sameText⟩
  have same := Identifier.eq_of_text_eq (plain.indexes.proper _ member) properOwner sameText
  rcases mem_definitionsOf.mp member with ⟨other | top, listed, inside⟩
  · cases List.mem_singleton.mp inside
  · have topMember := mem_definitionsOf_of_mem listed
    rcases (plain.rooted topMember).exists_enclosing _ inside with isTop | ⟨outer, found, up⟩
    · cases isTop
      exact ⟨decl, mem_topMessages.mpr listed, same⟩
    · -- Something inside a message has an owner, so it is none.
      have inMessage : compiled.table.InMessage (compiled.table.owner name) :=
        ⟨outer.id, same ▸ up, (plain.rooted topMember).known outer found⟩
      exact absurd inMessage (SymbolTable.not_inMessage_owner name)

/-- A use inside a top-level message, seen from both sides: the top-level message, and the
top-level type that the use leads into. -/
lemma exists_tops (listed : (definitionsOf compiled.types)[handle]? = some (.message source))
    (used : target ∈ compiled.table.uses source)
    (place : (definitionsOf compiled.types)[target]? = some type) :
    ∃ outer ∈ topMessages compiled.types,
      compiled.table.owner source.id = compiled.table.owner outer.id ∧
      ((∃ inner ∈ topMessages compiled.types, type ∈ inner.definitions ∧
          compiled.dependsOn outer.id.text inner.id.text = true) ∨
        ∃ decl, type = .enum decl ∧ .enum decl ∈ compiled.types) := by
  have member := mem_of_getElem? listed
  rcases exists_standsAt listed with ⟨start, other | outer, stands, behind, inside⟩
  · cases List.mem_singleton.mp (mem_of_getElem? inside)
  · have topMember := mem_of_getElem? stands.getElem?_start
    have held := plain.holds_of_standsAt stands behind inside (plain.lists_of_source listed used)
    refine ⟨outer, mem_topMessages.mpr stands.mem,
      (plain.rooted topMember).owner_of_mem _ (mem_of_getElem? inside), ?_⟩
    rcases exists_standsAt place with ⟨first, decl | inner, standsTarget, after, insideTarget⟩
    · right
      exact ⟨decl, List.mem_singleton.mp (mem_of_getElem? insideTarget), standsTarget.mem⟩
    · left
      refine ⟨inner, mem_topMessages.mpr standsTarget.mem, mem_of_getElem? insideTarget, ?_⟩
      exact dependsOn_iff.mpr ⟨handle, source, target, listed, held, used,
        plain.holds_of_standsAt standsTarget after insideTarget
          (plain.toCoherent.lists_of_uses member used)⟩

end

end Compiled.Plain

/-! ## When references follow containment -/

/-- One top-level message refers to another exactly if something in it uses
something in the other. -/
def Compiled.FollowsContainment (compiled : Compiled) : Prop :=
  ∀ outer ∈ topMessages compiled.types, ∀ inner ∈ topMessages compiled.types,
    outer.id ≠ inner.id ->
      (inner.id.text ∈ compiled.references.refs outer.id.text ↔
        compiled.dependsOn outer.id.text inner.id.text = true)

instance (compiled : Compiled) : Decidable compiled.FollowsContainment :=
  inferInstanceAs (Decidable (∀ outer ∈ _, ∀ inner ∈ _, _ -> (_ ↔ _)))

/-- No namespace is mistaken for a message where it matters. -/
structure Compiled.Unmistaken (compiled : Compiled) : Prop where
  /-- If one top-level message depends on another, then neither stands in a
  namespace that bears the name of a message. -/
  messages : ∀ outer ∈ topMessages compiled.types, ∀ inner ∈ topMessages compiled.types,
    outer.id ≠ inner.id -> compiled.dependsOn outer.id.text inner.id.text = true ->
      ¬ compiled.table.InMessage outer.id ∧ ¬ compiled.table.InMessage inner.id
  /-- If a message uses an enum in a namespace with the name of a message, then both have
  the same owner, or one owner depends on the other anyway. -/
  enums : ∀ (handle target : Nat) (source : Message Reference) (decl : EnumDecl)
      (scope : Identifier),
    (definitionsOf compiled.types)[handle]? = some (.message source) ->
    target ∈ compiled.table.uses source ->
    (definitionsOf compiled.types)[target]? = some (.enum decl) -> .enum decl ∈ compiled.types ->
    decl.name.parent? = some scope -> compiled.table.messages.contains scope.text = true ->
      compiled.table.owner source.id = compiled.table.owner scope ∨
        compiled.dependsOn (compiled.table.owner source.id).text
          (compiled.table.owner scope).text = true

namespace Compiled.Plain

variable {compiled : Compiled}

section
variable (plain : compiled.Plain)
include plain

lemma proper_of_top (member : top ∈ topMessages compiled.types) : top.id.Proper :=
  plain.indexes.proper (.message top) (mem_definitionsOf_of_mem (mem_topMessages.mp member))

omit plain in
/-- A name with the text of an owner stands in no message. -/
lemma not_inMessage_of_text {owned : Identifier} (proper : name.Proper)
    (properOwned : owned.Proper) (same : name.text = (compiled.table.owner owned).text) :
    ¬ compiled.table.InMessage name := by
  rw [Identifier.eq_of_text_eq proper (SymbolTable.proper_owner properOwned) same]
  exact SymbolTable.not_inMessage_owner owned

lemma unmistaken_of_followsContainment (follows : compiled.FollowsContainment) :
    compiled.Unmistaken where
  messages := by
    intro outer memberOuter inner memberInner different depends
    have noted := (follows outer memberOuter inner memberInner different).mpr depends
    rcases plain.toCoherent.mem_refs_iff.mp noted with
      ⟨_, _, source, _, listed, _, place, anchor, counts, _, isOuter, isInner, _⟩
    constructor
    · exact not_inMessage_of_text (plain.proper_of_top memberOuter)
        (plain.indexes.proper _ (mem_of_getElem? listed)) isOuter
    · exact not_inMessage_of_text (plain.proper_of_top memberInner)
        (plain.toCoherent.proper_of_anchor (mem_of_getElem? place) counts) isInner
  enums := by
    intro handle target source decl scope listed used place isTop up isMessage
    have properSource : source.id.Proper := plain.indexes.proper _ (mem_of_getElem? listed)
    have properScope : scope.Proper := Identifier.proper_of_parent?
      (plain.indexes.proper _ (mem_of_getElem? place)) up
    by_cases same : compiled.table.owner source.id = compiled.table.owner scope
    · exact .inl same
    · right
      have known : compiled.table.messages.contains source.id.text = true :=
        plain.indexes.messages_contains_iff.mpr ⟨source, mem_of_getElem? listed, rfl⟩
      rcases plain.exists_top_of_owner properSource known with ⟨outer, memberOuter, isOuter⟩
      rcases plain.exists_top_of_owner properScope isMessage with ⟨inner, memberInner, isInner⟩
      rw [← isOuter, ← isInner] at same ⊢
      have different : outer.id.text ≠ inner.id.text := fun sameText => same
        (Identifier.eq_of_text_eq (plain.proper_of_top memberOuter)
          (plain.proper_of_top memberInner) sameText)
      apply (follows outer memberOuter inner memberInner same).mp
      apply plain.toCoherent.mem_refs_iff.mpr
      exact ⟨handle, target, source, .enum decl, listed, used, place, scope, up, isMessage,
        by rw [isOuter], by rw [isInner], different⟩

/-- If nothing is mistaken, then a reference that is noted is a dependency. -/
lemma dependsOn_of_noted (unmistaken : compiled.Unmistaken)
    (noted : inner ∈ compiled.references.refs outer) : compiled.dependsOn outer inner = true := by
  rcases plain.toCoherent.mem_refs_iff.mp noted with
    ⟨handle, target, source, type, listed, used, place, anchor, counts, isMessage, isOuter,
      isInner, different⟩
  rcases plain.exists_tops listed used place with
    ⟨user, memberUser, sameUser, ⟨owned, memberOwned, inside, depends⟩ | ⟨decl, isEnum, isTop⟩⟩
  · -- The use leads into a message, and neither side can be mistaken.
    have ownedMember := mem_definitionsOf_of_mem (mem_topMessages.mp memberOwned)
    rcases (plain.rooted ownedMember).exists_anchor inside with ⟨again, countsAgain, _, sameOwned⟩
    rw [counts] at countsAgain
    cases countsAgain
    have differentTops : user.id ≠ owned.id := by
      intro same
      apply different
      rw [isOuter, isInner, sameUser, sameOwned, same]
    rcases unmistaken.messages user memberUser owned memberOwned differentTops depends with
      ⟨freeUser, freeOwned⟩
    rw [sameUser, SymbolTable.owner_eq_self freeUser] at isOuter
    rw [sameOwned, SymbolTable.owner_eq_self freeOwned] at isInner
    rw [isOuter, isInner]
    exact depends
  · -- The use leads to an enum that passes for a part of a message.
    rw [isEnum] at place counts
    rcases unmistaken.enums handle target source decl anchor listed used place isTop counts
      isMessage with same | depends
    · rw [isOuter, isInner, same] at different
      exact absurd rfl different
    · rw [isOuter, isInner]
      exact depends

/-- A dependency between messages that stand in no message is noted. -/
lemma noted_of_dependsOn {outer inner : Identifier} (properOuter : outer.Proper)
    (properInner : inner.Proper) (different : outer ≠ inner)
    (freeOuter : ¬ compiled.table.InMessage outer) (freeInner : ¬ compiled.table.InMessage inner)
    (depends : compiled.dependsOn outer.text inner.text = true) :
    inner.text ∈ compiled.references.refs outer.text := by
  rcases dependsOn_iff.mp depends with ⟨handle, source, target, listed, held, used, reached⟩
  rcases plain.indexes.isTableOf.listsExisting target
    (plain.toCoherent.lists_of_uses (mem_of_getElem? listed) used) with ⟨type, place⟩
  rcases plain.exists_of_holds properOuter held listed with ⟨user, memberUser, isUser, insideUser⟩
  rcases plain.exists_of_holds properInner reached place with
    ⟨owned, memberOwned, isOwned, insideOwned⟩
  have sameUser : compiled.table.owner source.id = compiled.table.owner user.id :=
    (plain.rooted memberUser).owner_of_mem _ insideUser
  rcases (plain.rooted memberOwned).exists_anchor insideOwned with
    ⟨anchor, counts, isMessage, sameOwned⟩
  refine plain.toCoherent.mem_refs_iff.mpr ⟨handle, target, source, type, listed, used, place,
    anchor, counts, isMessage, ?_, ?_, ?_⟩
  · rw [sameUser, isUser, SymbolTable.owner_eq_self freeOuter]
  · rw [sameOwned, isOwned, SymbolTable.owner_eq_self freeInner]
  · intro sameText
    exact different (Identifier.eq_of_text_eq properOuter properInner sameText)

lemma followsContainment_of_unmistaken (unmistaken : compiled.Unmistaken) :
    compiled.FollowsContainment := by
  intro outer memberOuter inner memberInner different
  constructor
  · intro noted
    exact plain.dependsOn_of_noted unmistaken noted
  · intro depends
    rcases unmistaken.messages outer memberOuter inner memberInner different depends with
      ⟨freeOuter, freeInner⟩
    exact plain.noted_of_dependsOn (plain.proper_of_top memberOuter)
      (plain.proper_of_top memberInner) different freeOuter freeInner depends

end

end Compiled.Plain

/-- Without aliases and outer scope, references follow containment exactly if no
namespace is mistaken for a message where it matters.  In particular they do if
no type at the top level stands in a namespace that bears the name of a
message. -/
theorem references_follow_containment_iff {source : List UInt8} {document : Document}
    {compiled : Compiled} (parsed : Syntax.parse source = .ok document)
    (done : compile {} document = .ok compiled) :
    (compiled.FollowsContainment ↔ compiled.Unmistaken) ∧
      ((∀ type ∈ compiled.types, ¬ compiled.table.InMessage type.id) ->
        compiled.FollowsContainment) := by
  have plain := plain_of_compile parsed done
  refine ⟨⟨plain.unmistaken_of_followsContainment, plain.followsContainment_of_unmistaken⟩, ?_⟩
  intro free
  apply plain.followsContainment_of_unmistaken
  constructor
  · intro outer memberOuter inner memberInner _ _
    exact ⟨free _ (mem_topMessages.mp memberOuter), free _ (mem_topMessages.mp memberInner)⟩
  · intro handle target user decl scope _ _ _ isTop up isMessage
    exact absurd ⟨scope, up, isMessage⟩ (free _ isTop)

/-- A use deep in one message of an enum inside another one, where an enum beside
them makes no reference. -/
theorem nested_uses_follow_containment :
    ∃ document compiled,
      Syntax.parse ("namespace n \x7b enum E \x7b A \x7d message R \x7b enum K \x7b B \x7d \x7d " ++
        "message P \x7b message Q \x7b R.K k = 1; E e = 2; \x7d \x7d \x7d").toUTF8.toList =
          .ok document ∧
      compile {} document = .ok compiled ∧
      (∀ type ∈ compiled.types, ¬ compiled.table.InMessage type.id) ∧
      compiled.FollowsContainment ∧ compiled.Unmistaken ∧
      compiled.dependsOn "n.P" "n.R" = true := by
  refine exists_compiled (fun compiled =>
    decide (∀ type ∈ compiled.types, ¬ compiled.table.InMessage type.id) &&
      compiled.dependsOn "n.P" "n.R") (by decide +kernel) ?_
  intro document compiled parsed done checked
  rcases Bool.and_eq_true_iff.mp checked with ⟨free, depends⟩
  have exactly := references_follow_containment_iff parsed done
  have follows := exactly.2 (of_decide_eq_true free)
  exact ⟨of_decide_eq_true free, follows, exactly.1.mp follows, depends⟩

/-- A message in a namespace that bears the name of a message: what it refers to
is noted for that other message. -/
theorem reference_noted_for_namesake :
    ∃ document compiled,
      Syntax.parse ("namespace a \x7b message b \x7b X x = 1; \x7d \x7d " ++
        "message a \x7b\x7d message X \x7b\x7d").toUTF8.toList = .ok document ∧
      compile {} document = .ok compiled ∧ ¬ compiled.FollowsContainment ∧
      compiled.dependsOn "a.b" "X" = true ∧ compiled.references.refs "a.b" = [] ∧
      compiled.dependsOn "a" "X" = false ∧ compiled.references.refs "a" = ["X"] := by
  refine exists_compiled (fun compiled => decide (¬ compiled.FollowsContainment ∧
    compiled.dependsOn "a.b" "X" = true ∧ compiled.references.refs "a.b" = [] ∧
    compiled.dependsOn "a" "X" = false ∧ compiled.references.refs "a" = ["X"]))
    (by decide +kernel) ?_
  intro document compiled parsed done checked
  exact of_decide_eq_true checked

end MessageSchema

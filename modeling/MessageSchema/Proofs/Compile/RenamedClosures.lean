import MessageSchema.Proofs.Compile.Reachability
import MessageSchema.Proofs.Compile.RenamedSchema

namespace MessageSchema

open List Option

/-!
Renaming and dependencies.

References are noted between owners, which are found by names.  If an alias moves
the members of a message away, or a type to where it passes for a member, then the
closures need not follow the renaming.  This module says exactly when they do.
-/

/-! ## Closures of compiled schemas -/

variable {name : String} {source : Message Reference}

namespace Compiled.Coherent

variable {compiled : Compiled}

lemma closure?_eq (coherent : compiled.Coherent) (isTop : compiled.IsTop name) :
    compiled.references.closure? name = some (compiled.references.closureOf name) := by
  rw [coherent.related]
  exact closure?_dependencies_eq_some_iff.mpr ⟨isTop, rfl⟩

lemma mem_closures_names_iff (coherent : compiled.Coherent) :
    name ∈ compiled.references.closures.names ↔ compiled.IsTop name := by
  rw [Name.Table.mem_names_iff, coherent.related]
  constructor
  · rintro ⟨closure, found⟩
    exact (closure?_dependencies_eq_some_iff.mp found).1
  · intro isTop
    exact ⟨_, closure?_dependencies_eq_some_iff.mpr ⟨isTop, rfl⟩⟩

end Compiled.Coherent

namespace Compiled.Plain

variable {compiled : Compiled}

variable {inner outer : String}

/-- Without renamed types, references are noted between top-level messages. -/
lemma isTop_of_notes (plain : compiled.Plain)
    (member : .message source ∈ definitionsOf compiled.types) {type : TypeDecl Reference}
    (memberType : type ∈ definitionsOf compiled.types)
    (notes : compiled.table.Notes source.id type outer inner) :
    compiled.IsTop outer ∧ compiled.IsTop inner := by
  rcases notes with ⟨anchor, counts, isMessage, isOuter, isInner, _⟩
  constructor
  · have known := plain.indexes.messages_contains_iff.mpr ⟨source, member, rfl⟩
    rcases plain.exists_top_of_owner (plain.indexes.proper _ member) known with ⟨top, isTop, same⟩
    exact ⟨top, isTop, by rw [same, isOuter]; rfl⟩
  · have proper := plain.toCoherent.proper_of_anchor memberType counts
    rcases plain.exists_top_of_owner proper isMessage with ⟨top, isTop, same⟩
    exact ⟨top, isTop, by rw [same, isInner]⟩

lemma isTop_of_refs (plain : compiled.Plain) (noted : inner ∈ compiled.references.refs outer) :
    compiled.IsTop outer ∧ compiled.IsTop inner := by
  rcases plain.toCoherent.mem_refs_iff.mp noted with ⟨_, _, _, _, listed, _, place, notes⟩
  exact plain.isTop_of_notes (mem_of_getElem? listed) (mem_of_getElem? place) notes

lemma isTop_of_reaches (plain : compiled.Plain) (isTop : compiled.IsTop outer)
    (path : compiled.references.Reaches outer inner) : compiled.IsTop inner := by
  cases path with
  | refl => exact isTop
  | tail _ noted => exact (plain.isTop_of_refs noted).2

end Compiled.Plain

/-! ## When closures follow a renaming -/

/-- Every top-level message has, under its new name, the closure that it had,
under the new names. -/
def Compiled.ClosuresFollow (aliases : Aliases) (before after : Compiled) : Prop :=
  ∀ top ∈ topMessages before.types,
    (before.references.closure? top.id.text).isSome = true ∧
      after.references.closure? (aliases.rename top.id.text) =
        (before.references.closure? top.id.text).map fun closure =>
          Name.sortedNames (closure.map aliases.rename)

instance (aliases : Aliases) (before after : Compiled) :
    Decidable (Compiled.ClosuresFollow aliases before after) :=
  inferInstanceAs (Decidable (∀ top ∈ _, _ ∧ _))

/-- Renaming disturbs no dependency, use by use. -/
structure Compiled.Undisturbed (aliases : Aliases) (before after : Compiled) : Prop where
  /-- What a use is noted as leads, under the new names, from the one message to
  the other still. -/
  kept : ∀ (handle target : Nat) (source : Message Reference) (type : TypeDecl Reference),
    (definitionsOf before.types)[handle]? = some (.message source) ->
    target ∈ before.table.uses source -> (definitionsOf before.types)[target]? = some type ->
    ∀ outer inner, before.table.Notes source.id type outer inner ->
      after.references.Reaches (aliases.rename outer) (aliases.rename inner)
  /-- What a use of a top-level message is noted as under the new names was a
  dependency before. -/
  added : ∀ (handle target : Nat) (source : Message Reference) (type : TypeDecl Reference),
    (definitionsOf before.types)[handle]? = some (.message source) ->
    target ∈ before.table.uses source -> (definitionsOf before.types)[target]? = some type ->
    ∀ outer inner, before.IsTop outer ->
      after.table.Notes (aliases.applyScope source.id) (type.alias aliases)
        (aliases.rename outer) inner ->
      ∃ old, before.references.Reaches outer old ∧ aliases.rename old = inner

/-- Renaming keeps types in their messages, and puts no other type into one. -/
structure Compiled.KeepsScopes (aliases : Aliases) (before after : Compiled) : Prop where
  along : ∀ type ∈ definitionsOf before.types, ∀ scope, type.id.parent? = some scope ->
    before.table.messages.contains scope.text = true ->
      (aliases.applyScope type.id).parent? = some (aliases.applyScope scope)
  apart : ∀ type ∈ definitionsOf before.types,
    after.table.InMessage (aliases.applyScope type.id) -> before.table.InMessage type.id

namespace Compiled.Renames

variable {options : NamingOptions} {aliases : Aliases} {before after : Compiled}

section
variable (renames : Renames options aliases before after)
include renames

lemma closures_names : after.references.closures.names =
      Name.sortedNames (before.references.closures.names.map aliases.rename) := by
  apply Name.sortedNames_eq_of_mem_iff (Name.Table.names_ascending _)
  intro name
  rw [renames.coherent.mem_closures_names_iff, renames.isTop_after_iff, List.mem_map]
  constructor
  · rintro ⟨old, isTop, same⟩
    exact ⟨old, renames.plain.toCoherent.mem_closures_names_iff.mpr isTop, same⟩
  · rintro ⟨old, member, same⟩
    exact ⟨old, renames.plain.toCoherent.mem_closures_names_iff.mp member, same⟩

/-! ### From uses to closures and back -/

/-- Closures are in ascending order anyway, so they follow the renaming if their
members do. -/
lemma closuresFollow_iff :
    ClosuresFollow aliases before after ↔ ∀ outer, before.IsTop outer -> ∀ name,
      name ∈ after.references.closureOf (aliases.rename outer) ↔
        ∃ inner ∈ before.references.closureOf outer, aliases.rename inner = name := by
  have closureAfter : ∀ {outer}, before.IsTop outer ->
      after.references.closure? (aliases.rename outer) =
        some (after.references.closureOf (aliases.rename outer)) := by
    intro outer isTop
    exact renames.coherent.closure?_eq (renames.isTop_after_iff.mpr ⟨outer, isTop, rfl⟩)
  constructor
  · rintro follow outer ⟨top, listed, same⟩ name
    have isTop : before.IsTop top.id.text := ⟨top, listed, rfl⟩
    have moved := (follow top listed).2
    rw [closureAfter isTop, renames.plain.toCoherent.closure?_eq isTop, map_some,
      Option.some.injEq] at moved
    rw [← same, moved, Name.mem_sortedNames, List.mem_map]
  · intro follow top listed
    have isTop : before.IsTop top.id.text := ⟨top, listed, rfl⟩
    rw [closureAfter isTop, renames.plain.toCoherent.closure?_eq isTop, map_some]
    refine ⟨rfl, congrArg some ?_⟩
    apply Name.sortedNames_eq_of_mem_iff (References.closureOf_ascending _ _)
    intro name
    rw [follow top.id.text isTop, List.mem_map]

lemma undisturbed_of_closuresFollow (follow : ClosuresFollow aliases before after) :
    Undisturbed aliases before after := by
  rw [renames.closuresFollow_iff] at follow
  constructor
  · intro handle target source type listed used place outer inner notes
    have noted := renames.plain.toCoherent.mem_refs_iff.mpr
      ⟨handle, target, source, type, listed, used, place, notes⟩
    have isTop := (renames.plain.isTop_of_refs noted).1
    rcases notes with ⟨_, _, _, _, _, different⟩
    have inClosure := References.mem_closureOf_iff.mpr ⟨different.symm, .single noted⟩
    have moved := (follow outer isTop _).mpr ⟨inner, inClosure, rfl⟩
    exact (References.mem_closureOf_iff.mp moved).2
  · intro handle target source type listed used place outer inner isTop notes
    have noted := renames.mem_refs_iff.mpr
      ⟨handle, target, source, type, listed, used, place, notes⟩
    rcases notes with ⟨_, _, _, _, _, different⟩
    have inClosure := References.mem_closureOf_iff.mpr ⟨different.symm, .single noted⟩
    rcases (follow outer isTop _).mp inClosure with ⟨old, member, same⟩
    exact ⟨old, (References.mem_closureOf_iff.mp member).2, same⟩

end

variable {outer : String} {type : TypeDecl Reference}

variable {inner : String}

section
variable (renames : Renames options aliases before after)
  (undisturbed : Undisturbed aliases before after)
include renames undisturbed

lemma reaches_rename (path : before.references.Reaches outer inner) :
    after.references.Reaches (aliases.rename outer) (aliases.rename inner) := by
  induction path with
  | refl => exact .refl
  | @tail middle inner _ noted ih =>
    rcases renames.plain.toCoherent.mem_refs_iff.mp noted with
      ⟨handle, target, source, type, listed, used, place, notes⟩
    exact ih.trans
      (undisturbed.kept handle target source type listed used place middle inner notes)

lemma exists_reaches (isTop : before.IsTop outer)
    (path : after.references.Reaches (aliases.rename outer) name) :
    ∃ inner, before.references.Reaches outer inner ∧ aliases.rename inner = name := by
  induction path with
  | refl => exact ⟨outer, .refl, rfl⟩
  | @tail middle name _ noted ih =>
    rcases ih with ⟨inner, before, same⟩
    have isTopInner := renames.plain.isTop_of_reaches isTop before
    rw [← same] at noted
    rcases renames.mem_refs_iff.mp noted with
      ⟨handle, target, source, type, listed, used, place, notes⟩
    rcases undisturbed.added handle target source type listed used place inner name isTopInner
      notes with ⟨next, further, isNext⟩
    exact ⟨next, before.trans further, isNext⟩

lemma closuresFollow_of_undisturbed : ClosuresFollow aliases before after := by
  rw [renames.closuresFollow_iff]
  intro outer isTop name
  rw [References.mem_closureOf_iff]
  constructor
  · rintro ⟨different, path⟩
    rcases renames.exists_reaches undisturbed isTop path with ⟨inner, before, same⟩
    have differentInner : inner ≠ outer := by
      intro back
      rw [← same, back] at different
      exact different rfl
    exact ⟨inner, References.mem_closureOf_iff.mpr ⟨differentInner, before⟩, same⟩
  · rintro ⟨inner, member, same⟩
    rcases References.mem_closureOf_iff.mp member with ⟨different, before⟩
    have isTopInner := renames.plain.isTop_of_reaches isTop before
    rw [← same]
    refine ⟨?_, renames.reaches_rename undisturbed before⟩
    intro back
    exact different (renames.eq_of_rename_eq isTopInner isTop back)

end

/-! ### Scopes that stay together -/

/-- If scopes stay together, then so do owners. -/
lemma owner_applyScope (renames : Renames options aliases before after)
    (keeps : KeepsScopes aliases before after) (name : Identifier) :
    ∀ type ∈ definitionsOf before.types, type.id = name ->
      after.table.owner (aliases.applyScope name) =
        aliases.applyScope (before.table.owner name) := by
  fun_induction SymbolTable.owner before.table name with
  | case1 name top =>
    intro type member same
    apply SymbolTable.owner_eq_self
    intro inside
    rw [← same] at inside
    rcases keeps.apart type member inside with ⟨scope, up, _⟩
    rw [same, top] at up
    cases up
  | case2 name scope up isMessage ih =>
    intro type member same
    have proper : scope.Proper :=
      Identifier.proper_of_parent? (same ▸ renames.plain.indexes.proper type member) up
    rcases renames.contains_applyScope proper isMessage with ⟨⟨decl, inside, isScope⟩, isMoved⟩
    have upMoved := keeps.along type member scope (same ▸ up) isMessage
    rw [same] at upMoved
    rw [SymbolTable.owner_eq_of_parent? upMoved isMoved]
    exact ih (.message decl) inside isScope
  | case3 name scope up outside =>
    intro type member same
    apply SymbolTable.owner_eq_self
    intro inside
    rw [← same] at inside
    rcases keeps.apart type member inside with ⟨again, upAgain, isMessage⟩
    rw [same, up] at upAgain
    cases upAgain
    exact outside isMessage

/-- What a use counts for, if it is a message, is renamed like a message. -/
lemma anchor?_alias (keeps : KeepsScopes aliases before after)
    (member : type ∈ definitionsOf before.types) {anchor : Identifier}
    (counts : type.anchor? = some anchor)
    (isMessage : before.table.messages.contains anchor.text = true) :
    (type.alias aliases).anchor? = some (aliases.applyScope anchor) := by
  rcases type with decl | decl
  · exact keeps.along _ member anchor counts isMessage
  · cases counts
    exact congrArg some (decl.id_alias aliases)

section
variable (renames : Renames options aliases before after) (keeps : KeepsScopes aliases before after)
include renames keeps

/-- What a use counts for under the new names, if it is a message, is what it
counted for before. -/
lemma exists_anchor (member : type ∈ definitionsOf before.types)
    {moved : Identifier} (counts : (type.alias aliases).anchor? = some moved)
    (isMessage : after.table.messages.contains moved.text = true) :
    ∃ anchor, type.anchor? = some anchor ∧
      before.table.messages.contains anchor.text = true ∧ aliases.applyScope anchor = moved := by
  rcases type with decl | decl
  · rcases keeps.apart _ member ⟨moved, counts, isMessage⟩ with ⟨scope, up, isScope⟩
    have moves := keeps.along _ member scope up isScope
    refine ⟨scope, up, isScope, Option.some.inj (moves.symm.trans counts)⟩
  · refine ⟨decl.id, rfl, ?_, ?_⟩
    · exact renames.plain.indexes.messages_contains_iff.mpr ⟨decl, member, rfl⟩
    · exact (decl.id_alias aliases).symm.trans (Option.some.inj counts)

lemma rename_owner (member : type ∈ definitionsOf before.types)
    {name : Identifier} (same : type.id = name) : aliases.rename (before.table.owner name).text =
      (after.table.owner (aliases.applyScope name)).text := by
  have proper : (before.table.owner name).Proper :=
    SymbolTable.proper_owner (same ▸ renames.plain.indexes.proper type member)
  rw [aliases.rename_text proper, renames.owner_applyScope keeps name type member same]

/-- If scopes stay together, then a use is noted as it was before, under the new
names. -/
lemma notes_alias_iff (member : .message source ∈ definitionsOf before.types)
    (memberType : type ∈ definitionsOf before.types) :
    after.table.Notes (aliases.applyScope source.id) (type.alias aliases) outer inner ↔
      ∃ oldOuter oldInner, before.table.Notes source.id type oldOuter oldInner ∧
        aliases.rename oldOuter = outer ∧ aliases.rename oldInner = inner := by
  have renameSource : aliases.rename (before.table.owner source.id).text =
      (after.table.owner (aliases.applyScope source.id)).text :=
    renames.rename_owner keeps member rfl
  have renameAnchor : ∀ anchor, type.anchor? = some anchor ->
      before.table.messages.contains anchor.text = true ->
      after.table.messages.contains (aliases.applyScope anchor).text = true ∧
        aliases.rename (before.table.owner anchor).text =
          (after.table.owner (aliases.applyScope anchor)).text := by
    intro anchor counts isMessage
    have proper := renames.plain.toCoherent.proper_of_anchor memberType counts
    rcases renames.contains_applyScope proper isMessage with ⟨⟨decl, inside, same⟩, isMoved⟩
    exact ⟨isMoved, renames.rename_owner keeps inside same⟩
  constructor
  · rintro ⟨moved, counts, isMessage, isOuter, isInner, different⟩
    rcases renames.exists_anchor keeps memberType counts isMessage with
      ⟨anchor, countsBefore, isMessageBefore, same⟩
    have innerName := (renameAnchor anchor countsBefore isMessageBefore).2
    rw [same, ← isInner] at innerName
    have outerName := renameSource.trans isOuter.symm
    refine ⟨_, _, ⟨anchor, countsBefore, isMessageBefore, rfl, rfl, ?_⟩, outerName, innerName⟩
    intro sameOwner
    apply different
    rw [← outerName, ← innerName]
    exact congrArg aliases.rename sameOwner
  · rintro ⟨oldOuter, oldInner, notes, isOuter, isInner⟩
    rcases renames.plain.isTop_of_notes member memberType notes with ⟨isTopOuter, isTopInner⟩
    rcases notes with ⟨anchor, counts, isMessage, sameOuter, sameInner, different⟩
    rcases renameAnchor anchor counts isMessage with ⟨isMoved, innerName⟩
    refine ⟨aliases.applyScope anchor, anchor?_alias keeps memberType counts isMessage, isMoved,
      ?_, ?_, ?_⟩
    · rw [← isOuter, sameOuter]
      exact renameSource
    · rw [← isInner, sameInner]
      exact innerName
    · intro same
      rw [← isOuter, ← isInner] at same
      exact different (renames.eq_of_rename_eq isTopOuter isTopInner same)

lemma undisturbed_of_keepsScopes : Undisturbed aliases before after := by
  constructor
  · intro handle target source type listed used place outer inner notes
    have moved := (renames.notes_alias_iff keeps (mem_of_getElem? listed)
      (mem_of_getElem? place)).mpr ⟨outer, inner, notes, rfl, rfl⟩
    exact .single (renames.mem_refs_iff.mpr
      ⟨handle, target, source, type, listed, used, place, moved⟩)
  · intro handle target source type listed used place outer inner isTop notes
    have member := mem_of_getElem? listed
    have memberType := mem_of_getElem? place
    rcases (renames.notes_alias_iff keeps member memberType).mp notes with
      ⟨oldOuter, oldInner, notesBefore, isOuter, isInner⟩
    have isTopOld := (renames.plain.isTop_of_notes member memberType notesBefore).1
    rw [renames.eq_of_rename_eq isTopOld isTop isOuter] at notesBefore
    exact ⟨oldInner, .single (renames.plain.toCoherent.mem_refs_iff.mpr
      ⟨handle, target, source, type, listed, used, place, notesBefore⟩), isInner⟩

end

/-- Scopes stay together if no aliased path is that of a message, and no type
at the top level is moved into a message. -/
lemma keepsScopes_of_free (renames : Renames options aliases before after)
    (sources : ∀ wish ∈ options.aliases,
      before.table.messages.contains (Identifier.ofDotted wish.1).text = false)
    (targets : ∀ type ∈ before.types,
      after.table.InMessage (aliases.applyScope type.id) -> before.table.InMessage type.id) :
    KeepsScopes aliases before after := by
  constructor
  · intro type member scope up isMessage
    have proper := Identifier.proper_of_parent? (renames.plain.indexes.proper type member) up
    apply Aliases.parent?_applyScope renames.built proper up
    intro wish listed same
    have free := sources wish listed
    rw [same, isMessage] at free
    cases free
  · intro type member inside
    rcases mem_definitionsOf.mp member with ⟨other | top, listed, within⟩
    · cases List.mem_singleton.mp within
      exact targets _ listed inside
    · have rooted := renames.plain.rooted (mem_definitionsOf_of_mem listed)
      rcases rooted.exists_enclosing type within with isTop | ⟨outer, found, up⟩
      · rw [isTop] at inside ⊢
        exact targets _ listed inside
      · exact ⟨outer.id, up, rooted.known outer found⟩

end Compiled.Renames

/-- What a source is compiled to without and with the given names, and the
aliases. -/
def compileBoth? (options : NamingOptions) (source : String) :
    Option (Compiled × Compiled × Aliases) := do
  let before ← compileSource? {} source
  let after ← compileSource? options source
  let aliases ← options.build.toOption
  return (before, after, aliases)

lemma exists_of_compileBoth? {options : NamingOptions} {source : String}
    {before after : Compiled} {aliases : Aliases}
    (found : compileBoth? options source = some (before, after, aliases)) :
    ∃ document, Syntax.parse source.toUTF8.toList = .ok document ∧
      compile {} document = .ok before ∧ options.build = .ok aliases ∧
      compile options document = .ok after := by
  simp only [compileBoth?, bind_eq_bind, bind_eq_some_iff, Option.pure_def,
    Option.some.injEq, Prod.mk.injEq] at found
  rcases found with ⟨_, foundBefore, _, foundAfter, _, wished, rfl, rfl, rfl⟩
  rcases compileSource?_eq_some_iff.mp foundBefore with ⟨document, parsed, doneBefore⟩
  rcases compileSource?_eq_some_iff.mp foundAfter with ⟨again, parsedAgain, done⟩
  cases Except.ok.inj (parsed.symm.trans parsedAgain)
  refine ⟨document, parsed, doneBefore, ?_, done⟩
  cases built : options.build with
  | error error =>
    rw [built] at wished
    cases wished
  | ok result =>
    rw [built] at wished
    cases wished
    rfl

/-- A renaming keeps it which messages have a closure.  The closures follow the
renaming exactly if no use is disturbed by it.  In particular they do if no
aliased path is that of a message, and no type at the top level is moved into a
scope that bears the name of a message. -/
theorem closures_follow_renaming_iff {source : List UInt8} {document : Document}
    {options : NamingOptions} {aliases : Aliases} {before after : Compiled}
    (parsed : Syntax.parse source = .ok document)
    (doneBefore : compile {} document = .ok before) (wished : options.build = .ok aliases)
    (done : compile options document = .ok after) :
    after.references.closures.names =
        Name.sortedNames (before.references.closures.names.map aliases.rename) ∧
      (Compiled.ClosuresFollow aliases before after ↔
        Compiled.Undisturbed aliases before after) ∧
      ((∀ wish ∈ options.aliases,
          before.table.messages.contains (Identifier.ofDotted wish.1).text = false) ->
        (∀ type ∈ before.types, after.table.InMessage (aliases.applyScope type.id) ->
          before.table.InMessage type.id) ->
        Compiled.ClosuresFollow aliases before after) := by
  have renames := renames_of_compile parsed doneBefore wished done
  refine ⟨renames.closures_names,
    ⟨renames.undisturbed_of_closuresFollow, renames.closuresFollow_of_undisturbed⟩, ?_⟩
  intro sources targets
  apply renames.closuresFollow_of_undisturbed
  exact renames.undisturbed_of_keepsScopes (renames.keepsScopes_of_free sources targets)

/-- A chain of uses through nested messages of two namespaces, of which one is
renamed and the other one gets an outer scope. -/
theorem nested_closures_follow_renaming :
    ∃ document before after aliases,
      Syntax.parse ("namespace n \x7b message P \x7b message Q \x7b k.R.T t = 1; \x7d \x7d \x7d " ++
        "namespace k \x7b message R \x7b message T \x7b S s = 1; \x7d \x7d message S \x7b\x7d \x7d"
        ).toUTF8.toList = .ok document ∧
      compile {} document = .ok before ∧
      NamingOptions.build ⟨[("n", "x.y")], "o"⟩ = .ok aliases ∧
      compile ⟨[("n", "x.y")], "o"⟩ document = .ok after ∧
      (∀ wish ∈ [("n", "x.y")],
        before.table.messages.contains (Identifier.ofDotted wish.1).text = false) ∧
      (∀ type ∈ before.types, after.table.InMessage (aliases.applyScope type.id) ->
        before.table.InMessage type.id) ∧
      Compiled.ClosuresFollow aliases before after ∧ Compiled.Undisturbed aliases before after ∧
      after.references.closures.names =
        Name.sortedNames (before.references.closures.names.map aliases.rename) ∧
      after.references.closure? "x.y.P" = some ["o.k.R", "o.k.S"] := by
  have compiles : ((compileBoth? ⟨[("n", "x.y")], "o"⟩
      ("namespace n \x7b message P \x7b message Q \x7b k.R.T t = 1; \x7d \x7d \x7d " ++
        "namespace k \x7b message R \x7b message T \x7b S s = 1; \x7d \x7d message S \x7b\x7d " ++
        "\x7d")).any fun (before, after, aliases) => decide
        ((∀ wish ∈ [("n", "x.y")],
            before.table.messages.contains (Identifier.ofDotted wish.1).text = false) ∧
          (∀ type ∈ before.types, after.table.InMessage (aliases.applyScope type.id) ->
            before.table.InMessage type.id) ∧
          after.references.closure? "x.y.P" = some ["o.k.R", "o.k.S"])) = true := by
    decide +kernel
  rcases (Option.any_eq_true _ _).mp compiles with ⟨⟨before, after, aliases⟩, found, checked⟩
  rcases of_decide_eq_true checked with ⟨sources, targets, closure⟩
  rcases exists_of_compileBoth? found with ⟨document, parsed, doneBefore, wished, done⟩
  rcases closures_follow_renaming_iff parsed doneBefore wished done with ⟨names, exactly, free⟩
  have follow := free sources targets
  exact ⟨document, before, after, aliases, parsed, doneBefore, wished, done, sources, targets,
    follow, exactly.mp follow, names, closure⟩

/-- An alias of a message moves its members away from it: what they refer to is
no longer noted for the message. -/
theorem closure_lost_by_aliased_message :
    ∃ document before after aliases,
      Syntax.parse ("message a \x7b message b \x7b X x = 1; \x7d \x7d " ++
        "message X \x7b\x7d").toUTF8.toList = .ok document ∧
      compile {} document = .ok before ∧
      NamingOptions.build ⟨[("a", "z")], ""⟩ = .ok aliases ∧
      compile ⟨[("a", "z")], ""⟩ document = .ok after ∧
      ¬ Compiled.ClosuresFollow aliases before after ∧
      before.references.closure? "a" = some ["X"] ∧ aliases.rename "a" = "a" ∧
      aliases.rename "X" = "X" ∧ after.references.closure? "a" = some [] := by
  have compiles : ((compileBoth? ⟨[("a", "z")], ""⟩
      "message a \x7b message b \x7b X x = 1; \x7d \x7d message X \x7b\x7d").any
      fun (before, after, aliases) => decide
        (¬ Compiled.ClosuresFollow aliases before after ∧
          before.references.closure? "a" = some ["X"] ∧ aliases.rename "a" = "a" ∧
          aliases.rename "X" = "X" ∧ after.references.closure? "a" = some [])) = true := by
    decide +kernel
  rcases (Option.any_eq_true _ _).mp compiles with ⟨⟨before, after, aliases⟩, found, checked⟩
  rcases exists_of_compileBoth? found with ⟨document, parsed, doneBefore, wished, done⟩
  exact ⟨document, before, after, aliases, parsed, doneBefore, wished, done,
    of_decide_eq_true checked⟩

end MessageSchema

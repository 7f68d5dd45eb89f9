import MessageSchema.Proofs.Workbench.Flattening
import MessageSchema.Proofs.Workbench.Qualifying
import MessageSchema.Proofs.Workbench.Showing
import MessageSchema.Proofs.Workbench.Wiring

namespace MessageSchema.Workbench

/-!
A compilation on the workbench from beginning to end.

The stages share a symbol table, references and aliases.  Whatever else the store
holds, and whatever the stages have in mind, a document in the store is compiled as
the document by itself: with the same error, or the store holds the compiled schema.
-/

/-- A stage is set up over what the stages share. -/
structure SetUp (store : Store) (aliases : Aliases) (passes : Passes) (stage : Stage)
    (runner : Key) : Prop where
  inside : runner < store.runners.size
  stage : (store.runner runner).stage = stage
  table : (store.runner runner).table = passes.table
  references : (store.runner runner).references = passes.references
  aliases : store.aliasesAt (store.runner runner).aliases = aliases

/-- The stages are set up in their order, and there is room for what they fill. -/
structure Equipped (store : Store) (aliases : Aliases) (passes : Passes) : Prop where
  table : passes.table < store.tables.size
  references : passes.references < store.references.size
  runners : List.Forall₂ (SetUp store aliases passes)
    [.rename, .flatten, .index, .resolve, .substitute, .depend] passes.runners

section
variable {store after : Store} {aliases : Aliases} {passes : Passes} {stage : Stage}
  {runner : Key}

lemma SetUp.kept (same : SameWiring store after) (setUp : SetUp store aliases passes stage runner) :
    SetUp after aliases passes stage runner := by
  have setup := same.cleared_runner runner
  rw [Runner.cleared, Runner.cleared, Runner.mk.injEq] at setup
  rcases setup with ⟨isStage, isTable, isAliases, isReferences, _⟩
  constructor
  · rw [same.size_runners]
    exact setUp.inside
  · rw [isStage]
    exact setUp.stage
  · rw [isTable]
    exact setUp.table
  · rw [isReferences]
    exact setUp.references
  · rw [isAliases, Store.aliasesAt, same.aliases]
    exact setUp.aliases

lemma Equipped.kept (same : SameWiring store after) (equipped : Equipped store aliases passes) :
    Equipped after aliases passes where
  table := same.tables ▸ equipped.table
  references := same.references ▸ equipped.references
  runners := equipped.runners.imp fun _ _ setUp => setUp.kept same

end

variable {aliases : Aliases} {passes : Passes}

variable {store : Store}

lemma Equipped.exists_runners (equipped : Equipped store aliases passes) :
    ∃ rename flattening entering resolving substitute depend,
      passes.runners = [rename, flattening, entering, resolving, substitute, depend] ∧
      SetUp store aliases passes .rename rename ∧ SetUp store aliases passes .flatten flattening ∧
      SetUp store aliases passes .index entering ∧ SetUp store aliases passes .resolve resolving ∧
      SetUp store aliases passes .substitute substitute ∧
      SetUp store aliases passes .depend depend := by
  have stages := equipped.runners
  simp only [List.forall₂_cons_left_iff, List.forall₂_nil_left_iff] at stages
  rcases stages with ⟨rename, _, setUp₁,
    ⟨flattening, _, setUp₂, ⟨entering, _, setUp₃, ⟨resolving, _,
    setUp₄, ⟨substitute, _, setUp₅, ⟨depend, _, setUp₆, rfl, rfl⟩, rfl⟩, rfl⟩, rfl⟩, rfl⟩, same⟩
  exact ⟨rename, flattening, entering, resolving, substitute, depend, same, setUp₁, setUp₂, setUp₃,
    setUp₄, setUp₅, setUp₆⟩

/-- The runs of the stages end as a compilation does. -/
inductive EndsAs (passes : Passes) (root : Key) (result : InPlace) :
    Except CompileError Compiled -> Prop
  | failed {error : CompileError} (failure : result.failure = some (.compile error)) :
      EndsAs passes root result (.error error)
  | done {compiled : Compiled} (failure : result.failure = none)
      (holds : result.store.Holds root passes.table passes.references compiled)
      (sound : compiled.Sound) : EndsAs passes root result (.ok compiled)

/-- Only the failure and the last store matter for how the runs end. -/
lemma EndsAs.congr {root : Key} {result other : InPlace} {outcome : Except CompileError Compiled}
    (ends : EndsAs passes root result outcome) (failure : other.failure = result.failure)
    (store : other.store = result.store) : EndsAs passes root other outcome := by
  cases ends with
  | failed failed => exact .failed (failure.trans failed)
  | done none holds sound => exact .done (failure.trans none) (store ▸ holds) sound

section
variable {passes : Passes} {root runner : Key} {rest : List Key} {store : Store}

/-- After a stage that succeeds the later ones decide how the runs end. -/
lemma EndsAs.after {post : Unit -> Store -> Prop} {outcome : Except CompileError Compiled}
    (first : Yields (run runner root) store post)
    (next : ∀ after, post () after -> SameWiring store after ->
      EndsAs passes root (runStages root after rest) outcome) :
    EndsAs passes root (runStages root store (runner :: rest)) outcome := by
  have wiring := keeps_run runner root store
  rcases first with ⟨_, after, ran, holds⟩
  rw [ran] at wiring
  rw [runStages, ran]
  exact (next after holds wiring).congr rfl rfl

/-- After a stage that goes the way of a step, the later stages go the way of what
follows the step. -/
lemma EndsAs.step {γ : Type} {post : Unit -> γ -> Store -> Prop} {step : Except CompileError γ}
    {later : γ -> Except CompileError Compiled} (first : Follows (run runner root) store post step)
    (next : ∀ result after, step = .ok result -> post () result after -> SameWiring store after ->
      EndsAs passes root (runStages root after rest) (later result)) :
    EndsAs passes root (runStages root store (runner :: rest)) (step.bind later) := by
  cases first with
  | failed ran =>
    rw [runStages, ran]
    exact .failed rfl
  | @done value result after ran holds =>
    have yields : Yields (run runner root) store fun _ after => post () result after :=
      ⟨value, after, ran, holds⟩
    exact .after yields fun after holds wiring => next result after rfl holds wiring

end

/-- All handles of a compiled schema lead to definitions, whatever the aliases are. -/
lemma sound_of_aliasNames {table next : SymbolTable Nat}
    {types newTypes : List (TypeDecl Reference)} (indexes : table.Indexes (definitionsOf types))
    (leads : AllLead (definitionsOf types))
    (renamed : aliasNames aliases types table = .ok (newTypes, next)) (references : References) :
    Compiled.Sound ⟨newTypes, next, references⟩ := by
  rcases aliasNames_ok indexes renamed with ⟨rfl, _, moves, _⟩
  constructor
  · rw [definitionsOf_alias]
    exact indexes.toDescribes.points.alias moves aliases
  · rw [definitionsOf_alias]
    exact leads.alias aliases

section
variable {store : Store} {aliases : Aliases} {passes : Passes} {root : Nat}

variable {depend : Key} {table : SymbolTable Nat}

variable {sites : List (Site (TypeDecl Reference))} {substitute : Key}

section
variable (equipped : Equipped store aliases passes)
include equipped

/-- The last stage completes a schema with its dependencies. -/
lemma endsAs_depend (setUp : SetUp store aliases passes .depend depend)
    (shows : ShowsFlat (resolvedName (keyOf sites)) store root sites)
    (isFilled : store.table passes.table = table.map (keyOf sites))
    (sound : Compiled.Sound
      ⟨sites.map Site.item, table, dependencies (sites.map Site.item) table⟩) :
    EndsAs passes root (runStages root store [depend])
      (.ok ⟨sites.map Site.item, table, dependencies (sites.map Site.item) table⟩) := by
  have gathering : Gathering (keyOf sites) table store depend passes.references := by
    refine ⟨setUp.inside, setUp.references, equipped.references, ?_⟩
    rw [setUp.table]
    exact isFilled
  refine .after (yields_run_depend shows sound.leads gathering setUp.stage) ?_
  rintro _ ⟨roots, rfl⟩ _
  have persists := ((persists_clearRunner store depend).trans
    (persists_withRoots _ depend roots)).trans (persists_withReferences _ passes.references
      (dependencies (sites.map Site.item) table))
  refine .done rfl ⟨sites, rfl, shows.lasts persists, isFilled, ?_⟩ sound
  exact Store.referencesAt_withReferences equipped.references _

/-- The stages from aliasing on. -/
lemma endsAs_substitute (setUp : SetUp store aliases passes .substitute substitute)
    (later : SetUp store aliases passes .depend depend)
    (shows : ShowsFlat (resolvedName (keyOf sites)) store root sites)
    (isFilled : store.table passes.table = table.map (keyOf sites))
    (indexes : table.Indexes (definitionsOf (sites.map Site.item)))
    (leads : AllLead (definitionsOf (sites.map Site.item))) :
    EndsAs passes root (runStages root store [substitute, depend])
      ((aliasNames aliases (sites.map Site.item) table).bind fun renamed =>
        .ok ⟨renamed.1, renamed.2, dependencies renamed.1 renamed.2⟩) := by
  refine .step (follows_run_substitute shows indexes leads setUp.inside setUp.table
    equipped.table isFilled setUp.stage setUp.aliases) ?_
  rintro ⟨types, next⟩ after renamed ⟨others, rfl, _, shown, filled⟩ wiring
  exact endsAs_depend (equipped.kept wiring) (later.kept wiring) shown filled
    (sound_of_aliasNames indexes leads renamed _)

/-- The stages from resolving on. -/
lemma endsAs_resolve {sites : List (Site (TypeDecl Identifier))} {resolving : Key}
    (setUp : SetUp store aliases passes .resolve resolving)
    (later : SetUp store aliases passes .substitute substitute)
    (last : SetUp store aliases passes .depend depend)
    (shows : ShowsFlat writtenName store root sites)
    (isFilled : store.table passes.table = table.map (keyOf sites))
    (indexes : table.Indexes (definitionsOf (sites.map Site.item)))
    (linked : ∀ types, resolve (sites.map Site.item) table = .ok types -> ∀ decl, .message decl ∈
      definitionsOf types -> decl.Linked table ((definitionsOf types).map TypeDecl.id)) :
    EndsAs passes root (runStages root store [resolving, substitute, depend])
      ((resolve (sites.map Site.item) table).bind fun types =>
        (aliasNames aliases types table).bind fun renamed =>
          .ok ⟨renamed.1, renamed.2, dependencies renamed.1 renamed.2⟩) := by
  refine .step (follows_run_resolve shows indexes setUp.inside setUp.table isFilled
    setUp.stage) ?_
  rintro types after resolved ⟨others, rfl, sameKeys, shown, equipment⟩ wiring
  have indexesLater := indexes.resolved resolved
  have filled : after.table passes.table = table.map (keyOf others) := by
    rw [table_of_equipment equipment, sameKeys]
    exact isFilled
  exact endsAs_substitute (equipped.kept wiring) (later.kept wiring) (last.kept wiring) shown filled
    indexesLater fun decl listed => (linked _ resolved decl listed).leads indexesLater

end

end

lemma nodesOf_qualify (document : Document) : nodesOf (qualify document) = nodesOf document := by
  rw [qualify, Declaration.qualifyAll_eq_map,
    nodesOf_map fun declaration _ => sameExtent_qualify_declaration _ declaration]

/-- The stages compile a document that is shown in the store as it is compiled by
itself. -/
lemma endsAs_runStages {document : Document} {start typeStart : Nat}
    (equipped : Equipped store aliases passes) (sound : Document.Sound document)
    (shows : ShowsDocument store start typeStart document) :
    EndsAs passes (start + nodesOf document)
      (runStages (start + nodesOf document) store passes.runners)
      (Compilation.of aliases document).outcome := by
  rcases equipped.exists_runners with
    ⟨rename, flattening, entering, resolving, substitute, depend, isRunners, setUp⟩
  rw [isRunners, Compilation.outcome_of]
  rcases setUp with ⟨setUp₁, setUp₂, setUp₃, setUp₄, setUp₅, setUp₆⟩
  refine .after (yields_run_rename setUp₁.inside setUp₁.stage shows) ?_
  rintro qualified ⟨shown, _⟩ wired
  rw [← nodesOf_qualify document]
  refine .after (yields_run_flatten (setUp₂.kept wired).inside (setUp₂.kept wired).stage
    shown) ?_
  rintro flat ⟨⟨shown, _, _, _⟩, _⟩ wiredOn
  have wired := wired.trans wiredOn
  have equipped := equipped.kept wired
  rw [← map_item_flatSites (qualify document) start typeStart]
  refine .step (follows_run_index shown ⟨(setUp₃.kept wired).inside,
    (setUp₃.kept wired).table, equipped.table⟩ (setUp₃.kept wired).stage) ?_
  rintro table _ indexed rfl wiredOn
  have wired := wired.trans wiredOn
  have persists := (persists_clearRunner flat entering).trans (persists_withTable _ passes.table
    (table.map (keyOf (flatSites start typeStart (qualify document)))))
  refine endsAs_resolve (equipped.kept wiredOn) (setUp₄.kept wired) (setUp₅.kept wired)
    (setUp₆.kept wired) (shown.lasts persists) (Store.table_withTable equipped.table _) ?_ ?_
  · rw [map_item_flatSites] at indexed ⊢
    exact sound.indexes indexed
  · rw [map_item_flatSites] at indexed ⊢
    exact fun types resolved decl => sound.linked indexed resolved

end MessageSchema.Workbench

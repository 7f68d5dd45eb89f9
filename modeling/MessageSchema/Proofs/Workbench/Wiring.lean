import MessageSchema.Proofs.Workbench.Placing
import MessageSchema.Workbench.Compile

namespace MessageSchema.Workbench

open Array

/-!
How the stages stay connected to what they work with.

A stage that fails leaves much in any state.  What it never touches is how the
stages are set up: the keys of their table, aliases and references, the aliases
themselves, and the room for all of them.  This holds for every action, whether it
succeeds or fails, and therefore for a run.
-/

/-- The stages are set up in the same way.  A stage whose mind is cleared is just
its setup. -/
structure SameWiring (before after : Store) : Prop where
  tables : after.tables.size = before.tables.size
  references : after.references.size = before.references.size
  aliases : after.aliases = before.aliases
  runners : after.runners.map Runner.cleared = before.runners.map Runner.cleared

namespace SameWiring

variable {before middle after : Store}

lemma refl (store : Store) : SameWiring store store :=
  ⟨rfl, rfl, rfl, rfl⟩

lemma trans (first : SameWiring before middle) (second : SameWiring middle after) :
    SameWiring before after :=
  ⟨second.tables.trans first.tables, second.references.trans first.references,
    second.aliases.trans first.aliases, second.runners.trans first.runners⟩

lemma size_runners (same : SameWiring before after) : after.runners.size = before.runners.size := by
  have sizes := congrArg Array.size same.runners
  rw [size_map, size_map] at sizes
  exact sizes

lemma cleared_runner_eq (store : Store) (runner : Key) : (store.runner runner).cleared =
    (store.runners.map Runner.cleared).getD runner (default : Runner).cleared := by
  rw [Store.runner, getD_eq_getD_getElem?, getD_eq_getD_getElem?, getElem?_map,
    Option.getD_map]

lemma cleared_runner (same : SameWiring before after) (runner : Key) :
    (after.runner runner).cleared = (before.runner runner).cleared := by
  rw [cleared_runner_eq, cleared_runner_eq, same.runners]

lemma of_equipment (same : after.equipment = before.equipment) : SameWiring before after where
  tables := congrArg (fun equipment => equipment.tables.size) same
  references := congrArg (fun equipment => equipment.references.size) same
  aliases := congrArg Store.Equipment.aliases same
  runners := congrArg (fun equipment => equipment.runners.map Runner.cleared) same

/-- A stage may be given another state of mind. -/
lemma setRunner (store : Store) (key : Key) {runner : Runner}
    (same : runner.cleared = (store.runner key).cleared) :
    SameWiring store { store with runners := store.runners.setIfInBounds key runner } := by
  refine ⟨rfl, rfl, rfl, ?_⟩
  change (store.runners.setIfInBounds key runner).map Runner.cleared = _
  rw [map_setIfInBounds, same, cleared_runner_eq, setIfInBounds_getD]

end SameWiring

/-- However the action ends, the stages are set up as before. -/
def Keeps {α : Type} (action : Work α) : Prop :=
  ∀ store, SameWiring store (action.run store).2

namespace Keeps

variable {α β : Type}

lemma pure (value : α) : Keeps (Pure.pure value : Work α) :=
  SameWiring.refl

lemma get : Keeps (MonadState.get : Work Store) :=
  SameWiring.refl

lemma throw (failure : Failure) : Keeps (MonadExcept.throw failure : Work α) :=
  SameWiring.refl

variable {action : Work α} {condition : Prop} [Decidable condition]

lemma bind {next : α -> Work β} (first : Keeps action) (rest : ∀ value, Keeps (next value)) :
    Keeps (action >>= next) := by
  intro store
  have before := first store
  rcases ran : action.run store with ⟨value | failure, after⟩
  · rw [ran] at before
    rw [run_bind_of_error ran]
    exact before
  · rw [ran] at before
    rw [run_bind_of_ok ran]
    exact before.trans (rest _ after)

lemma ite {other : Work α} (first : Keeps action) (second : Keeps other) :
    Keeps (if condition then action else other) := by
  split
  · exact first
  · exact second

/-- What stands behind a guard may not be reached. -/
lemma guarded {failure : Failure} (behind : Keeps action) :
    Keeps (if condition then (MonadExcept.throw failure : Work PUnit) >>= fun _ => action
      else action) :=
  ite ((throw failure).bind fun _ => behind) behind

lemma forM {items : List α} {visit : α -> Work Unit} (each : ∀ item, Keeps (visit item)) :
    Keeps (items.forM visit) := by
  induction items with
  | nil => exact pure ()
  | cons item rest ih => exact (each item).bind fun _ => ih

/-- An action on the schema alone does not touch the stages at all. -/
lemma of_equipment (same : ∀ store, (action.run store).2.equipment = store.equipment) :
    Keeps action :=
  fun store => SameWiring.of_equipment (same store)

variable {key : Key} {visit : Key -> Work Unit}

lemma walk {runner : Key} (inside : Keeps (visit key)) :
    Keeps (Workbench.walk runner visit key) := by
  intro store
  rw [run_walk]
  have entered : SameWiring store (store.enter runner key) := SameWiring.setRunner store runner rfl
  have left := inside (store.enter runner key)
  exact (entered.trans left).trans (SameWiring.setRunner _ runner rfl)

lemma forM_walk (runner : Key) (each : ∀ key, Keeps (visit key)) (keys : List Key) :
    Keeps (keys.forM (Workbench.walk runner visit)) :=
  forM fun key => (each key).walk

lemma changeRunner {change : Runner -> Runner}
    (same : ∀ runner, (change runner).cleared = runner.cleared) :
    Keeps (Workbench.changeRunner key change) :=
  fun store => SameWiring.setRunner store key (same _)

lemma unlessEnum (inside : Keeps (visit key)) : Keeps (Workbench.unlessEnum visit key) := by
  refine get.bind fun store => ?_
  split
  · exact inside
  · exact pure ()

lemma ifMessage (inside : Keeps (visit key)) : Keeps (Workbench.ifMessage visit key) := by
  refine get.bind fun store => ?_
  split
  · exact inside
  · exact pure ()

end Keeps

/-! ### Single changes -/

lemma keeps_newName (name : Identifier) : Keeps (newName name) :=
  Keeps.of_equipment fun _ => rfl

lemma keeps_setNode (key : Key) (node : Node) : Keeps (setNode key node) :=
  Keeps.of_equipment fun _ => rfl

lemma keeps_setType (key : Key) (type : TypeNode) : Keeps (setType key type) :=
  Keeps.of_equipment fun _ => rfl

lemma keeps_setTable (key : Key) (table : SymbolTable Key) : Keeps (setTable key table) :=
  fun _ => ⟨size_setIfInBounds, rfl, rfl, rfl⟩

lemma keeps_setReferences (key : Key) (references : References) :
    Keeps (setReferences key references) :=
  fun _ => ⟨rfl, size_setIfInBounds, rfl, rfl⟩

lemma keeps_failCompile {α : Type} (error : CompileError) : Keeps (failCompile error : Work α) :=
  Keeps.throw _

lemma keeps_failDefinition {α : Type} (error : DefinitionError) :
    Keeps (failDefinition error : Work α) :=
  Keeps.throw _

lemma keeps_liftCompile {α : Type} (step : Except CompileError α) : Keeps (liftCompile step) := by
  cases step with
  | ok value => exact .pure value
  | error error => exact keeps_failCompile error

lemma keeps_renameDefinition (key : Key) (name : Option Key) :
    Keeps (renameDefinition key name) := by
  refine Keeps.get.bind fun store => ?_
  exact Keeps.guarded (keeps_setNode _ _)

lemma keeps_replaceParent (key : Key) (index : Int) (parent : Option Key) :
    Keeps (replaceParent key index parent) := by
  refine Keeps.get.bind fun store => ?_
  split
  · exact Keeps.guarded (keeps_setNode _ _)
  · exact .pure ()

lemma keeps_keepDeclaredName (key : Key) : Keeps (keepDeclaredName key) := by
  refine Keeps.get.bind fun store => ?_
  split
  · split
    · exact keeps_setNode _ _
    · exact .pure ()
  · exact .pure ()

lemma keeps_renameType (key : Key) (name : Option Key) : Keeps (renameType key name) := by
  refine Keeps.get.bind fun store => ?_
  exact Keeps.guarded (Keeps.guarded (keeps_setType _ _))

lemma keeps_resolveType (key : Key) (target : Option Key) : Keeps (resolveType key target) := by
  refine Keeps.get.bind fun store => ?_
  refine Keeps.guarded ?_
  split
  · exact keeps_failDefinition _
  · split
    · exact keeps_setType _ _
    · exact keeps_setType _ _
    · exact keeps_failDefinition _

lemma keeps_addToScope (key : Key) (content : Option Key) : Keeps (addToScope key content) := by
  refine Keeps.get.bind fun store => ?_
  split
  · exact keeps_failDefinition _
  · exact .guarded (keeps_setNode _ _)
  · exact .pure ()

lemma keeps_clearScope (key : Key) : Keeps (clearScope key) := by
  refine Keeps.get.bind fun store => ?_
  split
  · exact keeps_setNode _ _
  · exact .pure ()

lemma keeps_removeFromScope (key : Key) (kind : DefinitionKind) :
    Keeps (removeFromScope key kind) := by
  refine Keeps.get.bind fun store => ?_
  split
  · exact keeps_setNode _ _
  · exact .pure ()

/-! ### Checks -/

lemma keeps_checkRoot (stage : Stage) (key : Key) : Keeps (checkRoot stage key) := by
  refine Keeps.get.bind fun store => ?_
  split
  · exact keeps_failCompile _
  · exact .pure ()

lemma keeps_refuse (stage : Stage) (key : Key) : Keeps (refuse stage key) :=
  Keeps.get.bind fun _ => keeps_failCompile _

lemma keeps_checkFlat (runner : Key) (stage : Stage) (key : Key) :
    Keeps (checkFlat runner stage key) := by
  refine Keeps.get.bind fun store => ?_
  exact Keeps.guarded (keeps_checkRoot stage key)

lemma keeps_checkNamed (stage : Stage) (key : Key) : Keeps (checkNamed stage key) := by
  refine Keeps.get.bind fun store => ?_
  dsimp only
  split
  · exact keeps_failCompile _
  · exact .pure ()

/-! ### Visits -/

section
variable (runner : Key)

lemma keeps_qualifyDefinition (key : Key) : Keeps (qualifyDefinition runner key) := by
  refine (keeps_checkNamed .rename key).bind fun _ => Keeps.get.bind fun store => ?_
  split
  · exact (keeps_newName _).bind fun _ => keeps_renameDefinition _ _
  · exact keeps_renameDefinition _ _

lemma keeps_visitRename (depth : Nat) (key : Key) : Keeps (visitRename runner depth key) := by
  induction depth generalizing key with
  | zero => exact .throw _
  | succ depth ih =>
    have inner := Keeps.forM_walk runner ih
    refine Keeps.get.bind fun store => ?_
    split
    · split
      · exact (keeps_checkRoot _ key).bind fun _ => inner _
      · exact inner _
    · exact keeps_qualifyDefinition runner key
    · exact (inner _).bind fun _ => (inner _).bind fun _ => keeps_qualifyDefinition runner key
    · exact keeps_refuse _ key

lemma keeps_dissolve (key : Key) : Keeps (dissolve runner key) := by
  refine Keeps.get.bind fun store => ?_
  split
  · split
    · exact (Keeps.forM fun _ => keeps_addToScope _ _).bind fun _ => keeps_clearScope key
    · exact .pure ()
  · exact .pure ()

lemma keeps_visitFlatten (depth : Nat) (key : Key) : Keeps (visitFlatten runner depth key) := by
  induction depth generalizing key with
  | zero => exact .throw _
  | succ depth ih =>
    have dissolving : ∀ keys : List Key, Keeps (do
        keys.forM (unlessEnum (walk runner (visitFlatten runner depth)))
        removeFromScope key .scope
        dissolve runner key) := fun keys =>
      (Keeps.forM fun inner => (ih inner).walk.unlessEnum).bind fun _ =>
        (keeps_removeFromScope key .scope).bind fun _ => keeps_dissolve runner key
    refine Keeps.get.bind fun store => ?_
    split
    · split
      · exact (keeps_checkRoot _ key).bind fun _ => dissolving _
      · exact (keeps_checkNamed _ key).bind fun _ => dissolving _
    · exact keeps_checkNamed _ key
    · exact keeps_refuse _ key

lemma keeps_visitIndex (depth : Nat) (key : Key) : Keeps (visitIndex runner depth key) := by
  induction depth generalizing key with
  | zero => exact .throw _
  | succ depth ih =>
    have inner := Keeps.forM_walk runner ih
    refine Keeps.get.bind fun store => ?_
    dsimp only
    split
    · exact (keeps_checkFlat runner _ key).bind fun _ => inner _
    · exact (keeps_liftCompile _).bind fun _ => keeps_setTable _ _
    · refine (keeps_liftCompile _).bind fun entered => ?_
      split
      · exact .pure ()
      · exact (keeps_setTable _ _).bind fun _ => (inner _).bind fun _ => inner _
    · exact keeps_refuse _ key

lemma keeps_resolveParents (table key : Key) (parents : List (Option Key)) (index : Nat) :
    Keeps (resolveParents table key index parents) := by
  induction parents generalizing index with
  | nil => exact .pure ()
  | cons parent rest ih =>
    refine Keeps.get.bind fun store => ?_
    split
    · exact keeps_failCompile _
    · refine .guarded ?_
      exact (keeps_newName _).bind fun _ => (keeps_replaceParent _ _ _).bind fun _ => ih (index + 1)

lemma keeps_resolveFieldType (table message : Key) (field : FieldNode) :
    Keeps (resolveFieldType table message field) := by
  refine Keeps.get.bind fun store => ?_
  dsimp only
  split
  · split
    · exact keeps_failCompile _
    · exact (keeps_newName _).bind fun _ => (keeps_renameType _ _).bind fun _ =>
        keeps_resolveType _ _
  · exact .pure ()

lemma keeps_visitResolve (depth : Nat) (key : Key) : Keeps (visitResolve runner depth key) := by
  induction depth generalizing key with
  | zero => exact .throw _
  | succ depth ih =>
    have inner := Keeps.forM_walk runner ih
    refine Keeps.get.bind fun store => ?_
    dsimp only
    split
    · exact (keeps_checkFlat runner _ key).bind fun _ =>
        Keeps.forM fun inner => (ih inner).walk.ifMessage
    · exact (keeps_resolveParents _ key _ _).bind fun _ => (inner _).bind fun _ => inner _
    · split
      · exact keeps_failCompile _
      · exact keeps_resolveFieldType _ _ _
    · exact keeps_refuse _ key

lemma keeps_aliasDefinition (key : Key) : Keeps (aliasDefinition runner key) := by
  refine Keeps.get.bind fun store => ?_
  have naming : ∀ name, Keeps (do renameDefinition key (some (← newName name))) := fun name =>
    (keeps_newName name).bind fun _ => keeps_renameDefinition key _
  refine .ite ?_ (naming _)
  refine .bind ?_ fun _ => naming _
  exact .changeRunner fun _ => rfl

lemma keeps_aliasParents (aliases key : Key) (parents : List (Option Key)) (index : Nat) :
    Keeps (aliasParents aliases key index parents) := by
  induction parents generalizing index with
  | nil => exact .pure ()
  | cons parent rest ih =>
    refine Keeps.get.bind fun store => ?_
    exact (keeps_newName _).bind fun _ => (keeps_replaceParent _ _ _).bind fun _ => ih (index + 1)

lemma keeps_visitAlias (depth : Nat) (key : Key) : Keeps (visitAlias runner depth key) := by
  induction depth generalizing key with
  | zero => exact .throw _
  | succ depth ih =>
    have inner := Keeps.forM_walk runner ih
    refine Keeps.get.bind fun store => ?_
    split
    · exact (keeps_checkFlat runner _ key).bind fun _ => inner _
    · exact keeps_aliasDefinition runner key
    · exact (keeps_keepDeclaredName key).bind fun _ => (keeps_aliasDefinition runner key).bind
        fun _ => (keeps_aliasParents _ key _ _).bind fun _ => (inner _).bind fun _ =>
          (inner _).bind fun _ => .changeRunner fun _ => rfl
    · exact keeps_refuse _ key

lemma keeps_renameFieldTypes (message : Key) (fields : List Key) :
    Keeps (renameFieldTypes message fields) := by
  induction fields with
  | nil => exact .pure ()
  | cons key rest ih =>
    refine Keeps.get.bind fun store => ?_
    split
    · dsimp only
      split
      · split
        · exact (keeps_failCompile _).bind fun _ => ih
        · exact (keeps_newName _).bind fun _ => (keeps_renameType _ _).bind fun _ => ih
      · exact ih
    · exact ih

lemma keeps_renameTypesOf (key : Key) : Keeps (renameTypesOf key) := by
  refine Keeps.get.bind fun store => ?_
  split
  · exact keeps_renameFieldTypes key _
  · exact .pure ()

lemma keeps_noteReference (source target : Identifier) :
    Keeps (noteReference runner source target) :=
  Keeps.get.bind fun _ => keeps_setReferences _ _

lemma keeps_noteRoot (name : String) : Keeps (noteRoot runner name) := by
  refine .changeRunner fun stage => ?_
  split <;> rfl

lemma keeps_visitDepend (depth : Nat) (key : Key) : Keeps (visitDepend runner depth key) := by
  induction depth generalizing key with
  | zero => exact .throw _
  | succ depth ih =>
    have inner := Keeps.forM_walk runner ih
    have roots : ∀ inner, Keeps (walkAsRoot runner (visitDepend runner depth) inner) :=
      fun inner => Keeps.get.bind fun _ => (keeps_noteRoot runner _).bind fun _ => (ih inner).walk
    refine Keeps.get.bind fun store => ?_
    split
    · exact (keeps_checkFlat runner _ key).bind fun _ =>
        Keeps.forM fun inner => (roots inner).ifMessage
    · exact (Keeps.forM fun _ => keeps_noteReference runner _ _).bind fun _ =>
        (inner _).bind fun _ => inner _
    · dsimp only
      split
      · split
        · exact keeps_failCompile _
        · split
          · exact keeps_noteReference runner _ _
          · exact .pure ()
      · exact .pure ()
    · exact keeps_refuse _ key

/-! ### Runs -/

lemma keeps_reset : Keeps (reset runner) := by
  have clearing : Keeps (changeRunner runner Runner.cleared) := .changeRunner fun _ => rfl
  refine clearing.bind fun _ => Keeps.get.bind fun store => ?_
  dsimp only
  split
  · exact keeps_setTable _ _
  · exact keeps_setReferences _ _
  · exact .pure ()

lemma keeps_visitAs (key : Key) : Keeps (visitAs runner key) := by
  refine Keeps.get.bind fun store => ?_
  split
  · exact keeps_visitRename runner _ key
  · exact keeps_visitFlatten runner _ key
  · exact keeps_visitIndex runner _ key
  · exact keeps_visitResolve runner _ key
  · exact keeps_visitAlias runner _ key
  · exact keeps_visitDepend runner _ key

lemma keeps_finish : Keeps (finish runner) := by
  refine Keeps.get.bind fun store => ?_
  dsimp only
  split
  · exact .forM fun _ => keeps_liftCompile _
  · exact (keeps_liftCompile _).bind fun _ => (keeps_setTable _ _).bind fun _ =>
      Keeps.forM fun _ => keeps_renameTypesOf _
  · exact keeps_setReferences _ _
  · exact .pure ()

/-- A run of a stage leaves the stages set up as they were, however it ends. -/
lemma keeps_run (root : Key) : Keeps (run runner root) :=
  (keeps_reset runner).bind fun _ => (keeps_visitAs runner root).walk.bind fun _ =>
    keeps_finish runner

end

lemma sameWiring_runStages (root : Key) (runners : List Key) (store : Store) :
    SameWiring store (runStages root store runners).store := by
  induction runners generalizing store with
  | nil => exact SameWiring.refl store
  | cons runner rest ih =>
    have first := keeps_run runner root store
    rw [runStages]
    rcases ran : (run runner root).run store with ⟨failure | value, after⟩
    · rw [ran] at first
      exact first
    · rw [ran] at first
      exact first.trans (ih after)

end MessageSchema.Workbench

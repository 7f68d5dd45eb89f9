import MessageSchema.Proofs.Workbench.Visiting

namespace MessageSchema.Workbench

/-!
Running a stage on a schema.

Before a stage visits the schema it is put back to its start, whatever an earlier
run has left behind.
-/

namespace Store

/-- The store with nothing in the mind of a stage. -/
def clearRunner (store : Store) (runner : Key) : Store :=
  { store with runners := store.runners.setIfInBounds runner (store.runner runner).cleared }

end Store

section
variable {store : Store} {runner : Key}

lemma runner_clearRunner (inside : runner < store.runners.size) :
    (store.clearRunner runner).runner runner = (store.runner runner).cleared := by
  rw [Store.runner, Array.getD_eq_getD_getElem?, Store.clearRunner,
    Array.getElem?_setIfInBounds_self_of_lt inside, Option.getD_some]

lemma size_clearRunner : (store.clearRunner runner).runners.size = store.runners.size :=
  Array.size_setIfInBounds

lemma persists_clearRunner (store : Store) (runner : Key) :
    Persists nowhere nowhere store (store.clearRunner runner) :=
  .of_equipment rfl rfl rfl

lemma yields_changeRunner (change : Runner -> Runner) :
    Yields (changeRunner runner change) store fun _ after =>
      after = { store with
        runners := store.runners.setIfInBounds runner (change (store.runner runner)) } :=
  ⟨(), _, rfl, rfl⟩

lemma yields_clear (store : Store) (runner : Key) :
    Yields (changeRunner runner Runner.cleared) store fun _ after =>
      after = store.clearRunner runner :=
  yields_changeRunner Runner.cleared

/-- A stage that fills nothing is put back to its start by clearing its mind. -/
lemma yields_reset (inside : runner < store.runners.size)
    (noTable : (store.runner runner).stage ≠ .index)
    (noReferences : (store.runner runner).stage ≠ .depend) :
    Yields (reset runner) store fun _ after => after = store.clearRunner runner := by
  refine (yields_clear store runner).bind ?_
  rintro _ _ rfl
  refine .get_bind ?_
  have stage : ((store.clearRunner runner).runner runner).stage = (store.runner runner).stage := by
    rw [runner_clearRunner inside]
    rfl
  simp only
  split
  · next isIndex => exact absurd (stage.symm.trans isIndex) noTable
  · next isDepend => exact absurd (stage.symm.trans isDepend) noReferences
  · exact .pure rfl

variable {content : List Key} {root : Key}

lemma yields_checkRoot (stage : Stage) (shows : store.Shows root (.scope none content)) :
    Yields (checkRoot stage root) store fun _ after => after = store := by
  refine .get_bind ?_
  have anonymous : ¬ (store.node root).name.isSome := by
    rw [shows.isSome_name]
    exact Bool.false_ne_true
  rw [if_neg anonymous]
  exact .pure rfl

/-- A stage that works without namespaces may visit the schema itself. -/
lemma yields_checkFlat (stage : Stage) (shows : store.Shows root (.scope none content))
    (stacked : store.stackOf runner = [root]) :
    Yields (checkFlat runner stage root) store fun _ after => after = store := by
  refine .get_bind ?_
  rw [stacked]
  exact yields_checkRoot stage shows

/-- The store in which a stage visits a schema, once its mind is clear. -/
def Store.start (store : Store) (runner root : Key) : Store :=
  (store.clearRunner runner).enter runner root

lemma runner_start (inside : runner < store.runners.size) (root : Key) :
    (store.start runner root).runner runner =
      { (store.runner runner).cleared with stack := [root] } := by
  have cleared : runner < (store.clearRunner runner).runners.size := by
    rw [size_clearRunner]
    exact inside
  rw [Store.start, runner_enter cleared, Store.stackOf, runner_clearRunner inside]
  rfl

lemma stackOf_start (inside : runner < store.runners.size) (root : Key) :
    (store.start runner root).stackOf runner = [root] := by
  rw [Store.stackOf, runner_start inside]

lemma persists_start (store : Store) (runner root : Key) :
    Persists nowhere nowhere store (store.start runner root) :=
  (persists_clearRunner store runner).trans (persists_enter _ runner root)

/-- A run of a stage that only alters the schema. -/
lemma follows_run_altering {γ : Type} {step : Except CompileError γ} {nodes types : Key -> Prop}
    {post : γ -> Store -> Prop} (inside : runner < store.runners.size)
    (isStage : (store.runner runner).stage = .rename ∨ (store.runner runner).stage = .flatten ∨
      (store.runner runner).stage = .resolve)
    (lasting : ∀ result before after, Persists nowhere nowhere before after -> post result before ->
      post result after)
    (visited : Follows (visitAs runner root) (store.start runner root) (fun _ result after =>
      post result after ∧ Alters nodes types (store.start runner root) after) step) :
    Follows (run runner root) store
      (fun _ result after => post result after ∧ Persists nodes types store after ∧
        after.equipment = (store.clearRunner runner).equipment) step := by
  have noTable : (store.runner runner).stage ≠ .index := by
    rcases isStage with is | is | is <;> rw [is] <;> decide
  have noReferences : (store.runner runner).stage ≠ .depend := by
    rcases isStage with is | is | is <;> rw [is] <;> decide
  refine .of_yields (yields_reset inside noTable noReferences) ?_
  rintro _ _ rfl
  have walked := framing_alters.follows_walk lasting visited
  have ended : ∀ result after, post result after ->
      Alters nodes types (store.clearRunner runner) after ->
      Yields (finish runner) after fun _ last => last = after := by
    intro result after _ alters
    have stage : (after.runner runner).stage = (store.runner runner).stage := by
      rw [runner_of_equipment alters.equipment, runner_clearRunner inside]
      rfl
    refine .get_bind ?_
    rcases isStage with is | is | is <;> simp only [stage, is] <;> exact .pure rfl
  cases walked with
  | failed ran => exact .failed (run_bind_of_error ran)
  | done ran holds =>
    rcases ended _ _ holds.1 holds.2 with ⟨_, _, finished, rfl⟩
    refine .done ((run_bind_of_ok ran).trans finished) ⟨holds.1, ?_, holds.2.equipment⟩
    exact (persists_clearRunner store runner).anywhere.trans holds.2.toPersists

end

end MessageSchema.Workbench

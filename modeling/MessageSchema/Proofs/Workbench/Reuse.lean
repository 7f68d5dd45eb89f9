import MessageSchema.Proofs.Syntax.Contents
import MessageSchema.Proofs.Workbench.Compiling

namespace MessageSchema.Workbench

/-!
Stages that are used again.

Stages compile any number of documents.  A run may end in the middle of a stage,
with definitions half renamed and the symbol table half filled.  None of it shows
later: the next document is compiled as by new stages over the same aliases, and as
the document by itself.
-/

open Export (Products)

/-- Puts a document on the workbench and compiles it there with stages that are set
up already. -/
def compileWith (passes : Passes) (document : Document) (store : Store) : Key × InPlace :=
  match (placeDocument document).run store with
  | (.ok root, placed) => (root, runStages root placed passes.runners)
  | (.error failure, placed) => (0, ⟨[], some failure, placed⟩)

/-- The workbench after documents were compiled on it one after the other, each with
or without success. -/
def compileEach (passes : Passes) (documents : List Document) (store : Store) : Store :=
  documents.foldl (fun store document => (compileWith passes document store).2.store) store

/-- What can be read off the workbench after a document was compiled: why it failed,
or the products of the compiled schema. -/
def reading (passes : Passes) (compiled : Key × InPlace) : Except Failure Products :=
  match compiled.2.failure with
  | some failure => .error failure
  | none => .ok (compiled.2.store.products compiled.1 passes.table passes.references)

section
variable {store : Store} {aliases : Aliases} {passes : Passes} {stage : Stage} {runner : Key}

lemma SetUp.append (setUp : SetUp store aliases passes stage runner) (more : Array Runner) :
    SetUp { store with runners := store.runners ++ more } aliases passes stage runner := by
  have same : Store.runner { store with runners := store.runners ++ more } runner =
      store.runner runner := by
    have inside := setUp.inside
    simp [Store.runner, Array.getD_eq_getD_getElem?, Array.getElem?_append_left inside]
  refine ⟨?_, ?_, ?_, ?_, ?_⟩
  · exact Nat.lt_of_lt_of_le setUp.inside (by simp)
  · exact same ▸ setUp.stage
  · exact same ▸ setUp.table
  · exact same ▸ setUp.references
  · exact same ▸ setUp.aliases

end

lemma yields_newTable (store : Store) : Yields newTable store fun table after =>
    table = store.tables.size ∧ after = { store with tables := store.tables.push .empty } :=
  ⟨_, _, rfl, rfl, rfl⟩

lemma yields_newReferences (store : Store) : Yields newReferences store fun references after =>
    references = store.references.size ∧
      after = { store with references := store.references.push .empty } :=
  ⟨_, _, rfl, rfl, rfl⟩

lemma yields_newRunner (runner : Runner) (store : Store) :
    Yields (newRunner runner) store fun key after =>
      key = store.runners.size ∧ after = { store with runners := store.runners.push runner } :=
  ⟨_, _, rfl, rfl, rfl⟩

lemma setUp_push (table aliases references : Key) (others : List Key) (stage : Stage)
    (store : Store) :
    SetUp { store with runners := store.runners.push { stage, table, aliases, references } }
      (store.aliasesAt aliases) ⟨table, references, others⟩ stage store.runners.size := by
  constructor <;> simp [Store.runner, Store.aliasesAt]

lemma yields_newRunners (table aliases references : Key) (stages : List Stage) (store : Store) :
    Yields (stages.mapM fun stage => newRunner { stage, table, aliases, references }) store
      fun runners after =>
        (∃ more, after = { store with runners := store.runners ++ more }) ∧
          ∀ others, List.Forall₂ (SetUp after (store.aliasesAt aliases) ⟨table, references, others⟩)
            stages runners := by
  induction stages generalizing store with
  | nil => exact .pure ⟨⟨#[], by simp⟩, fun _ => .nil⟩
  | cons stage rest ih =>
    rw [List.mapM_cons]
    refine (yields_newRunner _ store).bind ?_
    rintro runner after ⟨rfl, rfl⟩
    refine (ih _).bind ?_
    rintro runners after ⟨⟨more, rfl⟩, setUps⟩
    refine .pure ⟨⟨_, by rw [Array.push_eq_append, Array.append_assoc]⟩, fun others => ?_⟩
    exact .cons ((setUp_push table aliases references others stage store).append more)
      (setUps others)

lemma yields_newPasses (aliases : Key) (store : Store) :
    Yields (newPasses aliases) store fun passes after =>
      Equipped after (store.aliasesAt aliases) passes ∧ after.aliases = store.aliases ∧
        Persists nowhere nowhere store after := by
  refine (yields_newTable store).bind ?_
  rintro table tabled ⟨rfl, rfl⟩
  refine (yields_newReferences _).bind ?_
  rintro references ready ⟨rfl, rfl⟩
  refine (yields_newRunners _ aliases _ _ _).bind ?_
  rintro runners after ⟨⟨more, rfl⟩, setUps⟩
  exact .pure ⟨⟨by simp, by simp, setUps runners⟩, rfl, fun _ _ found => found,
    fun _ _ _ shows => shows, fun _ _ _ shows => shows⟩

section
variable {aliases : Aliases} {passes : Passes} {store : Store}

/-- A run of the stages leaves them set up, however it ends. -/
lemma sameWiring_compileWith (passes : Passes) (document : Document) (store : Store) :
    SameWiring store (compileWith passes document store).2.store := by
  rcases yields_placeDocument document store with ⟨root, placed, ran, _, _, alters⟩
  rw [compileWith, ran]
  exact (SameWiring.of_equipment alters.equipment).trans (sameWiring_runStages root _ placed)

/-- So do any number of runs. -/
lemma sameWiring_compileEach (passes : Passes) (documents : List Document) (store : Store) :
    SameWiring store (compileEach passes documents store) := by
  induction documents generalizing store with
  | nil => exact .refl store
  | cons document rest ih => exact (sameWiring_compileWith passes document store).trans (ih _)

/-- A document that is put on a workbench with stages ends as it does by itself. -/
lemma endsAs_compileWith {document : Document} (equipped : Equipped store aliases passes)
    (sound : Document.Sound document) :
    EndsAs passes (compileWith passes document store).1 (compileWith passes document store).2
      (Compilation.of aliases document).outcome := by
  rcases yields_placeDocument document store with ⟨_, placed, ran, rfl, shows, alters⟩
  rw [compileWith, ran]
  exact endsAs_runStages (equipped.kept (.of_equipment alters.equipment)) sound shows

/-- What is read off the workbench is decided by how the runs end. -/
lemma EndsAs.reading_eq {ended : Key × InPlace} {outcome : Except CompileError Compiled}
    (ends : EndsAs passes ended.1 ended.2 outcome) :
    reading passes ended = (outcome.mapError Failure.compile).map Products.of := by
  cases ends with
  | failed failure =>
    rw [reading, failure]
    rfl
  | done failure holds sound =>
    rw [reading, failure]
    exact congrArg Except.ok (products_of_holds holds sound)

end

/-- Stages that have compiled any documents before, each with or without success,
compile a parsed document as stages that are set up anew over the same aliases: both
end as the document by itself, so with the same failure, or with the same schema,
symbol table and references in the store and the same products. -/
theorem used_passes_compile_as_new {source : List UInt8} {document : Document}
    (parsed : Syntax.parse source = .ok document) (aliases : Key) (store : Store) :
    Yields (newPasses aliases) store fun passes ready =>
      ∀ earlier : List Document,
        Yields (newPasses aliases) (compileEach passes earlier ready) fun anew fresh =>
          let used := compileWith passes document (compileEach passes earlier ready)
          let new := compileWith anew document fresh
          let outcome := (Compilation.of (store.aliasesAt aliases) document).outcome
          reading passes used = reading anew new ∧
            EndsAs passes used.1 used.2 outcome ∧ EndsAs anew new.1 new.2 outcome := by
  have sound := Syntax.sound_of_parse parsed
  refine (yields_newPasses aliases store).mono ?_
  rintro passes ready ⟨equipped, sameAliases, _⟩ earlier
  have wired := sameWiring_compileEach passes earlier ready
  have kept : (compileEach passes earlier ready).aliasesAt aliases = store.aliasesAt aliases := by
    rw [Store.aliasesAt, wired.aliases, sameAliases]
    rfl
  refine (yields_newPasses aliases _).mono ?_
  rintro anew fresh ⟨equippedAnew, _⟩
  rw [kept] at equippedAnew
  have used := endsAs_compileWith (equipped.kept wired) sound
  have new := endsAs_compileWith equippedAnew sound
  exact ⟨used.reading_eq.trans new.reading_eq.symm, used, new⟩

/-- A schema that fails in its second message, and then one that compiles and has messages
of the same names. -/
theorem schema_compiles_after_failed_one :
    ∃ failing document, Syntax.parse
        "message M \x7b message N \x7b Gone gone; \x7d \x7d".toUTF8.toList = .ok failing ∧
      Syntax.parse
        "namespace a \x7b message M \x7b N n; \x7d \x7d message N \x7b \x7d".toUTF8.toList =
          .ok document ∧
      Yields (newPasses 0) {} fun passes ready =>
        (compileWith passes failing ready).2.failure.isSome = true ∧
        (reading passes (compileWith passes document (compileEach passes [failing] ready))).isOk ∧
        Yields (newPasses 0) (compileEach passes [failing] ready) fun anew fresh =>
          reading passes (compileWith passes document (compileEach passes [failing] ready)) =
            reading anew (compileWith anew document fresh) := by
  have checked : (Syntax.parse
      "message M \x7b message N \x7b Gone gone; \x7d \x7d".toUTF8.toList).toOption.any
        (fun failing => (Syntax.parse
          ("namespace a \x7b message M \x7b N n; \x7d \x7d message N \x7b " ++
            "\x7d").toUTF8.toList).toOption.any fun document =>
          ((newPasses 0).run {}).1.toOption.any fun passes =>
            (compileWith passes failing ((newPasses 0).run {}).2).2.failure.isSome &&
              (reading passes (compileWith passes document
                (compileEach passes [failing] ((newPasses 0).run {}).2))).isOk) = true := by
    decide +kernel
  rcases (Option.any_eq_true _ _).mp checked with ⟨failing, isFailing, checked⟩
  rcases (Option.any_eq_true _ _).mp checked with ⟨document, isDocument, checked⟩
  have parsed := eq_ok_of_toOption isDocument
  rcases used_passes_compile_as_new parsed 0 {} with ⟨passes, ready, ran, same⟩
  rw [ran] at checked
  simp only [Except.toOption, Option.any_some, Bool.and_eq_true] at checked
  exact ⟨failing, document, eq_ok_of_toOption isFailing, parsed, passes, ready, ran, checked.1,
    checked.2, (same [failing]).mono fun _ _ alike => alike.1⟩

end MessageSchema.Workbench

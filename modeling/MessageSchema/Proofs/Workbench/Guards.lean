import MessageSchema.Proofs.Compile.Blame
import MessageSchema.Proofs.Workbench.Reuse

namespace MessageSchema.Workbench

/-!
Guards that no source reaches.

Types are checked as they are read, and definitions as they are put together: that a
number is that of a primitive type, that names are not blank, that a definition may
stand where it is put.  The stages on the workbench check what they work on: that
everything below the root has a name, that no namespace is left, that a field type is
resolved once, that a parent exists.  A parsed document passes all these checks.  It
fails just as the document by itself, so for a fault of the source.
-/

/-- Aliases are put on the workbench, and stages set up over them. -/
lemma yields_newAliases_newPasses (aliases : Aliases) (store : Store) :
    Yields (newAliases aliases >>= newPasses) store fun passes after =>
      Equipped after aliases passes ∧ Persists nowhere nowhere store after := by
  let filled : Store := { store with aliases := store.aliases.push aliases }
  have first : Yields (newAliases aliases) store fun key after =>
      key = store.aliases.size ∧ after = filled :=
    ⟨_, _, rfl, rfl, rfl⟩
  refine first.bind ?_
  rintro _ _ ⟨rfl, rfl⟩
  refine (yields_newPasses store.aliases.size filled).mono ?_
  rintro passes after ⟨equipped, _, persists⟩
  have isFound : filled.aliasesAt store.aliases.size = aliases := by
    simp [filled, Store.aliasesAt]
  rw [isFound] at equipped
  exact ⟨equipped, persists.names, persists.shows, persists.showsType⟩

lemma endsAs_compileInPlace (aliases : Aliases) {document : Document} {store : Store}
    {start typeStart : Nat} (sound : Document.Sound document)
    (shows : ShowsDocument store start typeStart document) :
    ∃ passes, EndsAs passes (start + nodesOf document)
      (compileInPlace aliases (start + nodesOf document) store).1
      (Compilation.of aliases document).outcome := by
  rcases yields_newAliases_newPasses aliases store with ⟨passes, ready, ran, equipped, persists⟩
  have ends := endsAs_runStages equipped sound (shows.lasts persists)
  rw [compileInPlace, ran]
  exact ⟨passes, ends.congr rfl rfl⟩

lemma EndsAs.failure_eq_some_iff {passes : Passes} {root : Key} {result : InPlace}
    {outcome : Except CompileError Compiled} (ends : EndsAs passes root result outcome)
    {failure : Failure} :
    result.failure = some failure ↔ ∃ error, failure = .compile error ∧ outcome = .error error := by
  cases ends with
  | failed isFailure =>
    rw [isFailure]
    constructor
    · rintro ⟨⟩
      exact ⟨_, rfl, rfl⟩
    · rintro ⟨_, rfl, ⟨⟩⟩
      rfl
  | done none holds sound =>
    rw [none]
    constructor
    · rintro ⟨⟩
    · rintro ⟨_, _, ⟨⟩⟩

/-- No source is refused, and no parsed document fails to compile, for anything but a
fault of the source or of the wishes about names.  Its definitions can be put together
on any workbench, where their guards and those of the stages stand, and fail there just
as by themselves. -/
theorem only_source_is_blamed (source : List UInt8) :
    (∀ error, Syntax.parse source = .error error ->
      error.fault.blame = .semantic ∧ error.fault.inSource = true) ∧
    ∀ document, Syntax.parse source = .ok document -> ∀ options : NamingOptions,
      (∀ error, compile options document = .error error ->
        error.blame = .semantic ∧ 3000 <= error.code ∧ error.code <= 3010) ∧
      ∀ aliases, options.build = .ok aliases -> ∀ store,
        Yields (placeDocument document) store fun root placed =>
          ∀ failure, (compileInPlace aliases root placed).1.failure = some failure ↔
            ∃ error, failure = .compile error ∧ compile options document = .error error := by
  constructor
  · intro error refused
    have inSource := (Syntax.failsOnly_parse source).allows error refused
    exact ⟨Syntax.Fault.blame_of_inSource inSource, inSource⟩
  intro document parsed options
  constructor
  · intro error failed
    have inSource := (failsOnly_compile options document).allows error failed
    exact ⟨inSource.blame, inSource.code⟩
  · intro aliases built store
    refine (yields_placeDocument document store).mono ?_
    rintro _ placed ⟨rfl, shows, _⟩ failure
    rcases endsAs_compileInPlace aliases (Syntax.sound_of_parse parsed) shows with ⟨passes, ends⟩
    rw [ends.failure_eq_some_iff, compile, built]

/-- A field that is refused when it is built, and a document that fails in the fourth
stage, when its first message has been resolved already. -/
theorem source_is_blamed_for_field_and_parent :
    ∃ error document reason, Syntax.parse
        "message M \x7b repeated int32 f; \x7d".toUTF8.toList = .error error ∧
      error.fault.cause? = some .repeatedUnsupported ∧
      (error.fault.blame = .semantic ∧ error.fault.inSource = true) ∧
      Syntax.parse
        ("namespace n \x7b message A \x7b A next; \x7d message B extends A, E \x7b \x7d " ++
          "enum E \x7b \x7d \x7d").toUTF8.toList = .ok document ∧
      compile ⟨[("n", "k")], "top"⟩ document = .error reason ∧
      (reason.blame = .semantic ∧ 3000 <= reason.code ∧ reason.code <= 3010) ∧
      ∃ aliases, NamingOptions.build ⟨[("n", "k")], "top"⟩ = .ok aliases ∧
        Yields (placeDocument document) {} fun root placed =>
          (compileInPlace aliases root placed).1.failure = some (.compile reason) := by
  have refused : (match Syntax.parse "message M \x7b repeated int32 f; \x7d".toUTF8.toList with
      | .ok _ => false
      | .error error => error.fault.cause? == some .repeatedUnsupported) = true := by
    decide +kernel
  have failing : (Syntax.parse
      ("namespace n \x7b message A \x7b A next; \x7d message B extends A, E \x7b \x7d " ++
        "enum E \x7b \x7d \x7d").toUTF8.toList).toOption.any (fun document =>
          !(compile ⟨[("n", "k")], "top"⟩ document).isOk) = true := by
    decide +kernel
  have possible : (NamingOptions.build ⟨[("n", "k")], "top"⟩).isOk = true := by
    decide +kernel
  split at refused
  · cases refused
  · next error isRefused =>
    rcases (Option.any_eq_true _ _).mp failing with ⟨document, isDocument, fails⟩
    have parsed := eq_ok_of_toOption isDocument
    rcases exists_ok_of_isOk possible with ⟨aliases, built⟩
    rcases failed : compile ⟨[("n", "k")], "top"⟩ document with reason | compiled
    · have blamed := (only_source_is_blamed _).2 document parsed ⟨[("n", "k")], "top"⟩
      refine ⟨error, document, reason, isRefused, beq_iff_eq.mp refused,
        (only_source_is_blamed _).1 error isRefused, parsed, failed, blamed.1 reason failed,
        aliases, built, ?_⟩
      exact (blamed.2 aliases built {}).mono fun _ _ fails => (fails _).mpr ⟨reason, rfl, failed⟩
    · rw [failed] at fails
      cases fails

end MessageSchema.Workbench

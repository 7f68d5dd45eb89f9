import MessageSchema.Proofs.Compile.ScopeChain
import MessageSchema.Proofs.Syntax.Blame

namespace MessageSchema

/-!
Whose fault it is that a schema cannot be compiled.

The failures for what the schema says or the user wishes have numbers in one range;
a wrong use of the stages, a defect in them, and a second outer scope lie outside.
-/

/-- The failure has one of the numbers for faults of a schema and of wishes about its
names. -/
def CompileError.InSource (error : CompileError) : Prop :=
  decide (3000 <= error.code ∧ error.code <= 3010) = true

lemma CompileError.InSource.code {error : CompileError} (inSource : error.InSource) :
    3000 <= error.code ∧ error.code <= 3010 :=
  of_decide_eq_true inSource

lemma CompileError.InSource.blame {error : CompileError} (inSource : error.InSource) :
    error.blame = .semantic := by
  cases error with
  | rootNamed | notFlattened | anonymous | definitionUnexpected | typeNotResolved => cases inSource
  | _ => rfl

variable {ρ : Type}

namespace SymbolTable

variable {δ : Type}

lemma failsOnly_addEnum (table : SymbolTable δ) (name : String) (handle : δ) :
    FailsOnly CompileError.InSource (table.addEnum name handle) := by
  rw [addEnum]
  split
  · exact .fail rfl
  · exact .ok _

lemma failsOnly_addMessage (table : SymbolTable δ) (name : String) (announced : Bool)
    (handle : δ) : FailsOnly CompileError.InSource (table.addMessage name announced handle) := by
  rw [addMessage]
  split
  · exact .fail rfl
  · dsimp only
    split
    · exact .ok _
    · split
      · exact .ok _
      · split
        · exact .ok _
        · exact .fail rfl

lemma failsOnly_addDefinition (table : SymbolTable Nat) (handle : Nat) (definition : TypeDecl ρ) :
    FailsOnly CompileError.InSource (table.addDefinition handle definition) := by
  cases definition with
  | enum decl => exact failsOnly_addEnum ..
  | message decl =>
    rw [addDefinition]
    split
    · exact .ok _
    · next error found => exact (failsOnly_addMessage ..).passOn found

lemma failsOnly_addDefinitions (table : SymbolTable Nat) (handle : Nat)
    (definitions : List (TypeDecl ρ)) :
    FailsOnly CompileError.InSource (table.addDefinitions handle definitions) := by
  induction definitions generalizing table handle with
  | nil => exact .ok _
  | cons definition rest ih =>
    rw [addDefinitions]
    split
    · exact ih _ _
    · next error found => exact (failsOnly_addDefinition table handle definition).passOn found

lemma failsOnly_claimNames (renamed : String -> String) (owners : Name.Table String)
    (names : List String) : FailsOnly CompileError.InSource (claimNames renamed owners names) := by
  induction names generalizing owners with
  | nil => exact .ok _
  | cons name rest ih =>
    rw [claimNames]
    split
    · exact .fail rfl
    · exact ih _

lemma failsOnly_rekey (table : SymbolTable δ) (renames : Name.Table String) :
    FailsOnly CompileError.InSource (table.rekey renames) := by
  rw [rekey]
  split
  · next error found => exact (failsOnly_claimNames ..).passOn found
  · exact .ok _

end SymbolTable

lemma failsOnly_checkFieldsFrom (message : String) (names : List String)
    (ordinals : List (Int × String)) (fields : List (String × Option Int)) :
    FailsOnly CompileError.InSource (checkFieldsFrom message names ordinals fields) := by
  fun_induction checkFieldsFrom message names ordinals fields with
  | case1 => exact .ok _
  | case2 => exact .fail rfl
  | case3 _ _ _ _ _ ih => exact ih
  | case4 => exact .fail rfl
  | case5 _ _ _ _ _ _ _ ih => exact ih

lemma failsOnly_checkMessages (definitions : List (TypeDecl ρ))
    (entries : List (String × MessageEntry Nat)) :
    FailsOnly CompileError.InSource (checkMessages definitions entries) := by
  induction entries with
  | nil => exact .ok _
  | cons entry rest ih =>
    rw [checkMessages]
    split
    · exact ih
    · next error found => exact (failsOnly_checkFieldsFrom _ [] [] _).passOn found

lemma failsOnly_index (types : List (TypeDecl ρ)) :
    FailsOnly CompileError.InSource (index types) := by
  rw [index]
  split
  · next error found => exact (SymbolTable.failsOnly_addDefinitions ..).passOn found
  · split
    · exact .ok _
    · next error found => exact (failsOnly_checkMessages ..).passOn found

namespace Scope

lemma failsOnly_resolveParents (scope : Scope) (message : Identifier) (parents : List Identifier) :
    FailsOnly CompileError.InSource (scope.resolveParents message parents) := by
  induction parents with
  | nil => exact .ok _
  | cons parent rest ih =>
    rw [resolveParents]
    split
    · exact .fail rfl
    · split
      · exact .fail rfl
      · split
        · exact .ok _
        · next error found => exact ih.passOn found

lemma failsOnly_resolveType (scope : Scope) (message : Identifier) (field : String)
    (type : FieldType Identifier) :
    FailsOnly CompileError.InSource (scope.resolveType message field type) := by
  cases type with
  | primitive type => exact .ok _
  | user name =>
    rw [resolveType]
    split
    · exact .ok _
    · exact .fail rfl

lemma failsOnly_resolveField (scope : Scope) (message : Identifier) (field : Field Identifier) :
    FailsOnly CompileError.InSource (scope.resolveField message field) := by
  rw [resolveField]
  split
  · exact .fail rfl
  · split
    · next error found => exact (failsOnly_resolveType ..).passOn found
    · exact .ok _

lemma failsOnly_resolveTypes (scope : Scope) (types : List (TypeDecl Identifier)) :
    FailsOnly CompileError.InSource (scope.resolveTypes types) := by
  constructor
  intro error found
  rw [← failureOf_eq_some_iff, failureOf_resolveTypes] at found
  rcases List.exists_of_findSome?_eq_some found with ⟨demand, _, failed⟩
  cases demand with
  | parent message name =>
    exact (failsOnly_resolveParents scope message [name]).allows error
      (failureOf_eq_some_iff.mp failed)
  | field message member =>
    exact (failsOnly_resolveField scope message member).allows error
      (failureOf_eq_some_iff.mp failed)

end Scope

lemma failsOnly_aliasNames (aliases : Aliases) (types : List (TypeDecl Reference))
    (table : SymbolTable Nat) :
    FailsOnly CompileError.InSource (aliasNames aliases types table) := by
  rw [aliasNames]
  split
  · exact .ok _
  · next error found => exact (SymbolTable.failsOnly_rekey ..).passOn found

lemma failsOnly_outcome (aliases : Aliases) (document : Document) :
    FailsOnly CompileError.InSource (Compilation.of aliases document).outcome := by
  rw [Compilation.outcome_of]
  cases indexed : index (flatten (qualify document)) with
  | error error => exact (failsOnly_index _).passOn indexed
  | ok table =>
  rw [Except.bind]
  cases resolved : resolve (flatten (qualify document)) table with
  | error error => exact (Scope.failsOnly_resolveTypes _ _).passOn resolved
  | ok types =>
  rw [Except.bind]
  cases renamed : aliasNames aliases types table with
  | error error => exact (failsOnly_aliasNames _ _ _).passOn renamed
  | ok result => exact .ok _

lemma Aliases.failsOnly_addAll (aliases : Aliases) (wishes : List (String × String)) :
    FailsOnly CompileError.InSource (aliases.addAll wishes) := by
  induction wishes generalizing aliases with
  | nil => exact .ok _
  | cons wish rest ih =>
    rw [Aliases.addAll]
    split
    · exact ih _
    · next error _ =>
      refine .fail ?_
      cases error with
      | blank => rfl
      | collision path index => rfl

/-- The outer scope is set at most once, so it is never in the way. -/
lemma NamingOptions.failsOnly_build (options : NamingOptions) :
    FailsOnly CompileError.InSource options.build := by
  rw [build]
  split
  · next error found => exact (Aliases.failsOnly_addAll ..).passOn found
  · next aliases added =>
    split
    · exact .ok _
    · have noOuter : aliases.outer = none :=
        ((Aliases.holdsAll_empty.addAll options.aliases).2 aliases added).1
      rw [Aliases.setOuter, noOuter]
      split
      · exact .fail rfl
      · exact .ok _

/-- A compilation fails for faults of the schema or of the wishes about its names. -/
lemma failsOnly_compile (options : NamingOptions) (document : Document) :
    FailsOnly CompileError.InSource (compile options document) := by
  rw [compile]
  split
  · next error found => exact options.failsOnly_build.passOn found
  · exact failsOnly_outcome ..

end MessageSchema

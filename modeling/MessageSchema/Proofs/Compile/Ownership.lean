import MessageSchema.Proofs.Compile.Linking

namespace MessageSchema

open List

/-!
What the names say about who owns what.

The owner of a name is found by going up its scopes as long as they are messages,
and references are noted between owners.  The resulting relation between names is
read off the definitions and the table; how it was collected does not matter.
-/

variable {name scope : Identifier}

/-- What has a scope is a word in that scope. -/
lemma Identifier.exists_append_of_parent? (up : name.parent? = some scope) :
    scope.segments ≠ [] ∧ ∃ word, name = scope.append (.single word) := by
  unfold Identifier.parent? at up
  split at up
  · cases up
  · next long =>
    cases up
    have filled : name.segments ≠ [] := by
      intro none
      rw [none] at long
      exact long (by decide)
    constructor
    · intro none
      have := congrArg List.length none
      simp only [length_dropLast, length_nil] at this
      omega
    · refine ⟨name.segments.getLast filled, ?_⟩
      rw [Identifier.append, Identifier.single, dropLast_append_getLast]

lemma Identifier.length_of_parent? (up : name.parent? = some scope) :
    scope.segments.length < name.segments.length := by
  rcases Identifier.exists_append_of_parent? up with ⟨_, word, same⟩
  rw [same, Identifier.append, Identifier.single, length_append, length_singleton]
  omega

lemma Identifier.proper_of_parent? (proper : name.Proper) (up : name.parent? = some scope) :
    scope.Proper := by
  rcases Identifier.exists_append_of_parent? up with ⟨filled, word, same⟩
  refine ⟨filled, ?_⟩
  intro segment member
  apply proper.clean segment
  rw [same]
  exact mem_append_left _ member

namespace SymbolTable

section
variable (table : SymbolTable Nat)

/-- The scope of a name is itself the name of a message. -/
def InMessage (name : Identifier) : Prop :=
  ∃ scope, name.parent? = some scope ∧ table.messages.contains scope.text = true

instance (name : Identifier) : Decidable (table.InMessage name) :=
  match up : name.parent? with
  | none => isFalse fun ⟨_, again, _⟩ => Option.some_ne_none _ (again.symm.trans up)
  | some scope => decidable_of_iff (table.messages.contains scope.text = true)
      ⟨fun isMessage => ⟨scope, up, isMessage⟩, fun ⟨_, again, isMessage⟩ =>
        Option.some.inj (up.symm.trans again) ▸ isMessage⟩

/-- The outermost of the names that one finds by going up while the scope is the
name of a message. -/
def owner (name : Identifier) : Identifier :=
  match _up : name.parent? with
  | none => name
  | some scope => if table.messages.contains scope.text then owner scope else name
termination_by name.segments.length
decreasing_by exact Identifier.length_of_parent? _up

lemma ownerName_eq_text_owner (name : Identifier) :
    table.ownerName name = (table.owner name).text := by
  fun_induction SymbolTable.owner table name with
  | case1 name top =>
    rw [ownerName]
    split
    · rfl
    · next up => rw [top] at up; cases up
  | case2 name scope up inside ih =>
    rw [ownerName]
    split
    · next top => rw [top] at up; cases up
    · next found again =>
      rw [up] at again
      cases again
      rw [if_pos inside, ih]
  | case3 name scope up outside =>
    rw [ownerName]
    split
    · rfl
    · next found again =>
      rw [up] at again
      cases again
      rw [if_neg outside]

end

variable {table : SymbolTable Nat}

variable {name : Identifier}

lemma owner_eq_of_parent? (up : name.parent? = some scope)
    (inside : table.messages.contains scope.text = true) :
    table.owner name = table.owner scope := by
  rw [owner]
  split
  · next top => rw [top] at up; cases up
  · next found again =>
    rw [up] at again
    cases again
    rw [if_pos inside]

lemma owner_eq_self (outside : ¬ table.InMessage name) : table.owner name = name := by
  rw [owner]
  split
  · rfl
  · next scope up => rw [if_neg fun inside => outside ⟨scope, up, inside⟩]

/-- Nothing owns an owner. -/
lemma not_inMessage_owner (name : Identifier) : ¬ table.InMessage (table.owner name) := by
  fun_induction owner table name with
  | case1 name top =>
    rintro ⟨scope, up, _⟩
    rw [top] at up
    cases up
  | case2 _ _ _ _ ih => exact ih
  | case3 name scope up outside =>
    rintro ⟨found, again, inside⟩
    rw [up] at again
    cases again
    exact outside inside

lemma proper_owner (proper : name.Proper) : (table.owner name).Proper := by
  fun_induction owner table name with
  | case1 => exact proper
  | case2 _ _ up _ ih => exact ih (Identifier.proper_of_parent? proper up)
  | case3 => exact proper

lemma contains_owner (isMessage : table.messages.contains name.text = true) :
    table.messages.contains (table.owner name).text = true := by
  fun_induction owner table name with
  | case1 => exact isMessage
  | case2 _ _ _ inside ih => exact ih inside
  | case3 => exact isMessage

end SymbolTable

variable {inner outer : String} {references : References} {source target : Identifier}
    {types : List (TypeDecl Reference)}

namespace References

lemma mem_refs_add {source target : String} : inner ∈ (references.add source target).refs outer ↔
      inner ∈ references.refs outer ∨ outer = source ∧ inner = target := by
  rw [refs, add, Name.Table.find?_insert]
  by_cases same : outer = source
  · subst same
    simp [or_comm]
  · simp [same, refs]

@[simp] lemma refs_close (references : References) (name : String) :
    (references.close name).refs = references.refs :=
  rfl

lemma refs_foldl_close (references : References) (names : List String) :
    (names.foldl close references).refs = references.refs := by
  induction names generalizing references with
  | nil => rfl
  | cons name rest ih => rw [foldl_cons, ih, refs_close]

end References

section
variable {table : SymbolTable Nat}

lemma mem_refs_noteReference : inner ∈ (table.noteReference references source target).refs outer ↔
      inner ∈ references.refs outer ∨
        table.messages.contains target.text = true ∧ outer = (table.owner source).text ∧
          inner = (table.owner target).text ∧ outer ≠ inner := by
  rw [SymbolTable.noteReference, table.ownerName_eq_text_owner, table.ownerName_eq_text_owner]
  cases isMessage : table.messages.contains target.text with
  | false => simp
  | true =>
    by_cases same : (table.owner source).text = (table.owner target).text
    · simp only [Bool.not_true, Bool.false_eq_true, if_false, if_pos same]
      constructor
      · exact .inl
      · rintro (found | ⟨_, isOuter, isInner, different⟩)
        · exact found
        · exact absurd (isOuter.trans (same.trans isInner.symm)) different
    · simp only [Bool.not_true, Bool.false_eq_true, if_false, if_neg same,
        References.mem_refs_add]
      constructor
      · rintro (found | ⟨isOuter, isInner⟩)
        · exact .inl found
        · exact .inr ⟨trivial, isOuter, isInner, by rw [isOuter, isInner]; exact same⟩
      · rintro (found | ⟨_, isOuter, isInner, _⟩)
        · exact .inl found
        · exact .inr ⟨isOuter, isInner⟩

lemma mem_refs_foldl_noteReference (pairs : List (Identifier × Identifier))
    (references : References) : inner ∈ (pairs.foldl (fun references pair =>
        table.noteReference references pair.1 pair.2) references).refs outer ↔
      inner ∈ references.refs outer ∨ ∃ pair ∈ pairs,
        table.messages.contains pair.2.text = true ∧ outer = (table.owner pair.1).text ∧
          inner = (table.owner pair.2).text ∧ outer ≠ inner := by
  induction pairs generalizing references with
  | nil => simp
  | cons pair rest ih =>
    rw [foldl_cons, ih, mem_refs_noteReference, or_assoc]
    simp

end

lemma Message.dependenciesOf_eq_flatMap (messages : List (Message Reference)) :
    Message.dependenciesOf messages = messages.flatMap Message.dependencies := by
  induction messages with
  | nil => rfl
  | cons message rest ih => rw [Message.dependenciesOf, ih, flatMap_cons]

/-- A message depends on what it and the messages in it depend on themselves. -/
lemma Message.mem_dependencies_iff (message : Message Reference) :
    (source, target) ∈ message.dependencies ↔
      ∃ decl, .message decl ∈ message.definitions ∧ decl.id = source ∧
        target ∈ decl.ownDependencies := by
  induction message using Message.nestedInduction with
  | external name =>
    simp [Message.dependencies, Message.definitions, Message.ownDependencies, Message.parents,
      Message.fields]
  | defined name parents enums messages fields ih =>
    rw [Message.dependencies, Message.dependenciesOf_eq_flatMap, Message.definitions_defined,
      mem_append, mem_flatMap]
    constructor
    · rintro (own | ⟨inner, listed, found⟩)
      · rcases List.mem_map.mp own with ⟨dependency, member, same⟩
        cases same
        exact ⟨_, mem_cons_self, rfl, member⟩
      · rcases (ih inner listed).mp found with ⟨decl, inside, same, member⟩
        refine ⟨decl, mem_cons_of_mem _ (mem_append_right _ ?_), same, member⟩
        exact mem_flatMap_of_mem listed inside
    · rintro ⟨decl, found, same, member⟩
      rcases List.mem_cons.mp found with isSelf | found
      · cases isSelf
        left
        rw [← same]
        exact mem_map_of_mem member
      · right
        rcases List.mem_append.mp found with isEnum | found
        · rcases List.mem_map.mp isEnum with ⟨_, _, impossible⟩
          cases impossible
        · rcases List.mem_flatMap.mp found with ⟨inner, listed, inside⟩
          exact ⟨inner, listed, (ih inner listed).mpr ⟨decl, inside, same, member⟩⟩

lemma mem_topMessages {ρ : Type} {types : List (TypeDecl ρ)} {message : Message ρ} :
    message ∈ topMessages types ↔ .message message ∈ types := by
  rw [topMessages, mem_filterMap]
  constructor
  · rintro ⟨decl | decl, listed, same⟩
    · cases same
    · cases same
      exact listed
  · intro listed
    exact ⟨_, listed, rfl⟩

lemma mem_dependencies_topMessages :
    (source, target) ∈ (topMessages types).flatMap Message.dependencies ↔
      ∃ decl, .message decl ∈ definitionsOf types ∧ decl.id = source ∧
        target ∈ decl.ownDependencies := by
  rw [mem_flatMap]
  constructor
  · rintro ⟨message, listed, found⟩
    rcases message.mem_dependencies_iff.mp found with ⟨decl, inside, rest⟩
    exact ⟨decl, mem_definitionsOf.mpr ⟨_, mem_topMessages.mp listed, inside⟩, rest⟩
  · rintro ⟨decl, member, rest⟩
    rcases mem_definitionsOf.mp member with ⟨other | message, listed, inside⟩
    · cases List.mem_singleton.mp inside
    · exact ⟨message, mem_topMessages.mpr listed,
        message.mem_dependencies_iff.mpr ⟨decl, inside, rest⟩⟩

/-- The references of a schema lie between the owners of those messages that
depend on each other. -/
lemma mem_refs_dependencies_iff {table : SymbolTable Nat} :
    inner ∈ (dependencies types table).refs outer ↔
      ∃ decl target, .message decl ∈ definitionsOf types ∧ target ∈ decl.ownDependencies ∧
        table.messages.contains target.text = true ∧ outer = (table.owner decl.id).text ∧
        inner = (table.owner target).text ∧ outer ≠ inner := by
  rw [dependencies, References.refs_foldl_close, mem_refs_foldl_noteReference]
  constructor
  · rintro (impossible | ⟨⟨source, target⟩, listed, found⟩)
    · cases impossible
    · rcases mem_dependencies_topMessages.mp listed with ⟨decl, member, same, depends⟩
      rw [← same] at found
      exact ⟨decl, target, member, depends, found⟩
  · rintro ⟨decl, target, member, depends, found⟩
    exact .inr ⟨(decl.id, target),
      mem_dependencies_topMessages.mpr ⟨decl, member, rfl, depends⟩, found⟩

end MessageSchema

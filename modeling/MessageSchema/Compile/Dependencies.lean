import MessageSchema.Compile.Resolved

namespace MessageSchema

/-!
References between top-level messages, through the parents and fields of a
message and of those nested in it.  The closure of a message is everything that
can be reached by following references.
-/

/-- Direct references by the message they come from, and the closures worked out so far,
in ascending order. -/
structure References where
  direct : Name.Table (List String)
  closures : Name.Table (List String)

namespace References

def empty : References := ⟨.empty, .empty⟩

instance : Inhabited References := ⟨empty⟩

def refs (references : References) (name : String) : List String :=
  (references.direct.find? name).getD []

def add (references : References) (source target : String) : References :=
  { references with
    direct := references.direct.insert source
      (Name.sortedNames (target :: references.refs source)) }

def count (references : References) : Nat :=
  (references.direct.entries.map fun entry => entry.2.length).foldr (· + ·) 0

def targets (references : References) : List String :=
  Name.sortedNames (references.direct.entries.flatMap Prod.snd)

/-- Follows references from the pending names to names not yet seen.  Every step takes a
name off the unseen ones. -/
def reach (references : References) (unseen pending : List String) : List String :=
  match _found : pending.find? unseen.contains with
  | none => []
  | some name => name :: reach references (unseen.erase name) (pending ++ references.refs name)
termination_by unseen.length
decreasing_by
  have member : name ∈ unseen := by simpa using List.find?_some _found
  rw [List.length_erase_of_mem member]
  have := List.length_pos_of_mem member
  omega

/-- Every other message that can be reached from a message, in ascending
order. -/
def closureOf (references : References) (name : String) : List String :=
  Name.sortedNames
    (references.reach (references.targets.filter (· != name)) (references.refs name))

def close (references : References) (name : String) : References :=
  { references with closures := references.closures.insert name (references.closureOf name) }

def closure? (references : References) (name : String) : Option (List String) :=
  references.closures.find? name

end References

/-- The top-level message that a message belongs to, found by going up its scopes as
long as these are messages. -/
def SymbolTable.ownerName {δ : Type} (table : SymbolTable δ) (name : Identifier) : String :=
  match _up : name.parent? with
  | none => name.text
  | some parent =>
    if table.messages.contains parent.text then table.ownerName parent else name.text
termination_by name.segments.length
decreasing_by
  unfold Identifier.parent? at _up
  split at _up
  · cases _up
  · next long =>
    cases _up
    simp only [List.length_dropLast]
    omega

/-- Notes a reference between the top-level messages that two names belong to, unless
one is no message or both are the same. -/
def SymbolTable.noteReference {δ : Type} (table : SymbolTable δ) (references : References)
    (source target : Identifier) : References :=
  if !table.messages.contains target.text then references
  else if table.ownerName source = table.ownerName target then references
  else references.add (table.ownerName source) (table.ownerName target)

/-!
The dependencies between the top-level messages of a schema.
-/

/-- What a reference makes one depend on: the message, or the scope around an enum. -/
def Reference.dependency? (reference : Reference) : Option Identifier :=
  match reference.symbol.kind with
  | .enum => reference.name.parent?
  | _ => some reference.name

def Message.ownDependencies (message : Message Reference) : List Identifier :=
  message.parents ++ message.fields.filterMap fun field =>
    match field.type with
    | .primitive _ => none
    | .user reference => reference.dependency?

mutual

/-- The pairs of a message and what it depends on, for a message and those
nested in it. -/
def Message.dependencies : Message Reference -> List (Identifier × Identifier)
  | .external _ => []
  | .defined name parents enums messages fields =>
    (Message.ownDependencies (.defined name parents enums messages fields)).map
        (name.current, ·)
      ++ Message.dependenciesOf messages

def Message.dependenciesOf : List (Message Reference) -> List (Identifier × Identifier)
  | [] => []
  | message :: rest => message.dependencies ++ Message.dependenciesOf rest

end

def topMessages {ρ : Type} (types : List (TypeDecl ρ)) : List (Message ρ) :=
  types.filterMap fun type =>
    match type with
    | .enum _ => none
    | .message message => some message

/-- The references between the top-level messages, with the closure of each of
them. -/
def dependencies (types : List (TypeDecl Reference)) (table : SymbolTable Nat) : References :=
  let messages := topMessages types
  let direct := (messages.flatMap Message.dependencies).foldl
    (fun references pair => table.noteReference references pair.1 pair.2) .empty
  (messages.map fun message => message.id.text).foldl References.close direct

end MessageSchema

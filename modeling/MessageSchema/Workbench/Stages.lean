import MessageSchema.Compile.Resolved
import MessageSchema.Workbench.Build

namespace MessageSchema.Workbench

/-!
The stages of compilation on the workbench.

A stage visits definitions one after the other, and keeps those that it is
inside of on a stack, starting with the schema; a definition can also be visited
on its own.  What a stage has done stays done if it fails, but the stack is
cleared.
-/

def Store.stackOf (store : Store) (runner : Key) : List Key :=
  (store.runner runner).stack

def changeRunner (key : Key) (change : Runner -> Runner) : Work Unit := do
  setRunner key (change ((← get).runner key))

/-- Visits a definition inside of those on the stack, and takes it off the stack in any
case. -/
def walk (runner : Key) (visit : Key -> Work Unit) (key : Key) : Work Unit := fun store =>
  let entered := { store with
    runners := store.runners.setIfInBounds runner
      { store.runner runner with stack := key :: store.stackOf runner } }
  let (result, left) := visit key entered
  (result, { left with
    runners := left.runners.setIfInBounds runner
      { left.runner runner with stack := (left.stackOf runner).drop 1 } })

def unlessEnum (visit : Key -> Work Unit) (key : Key) : Work Unit := do
  if ((← get).node key).kind ≠ .enum then visit key

def ifMessage (visit : Key -> Work Unit) (key : Key) : Work Unit := do
  if ((← get).node key).kind = .message then visit key

def checkRoot (stage : Stage) (key : Key) : Work Unit := do
  let store ← get
  if (store.node key).name.isSome then failCompile (.rootNamed stage (store.mention key))

def refuse (stage : Stage) (key : Key) : Work Unit := do
  failCompile (.definitionUnexpected stage ((← get).mention key))

def checkFlat (runner : Key) (stage : Stage) (key : Key) : Work Unit := do
  let store ← get
  if 1 < (store.stackOf runner).length then failCompile (.notFlattened stage (store.idText key))
  checkRoot stage key

def checkNamed (stage : Stage) (key : Key) : Work Unit := do
  let node := (← get).node key
  if node.name.isNone then failCompile (.anonymous stage node.kind)

def Store.qualifiedName (store : Store) (stack : List Key) : Option Identifier :=
  match stack.reverse.filterMap store.id with
  | [] => none
  | first :: rest => some (rest.foldl Identifier.append first)

def qualifyDefinition (runner key : Key) : Work Unit := do
  checkNamed .rename key
  let store ← get
  match store.qualifiedName (store.stackOf runner) with
  | some name => renameDefinition key (some (← newName name))
  | none => renameDefinition key none

/-- Visits a definition to qualify its name, after those of what it holds. -/
def visitRename (runner : Key) : Nat -> Key -> Work Unit
  | 0, _ => throw .endless
  | depth + 1, key => do
      let store ← get
      match store.node key with
      | .scope scope =>
        if (store.stackOf runner).length = 1 then checkRoot .rename key
        scope.content.forM (walk runner (visitRename runner depth))
      | .enum _ => qualifyDefinition runner key
      | .message message =>
        message.enums.forM (walk runner (visitRename runner depth))
        message.messages.forM (walk runner (visitRename runner depth))
        qualifyDefinition runner key
      | .field _ => refuse .rename key

def dissolve (runner key : Key) : Work Unit := do
  let store ← get
  match store.stackOf runner, store.node key with
  | _ :: outer :: _, .scope scope =>
    match store.node outer with
    | .scope _ =>
      scope.content.forM fun child => addToScope outer (some child)
      clearScope key
    | _ => return
  | _, _ => return

def visitFlatten (runner : Key) : Nat -> Key -> Work Unit
  | 0, _ => throw .endless
  | depth + 1, key => do
      let store ← get
      match store.node key with
      | .scope scope =>
        if (store.stackOf runner).length = 1 then checkRoot .flatten key
        else checkNamed .flatten key
        scope.content.forM (unlessEnum (walk runner (visitFlatten runner depth)))
        removeFromScope key .scope
        dissolve runner key
      | .message _ => checkNamed .flatten key
      | _ => refuse .flatten key

def visitIndex (runner : Key) : Nat -> Key -> Work Unit
  | 0, _ => throw .endless
  | depth + 1, key => do
      let store ← get
      let table := (store.runner runner).table
      match store.node key with
      | .scope scope =>
        checkFlat runner .index key
        scope.content.forM (walk runner (visitIndex runner depth))
      | .enum _ =>
        setTable table (← liftCompile ((store.table table).addEnum (store.idText key) key))
      | .message message =>
        match ← liftCompile
            ((store.table table).addMessage (store.idText key) message.announced key) with
        | none => return
        | some entered =>
          setTable table entered
          message.enums.forM (walk runner (visitIndex runner depth))
          message.messages.forM (walk runner (visitIndex runner depth))
      | .field _ => refuse .index key

def Store.fieldKeys (store : Store) (key : Key) : List (String × Option Int) :=
  match store.node key with
  | .message message => message.fields.filterMap fun field =>
    match store.node field with
    | .field node => some (store.fieldName node, node.ordinal)
    | _ => none
  | _ => []

def Store.resolve? (store : Store) (table : Key) (name : Option Identifier) (scope : Key) :
    Option (Symbol Key) :=
  match name with
  | some name => (store.table table).resolve? name ((store.id scope).getD ⟨[]⟩)
  | none => (store.table table).find? (Identifier.textOf none)

def resolveParents (table key : Key) (index : Nat) : List (Option Key) -> Work Unit
  | [] => return
  | parent :: rest => do
      let store ← get
      match store.resolve? table (store.name? parent) key with
      | none =>
        failCompile (.parentUnresolved (store.idText key) (store.nameText parent))
      | some found =>
        if found.kind ≠ .message then
          failCompile (.parentNotMessage (store.idText key) (store.mention found.handle))
        let name ← newName ((store.id found.handle).getD ⟨[]⟩)
        replaceParent key index (some name)
        resolveParents table key (index + 1) rest

def resolveFieldType (table message : Key) (field : FieldNode) : Work Unit := do
  let store ← get
  let type := store.type field.type
  if type.primitive.isNone then
    match store.resolve? table (store.name? type.name) message with
    | none =>
      failCompile (.typeUnresolved (store.idText message) (store.fieldName field)
        (store.nameText type.name))
    | some found =>
      let name ← newName ((store.id found.handle).getD ⟨[]⟩)
      renameType field.type (some name)
      resolveType field.type (some found.handle)

def visitResolve (runner : Key) : Nat -> Key -> Work Unit
  | 0, _ => throw .endless
  | depth + 1, key => do
      let store ← get
      let table := (store.runner runner).table
      match store.node key with
      | .scope scope =>
        checkFlat runner .resolve key
        scope.content.forM (ifMessage (walk runner (visitResolve runner depth)))
      | .message message =>
        resolveParents table key 0 message.parents
        message.messages.forM (walk runner (visitResolve runner depth))
        message.fields.forM (walk runner (visitResolve runner depth))
      | .field field =>
        let message := (store.stackOf runner)[1]?
        match field.ordinal.filter fun ordinal => !Scope.ordinalInRange ordinal with
        | some ordinal =>
          failCompile (.ordinalOutOfRange ((message.map store.idText).getD "")
            (store.fieldName field) ordinal)
        | none => resolveFieldType table (message.getD key) field
      | .enum _ => refuse .resolve key

/-- Gives a definition its aliased name.  An entry of the symbol table moves only with
its own definition. -/
def aliasDefinition (runner key : Key) : Work Unit := do
  let store ← get
  let stage := store.runner runner
  let name := (store.aliasesAt stage.aliases).applyScope ((store.id key).getD ⟨[]⟩)
  let before := store.idText key
  if ((store.table stage.table).find? before).map Symbol.handle == some key then
    changeRunner runner fun stage =>
      { stage with renames := stage.renames ++ [(before, name.text)] }
  renameDefinition key (some (← newName name))

def aliasParents (aliases key : Key) (index : Nat) : List (Option Key) -> Work Unit
  | [] => return
  | parent :: rest => do
      let store ← get
      let name := (store.aliasesAt aliases).applyScope ((store.name? parent).getD ⟨[]⟩)
      replaceParent key index (some (← newName name))
      aliasParents aliases key (index + 1) rest

def visitAlias (runner : Key) : Nat -> Key -> Work Unit
  | 0, _ => throw .endless
  | depth + 1, key => do
      let store ← get
      match store.node key with
      | .scope scope =>
        checkFlat runner .substitute key
        scope.content.forM (walk runner (visitAlias runner depth))
      | .enum _ => aliasDefinition runner key
      | .message message =>
        keepDeclaredName key
        aliasDefinition runner key
        aliasParents (store.runner runner).aliases key 0 message.parents
        message.enums.forM (walk runner (visitAlias runner depth))
        message.messages.forM (walk runner (visitAlias runner depth))
        changeRunner runner fun stage => { stage with messages := stage.messages ++ [key] }
      | .field _ => refuse .substitute key

def renameFieldTypes (message : Key) : List Key -> Work Unit
  | [] => return
  | key :: rest => do
      let store ← get
      match store.node key with
      | .field field =>
        let type := store.type field.type
        if type.primitive.isNone then
          match type.target with
          | none =>
            failCompile (.typeNotResolved (store.idText message) (store.fieldName field))
          | some target =>
            let name ← newName ((store.id target).getD ⟨[]⟩)
            renameType field.type (some name)
        renameFieldTypes message rest
      | _ => renameFieldTypes message rest

def renameTypesOf (key : Key) : Work Unit := do
  match (← get).node key with
  | .message message => renameFieldTypes key message.fields
  | _ => return

def noteReference (runner : Key) (source target : Identifier) : Work Unit := do
  let store ← get
  let stage := store.runner runner
  setReferences stage.references
    ((store.table stage.table).noteReference (store.referencesAt stage.references) source target)

def Store.dependency? (store : Store) (target : Key) : Option Identifier :=
  match (store.node target).kind with
  | .enum => (store.id target).bind Identifier.parent?
  | _ => store.id target

def noteRoot (runner : Key) (name : String) : Work Unit :=
  changeRunner runner fun stage =>
    if stage.roots.contains name then stage else { stage with roots := stage.roots ++ [name] }

def walkAsRoot (runner : Key) (visit : Key -> Work Unit) (key : Key) : Work Unit := do
  noteRoot runner ((← get).idText key)
  walk runner visit key

def visitDepend (runner : Key) : Nat -> Key -> Work Unit
  | 0, _ => throw .endless
  | depth + 1, key => do
      let store ← get
      match store.node key with
      | .scope scope =>
        checkFlat runner .depend key
        scope.content.forM (ifMessage (walkAsRoot runner (visitDepend runner depth)))
      | .message message =>
        let source := (store.id key).getD ⟨[]⟩
        (message.parents.filterMap store.name?).forM (noteReference runner source)
        message.messages.forM (walk runner (visitDepend runner depth))
        message.fields.forM (walk runner (visitDepend runner depth))
      | .field field =>
        let type := store.type field.type
        let message := (store.stackOf runner)[1]?
        if type.primitive.isNone then
          match type.target with
          | none =>
            failCompile (.typeNotResolved ((message.map store.idText).getD "")
              (store.fieldName field))
          | some target =>
            match store.dependency? target, message.bind store.id with
            | some name, some source => noteReference runner source name
            | _, _ => return
      | .enum _ => refuse .depend key

def reset (runner : Key) : Work Unit := do
  changeRunner runner Runner.cleared
  let stage := (← get).runner runner
  match stage.stage with
  | .index => setTable stage.table .empty
  | .depend => setReferences stage.references .empty
  | _ => return

def visitAs (runner key : Key) : Work Unit := do
  let store ← get
  match (store.runner runner).stage with
  | .rename => visitRename runner store.depth key
  | .flatten => visitFlatten runner store.depth key
  | .index => visitIndex runner store.depth key
  | .resolve => visitResolve runner store.depth key
  | .substitute => visitAlias runner store.depth key
  | .depend => visitDepend runner store.depth key

def visit (runner : Key) : Option Key -> Work Unit
  | none => failDefinition .definitionMissing
  | some key => visitAs runner key

/-- Gives the entries of a symbol table other names. -/
def rekeyTable (key : Key) (renames : Name.Table String) : Work Unit := do
  setTable key (← liftCompile (((← get).table key).rekey renames))

def finish (runner : Key) : Work Unit := do
  let store ← get
  let stage := store.runner runner
  match stage.stage with
  | .index =>
    (store.table stage.table).messages.entries.forM fun entry =>
      liftCompile (checkFields entry.1 (store.fieldKeys entry.2.handle))
  | .substitute =>
    setTable stage.table
      (← liftCompile ((store.table stage.table).rekey (.ofList stage.renames)))
    stage.messages.forM renameTypesOf
  | .depend =>
    setReferences stage.references
      (stage.roots.foldl References.close (store.referencesAt stage.references))
  | _ => return

def run (runner root : Key) : Work Unit := do
  reset runner
  walk runner (visitAs runner) root
  finish runner

end MessageSchema.Workbench

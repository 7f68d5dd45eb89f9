import MessageSchema.Export.Products
import MessageSchema.Workbench.Stages

namespace MessageSchema.Workbench

/-!
Looking at what lies on the workbench.
-/

namespace Store

def fieldText (store : Store) (field : FieldNode) : String :=
  Report.fieldText field.modifiers (store.typeText field.type) field.bounds
    (store.fieldName field) field.ordinal field.default

def treeLines (store : Store) : Nat -> Nat -> Key -> List Report.Line
  | 0, _, _ => []
  | depth + 1, indent, key =>
    match store.node key with
    | .enum enum => Report.enumLines indent (store.idText key) enum.items
    | .field field => [⟨indent, store.fieldText field⟩]
    | .message message =>
      if message.announced then [⟨indent, Report.externalText (store.idText key)⟩]
      else
        ⟨indent, Report.messageText (store.idText key) (message.parents.map store.nameText)⟩ ::
          (message.enums ++ message.messages ++ message.fields).flatMap
            (store.treeLines depth (indent + 1))
    | .scope scope =>
      if scope.name.isNone then scope.content.flatMap (store.treeLines depth indent)
      else
        ⟨indent, Report.scopeText (store.idText key)⟩ ::
          scope.content.flatMap (store.treeLines depth (indent + 1))

def tree (store : Store) : Option Key -> List Report.Line
  | some key => store.treeLines store.depth 0 key
  | none => [⟨0, "UNKNOWN( <nil> )"⟩]

def children (store : Store) (key : Key) : List Key :=
  match store.node key with
  | .message message => message.enums ++ message.messages ++ message.fields
  | .scope scope => scope.content
  | _ => []

end Store

/-- What a walk notes about a definition: itself, the way down to it, and the one a
number of levels above it. -/
structure Visit where
  current : Key
  stack : List Key
  above : Option Key

/-- A walk that notes every definition, from above downwards, until it comes to one with
the name.  The flag tells whether it was stopped. -/
def Store.walkFrom (store : Store) (level : Int) (stop : String) :
    Nat -> List Key -> List Key -> List Visit × Bool
  | 0, _, _ => ([], false)
  | _ + 1, _, [] => ([], false)
  | depth + 1, above, key :: rest =>
    let stack := key :: above
    let noted : Visit :=
      ⟨key, stack.reverse, if level < 0 then none else stack[level.toNat]?⟩
    if stop ≠ "" ∧ store.idText key = stop then ([noted], true)
    else
      let (inner, stopped) := store.walkFrom level stop depth stack (store.children key)
      if stopped then (noted :: inner, true)
      else
        let (others, stopped) := store.walkFrom level stop (depth + 1) above rest
        (noted :: inner ++ others, stopped)
termination_by depth _ keys => (depth, keys.length)

def Store.walk (store : Store) (level : Int) (stop : String) (key : Key) : List Visit × Bool :=
  store.walkFrom level stop store.depth [] [key]

/-!
Compiling a schema in its place on the workbench, and describing the result.
-/

open Export (EnumInfo FieldInfo MessageInfo Description Products)

namespace Store

/-- Describes a field.  A type that is resolved is of the kind of its target. -/
def describeField (store : Store) (field : FieldNode) : FieldInfo where
  name := store.fieldName field
  type := store.typeText field.type
  kind := (store.type field.type).target.elim "primitive" fun key => (store.node key).kind.name
  modifiers := field.modifiers.keywords
  bounds := field.bounds
  ordinal := field.ordinal
  default := field.default.elim .null Export.literalValue

def describeEnum? (store : Store) (name : String) (key : Key) : Option EnumInfo :=
  match store.node key with
  | .enum node => some (Export.describeEnum name node.items)
  | _ => none

def describeMessage? (store : Store) (references : References) (name : String) (key : Key) :
    Option MessageInfo :=
  match store.node key with
  | .message message =>
    some
      { name := name
        wireName := (message.declared.map Identifier.text).getD (store.idText key)
        fileStem := (store.id key).elim "" Export.fileStem
        announced := message.announced
        parents := message.parents.map store.nameText
        fields := message.fields.filterMap fun field =>
          match store.node field with
          | .field node => some (store.describeField node)
          | _ => none
        enums := message.enums.map store.idText
        messages := message.messages.map store.idText
        dependencies := (references.closure? name).getD [] }
  | _ => none

def describe (store : Store) (table : SymbolTable Key) (references : References) : Description where
  enums := some (table.enums.entries.filterMap fun entry => store.describeEnum? entry.1 entry.2)
  messages := some (table.messages.entries.filterMap fun entry =>
    store.describeMessage? references entry.1 entry.2.handle)

def products (store : Store) (root table references : Key) : Products where
  tree := store.tree (some root)
  index := Report.indexLines (store.table table)
  description := store.describe (store.table table) (store.referencesAt references)
  references := store.referencesAt references

/-- The picture of a schema after a stage, with what the stage has filled. -/
def picture (store : Store) (runner : Runner) (root : Key) : List Report.Line :=
  store.tree (some root) ++
    match runner.stage with
    | .index => Report.indexLines (store.table runner.table)
    | .depend => Report.referenceLines (store.referencesAt runner.references)
    | _ => []

end Store

/-- What happened when a schema was compiled in its place: the events, each with its
store, the failure if there was one, and the store afterwards. -/
structure InPlace where
  steps : List (Event × Store)
  failure : Option Failure
  store : Store

namespace InPlace

def events (result : InPlace) : List Event :=
  result.steps.map Prod.fst

end InPlace

def runStages (root : Key) (store : Store) : List Key -> InPlace
  | [] => ⟨[], none, store⟩
  | runner :: rest =>
    match (run runner root).run store with
    | (.error failure, store) =>
      ⟨[(.log (.failed (store.runner runner).stage failure.render), store)], some failure,
        store⟩
    | (.ok (), store) =>
      let after := runStages root store rest
      let events := Compilation.completed (store.runner runner).stage
        (store.picture (store.runner runner) root)
      ⟨events.map (·, store) ++ after.steps, after.failure, after.store⟩

structure Passes where
  table : Key
  references : Key
  runners : List Key

def newPasses (aliases : Key) : Work Passes := do
  let table ← newTable
  let references ← newReferences
  let runners ← [Stage.rename, .flatten, .index, .resolve, .substitute, .depend].mapM fun stage =>
    newRunner { stage, table, aliases, references }
  return ⟨table, references, runners⟩

def compileInPlace (aliases : Aliases) (root : Key) (store : Store) : InPlace × Passes :=
  let raw : Event := .picture Compilation.firstHeading (store.tree (some root))
  match (newAliases aliases >>= newPasses).run store with
  | (.error failure, store) => (⟨[(raw, store)], some failure, store⟩, ⟨0, 0, []⟩)
  | (.ok passes, store) =>
    let result := runStages root store passes.runners
    let table := result.store.table passes.table
    let ending : List Event :=
      if result.failure.isNone then [.log (.compiled table.enums.size table.messages.size)]
      else []
    (⟨(raw, store) :: result.steps ++ ending.map (·, result.store), result.failure,
      result.store⟩, passes)

end MessageSchema.Workbench

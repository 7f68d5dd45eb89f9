import MessageSchema.Workbench.Compile

namespace MessageSchema.Workbench

/-!
Compiling a schema in its place, with a picture of it after every stage.

A picture is written as soon as its stage is done.  A writer that refuses a piece of
it puts an end to the compilation.
-/

open Report (Writer Encoder)

namespace Store

/-- Writes a definition with what it holds.  A refusal is no reason to stop the visit:
it is the encoder that writes nothing from then on. -/
def visit (store : Store) : Nat -> Encoder -> Key -> Encoder
  | 0, encoder, _ => encoder
  | depth + 1, encoder, key =>
    match store.node key with
    | .enum enum =>
      (encoder.line (Report.enumText (store.idText key))).inside fun encoder =>
        enum.items.foldl (fun encoder item => encoder.line (Report.itemText item)) encoder
    | .field field => encoder.line (store.fieldText field)
    | .message message =>
      if message.announced then encoder.line (Report.externalText (store.idText key))
      else
        (encoder.line (Report.messageText (store.idText key)
          (message.parents.map store.nameText))).inside fun encoder =>
            (message.enums ++ message.messages ++ message.fields).foldl (store.visit depth) encoder
    | .scope scope =>
      if scope.name.isNone then scope.content.foldl (store.visit depth) encoder
      else
        (encoder.line (Report.scopeText (store.idText key))).inside fun encoder =>
          scope.content.foldl (store.visit depth) encoder

def writeTree (store : Store) (root : Option Key) (writer : Writer) : Encoder :=
  match root with
  | some key => store.visit store.depth { writer } key
  | none => Encoder.line { writer } "UNKNOWN( <nil> )"

/-- Writes the picture after a stage, with what the stage has filled. -/
def writePicture (store : Store) (runner : Runner) (root : Key) (writer : Writer) : Encoder :=
  let written := store.writeTree (some root) writer
  match runner.stage with
  | .index => written.andThen (Report.writeIndex (store.table runner.table))
  | .depend => written.andThen (Report.writeReferences (store.referencesAt runner.references))
  | _ => written

end Store

/-- How a compilation ends that writes pictures. -/
inductive Ending where
  | compiled
  | failed (failure : Failure)
  | refused

/-- A compilation that writes pictures: the writer, the log, the ending, and the store
afterwards. -/
structure Dumped where
  writer : Writer
  log : List LogEntry
  ending : Ending
  store : Store

/-- Writes a picture after some entries of the log, and goes on if nothing was refused. -/
def dump (log : List LogEntry) (heading : String) (picture : Writer -> Encoder) (store : Store)
    (next : Writer -> Dumped) (writer : Writer) : Dumped :=
  let written := (Encoder.write { writer } (heading ++ "\n")).andThen picture
  if written.failed then ⟨written.writer, log, .refused, store⟩
  else { next written.writer with log := log ++ (next written.writer).log }

/-- Runs stages up to the first that fails or whose picture is refused. -/
def dumpStages (root table : Key) : List Key -> Store -> Writer -> Dumped
  | [], store, writer =>
    let table := store.table table
    ⟨writer, [.compiled table.enums.size table.messages.size], .compiled, store⟩
  | runner :: rest, store, writer =>
    match (run runner root).run store with
    | (.error failure, store) =>
      ⟨writer, [.failed (store.runner runner).stage failure.render], .failed failure, store⟩
    | (.ok (), store) =>
      let runner := store.runner runner
      dump [.completed runner.stage] (Compilation.heading runner.stage)
        (store.writePicture runner root) store (dumpStages root table rest store) writer

def compileDumping (options : NamingOptions) (root : Key) (store : Store) (writer : Writer) :
    Dumped × Passes :=
  match options.build with
  | .error error => (⟨writer, [], .failed (.compile error), store⟩, ⟨0, 0, []⟩)
  | .ok aliases =>
    match (newAliases aliases >>= newPasses).run store with
    | (.error failure, store) => (⟨writer, [], .failed failure, store⟩, ⟨0, 0, []⟩)
    | (.ok passes, store) =>
      (dump [] Compilation.firstHeading (store.writeTree (some root)) store
        (dumpStages root passes.table passes.runners store) writer, passes)

end MessageSchema.Workbench

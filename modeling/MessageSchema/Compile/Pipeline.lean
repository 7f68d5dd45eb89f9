import MessageSchema.Compile.Aliased
import MessageSchema.Compile.Flat
import MessageSchema.Report.Tree

namespace MessageSchema

/-!
The compilation of a document.

The stages run in order up to the first failure, and produce events: entries of
the log, and a picture of the schema after every stage.
-/

/-- A compiled schema: the resolved types under their final names, the symbol table, and
the dependencies. -/
structure Compiled where
  types : List (TypeDecl Reference)
  table : SymbolTable Nat
  references : References

inductive LogEntry where
  | completed (stage : Stage)
  | failed (stage : Stage) (report : String)
  | compiled (enums messages : Nat)

def LogEntry.render : LogEntry -> String
  | completed stage => "level=DEBUG msg=\"stage complete\" stage=" ++ stage.name ++ "\n"
  | failed stage report =>
    "level=DEBUG msg=\"stage failed\" stage=" ++ stage.name ++ " err=" ++
      Text.quote report ++ "\n"
  | compiled enums messages =>
    "level=DEBUG msg=compiled enums=" ++ toString enums ++ " messages=" ++
      toString messages ++ "\n"

/-- An entry of the log, or a picture of the schema under a heading. -/
inductive Event where
  | log (entry : LogEntry)
  | picture (heading : String) (lines : List Report.Line)

def picturePieces (heading : String) (lines : List Report.Line) : List String :=
  (heading ++ "\n") :: Report.piecesOf lines

/-- A compilation: what happened, in order, and how it ended. -/
structure Compilation where
  events : List Event
  outcome : Except CompileError Compiled

namespace Compilation

def firstHeading : String := "--- RAW AST ---"

def heading (stage : Stage) : String :=
  "--- POST " ++ stage.name ++ " STAGE ---"

def completed (stage : Stage) (lines : List Report.Line) : List Event :=
  [.log (.completed stage), .picture (heading stage) lines]

def failed (stage : Stage) (error : CompileError) : Compilation :=
  ⟨[.log (.failed stage error.render)], .error error⟩

def after (events : List Event) (compilation : Compilation) : Compilation :=
  ⟨events ++ compilation.events, compilation.outcome⟩

def depend (types : List (TypeDecl Reference)) (table : SymbolTable Nat) : Compilation :=
  let references := dependencies types table
  let lines := Report.typesLines (·.name.text) types ++ Report.referenceLines references
  ⟨completed .depend lines ++ [.log (.compiled table.enums.size table.messages.size)],
    .ok ⟨types, table, references⟩⟩

def aliased (aliases : Aliases) (types : List (TypeDecl Reference)) (table : SymbolTable Nat) :
    Compilation :=
  match aliasNames aliases types table with
  | .error error => failed .substitute error
  | .ok (types, table) =>
    (depend types table).after
      (completed .substitute (Report.typesLines (·.name.text) types))

def resolved (aliases : Aliases) (types : List (TypeDecl Identifier))
    (table : SymbolTable Nat) : Compilation :=
  match resolve types table with
  | .error error => failed .resolve error
  | .ok types =>
    (aliased aliases types table).after
      (completed .resolve (Report.typesLines (·.name.text) types))

def indexed (aliases : Aliases) (types : List (TypeDecl Identifier)) : Compilation :=
  match index types with
  | .error error => failed .index error
  | .ok table =>
    (resolved aliases types table).after
      (completed .index (Report.typesLines Identifier.text types ++ Report.indexLines table))

def of (aliases : Aliases) (document : Document) : Compilation :=
  let renamed := qualify document
  let types := flatten renamed
  (indexed aliases types).after
    (.picture firstHeading (Report.documentLines document)
      :: completed .rename (Report.documentLines renamed)
      ++ completed .flatten (Report.typesLines Identifier.text types))

def log (events : List Event) : List LogEntry :=
  events.filterMap fun event =>
    match event with
    | .log entry => some entry
    | .picture _ _ => none

end Compilation

def compile (options : NamingOptions) (document : Document) : Except CompileError Compiled :=
  match options.build with
  | .error error => .error error
  | .ok aliases => (Compilation.of aliases document).outcome

end MessageSchema

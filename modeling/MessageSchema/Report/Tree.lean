import MessageSchema.Compile.Dependencies

namespace MessageSchema.Report

/-!
Reports made of lines, and writers of limited room.

A line is written as its indentation, its text and the line end.  A writer may
refuse a piece that does not fit.  An encoder remembers that and hands it nothing
afterwards, though what is visited goes on.
-/

structure Line where
  indent : Nat
  text : String
deriving DecidableEq, Repr, Inhabited

namespace Line

/-- The pieces in which a line is written; without indentation there is no piece for it.
-/
def pieces (line : Line) : List String :=
  if line.indent = 0 then [line.text, "\n"]
  else [String.ofList (List.replicate line.indent '\t'), line.text, "\n"]

end Line

def piecesOf (lines : List Line) : List String :=
  lines.flatMap Line.pieces

def render (lines : List Line) : String :=
  String.join (piecesOf lines)

/-- A writer: what it has taken so far, and how many bytes it takes in all if
there is a limit. -/
structure Writer where
  limit : Option Nat
  taken : List String := []

namespace Writer

def size (writer : Writer) : Nat :=
  (writer.taken.map String.utf8ByteSize).foldr (· + ·) 0

def text (writer : Writer) : String :=
  String.join writer.taken.reverse

/-- Takes one piece, or refuses it if it would go past the limit. -/
def write (writer : Writer) (piece : String) : Option Writer :=
  match writer.limit with
  | some limit =>
    if limit < writer.size + piece.utf8ByteSize then none
    else some { writer with taken := piece :: writer.taken }
  | none => some { writer with taken := piece :: writer.taken }

end Writer

/-- What is visited writes to an encoder: the writer behind it, the indentation of the
next line, and whether a piece was refused. -/
structure Encoder where
  writer : Writer
  indent : Nat := 0
  failed : Bool := false

namespace Encoder

def write (encoder : Encoder) (piece : String) : Encoder :=
  if encoder.failed then encoder
  else
    match encoder.writer.write piece with
    | some writer => { encoder with writer := writer }
    | none => { encoder with failed := true }

def writeAll (encoder : Encoder) (pieces : List String) : Encoder :=
  pieces.foldl write encoder

def line (encoder : Encoder) (text : String) : Encoder :=
  encoder.writeAll (Line.pieces ⟨encoder.indent, text⟩)

/-- A visit one level further in. -/
def inside (encoder : Encoder) (visit : Encoder -> Encoder) : Encoder :=
  let after := visit { encoder with indent := encoder.indent + 1 }
  { after with indent := after.indent - 1 }

/-- Another report to the same writer, unless a piece was refused. -/
def andThen (encoder : Encoder) (report : Writer -> Encoder) : Encoder :=
  if encoder.failed then encoder else report encoder.writer

end Encoder

/-!
The symbol table and the dependencies as text.
-/

def entryText (entry : String × DefinitionKind) : String :=
  entry.2.name ++ " " ++ entry.1

def closureText (entry : String × List String) : String :=
  entry.1 ++ (if entry.2.isEmpty then " ->" else " -> " ++ String.intercalate ", " entry.2)

def indexLines {δ : Type} (table : SymbolTable δ) : List Line :=
  table.listing.map fun entry => ⟨0, entryText entry⟩

def writeIndex {δ : Type} (table : SymbolTable δ) (writer : Writer) : Encoder :=
  table.listing.foldl (fun encoder entry => encoder.line (entryText entry)) { writer }

def referenceLines (references : References) : List Line :=
  references.closures.entries.map fun entry => ⟨0, closureText entry⟩

def writeReferences (references : References) (writer : Writer) : Encoder :=
  references.closures.entries.foldl (fun encoder entry => encoder.line (closureText entry))
    { writer }

/-!
The tree of a schema as indented text.

Namespaces and messages open a level; a message shows its enums, then its
messages, then its fields.
-/

def boundText (bound : Int) : String :=
  if bound = unbounded then "[]" else "[" ++ toString bound ++ "]"

def fieldText (modifiers : Modifiers) (type : String) (bounds : List Int) (name : String)
    (ordinal : Option Int) (default : Option Literal) : String :=
  "field( " ++ (if modifiers.render = "" then "" else modifiers.render ++ " ")
    ++ type ++ String.join (bounds.map boundText) ++ " " ++ name
    ++ (ordinal.elim "" fun ordinal => " = " ++ toString ordinal)
    ++ (default.elim "" fun value => " [default=" ++ value.render ++ "]") ++ " )"

def scopeText (name : String) : String :=
  "namespace( " ++ name ++ " )"

def messageText (name : String) (parents : List String) : String :=
  "message( " ++ name
    ++ (if parents.isEmpty then "" else " extends " ++ String.intercalate ", " parents) ++ " )"

def externalText (name : String) : String :=
  "extern message( " ++ name ++ " )"

def enumText (name : String) : String :=
  "enum( " ++ name ++ " )"

def itemText (item : EnumItem) : String :=
  item.name ++ " = " ++ toString item.value

def enumLines (indent : Nat) (name : String) (items : List EnumItem) : List Line :=
  ⟨indent, enumText name⟩ :: items.map fun item => ⟨indent + 1, itemText item⟩

section
variable {ρ : Type} (shown : ρ -> String)

def fieldLine (indent : Nat) (field : Field ρ) : Line :=
  ⟨indent, fieldText field.modifiers (field.type.render shown) field.bounds field.name
    field.ordinal field.default⟩

mutual

def messageLines (indent : Nat) : Message ρ -> List Line
  | .external name => [⟨indent, externalText name.current.text⟩]
  | .defined name parents enums messages fields =>
    ⟨indent, messageText name.current.text (parents.map Identifier.text)⟩ ::
      (enums.flatMap fun decl => enumLines (indent + 1) decl.name.text decl.items)
        ++ messagesLines (indent + 1) messages
        ++ fields.map (fieldLine shown (indent + 1))

def messagesLines (indent : Nat) : List (Message ρ) -> List Line
  | [] => []
  | message :: rest => messageLines indent message ++ messagesLines indent rest

end

def typeLines (indent : Nat) : TypeDecl ρ -> List Line
  | .enum decl => enumLines indent decl.name.text decl.items
  | .message decl => messageLines shown indent decl

def typesLines (types : List (TypeDecl ρ)) : List Line :=
  types.flatMap (typeLines shown 0)

end

mutual

def declarationLines (indent : Nat) : Declaration -> List Line
  | .type decl => typeLines Identifier.text indent decl
  | .scope name content => ⟨indent, scopeText name.text⟩ :: contentLines (indent + 1) content

def contentLines (indent : Nat) : List Declaration -> List Line
  | [] => []
  | declaration :: rest => declarationLines indent declaration ++ contentLines indent rest

end

def documentLines (document : Document) : List Line :=
  contentLines 0 document

end MessageSchema.Report

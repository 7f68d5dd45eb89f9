namespace MessageSchema.Name

/-!
Cutting a text at a separator.

A text with `n` separators has `n + 1` pieces, which may be empty.  Separators
are found from the left and do not overlap.
-/

/-- The pieces of a text, given the current piece in reverse and the number of
characters that still belong to the last separator. -/
def piecesFrom (separator current : List Char) : Nat -> List Char -> List (List Char)
  | _, [] => [current.reverse]
  | skipped + 1, _ :: rest => piecesFrom separator current skipped rest
  | 0, value :: rest =>
    if separator.isPrefixOf (value :: rest) then
      current.reverse :: piecesFrom separator [] (separator.length - 1) rest
    else
      piecesFrom separator (value :: current) 0 rest

/-- The pieces of a text between separators.  Without a separator the characters are the
pieces. -/
def pieces (separator text : String) : List String :=
  if separator.toList.isEmpty then
    text.toList.map fun value => String.ofList [value]
  else
    (piecesFrom separator.toList [] 0 text.toList).map String.ofList

def cut? (mark : Char) (text : String) : Option (String × String) :=
  match text.toList.span (· != mark) with
  | (_, []) => none
  | (before, _ :: after) => some (String.ofList before, String.ofList after)

end MessageSchema.Name

namespace MessageSchema

/-!
Dotted names.

An identifier is a sequence of segments, outermost first, such as the three of
`a.b.c`.  Different segments can have the same text, since a segment may hold a
dot or be empty; those from source text never do.
-/

/-- A name as its segments, from the outermost scope inwards. -/
structure Identifier where
  segments : List String
deriving DecidableEq, Repr, Inhabited

namespace Identifier

def single (segment : String) : Identifier :=
  ⟨[segment]⟩

/-- Reads a name without its empty segments.  If no other is there, one empty segment
results. -/
def parse (source : String) (separator : String) : Identifier :=
  match (Name.pieces separator source).filter (· != "") with
  | [] => single ""
  | segments => ⟨segments⟩

def split (source : String) (separator : String) : Identifier :=
  match Name.pieces separator source with
  | [] => single ""
  | segments => ⟨segments⟩

def ofDotted (source : String) : Identifier :=
  parse source "."

def join (separator : String) (name : Identifier) : String :=
  String.intercalate separator name.segments

def text (name : Identifier) : String :=
  name.join "."

/-- A name is blank if it says nothing: it has no segments, or one that is
empty. -/
def isBlank (name : Identifier) : Bool :=
  name.segments == [] || name.segments == [""]

def append (scope member : Identifier) : Identifier :=
  ⟨scope.segments ++ member.segments⟩

def parent? (name : Identifier) : Option Identifier :=
  if name.segments.length < 2 then none else some ⟨name.segments.dropLast⟩

def textOf : Option Identifier -> String
  | some name => name.text
  | none => "NULL"

end Identifier
end MessageSchema

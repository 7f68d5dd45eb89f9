import MessageSchema.Data.Yaml.Scalar
import MessageSchema.Schema.Literal
import MessageSchema.Text.Base64

namespace MessageSchema.Data
namespace Yaml

/-!
Plain data written as a YAML document.

Records and lists take lines of their own, two blanks deeper, and only empty
ones stand in brackets.  Lines are never folded.
-/

def blanks (count : Nat) : String :=
  String.ofList (List.replicate count ' ')

def escapeChar (value : Char) : String :=
  let code := value.toNat
  if code = 0x00 then "\\0"
  else if code = 0x07 then "\\a"
  else if code = 0x08 then "\\b"
  else if code = 0x09 then "\\t"
  else if code = 0x0A then "\\n"
  else if code = 0x0B then "\\v"
  else if code = 0x0C then "\\f"
  else if code = 0x0D then "\\r"
  else if code = 0x1B then "\\e"
  else if code = 0x22 then "\\\""
  else if code = 0x5C then "\\\\"
  else if code = 0x85 then "\\N"
  else if code = 0x2028 then "\\L"
  else if code = 0x2029 then "\\P"
  else if isWritable value then String.ofList [value]
  else if code <= 0xFF then "\\x" ++ Number.hexUpper 2 code
  else if code <= 0xFFFF then "\\u" ++ Number.hexUpper 4 code
  else "\\U" ++ Number.hexUpper 8 code

def doubleQuoted (text : List Char) : String :=
  "\"" ++ String.join (text.map escapeChar) ++ "\""

/-- The characters of a text.  The mark says that a line was ended, so that the
indentation is due. -/
def singleBody (indent : Nat) : Bool -> List Char -> String
  | _, [] => ""
  | due, value :: rest =>
    if isBreak value then String.ofList [value] ++ singleBody indent true rest
    else
      (if due && value != ' ' then blanks indent else "")
        ++ (if value == '\'' then "''" else String.ofList [value])
        ++ singleBody indent (due && value == ' ') rest

def singleQuoted (indent : Nat) (text : List Char) : String :=
  "'" ++ singleBody indent false text ++ "'"

/-- The lines of a block.  The marks say that the indentation is due, and that the line
in front was ended. -/
def blockBody (indent : Nat) : Bool -> Bool -> List Char -> String
  | _, ended, [] => if ended then "" else "\n"
  | due, ended, value :: rest =>
    if isBreak value then String.ofList [value] ++ blockBody indent true true rest
    else
      (if due then (if ended then "" else "\n") ++ blanks indent else "")
        ++ String.ofList [value] ++ blockBody indent false false rest

/-- The breaks at the end of a block are dropped, one is kept, or all are. -/
def chomping (text : List Char) : String :=
  match text.reverse with
  | [] => "-"
  | last :: rest =>
    if !isBreak last then "-"
    else
      match rest with
      | [] => "+"
      | before :: _ => if isBreak before then "+" else ""

def block (indent : Nat) (text : List Char) : String :=
  let depth := if text.head?.any fun value => value == ' ' || isBreak value then "2" else ""
  "|" ++ depth ++ chomping text ++ blockBody indent true false text

def textLine (indent : Nat) (text : List Char) : String :=
  match style text with
  | .plain => String.ofList text ++ "\n"
  | .single => singleQuoted indent text ++ "\n"
  | .double => doubleQuoted text ++ "\n"
  | .block => block indent text

def wrapped (line : Nat) : Nat -> List Char -> List Char
  | 0, _ => []
  | fuel + 1, text =>
    if text.isEmpty then [] else text.take line ++ '\n' :: wrapped line fuel (text.drop line)

def binaryLine (indent : Nat) (bytes : List UInt8) : String :=
  let encoded := (Text.base64Encode bytes).toList
  if encoded.length < 70 then "!!binary " ++ String.ofList encoded ++ "\n"
  else "!!binary " ++ block indent (wrapped 70 encoded.length encoded)

/-- Numbers are written as in the schema language, but for the special ones. -/
def doubleText (value : Number.Double) : String :=
  if value.isNaN then ".nan"
  else if value = .infinity false then ".inf"
  else if value = .infinity true then "-.inf"
  else Literal.doubleLayout.write value

def scalarLine (indent : Nat) : Value -> String
  | .null => "null\n"
  | .bool value => (if value then "true" else "false") ++ "\n"
  | .int value => toString value ++ "\n"
  | .double value => doubleText value ++ "\n"
  | .text glyphs =>
    match Text.chars? glyphs with
    | some text => textLine indent text
    | none => binaryLine indent (Text.encode glyphs)
  | .time value => value ++ "\n"
  | .list _ => "[]\n"
  | .record _ => "\x7b\x7d\n"
  | .table _ => "\x7b\x7d\n"

def longestKey : Nat := 128

def isSimpleKey : Value -> Bool
  | .text glyphs =>
    match Text.chars? glyphs with
    | some text => !text.any isBreak && (String.ofList text).utf8ByteSize <= longestKey
    | none => (Text.base64Encode (Text.encode glyphs)).length + "!!binary".length <= longestKey
  | _ => true

/-- A key and its colon.  One that is long, or takes several lines, is marked and has
the colon below it. -/
def key (indent : Nat) (value : Value) : String :=
  let line := scalarLine (indent + 2) value
  if isSimpleKey value then String.ofList line.toList.dropLast ++ ":"
  else "? " ++ line ++ blanks indent ++ ":"

/-- What comes between a mark and the parts of a value: a blank, or a new line with
their indentation. -/
def lead (isInline : Bool) (indent : Nat) : String :=
  if isInline then " " else "\n" ++ blanks (indent + 2)

mutual

/-- A value behind its mark.  Its parts start on the same line behind a dash, and on the
next behind a key. -/
def behind (isInline : Bool) (indent : Nat) : Value -> String
  | .list (item :: rest) => lead isInline indent ++ itemLines (indent + 2) (item :: rest)
  | .record (member :: rest) => lead isInline indent ++ memberLines (indent + 2) (member :: rest)
  | .table (entry :: rest) => lead isInline indent ++ entryLines (indent + 2) (entry :: rest)
  | value => " " ++ scalarLine (indent + 2) value

def itemLines (indent : Nat) : List Value -> String
  | [] => ""
  | [item] => "-" ++ behind true indent item
  | item :: next :: rest =>
    "-" ++ behind true indent item ++ blanks indent ++ itemLines indent (next :: rest)

def memberLines (indent : Nat) : List (String × Value) -> String
  | [] => ""
  | [(name, value)] =>
    key indent (.ofString name) ++ behind (!isSimpleKey (.ofString name)) indent value
  | (name, value) :: next :: rest =>
    key indent (.ofString name) ++ behind (!isSimpleKey (.ofString name)) indent value
      ++ blanks indent ++ memberLines indent (next :: rest)

def entryLines (indent : Nat) : List (Value × Value) -> String
  | [] => ""
  | [(name, value)] => key indent name ++ behind (!isSimpleKey name) indent value
  | (name, value) :: next :: rest =>
    key indent name ++ behind (!isSimpleKey name) indent value ++ blanks indent
      ++ entryLines indent (next :: rest)

end

def document : Value -> String
  | .list (item :: rest) => itemLines 0 (item :: rest)
  | .record (member :: rest) => memberLines 0 (member :: rest)
  | .table (entry :: rest) => entryLines 0 (entry :: rest)
  | value => scalarLine 2 value

end Yaml
end MessageSchema.Data

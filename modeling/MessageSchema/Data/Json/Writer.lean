import MessageSchema.Data.Value
import MessageSchema.Number.Shortest

namespace MessageSchema.Data

/-!
Plain data written as JSON.

Texts are safe in a web page or a script: angle brackets, the ampersand and the
line separators of Unicode are escaped.
-/

namespace Json

/-- Numbers with an exponent from `-6` to `20` are written out in full. -/
def doubleLayout : Number.Layout where
  leastFull := -6
  pastFull := 21
  exponentWidth := 1
  positiveInfinity := "+Inf"
  negativeInfinity := "-Inf"
  undefined := "NaN"

def numbered (value : Char) : String :=
  "\\u" ++ Number.hex 4 value.toNat

def escapeChar (value : Char) : String :=
  match value with
  | '"' => "\\\""
  | '\\' => "\\\\"
  | '\n' => "\\n"
  | '\r' => "\\r"
  | '\t' => "\\t"
  | '<' => numbered value
  | '>' => numbered value
  | '&' => numbered value
  | _ =>
    if value.toNat = 0x08 then "\\b"
    else if value.toNat = 0x0C then "\\f"
    else if value.toNat < 0x20 ∨ value.toNat = 0x2028 ∨ value.toNat = 0x2029 then numbered value
    else String.ofList [value]

/-- A unit of a text; a stray byte is written as an escaped replacement mark. -/
def escapeGlyph : Text.Glyph -> String
  | .char value => escapeChar value
  | .stray _ => numbered Text.Glyph.replacement

def quote (glyphs : List Text.Glyph) : String :=
  "\"" ++ String.join (glyphs.map escapeGlyph) ++ "\""

def quoteString (text : String) : String :=
  quote (Text.ofString text)

mutual

/-- A value without any blanks.  One that cannot be written is null. -/
def compact : Value -> String
  | .null => "null"
  | .bool value => if value then "true" else "false"
  | .int value => toString value
  | .double value => doubleLayout.write value
  | .text value => quote value
  | .time value => quoteString value
  | .list items => "[" ++ String.intercalate "," (compactItems items) ++ "]"
  | .record members => "\x7b" ++ String.intercalate "," (compactMembers members) ++ "\x7d"
  | .table _ => "null"

def compactItems : List Value -> List String
  | [] => []
  | item :: rest => compact item :: compactItems rest

def compactMembers : List (String × Value) -> List String
  | [] => []
  | (name, value) :: rest => (quoteString name ++ ":" ++ compact value) :: compactMembers rest

end

def newline (depth : Nat) : String :=
  "\n" ++ String.ofList (List.replicate (2 * depth) ' ')

def block (opening closing : String) (depth : Nat) (parts : List String) : String :=
  if parts.isEmpty then opening ++ closing
  else
    opening ++ newline (depth + 1) ++ String.intercalate ("," ++ newline (depth + 1)) parts
      ++ newline depth ++ closing

mutual

def indented (depth : Nat) : Value -> String
  | .list items => block "[" "]" depth (indentedItems (depth + 1) items)
  | .record members => block "\x7b" "\x7d" depth (indentedMembers (depth + 1) members)
  | value => compact value

def indentedItems (depth : Nat) : List Value -> List String
  | [] => []
  | item :: rest => indented depth item :: indentedItems depth rest

def indentedMembers (depth : Nat) : List (String × Value) -> List String
  | [] => []
  | (name, value) :: rest =>
    (quoteString name ++ ": " ++ indented depth value) :: indentedMembers depth rest

end

mutual

/-- Can the value be written?  Numbers have to be finite, and all keys texts. -/
def isWritable : Value -> Bool
  | .double value => value.isFinite
  | .list items => areWritable items
  | .record members => membersAreWritable members
  | .table _ => false
  | _ => true

def areWritable : List Value -> Bool
  | [] => true
  | item :: rest => isWritable item && areWritable rest

def membersAreWritable : List (String × Value) -> Bool
  | [] => true
  | (_, value) :: rest => isWritable value && membersAreWritable rest

end

def document (value : Value) : String :=
  indented 0 value ++ "\n"

end Json
end MessageSchema.Data

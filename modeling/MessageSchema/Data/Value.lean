import MessageSchema.Number.Double
import MessageSchema.Text.Glyph

namespace MessageSchema.Data

/-!
Plain data, as it is exchanged with other programs.
-/

/-- Plain data.  The members of a record keep their order, a table has keys of any kind,
and a moment is kept as its text. -/
inductive Value where
  | null
  | bool (value : Bool)
  | int (value : Int)
  | double (value : Number.Double)
  | text (value : List Text.Glyph)
  | time (value : String)
  | list (items : List Value)
  | record (members : List (String × Value))
  | table (entries : List (Value × Value))
deriving Repr

namespace Value

instance : Inhabited Value := ⟨null⟩

def ofString (text : String) : Value :=
  .text (Text.ofString text)

def ofStrings (texts : List String) : Value :=
  .list (texts.map ofString)

/-- Are two values the same key?  They are of one kind then, and have no parts. -/
def isSameKey : Value -> Value -> Bool
  | .null, .null => true
  | .bool a, .bool b => a == b
  | .int a, .int b => a == b
  | .double a, .double b => !a.isNaN && (a == b || (a.magnitude == 0 && b.magnitude == 0))
  | .text a, .text b => a == b
  | .time a, .time b => a == b
  | _, _ => false

end Value
end MessageSchema.Data

import MessageSchema.Number.Shortest
import MessageSchema.Text.Quoted

namespace MessageSchema

/-!
The primitive field types and the numbers of all field types.
-/

/-- A field type that the schema language itself provides. -/
inductive Primitive where
  | indicator
  | bool
  | byte
  | short
  | int
  | long
  | float
  | double
  | string
  | message
  | date
  | time
  | datetime
deriving DecidableEq, Repr, Inhabited

namespace Primitive

def all : List Primitive :=
  [indicator, bool, byte, short, int, long, float, double, string, message, date, time,
    datetime]

def keyword : Primitive -> String
  | indicator => "indicator"
  | bool => "bool"
  | byte => "byte"
  | short => "short"
  | int => "int"
  | long => "long"
  | float => "float"
  | double => "double"
  | string => "string"
  | message => "message"
  | date => "date"
  | time => "time"
  | datetime => "datetime"

def code (primitive : Primitive) : Nat :=
  all.idxOf primitive + 1

def ofCode? (code : Nat) : Option Primitive :=
  if code = 0 then none else all[code - 1]?

theorem ofCode?_code (primitive : Primitive) : ofCode? primitive.code = some primitive := by
  cases primitive <;> rfl

def ofKeyword? (keyword : String) : Option Primitive :=
  all.find? (·.keyword == keyword)

def isInteger : Primitive -> Bool
  | byte | short | int | long => true
  | _ => false

def isFloat : Primitive -> Bool
  | float | double => true
  | _ => false

end Primitive

/-- The number that stands for all types which a schema defines itself. -/
def userTypeCode : Nat := Primitive.all.length + 1

/-- The name of the type with a number.  Zero is no type, and other numbers show
themselves. -/
def typeName (code : Nat) : String :=
  match Primitive.ofCode? code with
  | some primitive => primitive.keyword
  | none =>
    if code = 0 then "INVALID_TYPE"
    else if code = userTypeCode then "user"
    else "Type(" ++ toString code ++ ")"

/-!
Literals, the default values of fields.
-/

/-- The value of a literal.  No field type accepts `missing`, which was never given one.
-/
inductive Literal where
  | missing
  | int (value : Int)
  | double (value : Number.Double)
  | text (value : List Text.Glyph)
  | bool (value : Bool)
deriving DecidableEq, Repr, Inhabited

namespace Literal

/-- Numbers with an exponent from `-4` to `5` are written out; an exponent has two
digits or more. -/
def doubleLayout : Number.Layout where
  leastFull := -4
  pastFull := 6
  exponentWidth := 2
  positiveInfinity := "+Inf"
  negativeInfinity := "-Inf"
  undefined := "NaN"

def primitive? : Literal -> Option Primitive
  | missing => none
  | int _ => some .int
  | double _ => some .double
  | text _ => some .string
  | bool _ => some .bool

def typeName (value : Literal) : String :=
  MessageSchema.typeName (value.primitive?.elim 0 Primitive.code)

def render : Literal -> String
  | missing => "UNKNOWN_TYPE(0)"
  | int value => toString value
  | double value => doubleLayout.write value
  | text value => Text.quoteGlyphs value
  | bool value => if value then "true" else "false"

/-- Can the literal be a default of this primitive type?  Whole numbers fit every
integer type, others both float types. -/
def fits (value : Literal) (type : Primitive) : Bool :=
  match value with
  | missing => false
  | int _ => type.isInteger
  | double _ => type.isFloat
  | text _ => type == .string
  | bool _ => type == .bool

end Literal
end MessageSchema

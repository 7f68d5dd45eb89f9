namespace MessageSchema.Text

/-!
Text as it arrives from outside, read as UTF-8.

A byte that is no part of a character is kept, so that a reader can say where
the fault lies, count columns, or quote the byte.  Encoding the glyphs again
gives the bytes back.
-/

/-- One unit of a text: a character, or a byte that belongs to none. -/
inductive Glyph where
  | char (value : Char)
  | stray (byte : UInt8)
deriving DecidableEq, Repr, Inhabited

/-- A continuation byte carries six bits behind the mark `10`. -/
def isContinuation (byte : UInt8) : Bool :=
  0x80 <= byte && byte <= 0xBF

def payload (byte : UInt8) : Nat :=
  byte.toNat % 64

/-- The character with the number, if it lies in the range of its length of encoding. -/
def scalar? (least number : Nat) : Option Char :=
  if h : least <= number ∧ number.isValidChar then
    some (Char.ofNatAux number h.2)
  else
    none

/-- The character that starts with `first` and goes on in `rest`, with the number of
bytes it takes from `rest`.  Overlong encodings, surrogates and numbers past the last
character are refused. -/
def leading? (first : UInt8) (rest : List UInt8) : Option (Char × Nat) :=
  if first < 0x80 then
    (scalar? 0 first.toNat).map (·, 0)
  else if first < 0xC0 then
    none
  else if first < 0xE0 then
    match rest with
    | b :: _ =>
      if isContinuation b then
        (scalar? 0x80 (first.toNat % 32 * 64 + payload b)).map (·, 1)
      else none
    | [] => none
  else if first < 0xF0 then
    match rest with
    | b :: c :: _ =>
      if isContinuation b && isContinuation c then
        (scalar? 0x800 ((first.toNat % 16 * 64 + payload b) * 64 + payload c)).map (·, 2)
      else none
    | _ => none
  else if first < 0xF8 then
    match rest with
    | b :: c :: d :: _ =>
      if isContinuation b && isContinuation c && isContinuation d then
        (scalar? 0x10000
          (((first.toNat % 8 * 64 + payload b) * 64 + payload c) * 64 + payload d)).map (·, 3)
      else none
    | _ => none
  else none

/-- Reads glyphs onto those already read, in reverse.  The counter says how many bytes
still belong to the last character. -/
def decodeOnto (seen : List Glyph) : Nat -> List UInt8 -> List Glyph
  | _, [] => seen.reverse
  | pending + 1, _ :: rest => decodeOnto seen pending rest
  | 0, byte :: rest =>
    match leading? byte rest with
    | some (value, pending) => decodeOnto (.char value :: seen) pending rest
    | none => decodeOnto (.stray byte :: seen) 0 rest

def decode (bytes : List UInt8) : List Glyph :=
  decodeOnto [] 0 bytes

namespace Glyph

def width : Glyph -> Nat
  | char value => value.utf8Size
  | stray _ => 1

def char? : Glyph -> Option Char
  | char value => some value
  | stray _ => none

def replacement : Char := '\uFFFD'

def shown : Glyph -> Char
  | char value => value
  | stray _ => replacement

def bytes : Glyph -> List UInt8
  | char value => String.utf8EncodeChar value
  | stray byte => [byte]

end Glyph

def encode (glyphs : List Glyph) : List UInt8 :=
  glyphs.flatMap Glyph.bytes

def ofString (text : String) : List Glyph :=
  text.toList.map .char

def toStringLossy (glyphs : List Glyph) : String :=
  String.ofList (glyphs.map Glyph.shown)

def chars? (glyphs : List Glyph) : Option (List Char) :=
  glyphs.mapM Glyph.char?

def utf8 (text : String) : List UInt8 :=
  text.toUTF8.toList

def shownBytes (bytes : List UInt8) : String :=
  toStringLossy (decode bytes)

end MessageSchema.Text

namespace MessageSchema.Text

/-!
Bytes as text in base 64.

Three bytes make four digits of six bits.  A rest of one or two bytes is filled
up with zero bits, and missing digits are written as `=`.
-/

def base64Digits : List Char :=
  "ABCDEFGHIJKLMNOPQRSTUVWXYZabcdefghijklmnopqrstuvwxyz0123456789+/".toList

def base64Digit (value : Nat) : Char :=
  base64Digits.getD (value % 64) '='

def base64Value? (digit : Char) : Option Nat :=
  base64Digits.idxOf? digit

def base64EncodeOnto (written : List Char) : List UInt8 -> List Char
  | a :: b :: c :: rest =>
    let word := (a.toNat * 256 + b.toNat) * 256 + c.toNat
    base64EncodeOnto
      (base64Digit word :: base64Digit (word / 64) :: base64Digit (word / 4096)
        :: base64Digit (word / 262144) :: written) rest
  | [a, b] =>
    let word := (a.toNat * 256 + b.toNat) * 4
    ('=' :: base64Digit word :: base64Digit (word / 64) :: base64Digit (word / 4096)
      :: written).reverse
  | [a] =>
    let word := a.toNat * 16
    ('=' :: '=' :: base64Digit word :: base64Digit (word / 64) :: written).reverse
  | [] => written.reverse

def base64Encode (bytes : List UInt8) : String :=
  String.ofList (base64EncodeOnto [] bytes)

def base64DecodeOnto (read : List UInt8) : List Nat -> Option (List UInt8)
  | a :: b :: c :: d :: rest =>
    let word := ((a * 64 + b) * 64 + c) * 64 + d
    base64DecodeOnto
      (UInt8.ofNat word :: UInt8.ofNat (word / 256) :: UInt8.ofNat (word / 65536) :: read) rest
  | [a, b, c] =>
    let word := (a * 64 + b) * 64 + c
    some (UInt8.ofNat (word / 4) :: UInt8.ofNat (word / 1024) :: read).reverse
  | [a, b] => some (UInt8.ofNat ((a * 64 + b) / 16) :: read).reverse
  | [_] => none
  | [] => some read.reverse

/-- The bytes of a text in base 64.  Line ends are passed over, and fillers end the last
four digits. -/
def base64Decode? (text : String) : Option (List UInt8) :=
  let digits := text.toList.filter fun digit => digit != '\n' && digit != '\r'
  let body := (digits.reverse.dropWhile (· == '=')).reverse
  let fillers := digits.length - body.length
  if digits.length % 4 = 0 ∧ fillers <= 2 then
    (body.mapM base64Value?).bind (base64DecodeOnto [])
  else none

end MessageSchema.Text

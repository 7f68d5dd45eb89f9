import MessageSchema.Text.Glyph

namespace MessageSchema.Glob

/-!
Matchers.

A matcher says whether it accepts the bytes of a name, and where the first piece
begins that it accepts, with the possible lengths of that piece in ascending
order.  If it only accepts names of one number of characters, it says how many.
A name is measured in bytes; a stray byte counts as a replacement mark.
-/

inductive Shape where
  | all
  | single
  | without (chars : List Char)
  | text (bytes : List UInt8)
  | opening (bytes : List UInt8)
  | ending (bytes : List UInt8)
  | other

structure Matcher where
  shape : Shape
  width : Option Nat
  accepts : List UInt8 -> Bool
  find : List UInt8 -> Option (Nat × List Nat)

def placed (bytes : List UInt8) : List (Nat × Char) :=
  ((Text.decode bytes).foldl
    (fun (seen, place) glyph => ((place, glyph.shown) :: seen, place + glyph.width))
    (([], 0) : List (Nat × Char) × Nat)).1.reverse

def indexOf? (piece : List UInt8) : List UInt8 -> Option Nat
  | [] => if piece.isEmpty then some 0 else none
  | byte :: rest =>
    if piece.isPrefixOf (byte :: rest) then some 0 else (indexOf? piece rest).map (· + 1)

def ends (places : List (Nat × Char)) : List Nat :=
  places.map fun (place, value) => place + value.utf8Size

namespace Matcher

def nothing : Matcher where
  shape := .other
  width := some 0
  accepts name := name.isEmpty
  find _ := some (0, [0])

def all : Matcher where
  shape := .all
  width := none
  accepts _ := true
  find name := some (0, (placed name).map (·.1) ++ [name.length])

def text (bytes : List UInt8) : Matcher where
  shape := .text bytes
  width := some (Text.decode bytes).length
  accepts name := name == bytes
  find name := (indexOf? bytes name).map (·, [bytes.length])

/-- Accepts a character that passes a test.  The empty name is taken for the replacement
mark. -/
def ofTest (shape : Shape) (test : Char -> Bool) : Matcher where
  shape := shape
  width := some 1
  accepts name :=
    match Text.decode name with
    | [] => test Text.Glyph.replacement
    | [glyph] => test glyph.shown
    | _ => false
  find name :=
    ((placed name).find? fun (_, value) => test value).map
      fun (place, value) => (place, [value.utf8Size])

def single : Matcher :=
  ofTest .single fun _ => true

def among (negated : Bool) (chars : List Char) : Matcher :=
  match negated, chars with
  | false, [value] => text (Text.utf8 (String.ofList [value]))
  | false, _ => ofTest .other chars.contains
  | true, _ => ofTest (.without chars) fun value => !chars.contains value

def between (negated : Bool) (low high : Char) : Matcher :=
  ofTest .other fun value => (decide (low <= value) && decide (value <= high)) != negated

def atLeast (count : Nat) : Matcher where
  shape := .other
  width := none
  accepts name := 1 <= (Text.decode name).length && count <= (Text.decode name).length
  find name :=
    let lengths := (ends (placed name)).drop (count - 1)
    if name.length + 1 <= count || lengths.isEmpty then none else some (0, lengths)

def atMost (count : Nat) : Matcher where
  shape := .other
  width := none
  accepts name := (Text.decode name).length <= count
  find name := some (0, 0 :: (ends (placed name)).take count)

def containing (piece : List UInt8) : Matcher where
  shape := .other
  width := none
  accepts name := (indexOf? piece name).isSome
  find name :=
    (indexOf? piece name).map fun place =>
      let offset := place + piece.length
      let rest := name.drop offset
      (0, (placed rest).map (offset + ·.1) ++ [offset + rest.length])

def free (piece : List UInt8) : Matcher where
  shape := .other
  width := none
  accepts name := (indexOf? piece name).isNone
  find name :=
    let part := name.take ((indexOf? piece name).getD name.length)
    some (0, (placed part).map (·.1) ++ [part.length])

def opening (piece : List UInt8) : Matcher where
  shape := .opening piece
  width := none
  accepts name := piece.isPrefixOf name
  find name :=
    (indexOf? piece name).map fun place =>
      (place, piece.length ::
        (ends (placed (name.drop (place + piece.length)))).map (piece.length + ·))

def ending (piece : List UInt8) : Matcher where
  shape := .ending piece
  width := none
  accepts name := piece.isSuffixOf name
  find name := (indexOf? piece name).map fun place => (0, [place + piece.length])

def lastPlaces (piece : List UInt8) : Nat -> List UInt8 -> List Nat
  | 0, _ => []
  | fuel + 1, name =>
    match indexOf? piece.reverse name.reverse with
    | none => []
    | some back =>
      let place := name.length - back - piece.length
      place :: lastPlaces piece fuel (name.take place)

/-- Accepts a name that starts with one piece and ends with another; the two
may overlap. -/
def enclosed (first last : List UInt8) : Matcher where
  shape := .other
  width := none
  accepts name := first.isPrefixOf name && last.isSuffixOf name
  find name :=
    match indexOf? first name with
    | none => none
    | some place =>
      let rest := name.drop place
      if last.isEmpty then some (place, [rest.length])
      else
        let places := lastPlaces last rest.length rest
        if places.isEmpty then none
        else some (place, places.reverse.map (· + last.length))

def merge : List Nat -> List Nat -> List Nat
  | [], bs => bs
  | as, [] => as
  | a :: as, b :: bs =>
    if a = b then a :: merge as bs
    else if a < b then a :: merge as (b :: bs)
    else b :: merge (a :: as) bs
termination_by as bs => as.length + bs.length

/-- The better of two finds: the earlier one, or both in one. -/
def better (found next : Option (Nat × List Nat)) : Option (Nat × List Nat) :=
  match found, next with
  | none, _ => next
  | _, none => found
  | some (a, as), some (b, bs) =>
    if b < a then next else if a < b then found else some (a, merge as bs)

/-- Accepts what one of the matchers accepts.  The number of characters is known if
those that know it agree and none comes before one that does not. -/
def anyOf : List Matcher -> Matcher
  | [one] => one
  | members => {
      shape := .other
      width :=
        match members.dropWhile (·.width.isNone) with
        | [] => none
        | first :: rest => if rest.all (·.width == first.width) then first.width else none
      accepts := fun name => members.any (·.accepts name)
      find := fun name => members.foldl (fun found member => better found (member.find name)) none }

/-- One more matcher for the same piece: its lengths count from its own place, those so
far from theirs. -/
def narrow (name : List UInt8) (found : Option (Nat × Nat × List Nat)) (member : Matcher) :
    Option (Nat × Nat × List Nat) :=
  match found with
  | none => none
  | some (index, offset, lengths) =>
    match member.find (name.drop index) with
    | none => none
    | some (place, next) =>
      let kept := lengths.flatMap fun length =>
        next.filter fun other => length + index == other + (place + offset)
      if kept.isEmpty then none else some (place + offset, offset + place, kept)

def everyOf (members : List Matcher) : Matcher where
  shape := .other
  width := none
  accepts name := members.all (·.accepts name)
  find name :=
    match members with
    | [] => some (0, [])
    | first :: rest =>
      (rest.foldl (narrow name) ((first.find name).map fun (place, lengths) =>
        (place, place, lengths))).map fun (index, _, lengths) => (index, lengths)

/-- Accepts one matcher behind the other, each on its width.  A piece ends with the
first byte of its last character. -/
def inTurn : List Matcher -> List UInt8 -> Bool
  | [], _ => true
  | member :: members, name =>
    let places := placed name
    let wanted := member.width.getD 0
    let last := if wanted = 0 then places.getLast? else places[wanted - 1]?
    match last with
    | none => false
    | some (place, _) =>
      member.accepts (name.take (place + 1)) && inTurn members (name.drop (place + 1))

def row (members : List Matcher) (total : Nat) : Matcher where
  shape := .other
  width := some total
  accepts name := (Text.decode name).length == total && inTurn members name
  find name :=
    (((placed name).map (·.1)).find? fun place =>
      total <= name.length - place && inTurn members (name.drop place)).map (·, [total])

/-- Does an absent matcher, which takes the empty name, or a present one
accept the name? -/
def acceptsOr (matcher : Option Matcher) (name : List UInt8) : Bool :=
  match matcher with
  | none => name.isEmpty
  | some present => present.accepts name

/-- Looks for a place where the middle matcher finds a piece with an accepted name on
either side, from an offset up to a limit. -/
def splitFrom (middle : Matcher) (left right : Option Matcher) (name : List UInt8) (limit : Nat) :
    Nat -> Nat -> Bool
  | 0, _ => false
  | fuel + 1, offset =>
    if limit <= offset then false
    else
      match middle.find ((name.take limit).drop offset) with
      | none => false
      | some (place, lengths) =>
        let start := offset + place
        if acceptsOr left (name.take start) &&
            lengths.any fun length => acceptsOr right (name.drop (start + length)) then
          true
        else
          let step := ((Text.decode (name.drop start)).head?.map Text.Glyph.width).getD 0
          splitFrom middle left right name limit fuel (start + step)

/-- Accepts a piece of the middle matcher between names of the others, with shorter
forms for texts at an end. -/
def split (middle : Matcher) (left right : Option Matcher) : Matcher :=
  let general : Matcher := {
    shape := .other
    width := do
      return (← (left.elim (some 0) (·.width))) + (← middle.width)
        + (← (right.elim (some 0) (·.width)))
    accepts := fun name =>
      let before := (left.elim (some 0) (·.width)).getD 0
      let after := (right.elim (some 0) (·.width)).getD 0
      let total := do
        return (← (left.elim (some 0) (·.width))) + (← middle.width)
          + (← (right.elim (some 0) (·.width)))
      (total.all (· <= name.length)) &&
        splitFrom middle left right name (name.length - after) (name.length + 1) before
    find := fun _ => none }
  match middle.shape, left.map Matcher.shape, right.map Matcher.shape with
  | .text bytes, none, none => text bytes
  | .text bytes, some .all, some .all => containing bytes
  | .text bytes, some .all, none => ending bytes
  | .text bytes, none, some .all => opening bytes
  | .text bytes, none, some (.ending last) => enclosed bytes last
  | .text bytes, some (.opening first), none => enclosed first bytes
  | _, _, _ => general

end Matcher
end MessageSchema.Glob

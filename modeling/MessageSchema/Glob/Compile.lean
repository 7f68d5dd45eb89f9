import MessageSchema.Glob.Matcher

namespace MessageSchema.Glob

/-!
Name patterns.

A star stands for any run of characters and a question mark for one.  Square
brackets hold the characters of one place, as a list or a range, turned around
by an exclamation mark.  Braces hold alternatives between commas, and may be
left open.  A backslash takes the next character as it is.
-/

inductive Node where
  | nothing
  | wild (long : Bool)
  | single
  | among (negated : Bool) (chars : List Char)
  | between (negated : Bool) (low high : Char)
  | text (chars : List Char)
  | sequence (parts : List Node)
  | choice (alternatives : List Node)
deriving Inhabited

mutual

def Node.same : Node -> Node -> Bool
  | .nothing, .nothing => true
  | .wild a, .wild b => a == b
  | .single, .single => true
  | .among n a, .among m b => n == m && a == b
  | .between n a b, .between m c d => n == m && a == c && b == d
  | .text a, .text b => a == b
  | .sequence a, .sequence b => Node.sameAll a b
  | .choice a, .choice b => Node.sameAll a b
  | _, _ => false

def Node.sameAll : List Node -> List Node -> Bool
  | [], [] => true
  | a :: as, b :: bs => Node.same a b && Node.sameAll as bs
  | _, _ => false

end

inductive Fault where
  | endOfPattern
  | bracketNotClosed
  | emptyBrackets
  | rangeReversed (low high : Char)
  | unreadable
deriving DecidableEq, Repr

def Fault.message : Fault -> String
  | endOfPattern => "unexpected end of input"
  | bracketNotClosed => "expected close range character"
  | emptyBrackets => "could not parse range"
  | rangeReversed low high =>
    "hi character '" ++ String.ofList [high] ++ "' should be greater than lo '"
      ++ String.ofList [low] ++ "'"
  | unreadable => "could not read rune"

def readText (ends : Char -> Bool) : List Char -> List Char × List Char
  | [] => ([], [])
  | '\\' :: value :: rest =>
    let (text, left) := readText ends rest
    (value :: text, left)
  | value :: rest =>
    if ends value then ([], value :: rest)
    else if value = '\\' then ([], rest)
    else
      let (text, left) := readText ends rest
      (value :: text, left)

def readRange (negated : Bool) (low : Char) : List Char -> Except Fault (Node × List Char)
  | [] => .error .endOfPattern
  | [_] => .error .endOfPattern
  | high :: close :: rest =>
    if close ≠ ']' then .error .bracketNotClosed
    else if high < low then .error (.rangeReversed low high)
    else if low.toNat = 0 ∨ high.toNat = 0 then .error .emptyBrackets
    else .ok (.between negated low high, rest)

def readList (negated : Bool) (source : List Char) : Except Fault (Node × List Char) :=
  match readText (· == ']') source with
  | (chars, _ :: rest) =>
    if chars.isEmpty then .error .emptyBrackets else .ok (.among negated chars, rest)
  | (_, []) => .error .endOfPattern

/-- What stands in brackets, behind the sign that may turn it around. -/
def readBracketBody (negated : Bool) : List Char -> Except Fault (Node × List Char)
  | [] => .error .endOfPattern
  | low :: '-' :: rest => readRange negated low rest
  | source => readList negated source

def readBracket : List Char -> Except Fault (Node × List Char)
  | '!' :: rest => readBracketBody true rest
  | source => readBracketBody false source

structure Open where
  before : List Node
  alternatives : List Node

def close (parts : List Node) : List Open -> Node
  | [] => .sequence parts.reverse
  | frame :: frames =>
    close (.choice (.sequence parts.reverse :: frame.alternatives).reverse :: frame.before) frames

def endsText (inBraces : Bool) (value : Char) : Bool :=
  value == '?' || value == '*' || value == '[' || value == '\x7b' ||
    (inBraces && (value == '\x7d' || value == ','))

/-- Reads a pattern onto the parts so far, in reverse.  Every step takes a character, so
the length is enough fuel. -/
def parseOnto : Nat -> List Node -> List Open -> List Char -> Except Fault Node
  | 0, parts, frames, _ => .ok (close parts frames)
  | _ + 1, parts, frames, [] => .ok (close parts frames)
  | fuel + 1, parts, frames, value :: rest =>
    if value = '\x7b' then
      parseOnto fuel [] (⟨parts, []⟩ :: frames) rest
    else if value = '[' then do
      let (node, left) ← readBracket rest
      parseOnto fuel (node :: parts) frames left
    else if value = '?' then
      parseOnto fuel (.single :: parts) frames rest
    else if value = '*' then
      if rest.head? = some '*' then
        parseOnto fuel (.wild true :: parts) frames rest.tail
      else
        parseOnto fuel (.wild false :: parts) frames rest
    else
      match value, frames with
      | ',', frame :: outer =>
        let alternatives := .sequence parts.reverse :: frame.alternatives
        parseOnto fuel [] (⟨frame.before, alternatives⟩ :: outer)
          rest
      | '\x7d', frame :: outer =>
        parseOnto fuel
          (.choice (.sequence parts.reverse :: frame.alternatives).reverse :: frame.before)
          outer rest
      | _, _ =>
        let (text, left) := readText (endsText !frames.isEmpty) (value :: rest)
        parseOnto fuel (if text.isEmpty then parts else .text text :: parts) frames left

/-- Reads a pattern.  The mark that stands for unreadable text can be no part
of it. -/
def parse (pattern : String) : Except Fault Node := do
  let source := pattern.toList
  let readable := source.takeWhile (· != Text.Glyph.replacement)
  let node ← parseOnto (readable.length + 1) [] [] readable
  if readable.length < source.length then .error .unreadable else .ok node

/-!
From a pattern to a matcher.

The parts become matchers, and neighbours are joined where a plainer one does
the same work.  The rest is split at the widest part of known width, with
matchers on either hand.
-/

/-- What a part demands of a run of characters: how many it takes for sure, whether it
takes any run, and the characters that may not come. -/
def runDemand (matcher : Matcher) : Option (Nat × Bool × List Char) :=
  match matcher.shape with
  | .all => some (0, true, [])
  | .single => some (1, false, [])
  | .without chars => some (1, false, chars)
  | _ => none

def joinRuns (members : List Matcher) : Option Matcher := do
  let demands ← members.mapM runDemand
  let (_, _, barred) ← demands.head?
  if demands.all fun (_, _, chars) => chars == barred then
    let least := (demands.map (·.1)).foldr (· + ·) 0
    let unbounded := demands.any (·.2.1)
    if unbounded then
      some (if least = 0 then .all else .atLeast least)
    else
      let counts : List Matcher := [.atLeast least, .atMost least]
      some (.everyOf (counts ++
        if barred.isEmpty then [] else [.free (Text.utf8 (String.ofList barred))]))
  else
    none

def joinRow (members : List Matcher) : Option Matcher :=
  (members.mapM Matcher.width).map fun widths => .row members (widths.foldr (· + ·) 0)

def join? (members : List Matcher) : Option Matcher :=
  if members.length <= 1 then none else joinRuns members <|> joinRow members

structure Joined where
  start : Nat
  count : Nat
  matcher : Matcher

/-- Is the new join to be preferred?  It is if it takes more parts, or is
known to be wider. -/
def Joined.yields (held next : Joined) : Bool :=
  held.count < next.count ||
    match held.matcher.width, next.matcher.width with
    | some a, some b => a < b
    | _, _ => false

def stretches (length : Nat) : List (Nat × Nat) :=
  (List.range length).flatMap fun start =>
    ((List.range (length - start + 1)).reverse.filter (2 <= ·)).map (start, ·)

def bestJoin (members : List Matcher) : Option Joined :=
  (stretches members.length).foldl
    (fun held (start, count) =>
      match join? ((members.drop start).take count) with
      | none => held
      | some matcher =>
        let next : Joined := ⟨start, count, matcher⟩
        match held with
        | none => some next
        | some kept => if kept.yields next then some next else held)
    none

/-- Joins stretches of parts until none is left.  Each join makes the list shorter, so
its length is enough fuel. -/
def joinStretches : Nat -> List Matcher -> List Matcher
  | 0, members => members
  | fuel + 1, members =>
    match bestJoin members with
    | none => members
    | some best =>
      joinStretches fuel
        (members.take best.start ++ best.matcher :: members.drop (best.start + best.count))

def widest? (members : List Matcher) : Option Nat :=
  ((members.zipIdx.foldl
    (fun held (member, place) =>
      match member.width with
      | none => held
      | some width =>
        match held with
        | some (most, _) => if most <= width then some (width, place) else held
        | none => some (width, place))
    (none : Option (Nat × Nat)))).map (·.2)

/-- One matcher for parts behind one another.  Both sides of a split are shorter, so the
length is enough fuel. -/
def assemble : Nat -> List Matcher -> Option Matcher
  | 0, _ => none
  | _, [] => none
  | _, [one] => some one
  | fuel + 1, first :: rest =>
    let members := first :: rest
    match join? members with
    | some joined => some joined
    | none =>
      match widest? members with
      | none => some (.split first none (assemble fuel rest))
      | some place =>
        match members[place]? with
        | none => none
        | some middle =>
          some (.split middle (assemble fuel (members.take place))
            (assemble fuel (members.drop (place + 1))))

def Node.parts? : Node -> Option (List Node)
  | .sequence parts => some parts
  | _ => none

/-- How far alternatives agree from the left and from the right. -/
structure Agreement where
  left : Nat
  right : Nat
  leftEnded : Bool
  rightEnded : Bool

/-- Compares one more alternative with the shortest one, at the place `i` from
either end. -/
def Agreement.compare (shortest : List Node) (i : Nat) (held : Agreement) (other : List Node) :
    Agreement :=
  if held.leftEnded && held.rightEnded then held
  else
    let differ (a b : Option Node) : Bool :=
      match a, b with
      | some x, some y => !x.same y
      | _, _ => true
    let j := shortest.length - 1 - i
    let leftEnded := held.leftEnded || differ shortest[i]? other[i]?
    let rightEnded := held.rightEnded || (!leftEnded && j <= i)
      || differ shortest[j]? other[j + other.length - shortest.length]?
    { held with leftEnded, rightEnded }

/-- Goes on from the place `i` while the alternatives agree at one end. -/
def agreeFrom (shortest : List Node) (others : List (List Node)) :
    Nat -> Nat -> Agreement -> Agreement
  | 0, _, held => held
  | fuel + 1, i, held =>
    if shortest.length <= held.left + held.right || (held.leftEnded && held.rightEnded) then held
    else
      let next := others.foldl (Agreement.compare shortest i) held
      agreeFrom shortest others fuel (i + 1)
        { next with
          left := if next.leftEnded then next.left else next.left + 1
          right := if next.rightEnded then next.right else i + 1 }

def shortest? (alternatives : List (List Node)) : Option (Nat × List Node) :=
  alternatives.zipIdx.foldl
    (fun held (parts, place) =>
      match held with
      | none => some (place, parts)
      | some (_, least) => if parts.length < least.length then some (place, parts) else held)
    none

def factored? (alternatives : List Node) : Option Node := do
  let lists ← alternatives.mapM Node.parts?
  if lists.length <= 1 then none
  else
    let (place, least) ← shortest? lists
    let found := agreeFrom least (lists.eraseIdx place) least.length 0 ⟨0, 0, false, false⟩
    if found.left = 0 ∧ found.right = 0 then none
    else
      let inner := lists.map fun parts =>
        let kept := (parts.drop found.left).take (parts.length - found.left - found.right)
        if kept.isEmpty then Node.nothing else .sequence kept
      let distinct := inner.foldl
        (fun seen node => if seen.any (·.same node) then seen else seen ++ [node])
        ([] : List Node)
      let middle :=
        match distinct with
        | [.nothing] => []
        | [one] => [one]
        | several => [.choice several]
      let before := if found.left = 0 then [] else [Node.sequence (least.take found.left)]
      let after :=
        if found.right = 0 then [] else [Node.sequence (least.drop (least.length - found.right))]
      some (.sequence (before ++ middle ++ after))

/-- The matcher of a pattern.  The fuel bounds its depth, to which common parts add two
levels a choice. -/
def compile : Nat -> Node -> Matcher
  | 0, _ => .nothing
  | fuel + 1, node =>
    match node with
    | .nothing => .nothing
    | .wild _ => .all
    | .single => .single
    | .among negated chars => .among negated chars
    | .between negated low high => .between negated low high
    | .text chars => .text (Text.utf8 (String.ofList chars))
    | .sequence parts =>
      let members := parts.map (compile fuel)
      ((assemble (members.length + 1) (joinStretches members.length members))).getD .nothing
    | .choice alternatives =>
      match factored? alternatives with
      | some simpler => compile fuel simpler
      | none => .anyOf (alternatives.map (compile fuel))

end Glob

structure Glob where
  matcher : Glob.Matcher

namespace Glob

def ofPattern (pattern : String) : Except Fault Glob := do
  let node ← parse pattern
  return ⟨compile (4 * pattern.length + 4) node⟩

def isMatch (glob : Glob) (name : String) : Bool :=
  glob.matcher.accepts (Text.utf8 name)

end MessageSchema.Glob

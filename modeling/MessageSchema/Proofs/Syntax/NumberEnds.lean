import Mathlib.Data.List.TakeWhile
import MessageSchema.Syntax.Lexer

namespace MessageSchema.Syntax

open List

/-!
Tokens that carry their end.

A text literal reaches to its closing quote, and a block comment to its mark.  What
stands behind is not looked at.
-/

section
variable {kind : TokenKind} {first : Char} {found : Match} {offset stop count : Nat}
  {text row further : List Char} {escapes : Bool}

lemma byteLength_append (left right : List Char) :
    byteLength (left ++ right) = byteLength left + byteLength right := by
  induction left with
  | nil => exact (Nat.zero_add _).symm
  | cons value rest ih =>
    change value.utf8Size + byteLength (rest ++ right) =
      value.utf8Size + byteLength rest + byteLength right
    omega

lemma emit_eq_ok_iff : emit kind first further escapes = .ok found ↔
      found = ⟨kind, further.length, escapes⟩ ∧ byteLength (first :: further) <= maxTokenSize := by
  simp only [emit]
  split
  · next long => simp [long]
  · next short => simp [Nat.le_of_not_lt short, eq_comm]

lemma eq_of_emit (emitted : emit kind first further escapes = .ok found) :
    found = ⟨kind, further.length, escapes⟩ :=
  (emit_eq_ok_iff.mp emitted).1

/-- What may stand between the quotes of a text literal.  Behind a backslash any
character is passed over. -/
inductive Enclosed : List Char -> Prop
  | nil : Enclosed []
  | plain {value : Char} {text : List Char} (ordinary : value ∉ ['"', '\\'])
      (allowed : isControl value = true -> value = '\t') (further : Enclosed text) :
      Enclosed (value :: text)
  | escape {value : Char} {text : List Char} (further : Enclosed text) :
      Enclosed ('\\' :: value :: text)

lemma Enclosed.textEnd_eq (enclosed : Enclosed text) (offset count : Nat) (escapes : Bool)
    (behind : List Char) : textEnd offset count escapes (text ++ '"' :: behind) =
      .ok (count + (text.length + 1), escapes || text.contains '\\') := by
  induction enclosed generalizing offset count escapes with
  | nil => simp [textEnd]
  | @plain value text ordinary allowed _ ih =>
    simp only [mem_cons, not_mem_nil, or_false, not_or] at ordinary
    have passed : ¬ (isControl value && value != '\t') = true := by simpa using allowed
    have controlled : ∀ control : Char, isControl control = true -> control ≠ '\t' ->
        value ≠ control := by
      rintro _ isControl notTab rfl
      exact notTab (allowed isControl)
    rw [cons_append, textEnd, if_neg passed, ih, length_cons, contains_cons,
      beq_eq_false_iff_ne.mpr (Ne.symm ordinary.2), Bool.false_or, Nat.add_right_comm,
      Nat.add_assoc]
    · exact ordinary.1
    · exact fun _ _ same _ => ordinary.2 same
    · exact fun same _ => ordinary.2 same
    · exact controlled '\n' (by decide) (by decide)
    · exact fun _ same _ => controlled '\r' (by decide) (by decide) same
  | escape _ ih =>
    rw [cons_append, cons_append, textEnd, ih, length_cons, length_cons]
    simp
    omega

lemma enclosed_of_textEnd {found : Nat × Bool}
    (ended : textEnd offset count escapes row = .ok found) :
    ∃ text behind, row = text ++ '"' :: behind ∧ Enclosed text := by
  fun_induction textEnd offset count escapes row with
  | case1 _ _ _ behind => exact ⟨[], behind, rfl, .nil⟩
  | case2 _ _ _ escaped _ ih =>
    rcases ih ended with ⟨text, behind, isRest, enclosed⟩
    exact ⟨'\\' :: escaped :: text, behind, by rw [isRest]; rfl, .escape enclosed⟩
  | case7 _ _ _ value rest notQuote escaping lonely _ _ passed ih =>
    rcases ih ended with ⟨text, behind, isRest, enclosed⟩
    have notEscape : value ≠ '\\' := by
      intro same
      cases rest with
      | nil => exact lonely same rfl
      | cons escaped rest => exact escaping escaped rest same rfl
    refine ⟨value :: text, behind, by rw [isRest]; rfl, .plain ?_ (by simpa using passed) enclosed⟩
    simp only [mem_cons, not_mem_nil, or_false, not_or]
    exact ⟨notQuote, notEscape⟩
  | case3 | case4 | case5 | case6 | case8 => cases ended

/-- A text literal ends at its closing quote, and it is marked if there is a
backslash in front of it. -/
lemma textEnd_eq_ok_iff {found : Nat × Bool} : textEnd offset count escapes row = .ok found ↔
      ∃ text behind, row = text ++ '"' :: behind ∧ Enclosed text ∧
        found = (count + (text.length + 1), escapes || text.contains '\\') := by
  constructor
  · intro ended
    rcases enclosed_of_textEnd ended with ⟨text, behind, isRow, enclosed⟩
    rw [isRow, enclosed.textEnd_eq] at ended
    cases ended
    exact ⟨text, behind, isRow, enclosed, rfl⟩
  · rintro ⟨text, behind, isRow, enclosed, isFound⟩
    rw [isRow, isFound, enclosed.textEnd_eq]

/-- A block comment ends with its mark, whatever stands behind. -/
lemma commentEnd?_append (ended : commentEnd? count row = some stop) :
    ∃ front behind, row = front ++ behind ∧ stop = count + front.length ∧ 2 <= front.length ∧
      ∀ other, commentEnd? count (front ++ other) = some stop := by
  fun_induction commentEnd? count row with
  | case1 count behind =>
    cases ended
    exact ⟨['*', '/'], behind, rfl, rfl, Nat.le_refl _, fun _ => rfl⟩
  | case2 count value rest notEnd ih =>
    rcases ih ended with ⟨front, behind, isRest, isStop, long, again⟩
    refine ⟨value :: front, behind, by rw [isRest, cons_append], ?_, ?_, ?_⟩
    · rw [isStop, length_cons]
      omega
    · rw [length_cons]
      omega
    · intro other
      rw [cons_append, commentEnd?, again other]
      intro tail isStar isSlash
      cases front with
      | nil => simp at long
      | cons next further =>
        rw [isRest] at notEnd
        exact notEnd (further ++ behind) isStar
          (by rw [cons_append, (List.cons.inj isSlash).1])
  | case3 => cases ended

end

/-!
What a number is, and where it ends.

A number takes the characters of words, one point if a digit follows, and the sign
of an exponent.  What it takes is a word of a regular language, or it is refused.
Two characters behind it decide how far it reaches: a number without point and
exponent goes on with a point and a digit, any number with a character of words.
-/

/-! ## The longest front of a row of characters -/

/-- The row does not start with a character of this kind. -/
def Stops (holds : Char -> Bool) (row : List Char) : Prop :=
  row.head?.any holds = false

variable {value : Char}

section
variable {holds : Char -> Bool} {rest front : List Char}

lemma stops_cons_iff : Stops holds (value :: rest) ↔ holds value = false := by
  simp [Stops]

lemma Stops.append (stops : Stops holds front) (some : front ≠ []) (rest : List Char) :
    Stops holds (front ++ rest) := by
  cases front with
  | nil => exact absurd rfl some
  | cons value further => exact stops

lemma Stops.imp {weaker : Char -> Bool} {row : List Char}
    (imp : ∀ value, weaker value = true -> holds value = true) (stops : Stops holds row) :
    Stops weaker row := by
  cases row with
  | nil => rfl
  | cons value rest =>
    rw [stops_cons_iff] at stops ⊢
    cases found : weaker value with
    | false => rfl
    | true => exact absurd (imp value found) (by simp [stops])

lemma stops_dropWhile (row : List Char) : Stops holds (row.dropWhile holds) := by
  induction row with
  | nil => rfl
  | cons value rest ih =>
    rw [dropWhile_cons]
    split
    · exact ih
    · next other => simpa [Stops] using other

/-- A front of one kind is the longest one if the rest does not go on with that
kind. -/
lemma takeWhile_front (all : ∀ value ∈ front, holds value = true) (stops : Stops holds rest) :
    (front ++ rest).takeWhile holds = front := by
  rw [takeWhile_append_of_pos all]
  cases rest with
  | nil => rw [takeWhile_nil, append_nil]
  | cons value further =>
    rw [takeWhile_cons, if_neg (by simp [stops_cons_iff.mp stops]), append_nil]

lemma dropWhile_front (all : ∀ value ∈ front, holds value = true) (stops : Stops holds rest) :
    (front ++ rest).dropWhile holds = rest := by
  rw [dropWhile_append_of_pos all]
  cases rest with
  | nil => rfl
  | cons value further => rw [dropWhile_cons, if_neg (by simp [stops_cons_iff.mp stops])]

end

/-! ## The parts of a number -/

/-- Characters of words that do not mark an exponent. -/
def inMantissa (value : Char) : Bool :=
  isWordChar value && !isExponentMark value

def fractionAt (row : List Char) : Option (List Char) × List Char :=
  match row with
  | '.' :: digit :: rest =>
    if digit.isDigit then
      (some ((digit :: rest).takeWhile inMantissa), (digit :: rest).dropWhile inMantissa)
    else (none, row)
  | _ => (none, row)

def exponentAt (row : List Char) : Option (Option Char × List Char) :=
  match row with
  | mark :: rest =>
    if isExponentMark mark then
      match rest with
      | sign :: digits =>
        if sign == '+' || sign == '-' then some (some sign, digits.takeWhile isWordChar)
        else some (none, rest.takeWhile isWordChar)
      | [] => some (none, [])
    else none
  | [] => none

lemma NumberParts.of_eq (row : List Char) : NumberParts.of row =
      ⟨row.takeWhile inMantissa, (fractionAt (row.dropWhile inMantissa)).1,
        exponentAt (fractionAt (row.dropWhile inMantissa)).2⟩ :=
  rfl

/-- The row starts with a point and a digit. -/
def PointsOn (row : List Char) : Prop :=
  ∃ digit rest, row = '.' :: digit :: rest ∧ digit.isDigit = true

lemma fractionAt_of_digit {digit : Char} (isDigit : digit.isDigit = true) (rest : List Char) :
    fractionAt ('.' :: digit :: rest) =
      (some ((digit :: rest).takeWhile inMantissa), (digit :: rest).dropWhile inMantissa) := by
  simp only [fractionAt, isDigit, if_true]

variable {row : List Char} {mark : Char}

lemma fractionAt_of_not_pointsOn (none : ¬ PointsOn row) : fractionAt row = (.none, row) := by
  unfold fractionAt
  split
  · next digit rest =>
    rw [if_neg]
    intro isDigit
    exact none ⟨digit, rest, rfl, isDigit⟩
  · rfl

def isSign (value : Char) : Bool :=
  value == '+' || value == '-'

lemma exponentAt_of_stops (stops : Stops isExponentMark row) : exponentAt row = none := by
  cases row with
  | nil => rfl
  | cons value rest => simp only [exponentAt, stops_cons_iff.mp stops, Bool.false_eq_true, if_false]

lemma exponentAt_signed {sign : Char} (isMark : isExponentMark mark = true)
    (signed : isSign sign = true) (digits : List Char) :
    exponentAt (mark :: sign :: digits) = some (some sign, digits.takeWhile isWordChar) := by
  unfold isSign at signed
  simp only [exponentAt, isMark, signed, if_true]

lemma exponentAt_plain (isMark : isExponentMark mark = true) {rest : List Char}
    (plain : Stops isSign rest) :
    exponentAt (mark :: rest) = some (none, rest.takeWhile isWordChar) := by
  cases rest with
  | nil => simp only [exponentAt, isMark, if_true, takeWhile_nil]
  | cons sign digits =>
    have unsigned := stops_cons_iff.mp plain
    unfold isSign at unsigned
    simp only [exponentAt, isMark, unsigned, if_true, Bool.false_eq_true, if_false]

lemma isWordChar_of_inMantissa (value : Char) (within : inMantissa value = true) :
    isWordChar value = true := by
  rw [inMantissa, Bool.and_eq_true] at within
  exact within.1

lemma isWordChar_of_isExponentMark (value : Char) (mark : isExponentMark value = true) :
    isWordChar value = true := by
  rw [isExponentMark, Bool.or_eq_true, beq_iff_eq, beq_iff_eq] at mark
  rcases mark with same | same <;> rw [same] <;> decide

lemma not_isSign_of_isWordChar (word : isWordChar value = true) : isSign value = false := by
  cases sign : isSign value with
  | false => rfl
  | true =>
    rw [isSign, Bool.or_eq_true, beq_iff_eq, beq_iff_eq] at sign
    rcases sign with same | same <;> rw [same] at word <;> exact absurd word (by decide)

/-- Behind a mantissa, only the mark of an exponent can be a character of
words. -/
lemma stops_isWordChar (mantissa : Stops inMantissa row) (exponent : Stops isExponentMark row) :
    Stops isWordChar row := by
  cases row with
  | nil => rfl
  | cons value rest =>
    rw [stops_cons_iff] at mantissa exponent ⊢
    rw [inMantissa, exponent] at mantissa
    simpa using mantissa

lemma inMantissa_of_isDigit (digit : value.isDigit = true) : inMantissa value = true := by
  have notMark : isExponentMark value = false := by
    cases mark : isExponentMark value with
    | false => rfl
    | true =>
      rw [isExponentMark, Bool.or_eq_true, beq_iff_eq, beq_iff_eq] at mark
      rcases mark with same | same <;> rw [same] at digit <;> exact absurd digit (by decide)
  simp [inMantissa, isWordChar, Char.isAlphanum, digit, notMark]

/-! ## The text of a number -/

def fractionText (fraction : Option (List Char)) : List Char :=
  fraction.elim [] fun digits => '.' :: digits

def exponentText (mark : Char) (exponent : Option (Option Char × List Char)) : List Char :=
  exponent.elim [] fun part => mark :: (part.1.toList ++ part.2)

/-- The text of a number, given the mark of its exponent. -/
def NumberParts.text (mark : Char) (parts : NumberParts) : List Char :=
  parts.whole ++ (fractionText parts.fraction ++ exponentText mark parts.exponent)

variable {parts : NumberParts}

lemma NumberParts.length_text (mark : Char) (parts : NumberParts) :
    (parts.text mark).length = parts.length := by
  rcases parts with ⟨whole, fraction, exponent⟩
  rcases fraction with _ | digits <;> rcases exponent with _ | ⟨_ | sign, further⟩ <;>
    simp [NumberParts.text, NumberParts.length, fractionText, exponentText] <;> omega

/-- `[0-9]+` -/
def AllDigits (digits : List Char) : Prop :=
  digits ≠ [] ∧ ∀ digit ∈ digits, digit.isDigit = true

/-- A whole number `0|[1-9][0-9]*`, then possibly a fraction `.[0-9]+`, and then possibly
an exponent `[eE][+-]?[0-9]+`. -/
structure NumberParts.Spells (mark : Char) (parts : NumberParts) : Prop where
  whole : AllDigits parts.whole
  zero : parts.whole.head? = some '0' -> parts.whole = ['0']
  fraction : ∀ digits ∈ parts.fraction, AllDigits digits
  exponent : ∀ part ∈ parts.exponent, isExponentMark mark = true ∧
    (∀ value ∈ part.1, isSign value = true) ∧ AllDigits part.2

lemma NumberParts.isValid_iff : parts.isValid = true ↔
      (∀ digit ∈ parts.whole, digit.isDigit = true) ∧
        (parts.whole.head? = some '0' -> parts.whole = ['0']) ∧
        (∀ digits ∈ parts.fraction, ∀ digit ∈ digits, digit.isDigit = true) ∧
        ∀ part ∈ parts.exponent, AllDigits part.2 := by
  rcases parts with ⟨whole, fraction, exponent⟩
  have alone : (1 < whole.length && whole.head? == some '0') = false ↔
      (whole.head? = some '0' -> whole = ['0']) := by
    rcases whole with _ | ⟨first, _ | ⟨second, others⟩⟩ <;> simp
  simp only [NumberParts.isValid, ← alone]
  generalize (1 < whole.length && whole.head? == some '0') = zeroLeads
  rcases fraction with _ | digits <;> rcases exponent with _ | part <;>
    simp [AllDigits, and_assoc]

lemma NumberParts.Spells.isValid (spells : parts.Spells mark) : parts.isValid = true :=
  isValid_iff.mpr ⟨spells.whole.2, spells.zero, fun digits found =>
    (spells.fraction digits found).2,
    fun part found => (spells.exponent part found).2.2⟩

/-! ## How far a number reaches -/

lemma exists_exponentText (mantissa : Stops inMantissa row) :
    ∃ mark rest, row = exponentText mark (exponentAt row) ++ rest ∧ Stops isWordChar rest ∧
      ∀ part ∈ exponentAt row, isExponentMark mark = true ∧
        ∀ value ∈ part.1, isSign value = true := by
  by_cases stops : Stops isExponentMark row
  · rw [exponentAt_of_stops stops]
    exact ⟨'e', row, rfl, stops_isWordChar mantissa stops, nofun⟩
  · cases row with
    | nil => exact absurd rfl stops
    | cons mark behind =>
      have isMark : isExponentMark mark = true := by simpa [stops_cons_iff] using stops
      by_cases plain : Stops isSign behind
      · rw [exponentAt_plain isMark plain]
        refine ⟨mark, behind.dropWhile isWordChar, ?_, stops_dropWhile _, ?_⟩
        · simp [exponentText, takeWhile_append_dropWhile]
        · rintro _ ⟨⟩
          exact ⟨isMark, nofun⟩
      · cases behind with
        | nil => exact absurd rfl plain
        | cons sign digits =>
          have signed : isSign sign = true := by simpa [stops_cons_iff] using plain
          rw [exponentAt_signed isMark signed]
          refine ⟨mark, digits.dropWhile isWordChar, ?_, stops_dropWhile _, ?_⟩
          · simp [exponentText, takeWhile_append_dropWhile]
          · rintro _ ⟨⟩
            refine ⟨isMark, ?_⟩
            rintro _ ⟨⟩
            exact signed

lemma exists_fractionText (mantissa : Stops inMantissa row) :
    row = fractionText (fractionAt row).1 ++ (fractionAt row).2 ∧
      Stops inMantissa (fractionAt row).2 ∧
      ((fractionAt row).1 = none -> ¬ PointsOn (fractionAt row).2) ∧
      ∀ digits ∈ (fractionAt row).1, digits ≠ [] := by
  by_cases points : PointsOn row
  · rcases points with ⟨digit, rest, same, isDigit⟩
    rw [same, fractionAt_of_digit isDigit]
    refine ⟨?_, stops_dropWhile _, nofun, ?_⟩
    · simp [fractionText, takeWhile_append_dropWhile]
    · rintro _ ⟨⟩
      rw [takeWhile_cons, if_pos (inMantissa_of_isDigit isDigit)]
      exact cons_ne_nil _ _
  · rw [fractionAt_of_not_pointsOn points]
    exact ⟨rfl, mantissa, fun _ => points, nofun⟩

/-- A number that is not refused has its form, and it can end where it does. -/
lemma NumberParts.exists_text (starts : row.head?.any Char.isDigit = true)
    (valid : (NumberParts.of row).isValid = true) :
    ∃ mark rest, row = (NumberParts.of row).text mark ++ rest ∧ (NumberParts.of row).Spells mark ∧
      Stops isWordChar rest ∧ ((NumberParts.of row).isFloat = false -> ¬ PointsOn rest) := by
  have whole := takeWhile_append_dropWhile (p := inMantissa) (l := row)
  have filled : row.takeWhile inMantissa ≠ [] := by
    cases row with
    | nil => cases starts
    | cons digit rest =>
      rw [takeWhile_cons, if_pos (inMantissa_of_isDigit starts)]
      exact cons_ne_nil _ _
  rcases exists_fractionText (stops_dropWhile row) with ⟨isFraction, mantissa, noPoint, fraction⟩
  rcases exists_exponentText mantissa with ⟨mark, rest, isExponent, stops, exponent⟩
  rcases isValid_iff.mp valid with ⟨wholeDigits, zero, fractionDigits, exponentDigits⟩
  rw [NumberParts.of_eq] at *
  refine ⟨mark, rest, ?_, ⟨⟨filled, wholeDigits⟩, zero, ?_, ?_⟩, stops, ?_⟩
  · calc
      row = row.takeWhile inMantissa ++ row.dropWhile inMantissa := whole.symm
      _ = _ := by
        rw [NumberParts.text, List.append_assoc, List.append_assoc, ← isExponent, ← isFraction]
  · exact fun digits found => ⟨fraction digits found, fractionDigits digits found⟩
  · intro part found
    rcases exponent part found with ⟨isMark, signed⟩
    exact ⟨isMark, signed, exponentDigits part found⟩
  · intro plain
    simp only [NumberParts.isFloat, Bool.or_eq_false_iff, Option.isSome_eq_false_iff,
      Option.isNone_iff_eq_none] at plain
    rw [plain.2] at isExponent
    have same : (fractionAt (row.dropWhile inMantissa)).2 = rest := isExponent
    rw [← same]
    exact noPoint plain.1

/-- In front of a row where it can end, the text of a number is read as that
number. -/
lemma NumberParts.Spells.of_text (spells : parts.Spells mark) (stops : Stops isWordChar row)
    (noPoint : parts.isFloat = false -> ¬ PointsOn row) :
    NumberParts.of (parts.text mark ++ row) = parts := by
  rcases parts with ⟨whole, fraction, exponent⟩
  have inside {digits : List Char} (all : AllDigits digits) :
      ∀ value ∈ digits, inMantissa value = true := fun value member =>
    inMantissa_of_isDigit (all.2 value member)
  -- The exponent is read from behind the fraction.
  have exponentRead : exponentAt (exponentText mark exponent ++ row) = exponent := by
    rcases exponent with _ | ⟨sign, further⟩
    · exact exponentAt_of_stops (stops.imp isWordChar_of_isExponentMark)
    · rcases spells.exponent _ rfl with ⟨isMark, signed, digits⟩
      have words : ∀ value ∈ further, isWordChar value = true := fun value member =>
        isWordChar_of_inMantissa value (inside digits value member)
      rcases sign with _ | sign
      · change exponentAt (mark :: (further ++ row)) = _
        rw [exponentAt_plain isMark, takeWhile_front words stops]
        rcases exists_cons_of_ne_nil digits.1 with ⟨first, others, rfl⟩
        exact stops_cons_iff.mpr (not_isSign_of_isWordChar (words first mem_cons_self))
      · change exponentAt (mark :: sign :: (further ++ row)) = _
        rw [exponentAt_signed isMark (signed sign rfl), takeWhile_front words stops]
  have exponentStops : Stops inMantissa (exponentText mark exponent ++ row) := by
    rcases exponent with _ | part
    · exact stops.imp isWordChar_of_inMantissa
    · refine stops_cons_iff.mpr ?_
      simp [inMantissa, (spells.exponent part rfl).1]
  -- The fraction is read from behind the whole part.
  have fractionRead : fractionAt (fractionText fraction ++ (exponentText mark exponent ++ row)) =
      (fraction, exponentText mark exponent ++ row) := by
    rcases fraction with _ | further
    · refine fractionAt_of_not_pointsOn ?_
      rcases exponent with _ | part
      · exact noPoint rfl
      · rintro ⟨digit, rest, same, _⟩
        have isMark := (spells.exponent part rfl).1
        rw [(List.cons.inj same).1] at isMark
        exact absurd isMark (by decide)
    · have digits := spells.fraction further rfl
      rcases exists_cons_of_ne_nil digits.1 with ⟨digit, others, rfl⟩
      change fractionAt ('.' :: digit :: (others ++ _)) = _
      rw [fractionAt_of_digit (digits.2 digit mem_cons_self), ← cons_append,
        takeWhile_front (inside digits) exponentStops,
        dropWhile_front (inside digits) exponentStops]
  have fractionStops :
      Stops inMantissa (fractionText fraction ++ (exponentText mark exponent ++ row)) := by
    rcases fraction with _ | further
    · exact exponentStops
    · exact stops_cons_iff.mpr (by decide)
  have whole := inside spells.whole
  rw [NumberParts.of_eq, NumberParts.text, List.append_assoc, List.append_assoc,
    takeWhile_front whole fractionStops, dropWhile_front whole fractionStops, fractionRead,
    exponentRead]

/-! ## Numbers and their signs -/

/-- The numbers without sign that tokens of a kind can be.  A decimal number with a
fraction, an exponent or both is a float. -/
inductive IsNumeral : TokenKind -> List Char -> Prop
  | decimal {mark : Char} {parts : NumberParts} (spells : parts.Spells mark) :
      IsNumeral (if parts.isFloat then .floatLiteral else .intLiteral) (parts.text mark)
  | hex {digits : List Char} (some : digits ≠ [])
      (all : ∀ digit ∈ digits, isHexDigit digit = true) :
      IsNumeral .hexLiteral ('0' :: 'x' :: digits)

/-- The numbers with or without a minus sign in front. -/
def IsNumber (kind : TokenKind) (text : List Char) : Prop :=
  ∃ digits, IsNumeral kind digits ∧ (text = digits ∨ text = '-' :: digits)

/-- The digits of a number that starts with `first`, and what stands behind. -/
def digitsFrom (first : Char) (row : List Char) : List Char :=
  if first == '-' then row else first :: row

/-- The number of characters in front of the digits. -/
def signLength (first : Char) : Nat :=
  if first == '-' then 1 else 0

section
variable {first : Char} {text further rest : List Char} {kind : TokenKind} {found : Match}

lemma digitsFrom_append (first : Char) (front row : List Char) :
    digitsFrom first (front ++ row) = digitsFrom first front ++ row := by
  unfold digitsFrom
  split <;> simp

lemma length_digitsFrom (first : Char) (row : List Char) :
    (digitsFrom first row).length + signLength first = row.length + 1 := by
  unfold digitsFrom signLength
  split <;> simp

/-- A number starts with a digit, whatever stands behind it. -/
lemma IsNumeral.starts (numeral : IsNumeral kind text) (rest : List Char) :
    (text ++ rest).head?.any Char.isDigit = true := by
  cases numeral with
  | hex _ _ => rfl
  | decimal spells =>
    rcases spells.whole with ⟨some, all⟩
    rcases exists_cons_of_ne_nil some with ⟨digit, others, same⟩
    rw [same] at all
    rw [NumberParts.text, same]
    exact all digit mem_cons_self

lemma isWordChar_of_isHexDigit (hex : isHexDigit value = true) : isWordChar value = true := by
  have within {last : Char} (below : value <= last) (ascii : last.toNat < 128) :
      value.toNat < 128 :=
    Nat.lt_of_le_of_lt (UInt32.le_iff_toNat_le.mp below) ascii
  have small : value.toNat < 128 := by
    unfold isHexDigit Number.hexDigit? at hex
    split at hex
    · next digit => exact within digit.2 (by decide)
    split at hex
    · next lower => exact within lower.2 (by decide)
    split at hex
    · next upper => exact within upper.2 (by decide)
    · cases hex
  have known : ∀ code < 128, isHexDigit (.ofNat code) = true ->
      isWordChar (.ofNat code) = true := by
    decide
  have isWord := known value.toNat small
  rw [Char.ofNat_toNat] at isWord
  exact isWord hex

lemma isNumber_cons_iff :
    IsNumber kind (first :: further) ↔ IsNumeral kind (digitsFrom first further) := by
  unfold digitsFrom
  constructor
  · rintro ⟨digits, numeral, rfl | isText⟩
    · have isDigit : first.isDigit = true := numeral.starts []
      have notMinus : ¬ (first == '-') = true := by
        rw [beq_iff_eq]
        rintro rfl
        cases isDigit
      rw [if_neg notMinus]
      exact numeral
    · rcases List.cons.inj isText with ⟨rfl, rfl⟩
      exact numeral
  · intro numeral
    split at numeral
    · next minus => exact ⟨further, numeral, .inr (by rw [eq_of_beq minus])⟩
    · exact ⟨_, numeral, .inl rfl⟩

lemma IsNumber.kind_mem (number : IsNumber kind text) :
    kind ∈ [TokenKind.intLiteral, .hexLiteral, .floatLiteral] := by
  rcases number with ⟨_, numeral, _⟩
  cases numeral with
  | decimal _ => split <;> decide
  | hex _ _ => decide

lemma IsNumber.exists_cons (number : IsNumber kind text) :
    ∃ first further, text = first :: further ∧ (first.isDigit || first == '-') = true := by
  rcases number with ⟨digits, numeral, rfl | rfl⟩
  · have starts := numeral.starts []
    cases text with
    | nil => cases starts
    | cons first further =>
      have isDigit : first.isDigit = true := starts
      exact ⟨first, further, rfl, by rw [isDigit, Bool.true_or]⟩
  · exact ⟨'-', digits, rfl, rfl⟩

/-- A token that takes the digits of a number takes its sign as well. -/
lemma IsNumeral.exists_further {count : Nat} (numeral : IsNumeral kind text)
    (isRow : digitsFrom first row = text ++ rest)
    (isCount : count = signLength first + text.length - 1)
    (emitted : emit kind first (row.take count) = .ok found) :
    ∃ further, row = further ++ rest ∧ IsNumeral found.kind (digitsFrom first further) ∧
      emit found.kind first further = .ok found := by
  have starts := numeral.starts []
  cases text with
  | nil => cases starts
  | cons value others =>
    have parted : ∃ further, row = further ++ rest ∧
        digitsFrom first further = value :: others := by
      unfold digitsFrom at isRow ⊢
      split at isRow
      · next minus => exact ⟨value :: others, isRow, if_pos minus⟩
      · next notMinus =>
        rcases List.cons.inj isRow with ⟨rfl, isOthers⟩
        exact ⟨others, isOthers, if_neg notMinus⟩
    rcases parted with ⟨further, rfl, isText⟩
    have lengths := length_digitsFrom first further
    have length : count = further.length := by
      rw [isText] at lengths
      omega
    rw [length, take_left] at emitted
    have isKind : found.kind = kind := by rw [eq_of_emit emitted]
    rw [isKind]
    exact ⟨further, rfl, by rw [isText]; exact numeral, emitted⟩

/-- A token is a number exactly if it has the form of one, and the number can end behind
it. -/
lemma numberToken_eq_ok_iff : numberToken first row = .ok found ↔
      ∃ further rest, row = further ++ rest ∧ IsNumber found.kind (first :: further) ∧
        Stops isWordChar rest ∧ (found.kind = .intLiteral -> ¬ PointsOn rest) ∧
        emit found.kind first further = .ok found := by
  simp only [isNumber_cons_iff]
  constructor
  · intro scanned
    simp only [numberToken] at scanned
    rw [← digitsFrom, ← signLength] at scanned
    generalize isRow : digitsFrom first row = digits at scanned
    split at scanned
    · cases scanned
    · next starts =>
      split at scanned
      · next behind =>
        split at scanned
        · cases scanned
        · next sound =>
          rw [Bool.or_eq_true, not_or, Bool.not_eq_true, Bool.not_eq_true',
            Bool.not_eq_false] at sound
          have numeral : IsNumeral .hexLiteral ('0' :: 'x' :: behind.takeWhile isWordChar) :=
            .hex (List.isEmpty_eq_false_iff.mp sound.1) (List.all_eq_true.mp sound.2)
          rw [← takeWhile_append_dropWhile (p := isWordChar) (l := behind)] at isRow
          rcases numeral.exists_further isRow (by simp; omega) scanned with
            ⟨further, same, again, alone⟩
          have isKind : found.kind = .hexLiteral := by rw [eq_of_emit scanned]
          refine ⟨further, _, same, again, stops_dropWhile _, ?_, alone⟩
          rw [isKind]
          exact nofun
      · split at scanned
        · next valid =>
          rw [Bool.not_eq_true', Bool.not_eq_false] at starts
          rcases NumberParts.exists_text starts valid with ⟨mark, rest, isText, spells, stops,
            noPoint⟩
          rw [isText] at isRow
          rw [← NumberParts.length_text mark] at scanned
          rcases (IsNumeral.decimal spells).exists_further isRow rfl scanned with
            ⟨further, same, again, alone⟩
          refine ⟨further, rest, same, again, stops, fun isInt => noPoint ?_, alone⟩
          rw [eq_of_emit scanned] at isInt
          simpa using isInt
        · split at scanned <;> cases scanned
  · rintro ⟨further, rest, rfl, numeral, stops, noPoint, emitted⟩
    have starts := numeral.starts rest
    have lengths := length_digitsFrom first further
    simp only [numberToken]
    rw [← digitsFrom, ← signLength, digitsFrom_append, starts]
    generalize digitsFrom first further = text at numeral lengths
    generalize found.kind = kind at numeral noPoint emitted
    cases numeral with
    | @hex digits some all =>
      have words : ∀ digit ∈ digits, isWordChar digit = true := fun digit listed =>
        isWordChar_of_isHexDigit (all digit listed)
      have length : signLength first + 1 + digits.length = further.length := by
        rw [length_cons, length_cons] at lengths
        omega
      simp only [cons_append, takeWhile_front words stops, length, take_left,
        List.isEmpty_eq_false_iff.mpr some, List.all_eq_true.mpr all]
      exact emitted
    | @decimal mark parts spells =>
      have isParts : NumberParts.of (parts.text mark ++ rest) = parts := by
        refine spells.of_text stops fun plain => noPoint ?_
        rw [plain]
        rfl
      have length : signLength first + parts.length - 1 = further.length := by
        rw [parts.length_text] at lengths
        omega
      simp only [Bool.not_true, Bool.false_eq_true, if_false]
      split
      · next behind isHex =>
        -- The mark of a hexadecimal number would belong to the whole part.
        rw [isHex, NumberParts.of_eq] at isParts
        have inside : 'x' ∈ parts.whole := by
          rw [← isParts]
          exact mem_cons_of_mem _ mem_cons_self
        exact absurd (spells.whole.2 'x' inside) (by decide)
      · rw [isParts, if_pos spells.isValid, length, take_left]
        exact emitted

end

end MessageSchema.Syntax

import MessageSchema.Proofs.Number.ShortestDecimal
import MessageSchema.Proofs.Syntax.NumberEnds

namespace MessageSchema.Number

open List Option

/-!
A written double reads back.

Every layout writes a double as a numeral: digits, possibly a fraction and an
exponent.  A numeral is read as the double nearest to its number.  That of a double
stands for its shortest decimal, which lies in its interval, so reading gives the
double back, sign and zero included.
-/

open Syntax (Stops takeWhile_front dropWhile_front)

/-! ## Rows of digits -/

lemma ofDigits_eq (digits : List Char) : ofDigits digits = Nat.ofDigitChars 10 digits 0 :=
  Nat.ofDigitChars_eq_foldl.symm

lemma ofDigits_append (left right : List Char) :
    ofDigits (left ++ right) = 10 ^ right.length * ofDigits left + ofDigits right := by
  rw [ofDigits_eq, Nat.ofDigitChars_append, Nat.ofDigitChars_eq_ofDigitChars_zero, ← ofDigits_eq,
    ← ofDigits_eq]

lemma ofDigits_zeros (count : ℕ) : ofDigits (replicate count '0') = 0 := by
  rw [ofDigits_eq, Nat.ofDigitChars_replicate_zero, Nat.mul_zero]

lemma ofDigits_toDigits (number : ℕ) : ofDigits (Nat.toDigits 10 number) = number := by
  rw [ofDigits_eq, Nat.ofDigitChars_ten_toDigits]

lemma ofDigits_zeros_append (count : ℕ) (digits : List Char) :
    ofDigits (replicate count '0' ++ digits) = ofDigits digits := by
  rw [ofDigits_append, ofDigits_zeros, Nat.mul_zero, Nat.zero_add]

lemma ofDigits_append_zeros (digits : List Char) (count : ℕ) :
    ofDigits (digits ++ replicate count '0') = ofDigits digits * 10 ^ count := by
  rw [ofDigits_append, ofDigits_zeros, length_replicate, Nat.add_zero, Nat.mul_comm]

variable {digit : Char}

lemma isDigit_of_mem_toDigits {number : ℕ} (member : digit ∈ Nat.toDigits 10 number) :
    digit.isDigit = true :=
  Nat.isDigit_of_mem_toDigits (by norm_num) (le_refl 10) member

/-- A number other than zero has no zero in front. -/
lemma toDigits_leading {number : ℕ} (nonzero : 0 < number) :
    ∃ first rest, Nat.toDigits 10 number = first :: rest ∧ first ≠ '0' := by
  induction number using Nat.strong_induction_on with
  | _ number ih =>
    rw [Nat.toDigits_eq_if (by norm_num)]
    split
    · refine ⟨_, [], rfl, ?_⟩
      rw [ne_eq, Nat.digitChar_eq_zero]
      omega
    · rcases ih (number / 10) (by omega) (by omega) with ⟨first, rest, same, leading⟩
      exact ⟨first, rest ++ [(number % 10).digitChar], by rw [same, cons_append], leading⟩

/-- Digits behind a number multiply it by ten. -/
lemma toDigits_mul_pow {number : ℕ} (nonzero : 0 < number) (count : ℕ) :
    Nat.toDigits 10 (number * 10 ^ count) = Nat.toDigits 10 number ++ replicate count '0' := by
  induction count with
  | zero => rw [pow_zero, Nat.mul_one, replicate_zero, append_nil]
  | succ count ih =>
    have shifted : number * 10 ^ (count + 1) = 10 * (number * 10 ^ count) + 0 := by ring
    rw [shifted, ← Nat.toDigits_append_toDigits (by norm_num) (by positivity) (by norm_num), ih,
      List.append_assoc, replicate_succ']
    rfl

lemma digitValue_bounds (isDigit : digit.isDigit = true) :
    digitValue digit < 10 ∧ 48 + digitValue digit = digit.toNat := by
  have bounds : 48 <= digit.toNat ∧ digit.toNat <= 57 := Char.isDigit_iff_toNat.mp isDigit
  change digit.toNat - 48 < 10 ∧ 48 + (digit.toNat - 48) = digit.toNat
  omega

lemma digitChar_digitValue (isDigit : digit.isDigit = true) :
    Nat.digitChar (digitValue digit) = digit := by
  rcases digitValue_bounds isDigit with ⟨small, exact⟩
  apply Char.toNat_inj.mp
  rw [Nat.toNat_digitChar_of_lt_ten small]
  exact exact

lemma length_digitChars (digits : List ℕ) : (digitChars digits).length = digits.length :=
  length_map _

lemma digitChars_append (left right : List ℕ) :
    digitChars (left ++ right) = digitChars left ++ digitChars right :=
  map_append

lemma digitChars_digitsOf (number : ℕ) : digitChars (digitsOf number) = Nat.toDigits 10 number := by
  rw [digitChars, digitsOf, List.map_map]
  refine (map_congr_left ?_).trans (List.map_id _)
  intro digit member
  exact digitChar_digitValue (isDigit_of_mem_toDigits member)

/-! ## Decimals -/

namespace Decimal

/-- The digits as a number. -/
def number (decimal : Decimal) : ℕ :=
  ofDigits (digitChars decimal.digits)

def value (decimal : Decimal) : ℚ :=
  decimal.number * 10 ^ (decimal.point - decimal.digits.length)

/-- Digits below ten without a zero in front. -/
structure Normal (decimal : Decimal) : Prop where
  small : ∀ digit ∈ decimal.digits, digit < 10
  leading : ∃ first rest, decimal.digits = first :: rest ∧ first ≠ 0

end Decimal

/-- Zeros at the end of a row are all that is dropped there. -/
lemma exists_zeros_dropped (digits : List ℕ) : ∃ count, digits =
      (digits.reverse.dropWhile (· == 0)).reverse ++ replicate count 0 := by
  have split : digits =
      (digits.reverse.dropWhile (· == 0)).reverse ++
        (digits.reverse.takeWhile (· == 0)).reverse := by
    rw [← reverse_append, takeWhile_append_dropWhile, reverse_reverse]
  refine ⟨(digits.reverse.takeWhile (· == 0)).length, ?_⟩
  conv_lhs => rw [split]
  congr 1
  apply List.eq_replicate_iff.mpr
  refine ⟨length_reverse, ?_⟩
  intro digit member
  have dropped := mem_takeWhile_imp (List.mem_reverse.mp member)
  exact beq_iff_eq.mp dropped

/-- A scaled number is written with its digits up to the zeros at their end. -/
lemma Decimal.ofScaled_spec {number : ℕ} (nonzero : 0 < number) (place : ℤ) :
    ∃ count, Nat.toDigits 10 number =
        digitChars (ofScaled number place).digits ++ replicate count '0' ∧
      (ofScaled number place).point = (Nat.toDigits 10 number).length + place := by
  rcases exists_zeros_dropped (digitsOf number) with ⟨count, split⟩
  refine ⟨count, ?_, ?_⟩
  · rw [ofScaled, if_neg nonzero.ne']
    conv_lhs => rw [← digitChars_digitsOf, split]
    rw [digitChars, map_append, map_replicate]
    rfl
  · rw [ofScaled, if_neg nonzero.ne']
    simp only [digitsOf, length_map]

lemma Decimal.normal_ofScaled {number : ℕ} (nonzero : 0 < number) (place : ℤ) :
    (ofScaled number place).Normal := by
  rcases exists_zeros_dropped (digitsOf number) with ⟨count, split⟩
  have isDigits : (ofScaled number place).digits =
      ((digitsOf number).reverse.dropWhile (· == 0)).reverse := by
    rw [ofScaled, if_neg nonzero.ne']
  rw [← isDigits] at split
  constructor
  · intro digit member
    have listed : digit ∈ digitsOf number := by
      rw [split]
      exact mem_append_left _ member
    rcases List.mem_map.mp listed with ⟨char, isChar, same⟩
    rw [← same]
    exact (digitValue_bounds (isDigit_of_mem_toDigits isChar)).1
  · rcases toDigits_leading nonzero with ⟨first, rest, same, leading⟩
    cases found : (ofScaled number place).digits with
    | nil =>
      rw [found, nil_append] at split
      have allZero := congrArg digitChars split
      rw [digitChars_digitsOf, same, digitChars, map_replicate] at allZero
      have isZero : first ∈ replicate count (Nat.digitChar 0) := by
        rw [← allZero]
        exact mem_cons_self
      exact absurd (eq_of_mem_replicate isZero) leading
    | cons digit others =>
      refine ⟨digit, others, rfl, ?_⟩
      rintro rfl
      rw [found] at split
      have chars := congrArg digitChars split
      rw [digitChars_digitsOf, same, cons_append, digitChars, map_cons] at chars
      exact leading (List.cons.inj chars).1

lemma Decimal.value_ofScaled {number : ℕ} (nonzero : 0 < number) (place : ℤ) :
    (ofScaled number place).value = number * 10 ^ place := by
  rcases ofScaled_spec nonzero place with ⟨count, split, point⟩
  have length := congrArg List.length split
  rw [length_append, length_replicate, digitChars, length_map] at length
  have whole := congrArg ofDigits split
  rw [ofDigits_toDigits, ofDigits_append_zeros] at whole
  have shift : (ofScaled number place).point - (ofScaled number place).digits.length =
      count + place := by omega
  rw [value, shift, Decimal.number, zpow_add₀ (by norm_num), zpow_natCast, ← mul_assoc]
  congr 1
  exact_mod_cast whole.symm

/-! ## Numerals -/

/-- A number as it is written, without its sign: digits, those behind the point, and
the sign and the digits of the exponent. -/
structure Numeral where
  whole : List Char
  fraction : List Char
  exponent : Option (Bool × List Char)

namespace Numeral

/-- The fraction with its point, if there is one. -/
def fractionText (numeral : Numeral) : List Char :=
  if numeral.fraction.isEmpty then [] else '.' :: numeral.fraction

/-- The exponent with its mark and sign, if there is one. -/
def exponentText (numeral : Numeral) : List Char :=
  numeral.exponent.elim [] fun written =>
    'e' :: (if written.1 then '-' else '+') :: written.2

def text (numeral : Numeral) : List Char :=
  numeral.whole ++ (numeral.fractionText ++ numeral.exponentText)

/-- The text behind a sign. -/
def signed (negative : Bool) (numeral : Numeral) : List Char :=
  if negative then '-' :: numeral.text else numeral.text

/-- The exponent as a number. -/
def power (numeral : Numeral) : ℤ :=
  numeral.exponent.elim 0 fun written =>
    if written.1 then -(readExponent written.2 : ℤ) else readExponent written.2

/-- The rational number that a numeral stands for. -/
def value (numeral : Numeral) : ℚ :=
  ofDigits (numeral.whole ++ numeral.fraction) *
    10 ^ (numeral.power - numeral.fraction.length)

/-- Digits stand where digits have to, and a zero in front stands alone. -/
structure Sound (numeral : Numeral) : Prop where
  whole : ∀ digit ∈ numeral.whole, digit.isDigit = true
  start : numeral.whole = ['0'] ∨ ∃ first rest, numeral.whole = first :: rest ∧ first ≠ '0'
  fraction : ∀ digit ∈ numeral.fraction, digit.isDigit = true
  exponent : ∀ written ∈ numeral.exponent, written.2 ≠ [] ∧
    ∀ digit ∈ written.2, digit.isDigit = true

end Numeral

/-! ### Reading numerals -/

variable {digits : List Char}

/-- Digits are taken up to what is none. -/
lemma spanDigits_append {rest : List Char} (isDigits : ∀ digit ∈ digits, digit.isDigit = true)
    (stops : Stops Char.isDigit rest) : spanDigits (digits ++ rest) = (digits, rest) := by
  rw [spanDigits, span_eq_takeWhile_dropWhile, takeWhile_front isDigits stops,
    dropWhile_front isDigits stops]

lemma spanDigits_of_digits (isDigits : ∀ digit ∈ digits, digit.isDigit = true) :
    spanDigits digits = (digits, []) := by
  have spanned : spanDigits (digits ++ []) = (digits, []) := spanDigits_append isDigits rfl
  rwa [append_nil] at spanned

namespace Numeral

lemma stops_exponentText (numeral : Numeral) : Stops Char.isDigit numeral.exponentText := by
  rw [exponentText]
  cases numeral.exponent with
  | none => rfl
  | some written => rfl

lemma stops_fractionText_append (numeral : Numeral) :
    Stops Char.isDigit (numeral.fractionText ++ numeral.exponentText) := by
  rw [fractionText]
  split
  · exact numeral.stops_exponentText
  · rfl

variable {numeral : Numeral}

section
variable (sound : numeral.Sound)
include sound

lemma Sound.exists_cons : ∃ first rest, numeral.text = first :: rest ∧ first.isDigit = true := by
  have start : ∃ first rest, numeral.whole = first :: rest := by
    rcases sound.start with zero | ⟨first, rest, same, _⟩
    · exact ⟨'0', [], zero⟩
    · exact ⟨first, rest, same⟩
  rcases start with ⟨first, rest, same⟩
  refine ⟨first, rest ++ (numeral.fractionText ++ numeral.exponentText), ?_, ?_⟩
  · rw [text, same, cons_append]
  · apply sound.whole
    rw [same]
    exact mem_cons_self

lemma Sound.spanDigits_text : spanDigits numeral.text =
      (numeral.whole, numeral.fractionText ++ numeral.exponentText) :=
  spanDigits_append sound.whole numeral.stops_fractionText_append

/-- The exponent is absent, or it is read with its sign. -/
lemma Sound.exponentText_cases : numeral.exponentText = [] ∧ numeral.power = 0 ∨
      ∃ rest, numeral.exponentText = 'e' :: rest ∧ readSignedExponent rest = numeral.power := by
  rw [exponentText, power]
  cases found : numeral.exponent with
  | none => exact .inl ⟨rfl, rfl⟩
  | some written =>
    rcases written with ⟨negative, digits⟩
    have spanned := spanDigits_of_digits (sound.exponent _ found).2
    refine .inr ⟨_, rfl, ?_⟩
    cases negative with
    | true =>
      change -(readExponent (spanDigits digits).1 : ℤ) = -(readExponent digits : ℤ)
      rw [spanned]
    | false =>
      change (readExponent (spanDigits digits).1 : ℤ) = readExponent digits
      rw [spanned]

omit sound in
lemma fractionText_cases (numeral : Numeral) : numeral.fraction = [] ∧ numeral.fractionText = [] ∨
      numeral.fractionText = '.' :: numeral.fraction := by
  rw [fractionText]
  cases numeral.fraction with
  | nil => exact .inl ⟨rfl, rfl⟩
  | cons digit rest => exact .inr rfl

/-- Behind a sign of either kind. -/
lemma Sound.read_behind_sign {sign : Char} (isSign : sign = '-' ∨ sign = '+') :
    Double.read (sign :: numeral.text) =
      Double.ofDecimal (sign == '-') (ofDigits (numeral.whole ++ numeral.fraction))
        (numeral.power - numeral.fraction.length) := by
  have spanText := sound.spanDigits_text
  have spanFraction := spanDigits_append sound.fraction numeral.stops_exponentText
  rcases isSign with rfl | rfl
  all_goals
    simp only [Double.read, spanText]
    rcases numeral.fractionText_cases with ⟨noDigits, noFraction⟩ | fraction
    · rw [noDigits, noFraction, nil_append]
      rcases sound.exponentText_cases with ⟨noExponent, power⟩ | ⟨rest, exponent, power⟩
      · rw [noExponent, power]
        rfl
      · rw [exponent, ← power]
        rfl
    · rw [fraction, cons_append]
      simp only [spanFraction]
      rcases sound.exponentText_cases with ⟨noExponent, power⟩ | ⟨rest, exponent, power⟩
      · rw [noExponent, power]
        rfl
      · rw [exponent, ← power]
        rfl

/-- A numeral is read as the double nearest to what it stands for. -/
lemma Sound.read_signed (negative : Bool) : Double.read (numeral.signed negative) =
      Double.ofDecimal negative (ofDigits (numeral.whole ++ numeral.fraction))
        (numeral.power - numeral.fraction.length) := by
  cases negative with
  | true => exact sound.read_behind_sign (.inl rfl)
  | false =>
    refine Eq.trans ?_ (sound.read_behind_sign (.inr rfl))
    rcases sound.exists_cons with ⟨first, rest, same, isDigit⟩
    rw [signed, if_neg Bool.false_ne_true, same]
    simp only [Double.read]
    split
    · next isFirst =>
      cases isFirst
      cases isDigit
    · next isFirst =>
      cases isFirst
      cases isDigit
    · rfl

end

end Numeral

/-! ### The numerals of a decimal -/

variable {char : Char}

lemma isDigit_of_mem_digitChars {digits : List ℕ} (small : ∀ digit ∈ digits, digit < 10)
    (member : char ∈ digitChars digits) : char.isDigit = true := by
  rcases List.mem_map.mp member with ⟨digit, listed, same⟩
  rw [← same, Nat.isDigit_digitChar, decide_eq_true_eq]
  exact small digit listed

lemma isDigit_of_mem_zeros {count : ℕ} (member : char ∈ replicate count '0') :
    char.isDigit = true := by
  rw [eq_of_mem_replicate member]
  rfl

lemma digitChar_ne_zero {digit : ℕ} (nonzero : digit ≠ 0) : digit.digitChar ≠ '0' := by
  rw [ne_eq, Nat.digitChar_eq_zero]
  exact nonzero

lemma readExponent_eq (bounded : ofDigits digits < 100000) :
    readExponent digits = ofDigits digits := by
  induction digits using reverseRecOn with
  | nil => rfl
  | append_singleton digits last ih =>
    have step : ofDigits (digits ++ [last]) = 10 * ofDigits digits + digitValue last := by
      rw [ofDigits, foldl_append]
      rfl
    rw [step] at bounded ⊢
    have front := ih (by omega)
    rw [readExponent, foldl_append, ← readExponent, front, foldl_cons, foldl_nil,
      if_pos (by omega)]

/-- A zero is written as a numeral that stands for zero. -/
lemma Numeral.sound_zero {exponent : Option (Bool × List Char)}
    (isDigits : ∀ written ∈ exponent, written.2 ≠ [] ∧
      ∀ digit ∈ written.2, digit.isDigit = true) : (⟨['0'], [], exponent⟩ : Numeral).Sound where
  whole := by
    intro digit member
    rw [List.mem_singleton.mp member]
    rfl
  start := .inl rfl
  fraction := fun _ none => absurd none not_mem_nil
  exponent := isDigits

namespace Decimal

/-- A text is a numeral that stands for the decimal. -/
def IsWritten (decimal : Decimal) (text : List Char) : Prop :=
  ∃ numeral : Numeral, numeral.Sound ∧ numeral.text = text ∧ numeral.value = decimal.value

variable {decimal : Decimal}

lemma Normal.isDigit (normal : decimal.Normal) :
    ∀ char ∈ digitChars decimal.digits, char.isDigit = true :=
  fun _ member => isDigit_of_mem_digitChars normal.small member

/-- Digits that all stand behind the point, with zeros in front of them. -/
lemma Normal.isWritten_full_behind (normal : decimal.Normal) (behind : decimal.point <= 0) :
    decimal.IsWritten decimal.full := by
  rcases normal.leading with ⟨first, rest, isDigits, _⟩
  refine ⟨⟨['0'], replicate decimal.point.natAbs '0' ++ digitChars decimal.digits, none⟩,
    ⟨?_, .inl rfl, ?_, ?_⟩, ?_, ?_⟩
  · intro digit member
    rw [List.mem_singleton.mp member]
    rfl
  · intro digit member
    rcases List.mem_append.mp member with zero | member
    · exact isDigit_of_mem_zeros zero
    · exact normal.isDigit digit member
  · exact fun _ none => absurd none (not_mem_none _)
  · rw [full, if_pos behind, isDigits]
    simp [Numeral.text, Numeral.fractionText, Numeral.exponentText, digitChars]
  · have zeros : ['0'] ++ replicate decimal.point.natAbs '0' =
        replicate (decimal.point.natAbs + 1) '0' := rfl
    have shift : (0 : ℤ) - ((decimal.point.natAbs + decimal.digits.length : ℕ) : ℤ) =
        decimal.point - decimal.digits.length := by omega
    rw [Numeral.value, value, number]
    simp only [Numeral.power, elim_none]
    rw [← List.append_assoc, zeros, ofDigits_zeros_append, length_append,
      length_replicate, length_digitChars, shift]

/-- Digits in front of the point, filled up with zeros where they do not reach it. -/
lemma Normal.isWritten_full_front (normal : decimal.Normal) (front : ¬ decimal.point <= 0) :
    decimal.IsWritten decimal.full := by
  rcases normal.leading with ⟨first, rest, isDigits, leading⟩
  have takeSmall : ∀ digit ∈ decimal.digits.take decimal.point.toNat, digit < 10 :=
    fun digit member => normal.small digit (mem_of_mem_take member)
  have dropSmall : ∀ digit ∈ decimal.digits.drop decimal.point.toNat, digit < 10 :=
    fun digit member => normal.small digit (mem_of_mem_drop member)
  refine ⟨⟨digitChars (decimal.digits.take decimal.point.toNat) ++
      replicate
        (decimal.point.toNat - (decimal.digits.take decimal.point.toNat).length) '0',
      digitChars (decimal.digits.drop decimal.point.toNat), none⟩, ⟨?_, ?_, ?_, ?_⟩, ?_, ?_⟩
  · intro digit member
    rcases List.mem_append.mp member with member | zero
    · exact isDigit_of_mem_digitChars takeSmall member
    · exact isDigit_of_mem_zeros zero
  · right
    have next : decimal.point.toNat = (decimal.point.toNat - 1) + 1 := by omega
    refine ⟨first.digitChar, digitChars (rest.take (decimal.point.toNat - 1)) ++ replicate
      (decimal.point.toNat - (decimal.digits.take decimal.point.toNat).length) '0', ?_,
      digitChar_ne_zero leading⟩
    have taken : decimal.digits.take decimal.point.toNat =
        first :: rest.take (decimal.point.toNat - 1) := by
      rw [isDigits, next, take_succ_cons, Nat.add_sub_cancel]
    rw [taken]
    rfl
  · exact fun digit member => isDigit_of_mem_digitChars dropSmall member
  · exact fun _ none => absurd none (not_mem_none _)
  · rw [full, if_neg front]
    simp only [Numeral.text, Numeral.fractionText, Numeral.exponentText, elim_none,
      append_nil, digitChars, isEmpty_map]
    split
    · rw [append_nil]
    · rfl
  · rw [Numeral.value, value, number]
    simp only [Numeral.power, elim_none]
    rcases Nat.le_total decimal.digits.length decimal.point.toNat with short | long
    · have shift : decimal.point - decimal.digits.length =
          ((decimal.point.toNat - decimal.digits.length : ℕ) : ℤ) := by omega
      have none : digitChars [] = [] := rfl
      rw [take_of_length_le short, drop_of_length_le short, shift, none,
        append_nil, ofDigits_append_zeros, zpow_natCast, length_nil]
      push_cast
      rw [mul_one]
    · have shift : (0 : ℤ) - ((decimal.digits.length - decimal.point.toNat : ℕ) : ℤ) =
          decimal.point - decimal.digits.length := by omega
      rw [length_take_of_le long, Nat.sub_self, replicate_zero, append_nil,
        ← digitChars_append, take_append_drop, length_digitChars, length_drop, shift]

lemma isDigit_of_mem_padded {width number : ℕ}
    (member : char ∈ padded width (Nat.toDigits 10 number)) : char.isDigit = true := by
  rcases List.mem_append.mp member with zero | member
  · exact isDigit_of_mem_zeros zero
  · exact isDigit_of_mem_toDigits member

lemma padded_ne_nil (width number : ℕ) : padded width (Nat.toDigits 10 number) ≠ [] := by
  intro empty
  exact Nat.toDigits_ne_nil (List.append_eq_nil_iff.mp empty).2

lemma Normal.isWritten_scientific (normal : decimal.Normal)
    (bounded : decimal.exponent.natAbs < 100000) (width : ℕ) :
    decimal.IsWritten (decimal.scientific width) := by
  rcases normal.leading with ⟨first, rest, isDigits, leading⟩
  have isExponent : decimal.exponent = decimal.point - 1 := by
    rw [exponent, isDigits]
    rfl
  have small := normal.small
  rw [isDigits] at small
  refine ⟨⟨[first.digitChar], digitChars rest, some (decimal.exponent < 0,
    padded width (Nat.toDigits 10 decimal.exponent.natAbs))⟩, ⟨?_, ?_, ?_, ?_⟩, ?_, ?_⟩
  · intro digit member
    rw [List.mem_singleton.mp member, Nat.isDigit_digitChar, decide_eq_true_eq]
    exact small first mem_cons_self
  · exact .inr ⟨_, _, rfl, digitChar_ne_zero leading⟩
  · intro digit member
    exact isDigit_of_mem_digitChars
      (fun other listed => small other (mem_cons_of_mem _ listed))
      member
  · intro written isWritten
    rw [← Option.some.inj isWritten]
    exact ⟨padded_ne_nil _ _, fun digit member => isDigit_of_mem_padded member⟩
  · rw [scientific, isDigits]
    cases rest with
    | nil => simp [Numeral.text, Numeral.fractionText, Numeral.exponentText, digitChars]
    | cons second others =>
      simp [Numeral.text, Numeral.fractionText, Numeral.exponentText, digitChars]
  · have exact : readExponent (padded width (Nat.toDigits 10 decimal.exponent.natAbs)) =
        decimal.exponent.natAbs := by
      have number : ofDigits (padded width (Nat.toDigits 10 decimal.exponent.natAbs)) =
          decimal.exponent.natAbs := by
        rw [padded, ofDigits_zeros_append, ofDigits_toDigits]
      rw [readExponent_eq (by omega), number]
    have power : (if decide (decimal.exponent < 0) = true then -(decimal.exponent.natAbs : ℤ)
        else decimal.exponent.natAbs) = decimal.point - 1 := by
      rw [← isExponent]
      split
      · next negative => rw [decide_eq_true_eq] at negative; omega
      · next positive => rw [decide_eq_true_eq] at positive; omega
    have shift : decimal.point - 1 - rest.length = decimal.point - decimal.digits.length := by
      rw [isDigits, length_cons]
      push_cast
      ring
    rw [Numeral.value, value, number, isDigits]
    simp only [Numeral.power, elim_some, exact, power]
    rw [length_digitChars, shift, isDigits]
    rfl

end Decimal

/-! ## Writing and reading -/

variable {value : Double}

namespace Double

lemma ofMagnitude_magnitude (value : Double) :
    ofMagnitude value.isNegative value.magnitude = value := by
  have size := value.bits.toNat_lt
  have bits : value.magnitude + (if value.isNegative then Nat.pow 2 63 else 0) =
      value.bits.toNat := by
    rw [magnitude, isNegative]
    simp only [Nat.pow_eq, decide_eq_true_eq]
    split <;> omega
  rw [ofMagnitude, bits, UInt64.ofNat_toNat]

lemma significand_pos (nonzero : value.isZero = false) : 0 < value.parts.1 := by
  rw [Nat.pos_iff_ne_zero]
  intro none
  have canonical := value.canonical_parts
  have whole := value.magnitudeOf_parts
  rw [none] at canonical
  rw [magnitudeOf, none, canonical.full.resolve_right (by norm_num)] at whole
  rw [isZero, decide_eq_false_iff_not] at nonzero
  exact nonzero (by simpa using whole.symm)

lemma magnitudeOf_parts_lt (finite : value.isFinite = true) :
    magnitudeOf value.parts.1 value.parts.2 < infinityBits := by
  rw [value.magnitudeOf_parts]
  rw [isFinite, decide_eq_true_eq] at finite
  exact finite

/-- The shortest decimal of a double is one that is found in its interval. -/
lemma exists_shortest_eq (finite : value.isFinite = true) (nonzero : value.isZero = false) :
    ∃ number place, (Rounding.ofParts value.parts.1 value.parts.2).Shortest number place ∧
      0 < number ∧ value.shortest = .ofScaled number place := by
  have significand := significand_pos nonzero
  rcases Rounding.exists_shortest value.canonical_parts significand
    (magnitudeOf_parts_lt finite) with ⟨number, place, found⟩
  refine ⟨number, place, found, ?_, ?_⟩
  · exact found.holds.pos value.canonical_parts significand
  · rw [shortest, nonzero]
    simp only [Bool.false_eq_true, if_false, found.searched]

lemma exponent_shortest (finite : value.isFinite = true) (nonzero : value.isZero = false) :
    value.shortest.exponent.natAbs < 100000 := by
  rcases exists_shortest_eq finite nonzero with ⟨number, place, found, positive, same⟩
  have upper := found.holds.upper value.canonical_parts (magnitudeOf_parts_lt finite)
  have least := found.least
  have most := found.most
  have short : number < 10 ^ 817 := by
    have scaled : (number : ℚ) * 10 ^ place < 10 ^ (817 + place) :=
      (upper.trans two_zpow_lt_ten_zpow).trans_le (zpow_le_zpow_right₀ (by norm_num) (by omega))
    rw [zpow_add₀ (by norm_num)] at scaled
    have bounded := lt_of_mul_lt_mul_right scaled (by positivity)
    exact_mod_cast bounded
  have length := (Nat.length_toDigits_le_iff (by norm_num) (by norm_num)).mpr short
  rcases Decimal.ofScaled_spec positive place with ⟨_, _, point⟩
  rw [same, Decimal.exponent]
  split
  · norm_num
  · rw [point]
    omega

end Double

namespace Layout

variable (layout : Layout)

def body (decimal : Decimal) : List Char :=
  if layout.leastFull <= decimal.exponent ∧ decimal.exponent < layout.pastFull then decimal.full
  else decimal.scientific layout.exponentWidth

lemma toList_write (finite : value.isFinite = true) : (layout.write value).toList =
      if value.isNegative then '-' :: layout.body value.shortest
      else layout.body value.shortest := by
  have notNaN : ¬ value.isNaN = true := by
    rw [Double.isFinite, decide_eq_true_eq] at finite
    rw [Double.isNaN, decide_eq_true_eq]
    omega
  rw [write, if_neg notNaN, finite, if_neg (by decide), String.toList_ofList]
  rfl

lemma isWritten_body {decimal : Decimal} (normal : decimal.Normal)
    (bounded : decimal.exponent.natAbs < 100000) : decimal.IsWritten (layout.body decimal) := by
  rw [body]
  split
  · by_cases behind : decimal.point <= 0
    · exact normal.isWritten_full_behind behind
    · exact normal.isWritten_full_front behind
  · exact normal.isWritten_scientific bounded layout.exponentWidth

lemma exists_body_zero :
    ∃ exponent : Option (Bool × List Char), (⟨['0'], [], exponent⟩ : Numeral).Sound ∧
      (⟨['0'], [], exponent⟩ : Numeral).text = layout.body ⟨[], 0⟩ := by
  rw [body]
  split
  · refine ⟨none, Numeral.sound_zero ?_, rfl⟩
    exact fun _ absent => absurd absent (not_mem_none _)
  · refine ⟨some (false, padded layout.exponentWidth (Nat.toDigits 10 0)),
      Numeral.sound_zero ?_, rfl⟩
    intro written isWritten
    rw [← Option.some.inj isWritten]
    exact ⟨Decimal.padded_ne_nil _ _, fun digit member => Decimal.isDigit_of_mem_padded member⟩

/-- A finite double is written as a numeral that stands for a number in its interval, or
for zero. -/
lemma exists_numeral (finite : value.isFinite = true) : ∃ numeral : Numeral, numeral.Sound ∧
      (layout.write value).toList = numeral.signed value.isNegative ∧
      (value.isZero = true -> ofDigits (numeral.whole ++ numeral.fraction) = 0) ∧
      (value.isZero = false ->
        (Rounding.ofParts value.parts.1 value.parts.2).Holds numeral.value) := by
  rw [layout.toList_write finite]
  cases zero : value.isZero with
  | true =>
    have isShortest : value.shortest = ⟨[], 0⟩ := by
      rw [Double.shortest, if_pos zero]
    rcases layout.exists_body_zero with ⟨exponent, sound, text⟩
    refine ⟨_, sound, ?_, fun _ => rfl, fun nonzero => absurd nonzero (by decide)⟩
    rw [Numeral.signed, text, isShortest]
  | false =>
    rcases Double.exists_shortest_eq finite zero with ⟨number, place, found, positive, same⟩
    have normal := Decimal.normal_ofScaled positive place
    rw [← same] at normal
    rcases layout.isWritten_body normal (Double.exponent_shortest finite zero) with
      ⟨numeral, sound, text, valued⟩
    refine ⟨numeral, sound, ?_, fun isZero => absurd isZero (by decide), fun _ => ?_⟩
    · rw [Numeral.signed, text]
    · rw [valued, same, Decimal.value_ofScaled positive]
      exact found.holds

lemma read_write (finite : value.isFinite = true) :
    Double.read (layout.write value).toList = value := by
  rcases layout.exists_numeral finite with ⟨numeral, sound, text, ofZero, ofNonzero⟩
  rw [text, sound.read_signed, Double.ofDecimal]
  have magnitude : Double.decimalMagnitude (ofDigits (numeral.whole ++ numeral.fraction))
      (numeral.power - numeral.fraction.length) = value.magnitude := by
    cases zero : value.isZero with
    | true =>
      rw [Double.decimalMagnitude, if_pos (ofZero zero)]
      rw [Double.isZero, decide_eq_true_eq] at zero
      exact zero.symm
    | false =>
      rw [Double.decimalMagnitude_eq value.canonical_parts (Double.significand_pos zero)
        (Double.magnitudeOf_parts_lt finite) (ofNonzero zero), Double.magnitudeOf_parts]
  rw [magnitude, Double.ofMagnitude_magnitude]

end Layout

end MessageSchema.Number

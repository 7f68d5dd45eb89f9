import MessageSchema.Proofs.Number.Numerals

namespace MessageSchema.Number

open List

/-!
Integers as doubles.

An integer below `2 ^ 53` is a double exactly, and a layout that writes small
numbers in full writes it with the digits of the integer.  The interval of the
double is no wider than one, so on a grid of whole numbers only the integer lies in
it, and the search reaches that grid.
-/

namespace Double

/-- The rational number that a finite double stands for. -/
def toRat (value : Double) : ℚ :=
  (if value.isNegative then -1 else 1) * (value.parts.1 * 2 ^ value.parts.2)

section
variable {magnitude : ℕ} (negative : Bool)

lemma toNat_bits_ofMagnitude (small : magnitude < 2 ^ 63) :
    (ofMagnitude negative magnitude).bits.toNat = magnitude + if negative then 2 ^ 63 else 0 := by
  rw [ofMagnitude, UInt64.toNat_ofNat', Nat.pow_eq, Nat.mod_eq_of_lt]
  split <;> omega

lemma magnitude_ofMagnitude (small : magnitude < 2 ^ 63) :
    (ofMagnitude negative magnitude).magnitude = magnitude := by
  rw [Double.magnitude, toNat_bits_ofMagnitude negative small, Nat.pow_eq]
  split <;> omega

lemma isNegative_ofMagnitude (small : magnitude < 2 ^ 63) :
    (ofMagnitude negative magnitude).isNegative = negative := by
  rw [isNegative, toNat_bits_ofMagnitude negative small, Nat.pow_eq]
  cases negative with
  | true => simp
  | false => simpa using small

end

lemma parts_of_magnitude {value : Double} {significand : ℕ} {exponent : ℤ}
    (canonical : Canonical significand exponent)
    (same : value.magnitude = magnitudeOf significand exponent) :
    value.parts = (significand, exponent) := by
  have least := canonical.least
  have small := canonical.small
  rw [magnitudeOf] at same
  rw [parts, same]
  simp only [Nat.pow_eq]
  rcases canonical.full with isLeast | full
  · rw [isLeast]
    rw [show ((-1074 : ℤ) + 1074).toNat = 0 by norm_num, Nat.zero_mul, Nat.zero_add]
    split
    · next first =>
      rw [Nat.mod_eq_of_lt (by omega)]
    · next later =>
      have one : significand / 2 ^ 52 = 1 := by omega
      have rest : 2 ^ 52 + significand % 2 ^ 52 = significand := by omega
      rw [rest, one]
      norm_num
  · have quotient : ((exponent + 1074).toNat * 2 ^ 52 + significand) / 2 ^ 52 =
        (exponent + 1074).toNat + 1 := by omega
    have remainder : 2 ^ 52 + ((exponent + 1074).toNat * 2 ^ 52 + significand) % 2 ^ 52 =
        significand := by omega
    rw [quotient, remainder, if_neg (by omega)]
    congr 1
    omega

/-- An integer of at most 53 bits with its parts. -/
structure IsWhole (number : ℕ) (significand : ℕ) (exponent : ℤ) : Prop where
  canonical : Canonical significand exponent
  nonzero : 0 < significand
  fine : exponent <= 0
  value : (significand : ℚ) * 2 ^ exponent = number

lemma exists_isWhole {number : ℕ} (nonzero : 0 < number) (small : number < 2 ^ 53) :
    ∃ significand exponent, IsWhole number significand exponent := by
  have length : number.log2 < 53 := (Nat.log2_lt nonzero.ne').mpr small
  have split : (52 - number.log2) + number.log2 = 52 := by omega
  have low : 2 ^ 52 <= number * 2 ^ (52 - number.log2) := by
    have := Nat.mul_le_mul_right (2 ^ (52 - number.log2)) (Nat.log2_self_le nonzero.ne')
    rwa [← pow_add, Nat.add_comm, split] at this
  have high : number * 2 ^ (52 - number.log2) < 2 ^ 53 := by
    have := Nat.mul_lt_mul_of_pos_right (Nat.lt_log2_self (n := number))
      (Nat.pow_pos (n := 52 - number.log2) two_pos)
    rwa [← pow_add, Nat.add_comm, ← Nat.add_assoc, split] at this
  refine ⟨number * 2 ^ (52 - number.log2), -((52 - number.log2 : ℕ) : ℤ), ⟨?_, high, .inr low⟩,
    by omega, by omega, ?_⟩
  · omega
  · rw [zpow_neg, zpow_natCast]
    push_cast
    field_simp

variable {number significand : ℕ} {exponent : ℤ}

section
variable (whole : IsWhole number significand exponent)
include whole

lemma IsWhole.finite : magnitudeOf significand exponent < infinityBits := by
  have fine := whole.fine
  have small := whole.canonical.small
  rw [magnitudeOf, infinityBits]
  omega

lemma IsWhole.decimalMagnitude_eq :
    decimalMagnitude number 0 = magnitudeOf significand exponent := by
  refine Double.decimalMagnitude_eq whole.canonical whole.nonzero whole.finite ?_
  rw [zpow_zero, mul_one, ← whole.value]
  exact Rounding.holds_self exponent whole.nonzero

/-- The grid of whole numbers has a decimal in the interval. -/
lemma IsWhole.isSome_onGrid? :
    ((Rounding.ofParts significand exponent).onGrid? 0).isSome = true := by
  have denominator := Rounding.denominator_ofParts_pos significand exponent
  have around := Rounding.floorAt_spec denominator 0
  rw [Rounding.value_ofParts, whole.value, zpow_zero, mul_one, mul_one] at around
  have floor : ((Rounding.ofParts significand exponent).floorAt 0).1 = number := by
    have atMost : ((Rounding.ofParts significand exponent).floorAt 0).1 <= number := by
      exact_mod_cast around.1
    have atLeast : number < ((Rounding.ofParts significand exponent).floorAt 0).1 + 1 := by
      exact_mod_cast around.2
    omega
  apply Rounding.isSome_onGrid?
  rw [floor, Rounding.holds_iff denominator, zpow_zero, mul_one, ← whole.value]
  exact .inl (Rounding.holds_self exponent whole.nonzero)

lemma IsWhole.shortest {shortest : ℕ} {place : ℤ}
    (found : (Rounding.ofParts significand exponent).Shortest shortest place) :
    0 <= place ∧ shortest * 10 ^ place.toNat = number := by
  have unit : (0 : ℚ) < 2 ^ exponent := zpow_pos two_pos exponent
  have fine : (2 : ℚ) ^ exponent <= 1 := zpow_le_one_of_nonpos₀ one_le_two whole.fine
  have nonneg : 0 <= place := by
    by_contra below
    have one : (1 : ℚ) <= (Rounding.ofParts significand exponent).value /
        (Rounding.ofParts significand exponent).denominator := by
      rw [Rounding.value_ofParts, whole.value]
      have nonzero : 0 < number := by
        rw [Nat.pos_iff_ne_zero]
        intro zero
        have value := whole.value
        have nonzero : (0 : ℚ) < significand := by exact_mod_cast whole.nonzero
        rw [zero, Nat.cast_zero] at value
        exact absurd value (by positivity)
      exact_mod_cast nonzero
    have some := whole.isSome_onGrid?
    rw [found.coarsest 0 (by omega) (found.start one)] at some
    cases some
  refine ⟨nonneg, ?_⟩
  have power : (10 : ℚ) ^ place = 10 ^ place.toNat := by
    rw [← zpow_natCast, Int.toNat_of_nonneg nonneg]
  have reach := Rounding.reachBelow_le significand exponent
  have bounds := found.holds.bounds
  rw [Rounding.low_ofParts _ _ whole.nonzero, Rounding.high_ofParts, power, sub_mul, add_mul,
    whole.value] at bounds
  have below : (Rounding.reachBelow significand exponent : ℚ) / 4 * 2 ^ exponent <= 1 / 2 * 1 :=
    mul_le_mul (by linarith) fine unit.le (by norm_num)
  have atLeast : (number : ℚ) < (shortest * 10 ^ place.toNat : ℕ) + 1 := by
    push_cast
    linarith
  have atMost : ((shortest * 10 ^ place.toNat : ℕ) : ℚ) < number + 1 := by
    push_cast
    linarith
  have atLeast' : number < shortest * 10 ^ place.toNat + 1 := by exact_mod_cast atLeast
  have atMost' : shortest * 10 ^ place.toNat < number + 1 := by exact_mod_cast atMost
  omega

end

variable {value : ℤ}

lemma ofInt_eq (value : ℤ) :
    ofInt value = ofMagnitude (value < 0) (decimalMagnitude value.natAbs 0) :=
  rfl

lemma IsWhole.ofInt (whole : IsWhole value.natAbs significand exponent) :
    (ofInt value).isFinite = true ∧ (ofInt value).isZero = false ∧
      (ofInt value).isNegative = decide (value < 0) ∧
      (ofInt value).parts = (significand, exponent) := by
  have finite := whole.finite
  have small : magnitudeOf significand exponent < 2 ^ 63 := by
    rw [infinityBits] at finite
    omega
  have nonzero := whole.nonzero
  have magnitude : (Double.ofInt value).magnitude = magnitudeOf significand exponent := by
    rw [ofInt_eq, whole.decimalMagnitude_eq, magnitude_ofMagnitude _ small]
  refine ⟨?_, ?_, ?_, parts_of_magnitude whole.canonical magnitude⟩
  · rw [isFinite, magnitude, decide_eq_true_eq]
    exact finite
  · rw [isZero, magnitude, decide_eq_false_iff_not, magnitudeOf]
    omega
  · rw [ofInt_eq, whole.decimalMagnitude_eq, isNegative_ofMagnitude _ small]

lemma ofInt_zero : ofInt 0 = ⟨0⟩ := by
  decide +kernel

lemma toRat_ofInt (small : value.natAbs < 2 ^ 53) :
    (ofInt value).isFinite = true ∧ (ofInt value).toRat = value := by
  by_cases zero : value = 0
  · subst zero
    rw [ofInt_zero]
    refine ⟨by decide +kernel, ?_⟩
    have parts : (⟨0⟩ : Double).parts = (0, -1074) := by decide +kernel
    rw [toRat, parts]
    simp
  · rcases exists_isWhole (Int.natAbs_pos.mpr zero) small with ⟨significand, exponent, whole⟩
    rcases whole.ofInt with ⟨finite, _, negative, parts⟩
    refine ⟨finite, ?_⟩
    rw [toRat, negative, parts, whole.value]
    by_cases below : value < 0
    · rw [decide_eq_true below, if_pos rfl]
      have magnitude : (value.natAbs : ℤ) = -value := by omega
      rw [← Int.cast_natCast, magnitude, Int.cast_neg, neg_one_mul, neg_neg]
    · rw [decide_eq_false below, if_neg Bool.false_ne_true]
      have magnitude : (value.natAbs : ℤ) = value := by omega
      rw [← Int.cast_natCast, magnitude, one_mul]

end Double

/-- The digits of an integer behind its sign. -/
lemma toList_toString_int (value : ℤ) : (toString value).toList =
      if value < 0 then '-' :: Nat.toDigits 10 value.natAbs else Nat.toDigits 10 value.natAbs := by
  rw [Int.toString_eq_repr, Int.repr_eq_if]
  by_cases below : value < 0
  · have magnitude : (-value).toNat = value.natAbs := by omega
    rw [if_neg (by omega), if_pos below, magnitude, Nat.repr_eq_ofList_toDigits]
    simp only [String.toList_append, String.toList_ofList]
    rfl
  · have magnitude : value.toNat = value.natAbs := by omega
    rw [if_pos (by omega), if_neg below, magnitude, Nat.repr_eq_ofList_toDigits,
      String.toList_ofList]

/-- The digits of a natural number as a numeral. -/
def Numeral.ofNat (number : ℕ) : Numeral :=
  ⟨Nat.toDigits 10 number, [], none⟩

lemma Numeral.sound_ofNat (number : ℕ) : (ofNat number).Sound where
  whole := fun _ member => isDigit_of_mem_toDigits member
  start := by
    rcases Nat.eq_zero_or_pos number with rfl | nonzero
    · exact .inl rfl
    · exact .inr (toDigits_leading nonzero)
  fraction := fun _ none => absurd none not_mem_nil
  exponent := fun _ none => absurd none (Option.not_mem_none _)

lemma toList_toString_eq_signed (value : ℤ) :
    (toString value).toList = (Numeral.ofNat value.natAbs).signed (value < 0) := by
  have text : (Numeral.ofNat value.natAbs).text = Nat.toDigits 10 value.natAbs :=
    append_nil _
  rw [toList_toString_int, Numeral.signed, text]
  simp only [decide_eq_true_eq]

lemma read_toString (value : ℤ) : Double.read (toString value).toList = Double.ofInt value := by
  have digits : ofDigits ((Numeral.ofNat value.natAbs).whole ++
      (Numeral.ofNat value.natAbs).fraction) = value.natAbs := by
    rw [Numeral.ofNat, append_nil, ofDigits_toDigits]
  rw [toList_toString_eq_signed, (Numeral.sound_ofNat _).read_signed, digits]
  rfl

/-- A whole decimal in full is written with the digits of the number. -/
lemma Decimal.full_ofScaled {number : ℕ} (nonzero : 0 < number) (count : ℕ) :
    (ofScaled number count).full = Nat.toDigits 10 (number * 10 ^ count) := by
  rcases ofScaled_spec nonzero count with ⟨zeros, split, point⟩
  have length := congrArg List.length split
  rw [length_append, length_replicate, length_digitChars] at length
  have front := Nat.length_toDigits_pos (b := 10) (n := number)
  have short : (ofScaled number count).digits.length <= (ofScaled number count).point.toNat := by
    omega
  have filled : (ofScaled number count).point.toNat - (ofScaled number count).digits.length =
      zeros + count := by omega
  have noFraction : ((ofScaled number count).digits.drop
      (ofScaled number count).point.toNat).isEmpty = true := by
    rw [drop_of_length_le short]
    rfl
  rw [full, if_neg (by omega)]
  simp only [noFraction, if_true, take_of_length_le short, filled]
  rw [toDigits_mul_pow nonzero, split, List.append_assoc, replicate_append_replicate]

/-- A layout that writes small numbers in full writes an integer as it is. -/
lemma Layout.write_ofInt (layout : Layout) (least : layout.leastFull <= 0)
    (past : 16 <= layout.pastFull) {value : ℤ} (small : value.natAbs < 2 ^ 53) :
    layout.write (Double.ofInt value) = toString value := by
  apply String.toList_inj.mp
  rw [toList_toString_int, layout.toList_write (Double.toRat_ofInt small).1]
  by_cases zero : value = 0
  · subst zero
    have shortest : (Double.ofInt 0).shortest = ⟨[], 0⟩ := by decide +kernel
    have positive : (Double.ofInt 0).isNegative = false := by decide +kernel
    have fits : layout.leastFull <= Decimal.exponent ⟨[], 0⟩ ∧
        Decimal.exponent ⟨[], 0⟩ < layout.pastFull :=
      ⟨least, lt_of_lt_of_le (by norm_num [Decimal.exponent]) past⟩
    rw [shortest, positive, if_neg Bool.false_ne_true, body, if_pos fits]
    rfl
  · rcases Double.exists_isWhole (Int.natAbs_pos.mpr zero) small with
      ⟨significand, exponent, whole⟩
    rcases whole.ofInt with ⟨finite, nonzero, negative, parts⟩
    rcases Double.exists_shortest_eq finite nonzero with
      ⟨number, place, found, positive, same⟩
    rw [parts] at found
    rcases whole.shortest found with ⟨nonneg, exact⟩
    rw [← Int.toNat_of_nonneg nonneg] at same
    have body : layout.body (Double.ofInt value).shortest = Nat.toDigits 10 value.natAbs := by
      rcases Decimal.ofScaled_spec positive (place.toNat : ℤ) with ⟨_, _, point⟩
      have short : (Nat.toDigits 10 value.natAbs).length <= 16 := by
        rw [Nat.length_toDigits_le_iff (by norm_num) (by norm_num)]
        exact small.trans (by norm_num)
      rw [← exact, toDigits_mul_pow positive, length_append, length_replicate] at short
      have front := Nat.length_toDigits_pos (b := 10) (n := number)
      have bounds : layout.leastFull <= (Decimal.ofScaled number place.toNat).exponent ∧
          (Decimal.ofScaled number place.toNat).exponent < layout.pastFull := by
        rw [Decimal.exponent]
        split
        · omega
        · rw [point]
          omega
      rw [same, Layout.body, if_pos bounds, Decimal.full_ofScaled positive, exact]
    rw [negative, body]
    simp only [decide_eq_true_eq]

end MessageSchema.Number

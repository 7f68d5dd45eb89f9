import Mathlib
import MessageSchema.Number.Shortest

namespace MessageSchema.Number

/-!
Rounding to the nearest double, in exact arithmetic.

A pattern of bits stands for a significand times a power of two, and every quotient
in an interval around it is rounded to the pattern: within its binade the
significand is the nearest integer, and a number just below a power of two rounds up
to it out of the binade below.
-/

/-! ## Quotients and powers -/

variable {denominator nearest : ℕ} {exponent place : ℤ}

lemma zpow_of_neg (base : ℚ) (negative : exponent < 0) :
    base ^ exponent = (base ^ exponent.natAbs)⁻¹ := by
  have same : exponent = -(exponent.natAbs : ℤ) := by omega
  rw [← zpow_natCast, ← zpow_neg, ← same]

lemma zpow_of_nonneg (base : ℚ) (positive : ¬ exponent < 0) :
    base ^ exponent = base ^ exponent.natAbs := by
  have same : exponent = (exponent.natAbs : ℤ) := by omega
  rw [← zpow_natCast, ← same]

lemma div_zpow_of_neg (negative : exponent < 0) (base number unit : ℚ) :
    number / unit / base ^ exponent = number * base ^ exponent.natAbs / unit := by
  rw [zpow_of_neg base negative, div_inv_eq_mul, div_mul_eq_mul_div]

lemma div_zpow_of_nonneg (positive : ¬ exponent < 0) (base number unit : ℚ) :
    number / unit / base ^ exponent = number / (unit * base ^ exponent.natAbs) := by
  rw [zpow_of_nonneg base positive, div_div]

/-- A power is compared with a quotient by multiplying out. -/
lemma reaches_iff (base : ℕ) (exponent : ℤ) (some : 0 < base) (numerator : ℕ)
    (denominatorPos : 0 < denominator) :
    (if exponent < 0 then decide (denominator <= numerator * Nat.pow base exponent.natAbs)
      else decide (denominator * Nat.pow base exponent.natAbs <= numerator)) = true ↔
      (base : ℚ) ^ exponent <= numerator / denominator := by
  have unit : (0 : ℚ) < denominator := by exact_mod_cast denominatorPos
  have some' : (0 : ℚ) < base := by exact_mod_cast some
  rw [← one_le_div (zpow_pos some' exponent)]
  by_cases negative : exponent < 0
  · rw [if_pos negative, div_zpow_of_neg negative, one_le_div unit, decide_eq_true_eq, Nat.pow_eq]
    exact_mod_cast Iff.rfl
  · rw [if_neg negative, div_zpow_of_nonneg negative, one_le_div (by positivity),
      decide_eq_true_eq, Nat.pow_eq]
    exact_mod_cast Iff.rfl

/-- An integer from which a quotient differs by at most a half, and by less if the
integer is odd, is the quotient rounded. -/
lemma roundHalfEven_eq {numerator : ℕ} (positive : 0 < denominator)
    (low : (nearest : ℚ) - 1 / 2 <= numerator / denominator)
    (high : (numerator : ℚ) / denominator <= nearest + 1 / 2)
    (even : (nearest : ℚ) - 1 / 2 = numerator / denominator ∨ (numerator : ℚ) / denominator =
      nearest + 1 / 2 -> nearest % 2 = 0) : roundHalfEven numerator denominator = nearest := by
  have positive' : (0 : ℚ) < denominator := by exact_mod_cast positive
  rw [le_div_iff₀ positive'] at low
  rw [div_le_iff₀ positive'] at high
  rw [eq_div_iff positive'.ne', div_eq_iff positive'.ne'] at even
  -- The same three facts about natural numbers.
  have lowNat : 2 * (nearest * denominator) <= 2 * numerator + denominator := by
    have : (2 * (nearest * denominator) : ℚ) <= 2 * numerator + denominator := by linarith
    exact_mod_cast this
  have highNat : 2 * numerator <= 2 * (nearest * denominator) + denominator := by
    have : (2 * numerator : ℚ) <= 2 * (nearest * denominator) + denominator := by linarith
    exact_mod_cast this
  have evenNat : 2 * (nearest * denominator) = 2 * numerator + denominator ∨
      2 * numerator = 2 * (nearest * denominator) + denominator -> nearest % 2 = 0 := by
    rintro (tie | tie)
    · have tie' : (2 * (nearest * denominator) : ℚ) = 2 * numerator + denominator := by
        exact_mod_cast tie
      exact even (.inl (by linarith))
    · have tie' : (2 * numerator : ℚ) = 2 * (nearest * denominator) + denominator := by
        exact_mod_cast tie
      exact even (.inr (by linarith))
  have whole := Nat.div_add_mod numerator denominator
  have below := Nat.mod_lt numerator positive
  rw [roundHalfEven]
  generalize numerator / denominator = quotient at whole ⊢
  generalize numerator % denominator = remainder at whole below ⊢
  rw [Nat.mul_comm] at whole
  -- Only the two integers around the quotient are near enough.
  have atLeast : quotient <= nearest := by
    by_contra less
    have := Nat.mul_le_mul_right denominator (Nat.succ_le_of_lt (Nat.lt_of_not_le less))
    rw [Nat.succ_mul] at this
    omega
  have atMost : nearest <= quotient + 1 := by
    by_contra more
    have := Nat.mul_le_mul_right denominator (Nat.succ_le_of_lt (Nat.lt_of_not_le more))
    rw [Nat.succ_mul, Nat.succ_mul] at this
    omega
  rcases Nat.le_succ_iff.mp atMost with upTo | next
  · have same : nearest = quotient := Nat.le_antisymm upTo atLeast
    subst same
    split
    · rfl
    · split
      · have := evenNat (.inr (by omega))
        omega
      · omega
  · rw [Nat.succ_eq_add_one] at next
    subst next
    rw [Nat.succ_mul quotient] at lowNat highNat evenNat
    split
    · omega
    · split
      · have := evenNat (.inl (by omega))
        omega
      · rfl

section
variable {numerator denominator : ℕ}

lemma log2_bounds {number : ℕ} (positive : 0 < number) :
    (2 : ℚ) ^ (number.log2 : ℤ) <= number ∧ (number : ℚ) < 2 ^ ((number.log2 : ℤ) + 1) := by
  rw [← Nat.cast_succ, zpow_natCast, zpow_natCast]
  exact_mod_cast And.intro (Nat.log2_self_le positive.ne') (Nat.lt_log2_self (n := number))

lemma floorLog2_spec (numeratorPos : 0 < numerator) (denominatorPos : 0 < denominator) :
    (2 : ℚ) ^ floorLog2 numerator denominator <= numerator / denominator ∧
      (numerator : ℚ) / denominator < 2 ^ (floorLog2 numerator denominator + 1) := by
  have unit : (0 : ℚ) < denominator := by exact_mod_cast denominatorPos
  rcases log2_bounds numeratorPos with ⟨numeratorLow, numeratorHigh⟩
  rcases log2_bounds denominatorPos with ⟨unitLow, unitHigh⟩
  have reaches := reaches_iff 2 ((numerator.log2 : ℤ) - denominator.log2) two_pos numerator
    denominatorPos
  rw [Nat.cast_ofNat] at reaches
  simp only [floorLog2, reaches]
  split
  · next reached =>
    refine ⟨reached, ?_⟩
    rw [div_lt_iff₀ unit]
    calc (numerator : ℚ) < 2 ^ ((numerator.log2 : ℤ) + 1) := numeratorHigh
      _ = 2 ^ ((numerator.log2 : ℤ) - denominator.log2 + 1) * 2 ^ (denominator.log2 : ℤ) := by
          rw [← zpow_add₀ two_ne_zero]
          congr 1
          ring
      _ <= 2 ^ ((numerator.log2 : ℤ) - denominator.log2 + 1) * denominator := by gcongr
  · next missed =>
    rw [sub_add_cancel]
    refine ⟨?_, not_le.mp missed⟩
    rw [le_div_iff₀ unit]
    calc (2 : ℚ) ^ ((numerator.log2 : ℤ) - denominator.log2 - 1) * denominator
        <= 2 ^ ((numerator.log2 : ℤ) - denominator.log2 - 1) *
            2 ^ ((denominator.log2 : ℤ) + 1) := by gcongr
      _ = 2 ^ (numerator.log2 : ℤ) := by
          rw [← zpow_add₀ two_ne_zero]
          congr 1
          ring
      _ <= numerator := numeratorLow

lemma le_floorLog2_iff (numeratorPos : 0 < numerator) (denominatorPos : 0 < denominator) :
    exponent <= floorLog2 numerator denominator ↔
      (2 : ℚ) ^ exponent <= numerator / denominator := by
  have spec := floorLog2_spec numeratorPos denominatorPos
  constructor
  · intro atMost
    exact (zpow_le_zpow_right₀ one_le_two atMost).trans spec.1
  · intro reached
    have less := (zpow_lt_zpow_iff_right₀ one_lt_two).mp (lt_of_le_of_lt reached spec.2)
    omega

/-- The binary exponent in units of a power of two. -/
lemma add_le_floorLog2_iff (numeratorPos : 0 < numerator) (denominatorPos : 0 < denominator)
    (exponent shift : ℤ) : exponent + shift <= floorLog2 numerator denominator ↔
      (2 : ℚ) ^ shift <= numerator / denominator / 2 ^ exponent := by
  rw [le_floorLog2_iff numeratorPos denominatorPos, le_div_iff₀ (zpow_pos two_pos exponent),
    add_comm, zpow_add₀ two_ne_zero]

end

/-! ## Significands and exponents -/

/-- A significand and an exponent as a finite double has them: the significand has 53
bits, or fewer at the least exponent. -/
structure Canonical (significand : ℕ) (exponent : ℤ) : Prop where
  least : -1074 <= exponent
  small : significand < 2 ^ 53
  full : exponent = -1074 ∨ 2 ^ 52 <= significand

/-- The bits, without sign, of a significand and an exponent. -/
def magnitudeOf (significand : ℕ) (exponent : ℤ) : ℕ :=
  (exponent + 1074).toNat * 2 ^ 52 + significand

lemma Double.canonical_parts (value : Double) : Canonical value.parts.1 value.parts.2 := by
  rw [Double.parts]
  simp only [Nat.pow_eq]
  split
  · exact ⟨le_refl _, by omega, .inl rfl⟩
  · exact ⟨by omega, by omega, .inr (by omega)⟩

lemma Double.magnitudeOf_parts (value : Double) :
    magnitudeOf value.parts.1 value.parts.2 = value.magnitude := by
  have whole := Nat.div_add_mod value.magnitude (2 ^ 52)
  rw [Double.parts, magnitudeOf]
  simp only [Nat.pow_eq]
  split
  · next least =>
    rw [least] at whole
    simpa using whole
  · next normal =>
    omega

/-! ## The interval of a double -/

variable {number : ℚ}

namespace Rounding

def Holds (interval : Rounding) (number : ℚ) : Prop :=
  if interval.closed then
    (interval.low : ℚ) / interval.denominator <= number ∧
      number <= (interval.high : ℚ) / interval.denominator
  else
    (interval.low : ℚ) / interval.denominator < number ∧
      number < (interval.high : ℚ) / interval.denominator

variable {interval : Rounding}

lemma Holds.bounds (holds : interval.Holds number) :
    (interval.low : ℚ) / interval.denominator <= number ∧
      number <= (interval.high : ℚ) / interval.denominator := by
  unfold Holds at holds
  split at holds
  · exact holds
  · exact ⟨holds.1.le, holds.2.le⟩

/-- An end of the interval lies in it only if the interval is closed. -/
lemma Holds.closed_of_end (holds : interval.Holds number)
    (atEnd : (interval.low : ℚ) / interval.denominator = number ∨ number =
      (interval.high : ℚ) / interval.denominator) : interval.closed = true := by
  unfold Holds at holds
  split at holds
  · next closed => exact closed
  · rcases atEnd with same | same
    · exact absurd same holds.1.ne
    · exact absurd same holds.2.ne

lemma Holds.of_lt (low : (interval.low : ℚ) / interval.denominator < number)
    (high : number < (interval.high : ℚ) / interval.denominator) : interval.Holds number := by
  unfold Holds
  split
  · exact ⟨low.le, high.le⟩
  · exact ⟨low, high⟩

section
variable (significand : ℕ) (exponent : ℤ)

lemma denominator_ofParts_pos : 0 < (ofParts significand exponent).denominator := by
  simp only [ofParts, Nat.pow_eq]
  split <;> positivity

/-- Quarters of a unit over the denominator of the interval. -/
lemma quarters_div_denominator (quarters : ℕ) :
    ((quarters * (if exponent < 0 then 1 else Nat.pow 2 exponent.natAbs) : ℕ) : ℚ) /
        (ofParts significand exponent).denominator = (quarters : ℚ) / 4 * 2 ^ exponent := by
  simp only [ofParts, Nat.pow_eq]
  by_cases negative : exponent < 0
  · rw [if_pos negative, if_pos negative, zpow_of_neg 2 negative]
    push_cast
    field_simp
  · rw [if_neg negative, if_neg negative, zpow_of_nonneg 2 negative]
    push_cast
    ring

/-- How many quarters of a unit the interval reaches down. -/
def reachBelow : ℕ :=
  if significand = Nat.pow 2 52 ∧ -1074 < exponent then 1 else 2

lemma reachBelow_le : (reachBelow significand exponent : ℚ) <= 2 := by
  rw [reachBelow]
  split <;> norm_num

lemma low_ofParts (some : 0 < significand) :
    ((ofParts significand exponent).low : ℚ) / (ofParts significand exponent).denominator =
      (significand - (reachBelow significand exponent : ℚ) / 4) * 2 ^ exponent := by
  have fits : reachBelow significand exponent <= 4 * significand := by
    rw [reachBelow]
    split <;> omega
  refine (quarters_div_denominator significand exponent
    (4 * significand - reachBelow significand exponent)).trans ?_
  rw [Nat.cast_sub fits]
  push_cast
  ring

lemma value_ofParts :
    ((ofParts significand exponent).value : ℚ) / (ofParts significand exponent).denominator =
      significand * 2 ^ exponent := by
  refine (quarters_div_denominator significand exponent (4 * significand)).trans ?_
  push_cast
  ring

lemma high_ofParts :
    ((ofParts significand exponent).high : ℚ) / (ofParts significand exponent).denominator =
      (significand + 1 / 2) * 2 ^ exponent := by
  refine (quarters_div_denominator significand exponent (4 * significand + 2)).trans ?_
  push_cast
  ring

end
end Rounding

/-! ## What is rounded to a double -/

section
variable {numerator denominator : ℕ}

/-- A quotient in units of its last place is rounded to the nearest integer. -/
lemma Double.nearestMagnitude_of_near (denominatorPos : 0 < denominator)
    (isPlace : max (-1074) (floorLog2 numerator denominator - 52) = place)
    (low : (nearest : ℚ) - 1 / 2 <= numerator / denominator / 2 ^ place)
    (high : (numerator : ℚ) / denominator / 2 ^ place <= nearest + 1 / 2)
    (even : (nearest : ℚ) - 1 / 2 = numerator / denominator / 2 ^ place ∨
      (numerator : ℚ) / denominator / 2 ^ place = nearest + 1 / 2 -> nearest % 2 = 0) :
    nearestMagnitude numerator denominator = min infinityBits (magnitudeOf nearest place) := by
  rw [nearestMagnitude, magnitudeOf]
  simp only [isPlace, Nat.pow_eq]
  congr 2
  by_cases negative : place < 0
  · rw [if_pos negative]
    rw [div_zpow_of_neg negative] at low high even
    exact roundHalfEven_eq denominatorPos (by exact_mod_cast low) (by exact_mod_cast high)
      (by exact_mod_cast even)
  · rw [if_neg negative]
    rw [div_zpow_of_nonneg negative] at low high even
    exact roundHalfEven_eq (by positivity) (by exact_mod_cast low) (by exact_mod_cast high)
      (by exact_mod_cast even)

/-- Just below a power of two the places are half as wide, and the significand is
rounded up to the power. -/
lemma Double.nearestMagnitude_below_power (numeratorPos : 0 < numerator)
    (denominatorPos : 0 < denominator) (notLeast : -1074 < exponent)
    (low : (2 : ℚ) ^ 52 - 1 / 4 <= numerator / denominator / 2 ^ exponent)
    (high : (numerator : ℚ) / denominator / 2 ^ exponent < 2 ^ 52) :
    nearestMagnitude numerator denominator = min infinityBits (magnitudeOf (2 ^ 52) exponent) := by
  have reached : exponent + 51 <= floorLog2 numerator denominator := by
    rw [add_le_floorLog2_iff numeratorPos denominatorPos]
    norm_num
    linarith
  have missed : ¬ exponent + 52 <= floorLog2 numerator denominator := by
    rw [add_le_floorLog2_iff numeratorPos denominatorPos, not_le]
    exact_mod_cast high
  have halved : (numerator : ℚ) / denominator / 2 ^ (exponent - 1) =
      2 * (numerator / denominator / 2 ^ exponent) := by
    rw [zpow_sub_one₀ two_ne_zero]
    field_simp
  have carried : magnitudeOf (2 ^ 52) exponent = magnitudeOf (2 ^ 53) (exponent - 1) := by
    have next : (exponent + 1074).toNat = (exponent - 1 + 1074).toNat + 1 := by omega
    rw [magnitudeOf, magnitudeOf, next]
    ring
  rw [carried]
  refine nearestMagnitude_of_near denominatorPos (by omega) ?_ ?_ ?_
  · rw [halved]
    push_cast
    linarith
  · rw [halved]
    push_cast
    linarith
  · intro _
    norm_num

/-- Every number in the interval of a double is rounded to it. -/
lemma Double.nearestMagnitude_eq {significand : ℕ} (canonical : Canonical significand exponent)
    (some : 0 < significand) (numeratorPos : 0 < numerator) (denominatorPos : 0 < denominator)
    (holds : (Rounding.ofParts significand exponent).Holds (numerator / denominator)) :
    nearestMagnitude numerator denominator =
      min infinityBits (magnitudeOf significand exponent) := by
  have least := canonical.least
  have unit : (0 : ℚ) < 2 ^ exponent := zpow_pos two_pos exponent
  have small : (significand : ℚ) + 1 <= 2 ^ 53 := by exact_mod_cast canonical.small
  have reach := Rounding.reachBelow_le significand exponent
  have bounds := holds.bounds
  have ends := holds.closed_of_end
  rw [Rounding.low_ofParts _ _ some, Rounding.high_ofParts, ← le_div_iff₀ unit,
    ← div_le_iff₀ unit] at bounds
  rw [Rounding.low_ofParts _ _ some, Rounding.high_ofParts, ← eq_div_iff unit.ne',
    ← div_eq_iff unit.ne'] at ends
  have notPast : ¬ exponent + 53 <= floorLog2 numerator denominator := by
    rw [add_le_floorLog2_iff numeratorPos denominatorPos, not_le]
    have : (numerator : ℚ) / denominator / 2 ^ exponent < 2 ^ 53 := by linarith
    exact_mod_cast this
  by_cases within : exponent = -1074 ∨ exponent + 52 <= floorLog2 numerator denominator
  · -- In the binade of the double its significand is the nearest integer.
    refine nearestMagnitude_of_near denominatorPos (by omega) (by linarith) (by linarith) ?_
    intro tie
    have closed : (Rounding.ofParts significand exponent).closed = true := by
      refine ends (tie.imp ?_ id)
      intro atLow
      linarith
    simpa [Rounding.ofParts] using closed
  · rw [not_or] at within
    have full : 2 ^ 52 <= significand := canonical.full.resolve_left within.1
    have high : (numerator : ℚ) / denominator / 2 ^ exponent < 2 ^ 52 := by
      have less := within.2
      rw [add_le_floorLog2_iff numeratorPos denominatorPos, not_le] at less
      exact_mod_cast less
    -- Only the interval of the power of two itself reaches out of its binade.
    have first : significand = 2 ^ 52 := by
      by_contra other
      have next : 2 ^ 52 + 1 <= significand := by omega
      have next' : (2 : ℚ) ^ 52 + 1 <= significand := by exact_mod_cast next
      linarith
    have notLeast : -1074 < exponent := lt_of_le_of_ne least (Ne.symm within.1)
    rw [Rounding.reachBelow, if_pos ⟨first, notLeast⟩, first] at bounds
    rw [first]
    refine nearestMagnitude_below_power numeratorPos denominatorPos notLeast ?_ high
    exact_mod_cast bounds.1

end

/-! ## Reading decimals -/

section
variable {significand : ℕ} {exponent : ℤ}

lemma Canonical.exponent_le (canonical : Canonical significand exponent)
    (finite : magnitudeOf significand exponent < Double.infinityBits) : exponent <= 971 := by
  by_contra past
  have full := canonical.full.resolve_left (by omega)
  rw [magnitudeOf, Double.infinityBits] at finite
  omega

namespace Rounding

section
variable (canonical : Canonical significand exponent)
include canonical

/-- The interval of a double other than zero lies above half of the least double. -/
lemma Holds.lower (some : 0 < significand) (holds : (ofParts significand exponent).Holds number) :
    (2 : ℚ) ^ (-1075 : ℤ) <= number := by
  have reach := reachBelow_le significand exponent
  have low := holds.bounds.1
  rw [low_ofParts _ _ some] at low
  have some' : (1 : ℚ) <= significand := by exact_mod_cast some
  calc (2 : ℚ) ^ (-1075 : ℤ) = 1 / 2 * 2 ^ (-1074 : ℤ) := by
        rw [show (-1075 : ℤ) = -1074 - 1 by norm_num, zpow_sub_one₀ two_ne_zero]
        ring
    _ <= (significand - (reachBelow significand exponent : ℚ) / 4) * 2 ^ exponent := by
        refine mul_le_mul (by linarith) ?_ (by positivity) (by linarith)
        exact zpow_le_zpow_right₀ one_le_two canonical.least
    _ <= number := low

lemma Holds.pos (some : 0 < significand) {digits : ℕ}
    (holds : (ofParts significand exponent).Holds (digits * 10 ^ place)) : 0 < digits := by
  have lower := holds.lower canonical some
  rcases Nat.eq_zero_or_pos digits with none | positive
  · rw [none, Nat.cast_zero, zero_mul] at lower
    exact absurd lower (not_le.mpr (by positivity))
  · exact positive

/-- The interval of a finite double lies below the first power of two past them. -/
lemma Holds.upper (finite : magnitudeOf significand exponent < Double.infinityBits)
    (holds : (ofParts significand exponent).Holds number) : number < (2 : ℚ) ^ (1024 : ℤ) := by
  have high := holds.bounds.2
  rw [high_ofParts] at high
  have small : (significand : ℚ) + 1 <= 2 ^ 53 := by exact_mod_cast canonical.small
  calc number <= (significand + 1 / 2) * 2 ^ exponent := high
    _ < 2 ^ 53 * 2 ^ exponent := by
        refine mul_lt_mul_of_pos_right (by linarith) (zpow_pos two_pos exponent)
    _ <= 2 ^ 53 * 2 ^ (971 : ℤ) := by
        gcongr
        · exact one_le_two
        · exact canonical.exponent_le finite
    _ = 2 ^ (1024 : ℤ) := by
        rw [← zpow_natCast, ← zpow_add₀ two_ne_zero]
        norm_num

end

end Rounding

/-- The estimate of the number of digits is not too small. -/
lemma lt_ten_pow_of_log2 (digits : ℕ) : digits < 10 ^ (digits.log2 / 3 + 1) := by
  calc digits < 2 ^ (digits.log2 + 1) := Nat.lt_log2_self
    _ <= 2 ^ (3 * (digits.log2 / 3 + 1)) := Nat.pow_le_pow_right (by norm_num) (by omega)
    _ = 8 ^ (digits.log2 / 3 + 1) := by rw [pow_mul]; norm_num
    _ <= 10 ^ (digits.log2 / 3 + 1) := Nat.pow_le_pow_left (by norm_num) _

lemma two_zpow_lt_ten_zpow : (2 : ℚ) ^ (1024 : ℤ) < 10 ^ (401 : ℤ) := by
  have far : 2 ^ 1024 < 10 ^ 401 := by decide +kernel
  exact_mod_cast far

/-- A decimal in the interval of a finite double is read as it. -/
lemma Double.decimalMagnitude_eq (canonical : Canonical significand exponent)
    (some : 0 < significand) (finite : magnitudeOf significand exponent < infinityBits) {digits : ℕ}
    (holds : (Rounding.ofParts significand exponent).Holds (digits * 10 ^ place)) :
    decimalMagnitude digits place = magnitudeOf significand exponent := by
  have lower := holds.lower canonical some
  have upper := holds.upper canonical finite
  have digitsPos := holds.pos canonical some
  have digitsPos' : (1 : ℚ) <= digits := by exact_mod_cast digitsPos
  have notPast : ¬ 400 < place := by
    intro past
    have power : (10 : ℚ) ^ (401 : ℤ) <= 10 ^ place := zpow_le_zpow_right₀ (by norm_num) past
    have : (10 : ℚ) ^ place <= digits * 10 ^ place :=
      le_mul_of_one_le_left (by positivity) digitsPos'
    exact absurd upper (not_lt.mpr (two_zpow_lt_ten_zpow.le.trans (power.trans this)))
  have notBelow : ¬ place + ((digits.log2 / 3 + 1 : ℕ) : ℤ) < -330 := by
    intro below
    have estimate : (digits : ℚ) <= 10 ^ (digits.log2 / 3 + 1) := by
      exact_mod_cast (lt_ten_pow_of_log2 digits).le
    have : (digits : ℚ) * 10 ^ place <= 10 ^ (-331 : ℤ) :=
      calc (digits : ℚ) * 10 ^ place <= 10 ^ (digits.log2 / 3 + 1) * 10 ^ place := by gcongr
        _ = 10 ^ (place + ((digits.log2 / 3 + 1 : ℕ) : ℤ)) := by
            rw [zpow_add₀ (by norm_num), zpow_natCast, mul_comm]
        _ <= 10 ^ (-331 : ℤ) := zpow_le_zpow_right₀ (by norm_num) (by omega)
    have far : (10 : ℚ) ^ (-331 : ℤ) < 2 ^ (-1075 : ℤ) := by
      have far : 2 ^ 1075 < 10 ^ 331 := by decide +kernel
      rw [zpow_neg, zpow_neg, inv_lt_inv₀ (by positivity) (by positivity)]
      exact_mod_cast far
    exact absurd lower (not_le.mpr (this.trans_lt far))
  simp only [decimalMagnitude, if_neg digitsPos.ne', if_neg notPast, if_neg notBelow, Nat.pow_eq]
  by_cases negative : place < 0
  · have quotient : (digits : ℚ) / ((10 ^ place.natAbs : ℕ) : ℚ) = digits * 10 ^ place := by
      rw [zpow_of_neg 10 negative, div_eq_mul_inv, Nat.cast_pow, Nat.cast_ofNat]
    rw [← quotient] at holds
    rw [if_pos negative, nearestMagnitude_eq canonical some digitsPos (by positivity) holds,
      Nat.min_eq_right finite.le]
  · have quotient : ((digits * 10 ^ place.natAbs : ℕ) : ℚ) / ((1 : ℕ) : ℚ) =
        digits * 10 ^ place := by
      rw [zpow_of_nonneg 10 negative, Nat.cast_one, div_one, Nat.cast_mul, Nat.cast_pow,
        Nat.cast_ofNat]
    rw [← quotient] at holds
    rw [if_neg negative, nearestMagnitude_eq canonical some (by positivity) one_pos holds,
      Nat.min_eq_right finite.le]

end

end MessageSchema.Number

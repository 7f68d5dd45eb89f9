import MessageSchema.Proofs.Number.Nearest

namespace MessageSchema.Number

/-!
The shortest decimal of a double lies in its interval.

Grids of one more digit at a time are tried from the first digit on.  The estimate
of its place is never too high, so the last grid has places of at most `10 ^ -16` of
the double.  These are narrower than the interval, so one of the two decimals around
the double is found there at the latest.
-/

namespace Rounding

variable {interval : Rounding} {place : ℤ}

section
variable {interval : Rounding} (some : 0 < interval.denominator)
include some

/-- The test of the interval agrees with the rational number that a decimal is. -/
lemma holds_iff (number : ℕ) (place : ℤ) :
    interval.holds number place = true ↔ interval.Holds (number * 10 ^ place) := by
  have unit : (0 : ℚ) < interval.denominator := by exact_mod_cast some
  simp only [holds, Holds, Nat.pow_eq]
  rw [div_le_iff₀ unit, le_div_iff₀ unit, div_lt_iff₀ unit, lt_div_iff₀ unit]
  by_cases negative : place < 0
  · have scale : (0 : ℚ) < 10 ^ place.natAbs := by positivity
    have moved : (number : ℚ) * 10 ^ place * interval.denominator =
        number * interval.denominator / 10 ^ place.natAbs := by
      rw [zpow_of_neg 10 negative]
      ring
    rw [moved, le_div_iff₀ scale, div_le_iff₀ scale, lt_div_iff₀ scale, div_lt_iff₀ scale]
    simp only [if_pos negative]
    split
    · rw [Bool.and_eq_true, decide_eq_true_eq, decide_eq_true_eq]
      exact_mod_cast Iff.rfl
    · rw [Bool.and_eq_true, decide_eq_true_eq, decide_eq_true_eq]
      exact_mod_cast Iff.rfl
  · rw [zpow_of_nonneg 10 negative]
    simp only [if_neg negative, Nat.mul_one]
    split
    · rw [Bool.and_eq_true, decide_eq_true_eq, decide_eq_true_eq]
      exact_mod_cast Iff.rfl
    · rw [Bool.and_eq_true, decide_eq_true_eq, decide_eq_true_eq]
      exact_mod_cast Iff.rfl

lemma floorAt_spec (place : ℤ) :
    ((interval.floorAt place).1 : ℚ) * 10 ^ place <= interval.value / interval.denominator ∧
      (interval.value : ℚ) / interval.denominator <
        ((interval.floorAt place).1 + 1) * 10 ^ place := by
  have scale : (0 : ℚ) < 10 ^ place := by positivity
  have floored {numerator denominator : ℕ} (positive : 0 < denominator) :
      ((numerator / denominator : ℕ) : ℚ) <= numerator / denominator ∧
        (numerator : ℚ) / denominator < (numerator / denominator : ℕ) + 1 := by
    have positive' : (0 : ℚ) < denominator := by exact_mod_cast positive
    rw [le_div_iff₀ positive', div_lt_iff₀ positive']
    constructor
    · exact_mod_cast Nat.div_mul_le_self numerator denominator
    · exact_mod_cast Nat.lt_mul_of_div_lt (Nat.lt_succ_self _) positive
  rw [← le_div_iff₀ scale, ← div_lt_iff₀ scale]
  simp only [floorAt, Nat.pow_eq]
  by_cases negative : place < 0
  · rw [if_pos negative, if_pos negative, div_zpow_of_neg negative]
    exact_mod_cast floored some
  · rw [if_neg negative, if_neg negative, div_zpow_of_nonneg negative]
    exact_mod_cast floored (Nat.mul_pos some (Nat.pow_pos (n := place.natAbs) (by norm_num)))

end

/-- What is found on a grid lies in the interval. -/
lemma holds_of_onGrid? {number : ℕ}
    (found : interval.onGrid? place = some number) : interval.holds number place = true := by
  simp only [onGrid?] at found
  split at found
  · next lower upper =>
    cases found
    split
    · exact upper
    · exact lower
  · next lower _ =>
    cases found
    exact lower
  · next _ upper =>
    cases found
    exact upper
  · cases found

lemma isSome_onGrid? (held : interval.holds (interval.floorAt place).1 place = true ∨
      interval.holds ((interval.floorAt place).1 + 1) place = true) :
    (interval.onGrid? place).isSome = true := by
  simp only [onGrid?]
  split
  · rfl
  · rfl
  · rfl
  · next lower upper =>
    rw [lower, upper] at held
    simp at held

/-- The grids from the first digit on are tried in turn, and the first on which
something is found ends the search. -/
lemma shortestFrom_spec (interval : Rounding) (top : ℤ)
    (last : (interval.onGrid? (top - 16)).isSome = true) {tries : ℕ} (nonzero : 0 < tries)
    (few : tries <= 17) : ∃ number place, interval.shortestFrom top tries = (number, place) ∧
      interval.onGrid? place = some number ∧ top - 16 <= place ∧ place <= top - (17 - tries) ∧
      ∀ higher, place < higher -> higher <= top - (17 - tries) ->
        interval.onGrid? higher = none := by
  induction tries with
  | zero => exact absurd nonzero (lt_irrefl 0)
  | succ tries ih =>
    have first : top - ((16 - tries : ℕ) : ℤ) = top - (17 - ((tries + 1 : ℕ) : ℤ)) := by
      omega
    rw [shortestFrom]
    simp only [first]
    cases found : interval.onGrid? (top - (17 - ((tries + 1 : ℕ) : ℤ))) with
    | some number =>
      refine ⟨number, _, rfl, found, by omega, le_refl _, ?_⟩
      intro higher above atMost
      omega
    | none =>
      have more : 0 < tries := by
        rcases Nat.eq_zero_or_pos tries with none | more
        · subst none
          rw [show top - (17 - ((0 + 1 : ℕ) : ℤ)) = top - 16 by norm_num] at found
          rw [found] at last
          cases last
        · exact more
      rcases ih more (by omega) with ⟨number, place, same, onGrid, least, most, earlier⟩
      refine ⟨number, place, same, onGrid, least, by omega, ?_⟩
      intro higher above atMost
      by_cases isFirst : higher = top - (17 - ((tries + 1 : ℕ) : ℤ))
      · rw [isFirst]
        exact found
      · exact earlier higher above (by omega)

/-- The estimate from the binary exponent is never too large: near the exponents of doubles,
`10 ^ 59 <= 2 ^ 196` and `2 ^ 93 <= 10 ^ 28` suffice. -/
lemma ten_zpow_guess_le {binary : ℤ} (least : -1100 <= binary) (most : binary <= 1100) :
    (10 : ℚ) ^ (Int.fdiv (binary * 30103) 100000 - 1) <= 2 ^ binary := by
  have quotient := Int.mul_fdiv_add_fmod (binary * 30103) 100000
  have remainder := Int.fmod_nonneg_of_pos (binary * 30103) (show (0 : ℤ) < 100000 by norm_num)
  generalize Int.fdiv (binary * 30103) 100000 = guess at quotient ⊢
  generalize Int.fmod (binary * 30103) 100000 = rest at quotient remainder
  -- Raised to a power the two sides are powers of nearly equal numbers.
  have raise (times : ℕ) (positive : times ≠ 0)
      (raised : (10 : ℚ) ^ ((guess - 1) * times) <= 2 ^ (binary * times)) :
      (10 : ℚ) ^ (guess - 1) <= 2 ^ binary := by
    rw [zpow_mul, zpow_mul, zpow_natCast, zpow_natCast] at raised
    exact (pow_le_pow_iff_left₀ (by positivity) (by positivity) positive).mp raised
  rcases le_or_gt 0 binary with positive | negative
  · refine raise 196 (by norm_num) ?_
    calc (10 : ℚ) ^ ((guess - 1) * (196 : ℕ)) <= 10 ^ (59 * binary) :=
          zpow_le_zpow_right₀ (by norm_num) (by push_cast; omega)
      _ = ((10 : ℚ) ^ 59) ^ binary := by rw [zpow_mul]; norm_num
      _ <= ((2 : ℚ) ^ 196) ^ binary := zpow_le_zpow_left₀ positive (by positivity) (by norm_num)
      _ = 2 ^ (binary * (196 : ℕ)) := by rw [mul_comm, zpow_mul]; norm_num
  · refine raise 93 (by norm_num) ?_
    calc (10 : ℚ) ^ ((guess - 1) * (93 : ℕ)) <= 10 ^ (28 * binary) :=
          zpow_le_zpow_right₀ (by norm_num) (by push_cast; omega)
      _ = ((10 : ℚ) ^ 28) ^ binary := by rw [zpow_mul]; norm_num
      _ <= ((2 : ℚ) ^ 93) ^ binary := by
          rw [← neg_neg binary, zpow_neg, zpow_neg ((2 : ℚ) ^ 93),
            inv_le_inv₀ (by positivity) (by positivity)]
          exact zpow_le_zpow_left₀ (by omega) (by positivity) (by norm_num)
      _ = 2 ^ (binary * (93 : ℕ)) := by rw [mul_comm, zpow_mul]; norm_num

/-- The power of ten at the first digit is not past the value. -/
lemma floorLog10_spec (some : 0 < interval.denominator) (nonzero : 0 < interval.value)
    (least : -1100 <= floorLog2 interval.value interval.denominator)
    (most : floorLog2 interval.value interval.denominator <= 1100) :
    (10 : ℚ) ^ interval.floorLog10 <= interval.value / interval.denominator ∧
      -400 <= interval.floorLog10 ∧
      ((1 : ℚ) <= interval.value / interval.denominator -> 0 <= interval.floorLog10) := by
  have estimate := (ten_zpow_guess_le least most).trans (floorLog2_spec nonzero some).1
  have reaches (exponent : ℤ) := reaches_iff 10 exponent (by norm_num) interval.value some
  have quotient := Int.mul_fdiv_add_fmod (floorLog2 interval.value interval.denominator * 30103)
    100000
  have remainder' := Int.fmod_lt_of_pos
    (floorLog2 interval.value interval.denominator * 30103) (show (0 : ℤ) < 100000 by norm_num)
  have atLeastOne (one : (1 : ℚ) <= interval.value / interval.denominator) :
      0 <= floorLog2 interval.value interval.denominator := by
    rw [le_floorLog2_iff nonzero some, zpow_zero]
    exact one
  simp only [floorLog10, reaches, Nat.cast_ofNat]
  generalize Int.fdiv (floorLog2 interval.value interval.denominator * 30103) 100000 = guess at *
  split
  · next reached => exact ⟨reached, by omega, fun one => by have := atLeastOne one; omega⟩
  · split
    · next reached => exact ⟨reached, by omega, fun one => by have := atLeastOne one; omega⟩
    · next missed =>
      refine ⟨estimate, by omega, fun one => ?_⟩
      have nonneg := atLeastOne one
      by_contra below
      have isZero : guess - 1 + 1 = 0 := by omega
      rw [isZero, zpow_zero] at missed
      exact missed one

section
variable {significand : ℕ} {exponent : ℤ}

/-- A grid sixteen places below the first digit has a decimal in the interval. -/
lemma isSome_onGrid?_of_le (small : significand < 2 ^ 53) (nonzero : 0 < significand) {top : ℤ}
    (reached : (10 : ℚ) ^ top <= significand * 2 ^ exponent) :
    ((ofParts significand exponent).onGrid? (top - 16)).isSome = true := by
  have some := denominator_ofParts_pos significand exponent
  have spacing : (10 : ℚ) ^ (top - 16) * 10 ^ 16 <= significand * 2 ^ exponent := by
    rw [zpow_sub₀ (by norm_num)]
    norm_num
    linarith
  have around := floorAt_spec some (top - 16)
  rw [value_ofParts] at around
  apply isSome_onGrid?
  rw [holds_iff some, holds_iff some, Nat.cast_succ]
  generalize ((ofParts significand exponent).floorAt (top - 16)).1 = floor at around ⊢
  have lowAt := low_ofParts significand exponent nonzero
  have highAt := high_ofParts significand exponent
  generalize (10 : ℚ) ^ (top - 16) = grid at spacing around ⊢
  by_cases first : significand = Nat.pow 2 52 ∧ -1074 < exponent
  · -- At a power of two the upper half is wider than the grid.
    rw [reachBelow, if_pos first] at lowAt
    have isFirst : (significand : ℚ) = 2 ^ 52 := by
      rw [first.1, Nat.pow_eq, Nat.cast_pow, Nat.cast_ofNat]
    rw [isFirst] at spacing around lowAt highAt
    refine .inr (Holds.of_lt ?_ ?_)
    · rw [lowAt]
      push_cast
      linarith
    · rw [highAt]
      linarith
  · -- Elsewhere each half is wider than half of the grid.
    rw [reachBelow, if_neg first] at lowAt
    have bounded : (significand : ℚ) * 2 ^ exponent <= 2 ^ 53 * 2 ^ exponent := by
      have small' : (significand : ℚ) <= 2 ^ 53 := by exact_mod_cast small.le
      gcongr
    by_cases near : (significand : ℚ) * 2 ^ exponent - floor * grid < 1 / 2 * 2 ^ exponent
    · refine .inl (Holds.of_lt ?_ ?_)
      · rw [lowAt]
        push_cast
        linarith
      · rw [highAt]
        linarith
    · refine .inr (Holds.of_lt ?_ ?_)
      · rw [lowAt]
        push_cast
        linarith
      · rw [highAt]
        linarith

/-- What the search for the shortest decimal of a double finds: a decimal in the
interval, on the coarsest grid that has one. -/
structure Shortest (interval : Rounding) (number : ℕ) (place : ℤ) : Prop where
  searched : interval.shortestFrom interval.floorLog10 17 = (number, place)
  found : interval.onGrid? place = some number
  holds : interval.Holds (number * 10 ^ place)
  least : -416 <= place
  most : place <= 400
  coarsest : ∀ higher, place < higher -> higher <= interval.floorLog10 ->
    interval.onGrid? higher = none
  start : (1 : ℚ) <= interval.value / interval.denominator -> 0 <= interval.floorLog10

lemma holds_self (exponent : ℤ) (nonzero : 0 < significand) :
    (ofParts significand exponent).Holds (significand * 2 ^ exponent) := by
  have reach : 1 <= reachBelow significand exponent := by
    rw [reachBelow]
    split <;> norm_num
  have reach' : (1 : ℚ) <= reachBelow significand exponent := by exact_mod_cast reach
  apply Holds.of_lt
  · rw [low_ofParts _ _ nonzero]
    gcongr
    linarith
  · rw [high_ofParts]
    gcongr
    linarith

lemma exists_shortest (canonical : Canonical significand exponent) (nonzero : 0 < significand)
    (finite : magnitudeOf significand exponent < Double.infinityBits) :
    ∃ number place, (ofParts significand exponent).Shortest number place := by
  have some := denominator_ofParts_pos significand exponent
  have inside := holds_self exponent nonzero
  have lower := inside.lower canonical nonzero
  have upper := inside.upper canonical finite
  have value := value_ofParts significand exponent
  have valuePos : 0 < (ofParts significand exponent).value := by
    rw [Nat.pos_iff_ne_zero]
    intro zero
    rw [zero, Nat.cast_zero, zero_div] at value
    exact absurd value (by positivity)
  rw [← value] at lower upper
  rw [← le_floorLog2_iff valuePos some] at lower
  rw [← not_le, ← le_floorLog2_iff valuePos some] at upper
  rcases floorLog10_spec some valuePos (by omega) (by omega) with ⟨reached, least, start⟩
  have last := isSome_onGrid?_of_le canonical.small nonzero (value ▸ reached)
  rcases shortestFrom_spec _ _ last (show 0 < 17 by norm_num) (le_refl 17) with
    ⟨number, place, searched, found, atLeast, atMost, coarsest⟩
  have most : (ofParts significand exponent).floorLog10 <= 400 := by
    by_contra past
    have power : (10 : ℚ) ^ (401 : ℤ) <= 10 ^ (ofParts significand exponent).floorLog10 :=
      zpow_le_zpow_right₀ (by norm_num) (by omega)
    exact upper ((le_floorLog2_iff valuePos some).mpr
      (two_zpow_lt_ten_zpow.le.trans (power.trans reached)))
  refine ⟨number, place, searched, found, ?_, by omega, ?_, ?_, start⟩
  · exact (holds_iff some number place).mp (holds_of_onGrid? found)
  · push_cast at atMost
    omega
  · intro higher above below
    exact coarsest higher above (by push_cast; omega)

end
end Rounding
end MessageSchema.Number

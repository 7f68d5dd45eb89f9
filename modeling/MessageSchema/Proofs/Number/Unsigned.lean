import Mathlib.Tactic.Lemma
import MessageSchema.Number.Double

namespace MessageSchema.Number

/-!
Numbers of 64 bits.

Digits are read one by one.  The arithmetic wraps around, which tells that a number
gets too large.  So digits are read as what they stand for, or not at all.
-/

/-- The number that digits stand for in a base, the highest first. -/
def ofPlaces (base start : Nat) (digits : List Nat) : Nat :=
  digits.foldl (fun value digit => base * value + digit) start

lemma le_ofPlaces {base : Nat} (positive : 0 < base) (digits : List Nat) (start : Nat) :
    start <= ofPlaces base start digits := by
  induction digits generalizing start with
  | nil => exact Nat.le_refl _
  | cons digit rest ih =>
    calc
      start <= base * start := Nat.le_mul_of_pos_left start positive
      _ <= base * start + digit := Nat.le_add_right _ _
      _ <= ofPlaces base start (digit :: rest) := ih _

variable {base number : UInt64}

/-- A number has no room for another place exactly if the product with the base is too
large. -/
lemma cutoff_le_iff (atLeast : 2 <= base.toNat) :
    18446744073709551615 / base + 1 <= number ↔ UInt64.size <= number.toNat * base.toNat := by
  have quotient : 18446744073709551615 / base.toNat <= 9223372036854775808 :=
    Nat.div_le_of_le_mul (by omega)
  rw [UInt64.le_iff_toNat_le, UInt64.toNat_add, UInt64.toNat_div]
  change (18446744073709551615 / base.toNat + 1) % 18446744073709551616 <= _ ↔
    18446744073709551616 <= _
  rw [Nat.mod_eq_of_lt (by omega), Nat.succ_le_iff, Nat.div_lt_iff_lt_mul (by omega)]
  omega

/-- A sum wraps around exactly if it gets below its first summand. -/
lemma mod_lt_iff {first second size : Nat} (room : first < size) (small : second < size) :
    (first + second) % size < first ↔ size <= first + second := by
  by_cases within : first + second < size
  · rw [Nat.mod_eq_of_lt within]
    omega
  · rw [Nat.mod_eq_sub_mod (Nat.le_of_not_lt within), Nat.mod_eq_of_lt (by omega)]
    omega

lemma appendDigit?_eq_some_iff {longer : UInt64} {digit : Nat} (atLeast : 2 <= base.toNat)
    (small : digit < UInt64.size) : appendDigit? base number digit = some longer ↔
      base.toNat * number.toNat + digit = longer.toNat := by
  have fits := longer.toNat_lt
  simp only [appendDigit?]
  rw [Nat.mul_comm base.toNat]
  split
  · next full =>
    rw [cutoff_le_iff atLeast] at full
    constructor
    · exact nofun
    · intro same
      exact absurd (Nat.le_trans full (Nat.le_add_right _ _))
        (by rw [same]; exact Nat.not_le.mpr fits)
  · next room =>
    rw [cutoff_le_iff atLeast, Nat.not_le] at room
    have product : (number * base).toNat = number.toNat * base.toNat := by
      rw [UInt64.toNat_mul]
      exact Nat.mod_eq_of_lt room
    have sum : (number * base + UInt64.ofNat digit).toNat =
        (number.toNat * base.toNat + digit) % UInt64.size := by
      rw [UInt64.toNat_add, product, UInt64.toNat_ofNat_of_lt' small]
    have wraps : number * base + UInt64.ofNat digit < number * base ↔
        UInt64.size <= number.toNat * base.toNat + digit := by
      rw [UInt64.lt_iff_toNat_lt, product, sum]
      exact mod_lt_iff room small
    split
    · next large =>
      rw [wraps] at large
      constructor
      · exact nofun
      · intro same
        exact absurd large (by rw [same]; exact Nat.not_le.mpr fits)
    · next within =>
      rw [wraps, Nat.not_le] at within
      rw [Option.some.injEq, ← UInt64.toNat_inj, sum, Nat.mod_eq_of_lt within]

/-- Digits are read into 64 bits as the number that they stand for. -/
lemma foldlM_appendDigit?_eq_some_iff (atLeast : 2 <= base.toNat) {digits : List Nat}
    (small : ∀ digit ∈ digits, digit < UInt64.size) {start : UInt64} :
    digits.foldlM (appendDigit? base) start = some number ↔
      ofPlaces base.toNat start.toNat digits = number.toNat := by
  induction digits generalizing start with
  | nil => simp [ofPlaces, UInt64.toNat_inj]
  | cons digit rest ih =>
    rw [List.forall_mem_cons] at small
    rw [List.foldlM_cons, Option.bind_eq_bind, Option.bind_eq_some_iff]
    constructor
    · rintro ⟨longer, appended, read⟩
      rw [appendDigit?_eq_some_iff atLeast small.1] at appended
      rw [ih small.2, ← appended] at read
      exact read
    · intro stands
      have within : base.toNat * start.toNat + digit < UInt64.size := by
        calc
          base.toNat * start.toNat + digit
            <= ofPlaces base.toNat (base.toNat * start.toNat + digit) rest :=
              le_ofPlaces (by omega) rest _
          _ = number.toNat := stands
          _ < UInt64.size := number.toNat_lt
      have longer := UInt64.toNat_ofNat_of_lt' within
      refine ⟨UInt64.ofNat (base.toNat * start.toNat + digit), ?_, ?_⟩
      · rw [appendDigit?_eq_some_iff atLeast small.1, longer]
      · rw [ih small.2, longer]
        exact stands

lemma readUnsigned?_eq_some_iff (atLeast : 2 <= base.toNat) {digits : List Nat}
    (small : ∀ digit ∈ digits, digit < UInt64.size) :
    readUnsigned? base digits = some number ↔ ofPlaces base.toNat 0 digits = number.toNat :=
  foldlM_appendDigit?_eq_some_iff atLeast small

lemma toNat_lt_of_char (digit : Char) : digit.toNat < 1114112 := by
  rcases digit.valid with low | high
  · exact Nat.lt_trans low (by decide)
  · exact high.2

lemma digitValue_lt_size (digit : Char) : digitValue digit < UInt64.size := by
  have code := toNat_lt_of_char digit
  exact Nat.lt_of_le_of_lt (Nat.sub_le _ _) (Nat.lt_trans code (by decide))

lemma hexValue_lt_size (digit : Char) : (hexDigit? digit).getD 0 < UInt64.size := by
  have code := toNat_lt_of_char digit
  have isSize : UInt64.size = 18446744073709551616 := rfl
  unfold hexDigit?
  (repeat' split) <;> simp only [Option.getD_some, Option.getD_none] <;> omega

end MessageSchema.Number

import Mathlib.Data.Nat.Bitwise

/-!
# Fields of bits in a number

Specifications of formats name fields by their highest and lowest bit. Programs cut them out with shifts and masks,
and put them together with shifts and disjunctions.
-/

namespace FdeEmugl.BitFields

variable {a b number high low k m : ℕ}

/-- The bits from `high` down to `low`. -/
def field (number high low : ℕ) : ℕ := number / 2 ^ low % 2 ^ (high - low + 1)

theorem field_lt (number high low : ℕ) : field number high low < 2 ^ (high - low + 1) :=
  Nat.mod_lt _ (Nat.two_pow_pos _)

/-- A mask of ones. -/
theorem and_mask (hmask : m = 2 ^ k - 1) : a &&& m = a % 2 ^ k := by
  rw [hmask, Nat.and_two_pow_sub_one_eq_mod]

theorem shiftRight_and_mask (hmask : m = 2 ^ (high - low + 1) - 1) :
    number >>> low &&& m = field number high low := by
  rw [and_mask hmask, Nat.shiftRight_eq_div_pow, field]

/-- A mask that clears the lowest bits. -/
theorem and_shifted_mask (hmask : m = (2 ^ low - 1) <<< k) (hlt : a < 2 ^ (k + low)) :
    a &&& m = a / 2 ^ k * 2 ^ k := by
  rw [hmask, ← Nat.shiftRight_eq_div_pow, ← Nat.shiftLeft_eq]
  refine Nat.eq_of_testBit_eq fun i ↦ ?_
  rw [Nat.testBit_and, Nat.testBit_shiftLeft, Nat.testBit_shiftLeft, Nat.testBit_two_pow_sub_one,
    Nat.testBit_shiftRight]
  by_cases hk : k ≤ i
  · rw [decide_eq_true hk, Bool.true_and, Bool.true_and, Nat.add_sub_cancel' hk]
    by_cases hlow : i - k < low
    · rw [decide_eq_true hlow, Bool.and_true]
    · have hhigh : a < 2 ^ i := hlt.trans_le (Nat.pow_le_pow_right (by decide) (by omega))
      rw [Nat.testBit_lt_two_pow hhigh, Bool.false_and]
  · rw [decide_eq_false hk, Bool.false_and, Bool.false_and, Bool.and_false]

/-- One bit that is left where it stands. -/
theorem and_bit (hmask : m = 2 ^ k) : a &&& m = 2 ^ k * (a >>> k % 2) := by
  rw [hmask, Nat.and_two_pow, Nat.toNat_testBit, Nat.shiftRight_eq_div_pow, mul_comm]

/-- What goes into free bits. -/
theorem or_eq_add (hdvd : 2 ^ k ∣ a) (hlt : b < 2 ^ k) : a ||| b = a + b := by
  obtain ⟨c, rfl⟩ := hdvd
  rw [← Nat.two_pow_add_eq_or_of_lt hlt]

theorem shiftLeft_or (hlt : b < 2 ^ k) : a <<< k ||| b = a * 2 ^ k + b := by
  rw [← Nat.shiftLeft_add_eq_or_of_lt hlt, Nat.shiftLeft_eq]

/-! ## Packing -/

/-- A field is put below those that are there. -/
theorem or_shiftLeft (b low : ℕ) (hdvd : 2 ^ k ∣ a) (hlt : b * 2 ^ low < 2 ^ k) :
    a ||| b <<< low = a + b * 2 ^ low := by
  rw [Nat.shiftLeft_eq, or_eq_add hdvd hlt]

/-- The fields of the upper word. -/
theorem field_upper {upper lower width : ℕ} (hlower : lower < 2 ^ width) :
    field (upper * 2 ^ width + lower) (width + high) (width + low) = field upper high low := by
  rw [field, field, pow_add, ← Nat.div_div_eq_div_mul, mul_comm upper,
    Nat.mul_add_div (Nat.two_pow_pos width), Nat.div_eq_of_lt hlower, add_zero, Nat.add_sub_add_left]

theorem field_mod {width : ℕ} (hle : low ≤ high) (hhigh : high < width) :
    field (number % 2 ^ width) high low = field number high low := by
  refine Nat.eq_of_testBit_eq fun i ↦ ?_
  simp only [field, ← Nat.shiftRight_eq_div_pow, Nat.testBit_mod_two_pow, Nat.testBit_shiftRight]
  by_cases hi : i < high - low + 1
  · rw [decide_eq_true (show low + i < width by omega), Bool.true_and]
  · rw [decide_eq_false hi, Bool.false_and, Bool.false_and]

end FdeEmugl.BitFields

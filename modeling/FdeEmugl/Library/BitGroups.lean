import Mathlib.Order.Basic

/-!
# Exchanging neighbouring groups of bits

A mask selects every second group of `k` bits of a word. Exchanging each selected group with the
one above it is its own inverse. Reversing the bits of a word is a sequence of such exchanges.
-/

namespace FdeEmugl.BitGroups

variable {w k : ℕ} {low : BitVec w}

/-- Exchange the groups of `k` bits that `low` selects with the groups above them. -/
def swapGroups (k : ℕ) (low x : BitVec w) : BitVec w := (x &&& (low <<< k)) >>> k ||| (x &&& low) <<< k

/-- A selected group has a group above it that is not selected, and the other way round. -/
def Alternates (k : ℕ) (low : BitVec w) : Prop :=
  ∀ i < w, if low.getLsbD i then i + k < w ∧ low.getLsbD (i + k) = false
    else k ≤ i ∧ low.getLsbD (i - k) = true

instance (k : ℕ) (low : BitVec w) : Decidable (Alternates k low) := inferInstanceAs (Decidable (∀ i < w, _))

variable {i : ℕ}

theorem Alternates.above (h : Alternates k low) (hlow : low.getLsbD i = true) :
    i + k < w ∧ low.getLsbD (i + k) = false := by
  have hbit := h i (BitVec.lt_of_getLsbD hlow)
  rwa [if_pos hlow] at hbit

theorem Alternates.below (h : Alternates k low) (hi : i < w) (hlow : low.getLsbD i = false) :
    k ≤ i ∧ low.getLsbD (i - k) = true := by
  have hbit := h i hi
  rwa [if_neg (by simp [hlow])] at hbit

theorem getLsbD_swapGroups (k : ℕ) (low x : BitVec w) (i : ℕ) : (swapGroups k low x).getLsbD i =
      ((x.getLsbD (i + k) && (decide (i + k < w) && low.getLsbD i)) ||
        (decide (i < w) && !decide (i < k) && (x.getLsbD (i - k) && low.getLsbD (i - k)))) := by
  have hnot : ¬ i + k < k := by omega
  simp only [swapGroups, BitVec.getLsbD_or, BitVec.getLsbD_ushiftRight, BitVec.getLsbD_shiftLeft,
    BitVec.getLsbD_and, Nat.add_comm k i, hnot, decide_false, Bool.not_false, Bool.and_true,
    Nat.add_sub_cancel]

section

variable (h : Alternates k low) (x : BitVec w)
include h

/-- A selected bit is taken from above. -/
theorem getLsbD_swapGroups_low (hlow : low.getLsbD i = true) :
    (swapGroups k low x).getLsbD i = x.getLsbD (i + k) := by
  have hlt := (h.above hlow).1
  have hbelow : (!decide (i < k) && (x.getLsbD (i - k) && low.getLsbD (i - k))) = false := by
    cases hset : low.getLsbD (i - k) with
    | false => rw [Bool.and_false, Bool.and_false]
    | true =>
      -- were both selected, the group above a selected one would be
      by_cases hlt : i < k
      · rw [decide_eq_true hlt, Bool.not_true, Bool.false_and]
      · have hself := (h.above hset).2
        rw [Nat.sub_add_cancel (Nat.not_lt.mp hlt), hlow] at hself
        cases hself
  rw [getLsbD_swapGroups, Bool.and_assoc (decide (i < w)), hbelow, Bool.and_false, Bool.or_false,
    decide_eq_true hlt, hlow, Bool.and_true, Bool.and_true]

/-- The other bits are taken from below. -/
theorem getLsbD_swapGroups_high (hi : i < w) (hlow : low.getLsbD i = false) :
    (swapGroups k low x).getLsbD i = x.getLsbD (i - k) := by
  obtain ⟨hle, hbelow⟩ := h.below hi hlow
  rw [getLsbD_swapGroups, hlow, Bool.and_false, Bool.and_false, Bool.false_or, decide_eq_true hi,
    decide_eq_false (Nat.not_lt.mpr hle), hbelow, Bool.not_false, Bool.true_and, Bool.true_and,
    Bool.and_true]

theorem swapGroups_swapGroups : swapGroups k low (swapGroups k low x) = x := by
  apply BitVec.eq_of_getLsbD_eq
  intro i hi
  cases hlow : low.getLsbD i with
  | true =>
    obtain ⟨hlt, hhigh⟩ := h.above hlow
    rw [getLsbD_swapGroups_low h _ hlow, getLsbD_swapGroups_high h x hlt hhigh, Nat.add_sub_cancel]
  | false =>
    obtain ⟨hle, hbelow⟩ := h.below hi hlow
    rw [getLsbD_swapGroups_high h _ hi hlow, getLsbD_swapGroups_low h x hbelow, Nat.sub_add_cancel hle]

end

theorem swapGroups_injective (h : Alternates k low) : Function.Injective (swapGroups k low) :=
  Function.LeftInverse.injective (swapGroups_swapGroups h)

end FdeEmugl.BitGroups

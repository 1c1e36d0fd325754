import FdeEmugl.Library.Numerals
import Mathlib.Algebra.Ring.Int.Defs

/-!
# Tar headers

Numbers stand in a header as octal text, or in binary where they have too many digits; the reader knows the text only.
-/

namespace FdeEmugl.Tar

open Numerals

/-- What the C++ library throws. -/
inductive Exception
  | invalid_argument
  | out_of_range
  | length_error
  deriving DecidableEq

/-- A minus gives the negated number, as an unsigned one. -/
def stoull (text : List UInt8) (base : ℕ) : Except Exception UInt64 :=
  match scan base text with
  | none => .error .invalid_argument
  | some (negative, number, _) =>
    if 2 ^ 64 ≤ number then .error .out_of_range
    else if negative then .ok (0 - UInt64.ofNat number) else .ok (UInt64.ofNat number)

def OTOI (octal : List UInt8) : Except Exception UInt64 := stoull octal 8

def itoo (len : ℕ) (val : UInt64) : List UInt8 :=
  if val >>> UInt64.ofNat (3 * (len - 1)) = 0 then letters (fixedDigits 8 (len - 1) val.toNat) ++ [0]
  else 128 :: (List.range (len - 1)).reverse.map fun k ↦ (val >>> UInt64.ofNat (3 * (k + 1))).toUInt8

section Numbers

variable {len : ℕ} {val : UInt64}

theorem shiftRight_eq_zero_iff (h : len ≤ 22) :
    val >>> UInt64.ofNat (3 * (len - 1)) = 0 ↔ val.toNat < 8 ^ (len - 1) := by
  have hshift : (UInt64.ofNat (3 * (len - 1))).toNat % 64 = 3 * (len - 1) := by
    rw [UInt64.toNat_ofNat_of_lt' (by change 3 * (len - 1) < 2 ^ 64; omega), Nat.mod_eq_of_lt (by omega)]
  have hpow : (2 : ℕ) ^ (3 * (len - 1)) = 8 ^ (len - 1) := Nat.pow_mul 2 3 (len - 1)
  rw [← UInt64.toNat_inj, UInt64.toNat_shiftRight, hshift, Nat.shiftRight_eq_div_pow, hpow]
  exact Nat.div_eq_zero_iff_lt (Nat.pow_pos (by decide))

theorem itoo_of_lt (hlen : len ≤ 22) (h : val.toNat < 8 ^ (len - 1)) :
    itoo len val = letters (fixedDigits 8 (len - 1) val.toNat) ++ [0] :=
  if_pos ((shiftRight_eq_zero_iff hlen).mpr h)

theorem OTOI_itoo_of_lt (hlen : 2 ≤ len ∧ len ≤ 22) (h : val.toNat < 8 ^ (len - 1)) :
    OTOI (itoo len val) = .ok val := by
  have hne : fixedDigits 8 (len - 1) val.toNat ≠ [] := fun hnil ↦ by
    have hlength := length_fixedDigits 8 (len - 1) val.toNat
    rw [hnil, List.length_nil] at hlength
    omega
  have hscan : scan 8 (itoo len val) = some (false, val.toNat, [0]) := by
    rw [itoo_of_lt hlen.2 h, scan_letters (by decide) hne (fun _ ↦ lt_of_mem_fixedDigits (by decide)),
      value_fixedDigits h]
    rintro _ ⟨⟩
    rfl
  rw [OTOI, stoull, hscan]
  simp only [if_neg (Nat.not_le.mpr val.toNat_lt), Bool.false_eq_true, if_false, UInt64.ofNat_toNat]

/-- The first byte of the binary form is no digit, no sign and no white space. -/
theorem OTOI_itoo_of_le (hlen : len ≤ 22) (h : 8 ^ (len - 1) ≤ val.toNat) :
    OTOI (itoo len val) = .error .invalid_argument := by
  have hbinary : ¬val >>> UInt64.ofNat (3 * (len - 1)) = 0 := fun hzero ↦
    Nat.not_lt.mpr h ((shiftRight_eq_zero_iff hlen).mp hzero)
  have hscan (rest : List UInt8) : scan 8 (128 :: rest) = none := rfl
  rw [itoo, if_neg hbinary, OTOI, stoull, hscan]

/-- Sizes and times have twelve bytes, the other numbers eight. -/
theorem OTOI_itoo_iff (hlen : len = 8 ∨ len = 12) (val : UInt64) :
    OTOI (itoo len val) = .ok val ↔ val.toNat < 8 ^ (len - 1) := by
  refine ⟨fun h ↦ Nat.lt_of_not_le fun hle ↦ ?_, fun h ↦ OTOI_itoo_of_lt (by omega) h⟩
  rw [OTOI_itoo_of_le (by omega) hle] at h
  cases h

theorem OTOI_itoo_iff_eight : OTOI (itoo 8 2097151) = .ok 2097151 ↔ (2097151 : UInt64).toNat < 8 ^ (8 - 1) :=
  OTOI_itoo_iff (Or.inl rfl) 2097151

/-- The smallest identifier that has no text is not read back. -/
theorem large_id_lost : ¬∀ len : ℕ, len = 8 ∨ len = 12 → ∀ val : UInt64, OTOI (itoo len val) = .ok val := fun h ↦ by
  have hread : OTOI (itoo 8 2097152) = .ok 2097152 := h 8 (Or.inl rfl) 2097152
  revert hread
  decide

end Numbers

end FdeEmugl.Tar

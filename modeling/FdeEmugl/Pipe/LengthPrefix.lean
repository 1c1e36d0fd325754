import Mathlib.Data.List.GetD
import FdeEmugl.Base.Stream
import FdeEmugl.Library.Framing

/-!
# Little-endian lengths

A message on a pipe is a length of four bytes, the lowest first, and then the payload. While a length is
read its missing bytes count as zeros.
-/

namespace FdeEmugl.Pipe

open Framing FdeEmugl.Stream

def putLe32 (value : UInt32) : List UInt8 :=
  [value.toUInt8, (value >>> 8).toUInt8, (value >>> 16).toUInt8, (value >>> 24).toUInt8]

def getLe32 (bytes : List UInt8) : UInt32 :=
  joinBe32 (bytes.getD 3 0) (bytes.getD 2 0) (bytes.getD 1 0) (bytes.getD 0 0)

variable {bytes : List UInt8}

@[simp] theorem length_putLe32 (value : UInt32) : (putLe32 value).length = 4 := rfl

@[simp] theorem getLe32_putLe32 (value : UInt32) : getLe32 (putLe32 value) = value := by
  simp [getLe32, putLe32, joinBe32_shifts]

theorem getLe32_nil : getLe32 [] = 0 := by decide

theorem toUInt8_eq {value : UInt32} {byte : UInt8}
    (h : ∀ i < 8, value.toNat.testBit i = byte.toNat.testBit i) : value.toUInt8 = byte := by
  apply UInt8.toNat_inj.mp
  apply Nat.eq_of_testBit_eq
  intro i
  rw [UInt32.toNat_toUInt8, Nat.testBit_mod_two_pow]
  obtain hlt | hge := Nat.lt_or_ge i 8
  · simp [hlt, h i hlt]
  · have hhigh : byte.toNat.testBit i = false :=
      Nat.testBit_lt_two_pow (Nat.lt_of_lt_of_le byte.toNat_lt (Nat.pow_le_pow_right (by decide) hge))
    simp [hhigh]
    omega

/-- The bytes of a joined value. -/
theorem joinBe32_bytes (b0 b1 b2 b3 : UInt8) :
    (joinBe32 b0 b1 b2 b3).toUInt8 = b3 ∧ (joinBe32 b0 b1 b2 b3 >>> 8).toUInt8 = b2 ∧
      (joinBe32 b0 b1 b2 b3 >>> 16).toUInt8 = b1 ∧ (joinBe32 b0 b1 b2 b3 >>> 24).toUInt8 = b0 := by
  have hhigh (byte : UInt8) {i : ℕ} (h : 8 ≤ i) : byte.toNat.testBit i = false :=
    Nat.testBit_lt_two_pow (Nat.lt_of_lt_of_le byte.toNat_lt (Nat.pow_le_pow_right (by decide) h))
  refine ⟨?_, ?_, ?_, ?_⟩ <;> refine toUInt8_eq fun i hi ↦ ?_
  all_goals
    simp only [joinBe32, UInt32.toNat_or, UInt32.toNat_shiftLeft, UInt8.toNat_toUInt32,
      UInt32.toNat_shiftRight, UInt32.reduceToNat, Nat.reduceMod,
      Nat.testBit_or, Nat.testBit_mod_two_pow, Nat.testBit_shiftLeft, Nat.testBit_shiftRight]
  · simp (disch := omega)
    grind
  · simp (disch := omega) [hhigh]
    grind
  · simp (disch := omega) [hhigh]
    grind
  · simp (disch := omega) [hhigh]
    grind

theorem putLe32_getLe32 (h : bytes.length = 4) : putLe32 (getLe32 bytes) = bytes := by
  match bytes, h with
  | [b0, b1, b2, b3], _ =>
    obtain ⟨hlow, hsecond, hthird, hhigh⟩ := joinBe32_bytes b3 b2 b1 b0
    simp only [putLe32, getLe32, List.getD_cons_succ, List.getD_cons_zero, hlow, hsecond, hthird, hhigh]

/-- The missing bytes of a length. -/
theorem joinBe32_zero (b0 b1 b2 b3 : UInt8) : joinBe32 b0 b1 b2 b3 = joinBe32 0 b1 b2 b3 ||| b0.toUInt32 <<< 24 ∧
      joinBe32 0 b1 b2 b3 = joinBe32 0 0 b2 b3 ||| b1.toUInt32 <<< 16 ∧
      joinBe32 0 0 b2 b3 = joinBe32 0 0 0 b3 ||| b2.toUInt32 <<< 8 ∧ joinBe32 0 0 0 b3 = b3.toUInt32 := by
  have hhigh : (0 : UInt8).toUInt32 <<< (24 : UInt32) = 0 := by decide
  have hmiddle : (0 : UInt8).toUInt32 <<< (16 : UInt32) = 0 := by decide
  have hlow : (0 : UInt8).toUInt32 <<< (8 : UInt32) = 0 := by decide
  unfold joinBe32
  rw [hhigh, hmiddle, hlow]
  generalize b0.toUInt32 <<< (24 : UInt32) = x0, b1.toUInt32 <<< (16 : UInt32) = x1,
    b2.toUInt32 <<< (8 : UInt32) = x2, b3.toUInt32 = x3
  simp only [UInt32.zero_or]
  exact ⟨by ac_rfl, by ac_rfl, by ac_rfl, trivial⟩

/-- One more byte of a length. -/
theorem getLe32_append_singleton (h : bytes.length < 4) (byte : UInt8) :
    getLe32 (bytes ++ [byte]) = getLe32 bytes ||| byte.toUInt32 <<< UInt32.ofNat (bytes.length * 8) := by
  match bytes, h with
  | [], _ =>
    change joinBe32 0 0 0 byte = joinBe32 0 0 0 0 ||| byte.toUInt32 <<< 0
    rw [(joinBe32_zero 0 0 0 byte).2.2.2, (joinBe32_zero 0 0 0 0).2.2.2, UInt32.shiftLeft_zero]
    exact UInt32.zero_or.symm
  | [b0], _ => exact (joinBe32_zero 0 0 byte b0).2.2.1
  | [b0, b1], _ => exact (joinBe32_zero 0 byte b1 b0).2.1
  | [b0, b1, b2], _ => exact (joinBe32_zero byte b2 b1 b0).1

/-- Three bytes make a number below 2^24. -/
theorem joinBe32_lt (b1 b2 b3 : UInt8) : (joinBe32 0 b1 b2 b3).toNat < 2 ^ 24 := by
  have hb1 := b1.toNat_lt
  have hb2 := b2.toNat_lt
  have hb3 := b3.toNat_lt
  have hzero : (0 : UInt8).toUInt32 <<< (24 : UInt32) = 0 := by decide
  rw [joinBe32, hzero, UInt32.zero_or]
  simp only [UInt32.toNat_or, UInt32.toNat_shiftLeft, UInt8.toNat_toUInt32, Nat.shiftLeft_eq]
  refine Nat.or_lt_two_pow (Nat.or_lt_two_pow ?_ ?_) ?_
  · have hshift : (16 : UInt32).toNat % 32 = 16 := by decide
    rw [hshift]
    omega
  · have hshift : (8 : UInt32).toNat % 32 = 8 := by decide
    rw [hshift]
    omega
  · omega

/-- A length of which a byte is missing. -/
theorem getLe32_lt (h : bytes.length < 4) : (getLe32 bytes).toNat < 2 ^ 24 := by
  rw [getLe32, List.getD_eq_default bytes 0 (by omega)]
  exact joinBe32_lt _ _ _

theorem getLe32_append_replicate (bytes : List UInt8) (count : ℕ) :
    getLe32 (bytes ++ List.replicate count 0) = getLe32 bytes := by
  have hget (index : ℕ) : (bytes ++ List.replicate count 0).getD index 0 = bytes.getD index 0 := by
    obtain hlt | hge := Nat.lt_or_ge index bytes.length
    · rw [List.getD_append bytes (List.replicate count 0) 0 index hlt]
    · rw [List.getD_append_right _ _ _ _ hge, List.getD_eq_default bytes 0 hge]
      exact List.getElem?_getD_replicate_default_eq (0 : UInt8) count (index - bytes.length)
  simp only [getLe32, hget]

/-- The length, and then the payload. -/
def putMessage (payload : List UInt8) : List UInt8 := putLe32 (UInt32.ofNat payload.length) ++ payload

theorem lengthSize_pos : 0 < 4 := by decide

/-- Every length is one of a message, also 0. -/
def messageFormat : Format UInt8 Unit where
  headerSize := 4
  headerSize_pos := lengthSize_pos
  kind _ := some ()
  length header := (getLe32 header).toNat

end FdeEmugl.Pipe

import Mathlib.Algebra.Group.Int.Defs
import Mathlib.Algebra.Group.Nat.Defs
import Mathlib.Data.List.Basic
import Mathlib.Order.Basic

/-!
# Byte streams of snapshots

A stream that is written is the list of its bytes; a stream that is read is the
list of the bytes still ahead. `Stream::read` delivers fewer bytes than asked for
only at the end, and the fixed-width getters then see zeros in the missing places.
-/

namespace FdeEmugl.Stream

/-- The bytes delivered and the bytes still ahead. -/
def read (count : ℕ) (stream : List UInt8) : List UInt8 × List UInt8 := (stream.take count, stream.drop count)

def putByte (value : UInt8) : List UInt8 := [value]

def getByte (stream : List UInt8) : UInt8 × List UInt8 :=
  let (bytes, rest) := read 1 stream
  (bytes.getD 0 0, rest)

def putBe32 (value : UInt32) : List UInt8 :=
  [(value >>> 24).toUInt8, (value >>> 16).toUInt8, (value >>> 8).toUInt8, value.toUInt8]

def joinBe32 (b0 b1 b2 b3 : UInt8) : UInt32 :=
  (b0.toUInt32 <<< 24) ||| (b1.toUInt32 <<< 16) ||| (b2.toUInt32 <<< 8) ||| b3.toUInt32

def getBe32 (stream : List UInt8) : UInt32 × List UInt8 :=
  let (bytes, rest) := read 4 stream
  (joinBe32 (bytes.getD 0 0) (bytes.getD 1 0) (bytes.getD 2 0) (bytes.getD 3 0), rest)

/-- A boolean passed to `putByte`. -/
def ofBool (value : Bool) : UInt8 := if value then 1 else 0

variable (value : UInt32) (rest : List UInt8)

@[simp] theorem getByte_putByte (value : UInt8) (rest : List UInt8) :
    getByte (putByte value ++ rest) = (value, rest) := rfl

/-- The four shifted bytes occupy disjoint bit ranges. -/
theorem joinBe32_shifts :
    joinBe32 (value >>> 24).toUInt8 (value >>> 16).toUInt8 (value >>> 8).toUInt8 value.toUInt8 = value := by
  apply UInt32.toNat_inj.mp
  apply Nat.eq_of_testBit_eq
  intro i
  have hhigh : 32 ≤ i → value.toNat.testBit i = false := fun h ↦
    Nat.testBit_lt_two_pow (Nat.lt_of_lt_of_le value.toNat_lt (Nat.pow_le_pow_right (by decide) h))
  simp only [joinBe32, UInt32.toNat_or, UInt32.toNat_shiftLeft, UInt8.toNat_toUInt32,
    UInt32.toNat_toUInt8, UInt32.toNat_shiftRight, UInt32.reduceToNat, Nat.reduceMod,
    Nat.testBit_or, Nat.testBit_mod_two_pow, Nat.testBit_shiftLeft, Nat.testBit_shiftRight]
  have hranges : i < 8 ∨ (8 ≤ i ∧ i < 16) ∨ (16 ≤ i ∧ i < 24) ∨ (24 ≤ i ∧ i < 32) ∨ 32 ≤ i := by
    omega
  rcases hranges with h | ⟨h, h'⟩ | ⟨h, h'⟩ | ⟨h, h'⟩ | h
  · simp [h]
    omega
  · simp (disch := omega) [Nat.add_sub_cancel' h]
    grind
  · simp (disch := omega) [Nat.add_sub_cancel' h]
    grind
  · simp (disch := omega) [Nat.add_sub_cancel' h]
    grind
  · simp (disch := omega) [hhigh h]

@[simp] theorem getBe32_putBe32 : getBe32 (putBe32 value ++ rest) = (value, rest) := by
  simp [getBe32, putBe32, read, joinBe32_shifts]

/-- The eight bytes of `putBe64` are those of the two halves. -/
def putBe64 (value : UInt64) : List UInt8 := putBe32 (value >>> 32).toUInt32 ++ putBe32 value.toUInt32

def getBe64 (stream : List UInt8) : UInt64 × List UInt8 :=
  let (high, afterHigh) := getBe32 stream
  let (low, rest) := getBe32 afterHigh
  ((high.toUInt64 <<< 32) ||| low.toUInt64, rest)

@[simp] theorem length_putBe32 : (putBe32 value).length = 4 := rfl

@[simp] theorem length_putBe64 (value : UInt64) : (putBe64 value).length = 8 := rfl

theorem joinHalves (value : UInt64) :
    ((value >>> 32).toUInt32.toUInt64 <<< 32) ||| value.toUInt32.toUInt64 = value := by
  apply UInt64.toNat_inj.mp
  have hlt := value.toNat_lt
  have hlow : value.toNat % 2 ^ 32 < 2 ^ 32 := Nat.mod_lt _ (by decide)
  have hhigh : value.toNat / 2 ^ 32 < 2 ^ 32 := by omega
  have hjoin := Nat.shiftLeft_add_eq_or_of_lt hlow (value.toNat / 2 ^ 32)
  simp only [UInt64.toNat_or, UInt64.toNat_shiftLeft, UInt32.toNat_toUInt64, UInt64.toNat_toUInt32,
    UInt64.toNat_shiftRight, UInt64.reduceToNat, Nat.reduceMod, Nat.shiftRight_eq_div_pow,
    Nat.mod_eq_of_lt hhigh]
  rw [Nat.mod_eq_of_lt (by rw [Nat.shiftLeft_eq]; omega), ← hjoin, Nat.shiftLeft_eq]
  omega

@[simp] theorem getBe64_putBe64 (value : UInt64) (rest : List UInt8) :
    getBe64 (putBe64 value ++ rest) = (value, rest) := by
  simp only [getBe64, putBe64, List.append_assoc, getBe32_putBe32, joinHalves]

/-! ## Packed numbers

Seven bits a byte, the lowest first; the highest bit of a byte says that more follow. -/

/-- The turns of the loop of `putPackedNum`; a 64-bit number is done after ten of them. -/
def packedBytes : ℕ → ℕ → List UInt8
  | 0, _ => []
  | fuel + 1, num =>
    if num / 128 = 0 then putByte (UInt8.ofNat num)
    else putByte (UInt8.ofNat (num % 128 + 128)) ++ packedBytes fuel (num / 128)

def putPackedNum (num : UInt64) : List UInt8 := packedBytes 10 num.toNat

/-- The turns of the loop of `getPackedNum`, ten at most. -/
def unpackBytes : ℕ → List UInt8 → ℕ × List UInt8
  | 0, stream => (0, stream)
  | fuel + 1, stream =>
    let (byte, rest) := getByte stream
    if byte.toNat < 128 then (byte.toNat, rest)
    else
      let (high, afterHigh) := unpackBytes fuel rest
      (byte.toNat % 128 + 128 * high, afterHigh)

def getPackedNum (stream : List UInt8) : UInt64 × List UInt8 :=
  let (num, rest) := unpackBytes 10 stream
  (UInt64.ofNat num, rest)

/-- The sign goes to the lowest bit. -/
def putPackedSignedNum (num : ℤ) : List UInt8 :=
  if num ≥ 0 then putPackedNum (UInt64.ofNat (num.natAbs * 2))
  else putPackedNum (UInt64.ofNat (num.natAbs * 2 + 1))

def getPackedSignedNum (stream : List UInt8) : ℤ × List UInt8 :=
  let (num, rest) := getPackedNum stream
  (if num.toNat % 2 = 1 then -(num.toNat / 2 : ℕ) else (num.toNat / 2 : ℕ), rest)

theorem length_packedBytes_pos (fuel num : ℕ) : 1 ≤ (packedBytes (fuel + 1) num).length := by
  rw [packedBytes]
  split_ifs
  · exact Nat.le_refl 1
  · rw [List.length_append]
    exact Nat.le_add_right 1 _

theorem unpackBytes_packedBytes {fuel num : ℕ} (h : num < 128 ^ (fuel + 1)) (rest : List UInt8) :
    unpackBytes (fuel + 1) (packedBytes (fuel + 1) num ++ rest) = (num, rest) := by
  induction fuel generalizing num with
  | zero =>
    have hsmall : num < 128 := by simpa using h
    have hbyte : (UInt8.ofNat num).toNat = num := UInt8.toNat_ofNat_of_lt' (by rw [UInt8.size]; omega)
    have hlast : num / 128 = 0 := by omega
    rw [packedBytes, if_pos hlast, unpackBytes, getByte_putByte]
    simp only [hbyte, if_pos hsmall]
  | succ fuel ih =>
    rw [packedBytes]
    split_ifs with hlast
    · have hsmall : num < 128 := by omega
      have hbyte : (UInt8.ofNat num).toNat = num := UInt8.toNat_ofNat_of_lt' (by rw [UInt8.size]; omega)
      rw [unpackBytes, getByte_putByte]
      simp only [hbyte, if_pos hsmall]
    · have hmod : num % 128 < 128 := Nat.mod_lt _ (by decide)
      have hbyte : (UInt8.ofNat (num % 128 + 128)).toNat = num % 128 + 128 :=
        UInt8.toNat_ofNat_of_lt' (by rw [UInt8.size]; omega)
      have hrest : num / 128 < 128 ^ (fuel + 1) := by
        rw [Nat.div_lt_iff_lt_mul (by decide), ← Nat.pow_succ]
        exact h
      rw [List.append_assoc, unpackBytes, getByte_putByte]
      simp only [hbyte, ih hrest]
      rw [if_neg (by omega)]
      exact Prod.ext (by simp only; omega) rfl

@[simp] theorem getPackedNum_putPackedNum (num : UInt64) (rest : List UInt8) :
    getPackedNum (putPackedNum num ++ rest) = (num, rest) := by
  have hlt : num.toNat < 128 ^ (9 + 1) := Nat.lt_trans num.toNat_lt (by decide)
  simp only [getPackedNum, putPackedNum, unpackBytes_packedBytes hlt, UInt64.ofNat_toNat]

theorem getPackedSignedNum_putPackedSignedNum {num : ℤ} (h : num.natAbs < 2 ^ 63)
    (rest : List UInt8) : getPackedSignedNum (putPackedSignedNum num ++ rest) = (num, rest) := by
  unfold putPackedSignedNum
  split_ifs with hsign
  · have hnum : (UInt64.ofNat (num.natAbs * 2)).toNat = num.natAbs * 2 :=
      UInt64.toNat_ofNat_of_lt' (by rw [UInt64.size]; omega)
    simp only [getPackedSignedNum, getPackedNum_putPackedNum, hnum]
    rw [if_neg (by omega)]
    exact Prod.ext (by simp only; omega) rfl
  · have hnum : (UInt64.ofNat (num.natAbs * 2 + 1)).toNat = num.natAbs * 2 + 1 :=
      UInt64.toNat_ofNat_of_lt' (by rw [UInt64.size]; omega)
    simp only [getPackedSignedNum, getPackedNum_putPackedNum, hnum]
    rw [if_pos (by omega)]
    exact Prod.ext (by simp only; omega) rfl

/-! ## Strings and byte buffers -/

def putString (string : List UInt8) : List UInt8 := putBe32 (UInt32.ofNat string.length) ++ string

def getString (stream : List UInt8) : List UInt8 × List UInt8 :=
  let (length, rest) := getBe32 stream
  read length.toNat rest

@[simp] theorem getString_putString_nil : getString (putString [] ++ rest) = ([], rest) := by
  simp [getString, putString, read]

theorem getString_putString {string : List UInt8} (h : string.length < 2 ^ 32) (rest : List UInt8) :
    getString (putString string ++ rest) = (string, rest) := by
  have hlength : (UInt32.ofNat string.length).toNat = string.length := UInt32.toNat_ofNat_of_lt' h
  simp only [getString, putString, List.append_assoc, getBe32_putBe32, hlength, read, List.take_left, List.drop_left]

/-- `saveBuffer` of a vector of bytes: its size cut to 32 bits, then all of its bytes. -/
def saveBuffer (buffer : List UInt8) : List UInt8 := putBe32 (UInt32.ofNat buffer.length) ++ buffer

/-- `loadBuffer` of a vector of bytes. The byte count of the read goes through an `int` before it is
compared with the length, so a buffer of 2^31 bytes or more is refused. Bytes that a short
read did not deliver are shown as zeros. -/
def loadBuffer (stream : List UInt8) : Bool × List UInt8 × List UInt8 :=
  let length := (getBe32 stream).1.toNat
  let (bytes, rest) := read length (getBe32 stream).2
  let ret := Int32.ofNat bytes.length
  (decide (ret.toInt = length), bytes ++ List.replicate (length - bytes.length) 0, rest)

theorem loadBuffer_saveBuffer (buffer : List UInt8) (rest : List UInt8)
    (h : buffer.length < 2 ^ 31) : loadBuffer (saveBuffer buffer ++ rest) = (true, buffer, rest) := by
  have hlength : (UInt32.ofNat buffer.length).toNat = buffer.length :=
    UInt32.toNat_ofNat_of_lt' (Nat.lt_trans h (by decide))
  have hint : (Int32.ofNat buffer.length).toInt = buffer.length := Int32.toInt_ofNat_of_lt h
  simp only [loadBuffer, saveBuffer, List.append_assoc, getBe32_putBe32, read, hlength,
    List.take_left, List.drop_left, hint, Nat.sub_self, List.replicate_zero, List.append_nil,
    decide_true]

end FdeEmugl.Stream

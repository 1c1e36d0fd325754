import FdeEmugl.Base.Stream

/-!
# Packed numbers, turn by turn

The loops of `putPackedNum` and `getPackedNum` on machine words, with their shifts and masks. They
compute what the arithmetic definitions of the byte streams say, and a list of packed numbers,
written one after the other, is read back whatever follows it.
-/

namespace FdeEmugl.PackedNum

open FdeEmugl.Stream

theorem toNat_shiftRight_seven (num : UInt64) : (num >>> 7).toNat = num.toNat / 128 := by
  rw [UInt64.toNat_shiftRight]
  exact Nat.shiftRight_eq_div_pow _ _

theorem shiftRight_seven_eq_zero {num : UInt64} : num >>> 7 = 0 ↔ num.toNat / 128 = 0 := by
  rw [← UInt64.toNat_inj, toNat_shiftRight_seven]
  rfl

def putPackedNum (num : UInt64) : List UInt8 :=
  let byte := (num &&& 0x7f).toUInt8
  if num >>> 7 ≠ 0 then putByte (byte ||| 0x80) ++ putPackedNum (num >>> 7) else putByte byte
termination_by num.toNat
decreasing_by
  rename_i hmore
  have hpos := mt shiftRight_seven_eq_zero.mpr hmore
  rw [toNat_shiftRight_seven]
  omega

/-- The turns of the loop of `getPackedNum` from number `i` on; with the result goes the number of
the bytes that were asked for. -/
def getTurns (i : ℕ) (res : UInt64) (stream : List UInt8) : UInt64 × ℕ × List UInt8 :=
  let (byte, rest) := getByte stream
  let res := res ||| (byte &&& 0x7f).toUInt64 <<< UInt64.ofNat (i * 7)
  if byte &&& 0x80 ≠ 0 ∧ i + 1 < 10 then getTurns (i + 1) res rest else (res, i + 1, rest)
termination_by 10 - i

def getPackedNum (stream : List UInt8) : UInt64 × List UInt8 :=
  let (res, _, rest) := getTurns 0 0 stream
  (res, rest)

/-- The least number has no negation; the source does not write it. -/
def putPackedSignedNum (num : Int64) : List UInt8 :=
  if num ≥ 0 then putPackedNum (num.toUInt64 <<< 1)
  else putPackedNum ((-num).toUInt64 <<< 1 ||| 1)

def getPackedSignedNum (stream : List UInt8) : Int64 × List UInt8 :=
  let (num, rest) := getPackedNum stream
  (if num &&& 1 ≠ 0 then -(num >>> 1).toInt64 else (num >>> 1).toInt64, rest)

/-! ## One turn -/

theorem toNat_low (num : UInt64) : (num &&& 0x7f).toUInt8.toNat = num.toNat % 128 := by
  rw [UInt64.toNat_toUInt8, UInt64.toNat_and]
  have hmask := Nat.and_two_pow_sub_one_eq_mod num.toNat 7
  change (num.toNat &&& 127) % 256 = num.toNat % 128
  change num.toNat &&& 127 = num.toNat % 128 at hmask
  omega

theorem toNat_payload (byte : UInt8) : (byte &&& 0x7f).toNat = byte.toNat % 128 := by
  rw [UInt8.toNat_and]
  exact Nat.and_two_pow_sub_one_eq_mod byte.toNat 7

theorem continues_iff (byte : UInt8) : byte &&& 0x80 ≠ 0 ↔ 128 ≤ byte.toNat := by
  have hall : ∀ n < 256, UInt8.ofNat n &&& 0x80 ≠ 0 ↔ 128 ≤ n := by decide +kernel
  simpa using hall byte.toNat byte.toNat_lt

theorem or_continue {byte : UInt8} (h : byte.toNat < 128) : byte ||| 0x80 = UInt8.ofNat (byte.toNat + 128) := by
  have hall : ∀ n < 128, UInt8.ofNat n ||| 0x80 = UInt8.ofNat (n + 128) := by decide +kernel
  simpa using hall byte.toNat h

/-- The payload of a turn goes above all bits that have been read; what it has above bit 63 is lost. -/
theorem toNat_or_shiftLeft {res : UInt64} {i : ℕ} (hi : i < 10) (hres : res.toNat < 2 ^ (i * 7)) (byte : UInt8) :
    (res ||| (byte &&& 0x7f).toUInt64 <<< UInt64.ofNat (i * 7)).toNat =
      (res.toNat + byte.toNat % 128 * 2 ^ (i * 7)) % 2 ^ 64 := by
  have hshift : (UInt64.ofNat (i * 7)).toNat % 64 = i * 7 := by
    rw [UInt64.toNat_ofNat_of_lt' (by rw [UInt64.size]; omega)]
    omega
  have hpow : 2 ^ 64 = 2 ^ (i * 7) * 2 ^ (64 - i * 7) := by
    rw [← Nat.pow_add]
    congr 1
    omega
  have hjoin := Nat.two_pow_add_eq_or_of_lt hres (byte.toNat % 128 % 2 ^ (64 - i * 7))
  rw [UInt64.toNat_or, UInt64.toNat_shiftLeft, UInt8.toNat_toUInt64, toNat_payload, hshift,
    Nat.shiftLeft_eq, hpow, Nat.mul_comm _ (2 ^ (i * 7)), Nat.mul_mod_mul_left, Nat.or_comm, ← hjoin]
  have hhigh : (res.toNat + 2 ^ (i * 7) * (byte.toNat % 128)) / 2 ^ (i * 7) = byte.toNat % 128 := by
    rw [Nat.add_mul_div_left _ _ (Nat.two_pow_pos _), Nat.div_eq_of_lt hres, Nat.zero_add]
  have hlow : (res.toNat + 2 ^ (i * 7) * (byte.toNat % 128)) % 2 ^ (i * 7) = res.toNat := by
    rw [Nat.add_mul_mod_self_left, Nat.mod_eq_of_lt hres]
  rw [Nat.mod_mul, hhigh, hlow, Nat.add_comm]

/-! ## The loops and the arithmetic definitions -/

theorem putPackedNum_eq_packedBytes (fuel : ℕ) {num : UInt64} (h : num.toNat < 128 ^ (fuel + 1)) :
    putPackedNum num = packedBytes (fuel + 1) num.toNat := by
  induction fuel generalizing num with
  | zero =>
    have hlast : num.toNat / 128 = 0 := by omega
    rw [putPackedNum, packedBytes, if_pos hlast, if_neg (by simp [shiftRight_seven_eq_zero, hlast])]
    congr 1
    apply UInt8.toNat_inj.mp
    rw [toNat_low, UInt8.toNat_ofNat']
    omega
  | succ fuel ih =>
    have hnext : (num >>> 7).toNat < 128 ^ (fuel + 1) := by
      rw [toNat_shiftRight_seven, Nat.div_lt_iff_lt_mul (by decide), ← Nat.pow_succ]
      exact h
    have hbyte := toNat_low num
    rw [putPackedNum, packedBytes]
    split_ifs with hmore hlast hlast
    · exact absurd (shiftRight_seven_eq_zero.mpr hlast) hmore
    · rw [ih hnext, toNat_shiftRight_seven, or_continue (by omega), hbyte]
    · congr 1
      apply UInt8.toNat_inj.mp
      rw [hbyte, UInt8.toNat_ofNat']
      omega
    · exact absurd (shiftRight_seven_eq_zero.mp (not_not.mp hmore)) hlast

/-- Ten turns are enough for 64 bits. -/
theorem putPackedNum_eq (num : UInt64) : putPackedNum num = Stream.putPackedNum num := by
  have hlt : num.toNat < 128 ^ (9 + 1) := Nat.lt_trans num.toNat_lt (by decide)
  exact putPackedNum_eq_packedBytes 9 hlt

/-- The turns that are left read what is above the bits that have been read. -/
theorem getTurns_eq (left : ℕ) {i : ℕ} (hi : i + (left + 1) = 10) {res : UInt64}
    (hres : res.toNat < 2 ^ (i * 7)) (stream : List UInt8) :
    (getTurns i res stream).1 = UInt64.ofNat (res.toNat + (unpackBytes (left + 1) stream).1 * 2 ^ (i * 7)) ∧
      (getTurns i res stream).2.2 = (unpackBytes (left + 1) stream).2 := by
  induction left generalizing i res stream with
  | zero =>
    have hjoin := toNat_or_shiftLeft (by omega) hres (getByte stream).1
    have hlast : ¬(i + 1 < 10) := by omega
    rw [getTurns, unpackBytes]
    simp only [hlast, and_false, if_false, unpackBytes, Nat.mul_zero, Nat.add_zero]
    split_ifs with hsmall
    · refine ⟨UInt64.toNat_inj.mp ?_, rfl⟩
      rw [hjoin, UInt64.toNat_ofNat', Nat.mod_eq_of_lt hsmall]
    · refine ⟨UInt64.toNat_inj.mp ?_, rfl⟩
      rw [hjoin, UInt64.toNat_ofNat']
  | succ left ih =>
    have hjoin := toNat_or_shiftLeft (by omega) hres (getByte stream).1
    have hmore : i + 1 < 10 := by omega
    have hpow : 2 ^ ((i + 1) * 7) = 2 ^ (i * 7) * 128 := by rw [Nat.add_one_mul, Nat.pow_add]
    rw [getTurns, unpackBytes]
    simp only [hmore, and_true]
    by_cases hsmall : (getByte stream).1.toNat < 128
    · have hstop : ¬((getByte stream).1 &&& 0x80 ≠ 0) := by
        rw [continues_iff]
        omega
      rw [if_neg hstop, if_pos hsmall]
      refine ⟨UInt64.toNat_inj.mp ?_, rfl⟩
      rw [hjoin, UInt64.toNat_ofNat', Nat.mod_eq_of_lt hsmall]
    · rw [if_pos ((continues_iff _).mpr (by omega)), if_neg hsmall]
      have hbelow : res.toNat + (getByte stream).1.toNat % 128 * 2 ^ (i * 7) < 2 ^ ((i + 1) * 7) := by
        have hpayload : (getByte stream).1.toNat % 128 ≤ 127 := by omega
        have hmul := Nat.mul_le_mul_right (2 ^ (i * 7)) hpayload
        omega
      have hfits : 2 ^ ((i + 1) * 7) ≤ 2 ^ 64 := Nat.pow_le_pow_right (by decide) (by omega)
      rw [Nat.mod_eq_of_lt (Nat.lt_of_lt_of_le hbelow hfits)] at hjoin
      obtain ⟨hres', hrest⟩ := ih (by omega) (hjoin ▸ hbelow) (getByte stream).2
      refine ⟨hres'.trans ?_, hrest⟩
      rw [hjoin, hpow]
      congr 1
      rw [Nat.add_mul, Nat.add_assoc, Nat.mul_comm (2 ^ (i * 7)), ← Nat.mul_assoc, Nat.mul_comm 128]

theorem getPackedNum_eq (stream : List UInt8) : getPackedNum stream = Stream.getPackedNum stream := by
  have hstart : (0 : UInt64).toNat < 2 ^ (0 * 7) := by decide
  obtain ⟨hres, hrest⟩ := getTurns_eq 9 rfl hstart stream
  refine Prod.ext ?_ hrest
  have hzero : (0 : UInt64).toNat = 0 := rfl
  rw [hzero, Nat.zero_mul, Nat.pow_zero, Nat.mul_one, Nat.zero_add] at hres
  exact hres

/-- A turn asks for one byte, and after the tenth one there is no other turn. -/
theorem getTurns_count (left : ℕ) {i : ℕ} (hi : i + (left + 1) = 10) (res : UInt64) (stream : List UInt8) :
    i < (getTurns i res stream).2.1 ∧ (getTurns i res stream).2.1 ≤ 10 ∧
      (getTurns i res stream).2.2 = stream.drop ((getTurns i res stream).2.1 - i) := by
  induction left generalizing i res stream with
  | zero =>
    have hlast : ¬(i + 1 < 10) := by omega
    rw [getTurns]
    simp only [hlast, and_false, if_false, Nat.add_sub_cancel_left]
    exact ⟨Nat.lt_succ_self i, by omega, rfl⟩
  | succ left ih =>
    rw [getTurns]
    simp only
    split_ifs with hmore
    · have hturns := ih (i := i + 1) (by omega)
        (res ||| ((getByte stream).1 &&& 0x7f).toUInt64 <<< UInt64.ofNat (i * 7)) (getByte stream).2
      revert hturns
      generalize getTurns (i + 1) _ _ = result
      rintro ⟨hlt, hle, hdrop⟩
      have hskip : (getByte stream).2.drop (result.2.1 - (i + 1)) = stream.drop (1 + (result.2.1 - (i + 1))) :=
        List.drop_drop
      rw [hdrop, hskip]
      exact ⟨by omega, hle, congrArg (stream.drop ·) (by omega)⟩
    · simp only [Nat.add_sub_cancel_left]
      exact ⟨Nat.lt_succ_self i, by omega, rfl⟩

/-! ## Signed numbers -/

theorem toNat_shiftLeft_one {num : UInt64} (h : num.toNat < 2 ^ 63) : (num <<< 1).toNat = 2 * num.toNat := by
  rw [UInt64.toNat_shiftLeft]
  change num.toNat <<< 1 % 2 ^ 64 = 2 * num.toNat
  rw [Nat.shiftLeft_eq]
  omega

theorem toNat_and_one (num : UInt64) : (num &&& 1).toNat = num.toNat % 2 := by
  rw [UInt64.toNat_and]
  exact Nat.and_one_is_mod num.toNat

theorem toNat_shiftRight_one (num : UInt64) : (num >>> 1).toNat = num.toNat / 2 := by
  rw [UInt64.toNat_shiftRight]
  exact Nat.shiftRight_eq_div_pow _ _

/-- The number and the bit of its sign. -/
theorem toNat_shiftLeft_or {num : UInt64} (h : num.toNat < 2 ^ 63) : (num <<< 1 ||| 1).toNat = 2 * num.toNat + 1 := by
  rw [UInt64.toNat_or, toNat_shiftLeft_one h]
  exact (Nat.two_pow_add_eq_or_of_lt (i := 1) (b := 1) (by decide) num.toNat).symm

theorem toUInt64_lt {num : Int64} (h : 0 ≤ num) : num.toUInt64.toNat < 2 ^ 63 := by
  rw [Int64.toNat_toUInt64_of_le h]
  have hlt := num.toInt_lt
  change num.toInt.toNat < 2 ^ 63
  omega

theorem neg_nonneg_of_neg {num : Int64} (hsign : ¬(num ≥ 0)) (h : num ≠ Int64.minValue) : 0 ≤ -num := by
  rw [ge_iff_le, Int64.le_iff_toInt_le, Int64.toInt_zero] at hsign
  have hlow := num.le_toInt
  have hmin : num.toInt ≠ -2 ^ 63 := fun heq ↦ h (Int64.toInt_inj.mp heq)
  rw [Int64.le_iff_toInt_le, Int64.toInt_zero, Int64.toInt_neg, Int.bmod_eq_of_le (by omega) (by omega)]
  omega

theorem getPackedSignedNum_putPackedSignedNum {num : Int64} (h : num ≠ Int64.minValue)
    (rest : List UInt8) : getPackedSignedNum (putPackedSignedNum num ++ rest) = (num, rest) := by
  unfold putPackedSignedNum getPackedSignedNum
  split_ifs with hsign
  · have hsmall := toUInt64_lt hsign
    have hback : num.toUInt64 <<< 1 >>> 1 = num.toUInt64 := by
      apply UInt64.toNat_inj.mp
      rw [toNat_shiftRight_one, toNat_shiftLeft_one hsmall]
      omega
    have heven : num.toUInt64 <<< 1 &&& 1 = 0 := by
      apply UInt64.toNat_inj.mp
      rw [toNat_and_one, toNat_shiftLeft_one hsmall]
      exact Nat.mul_mod_right 2 _
    rw [getPackedNum_eq, putPackedNum_eq, getPackedNum_putPackedNum]
    simp only [heven, hback, ne_eq, not_true_eq_false, if_false, Int64.toInt64_toUInt64]
  · have hsmall := toUInt64_lt (neg_nonneg_of_neg hsign h)
    have hback : ((-num).toUInt64 <<< 1 ||| 1) >>> 1 = (-num).toUInt64 := by
      apply UInt64.toNat_inj.mp
      rw [toNat_shiftRight_one, toNat_shiftLeft_or hsmall]
      omega
    have hodd : ((-num).toUInt64 <<< 1 ||| 1) &&& 1 ≠ 0 := by
      intro hzero
      have hnat := congrArg UInt64.toNat hzero
      rw [toNat_and_one, toNat_shiftLeft_or hsmall, UInt64.toNat_zero] at hnat
      omega
    rw [getPackedNum_eq, putPackedNum_eq, getPackedNum_putPackedNum]
    simp only [if_pos hodd, hback, Int64.toInt64_toUInt64, Int64.neg_neg]

/-! ## Lists of numbers -/

/-- A number that is written, or that has been read. -/
inductive Value where
  | num (value : UInt64)
  | signedNum (value : Int64)
deriving Repr, DecidableEq

/-- Which of the two functions reads a number. -/
inductive Kind where
  | num
  | signedNum
deriving Repr, DecidableEq

namespace Value

def kind : Value → Kind
  | num _ => .num
  | signedNum _ => .signedNum

def put : Value → List UInt8
  | num value => putPackedNum value
  | signedNum value => putPackedSignedNum value

/-- Any unsigned number, and any signed one but the least. -/
def Writable : Value → Prop
  | num _ => True
  | signedNum value => value ≠ Int64.minValue

instance (value : Value) : Decidable value.Writable := by
  cases value <;> unfold Writable <;> infer_instance

end Value

def Kind.get : Kind → List UInt8 → Value × List UInt8
  | num, stream => let (value, rest) := getPackedNum stream; (.num value, rest)
  | signedNum, stream => let (value, rest) := getPackedSignedNum stream; (.signedNum value, rest)

def putAll (values : List Value) : List UInt8 := values.flatMap Value.put

def getAll : List Kind → List UInt8 → List Value × List UInt8
  | [], stream => ([], stream)
  | kind :: kinds, stream =>
    let (value, afterValue) := kind.get stream
    let (values, rest) := getAll kinds afterValue
    (value :: values, rest)

theorem getAll_cons (kind : Kind) (kinds : List Kind) (stream : List UInt8) : getAll (kind :: kinds) stream =
      ((kind.get stream).1 :: (getAll kinds (kind.get stream).2).1, (getAll kinds (kind.get stream).2).2) :=
  rfl

theorem Value.get_put {value : Value} (h : value.Writable) (rest : List UInt8) :
    value.kind.get (value.put ++ rest) = (value, rest) := by
  cases value with
  | num value =>
    simp only [kind, put, Kind.get, putPackedNum_eq, getPackedNum_eq, getPackedNum_putPackedNum]
  | signedNum value =>
    simp only [kind, put, Kind.get, getPackedSignedNum_putPackedSignedNum h]

/-- Numbers of both kinds, written one after the other, are read back in the same order, and with them
no byte that follows. On any bytes at all `getPackedNum` asks for one to ten of them. -/
theorem getAll_putAll (values : List Value) (h : ∀ value ∈ values, value.Writable) :
    (∀ rest, getAll (values.map Value.kind) (putAll values ++ rest) = (values, rest)) ∧
      ∀ stream, 1 ≤ (getTurns 0 0 stream).2.1 ∧ (getTurns 0 0 stream).2.1 ≤ 10 ∧
        (getPackedNum stream).2 = stream.drop (getTurns 0 0 stream).2.1 := by
  refine ⟨fun rest ↦ ?_, fun stream ↦ getTurns_count 9 rfl 0 stream⟩
  induction values with
  | nil => rfl
  | cons value values ih =>
    have hvalue := Value.get_put (h value (.head values)) (putAll values ++ rest)
    have hrest := ih fun other hother ↦ h other (.tail value hother)
    have hput : putAll (value :: values) = value.put ++ putAll values := List.flatMap_cons
    rw [List.map_cons, getAll_cons, hput, List.append_assoc, hvalue, hrest]

theorem getAll_putAll_mixed :
    getAll [.num, .signedNum, .num, .signedNum] (putAll [.num 300, .signedNum (-64), .num (-1), .signedNum 5]
        ++ [7]) = ([.num 300, .signedNum (-64), .num (-1), .signedNum 5], [7]) :=
  (getAll_putAll [.num 300, .signedNum (-64), .num (-1), .signedNum 5] (by decide)).1 [7]

end FdeEmugl.PackedNum

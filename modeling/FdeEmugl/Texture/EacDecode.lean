import FdeEmugl.Texture.EtcDecode

/-!
# Decoding of EAC blocks

A block of one channel has a base, a multiplier, a row of a table of modifiers and an index of 3 bits for each of 16
pixels, column by column. Values have 8 bits, 11 bits, or 11 bits with a sign.

The base of signed values is read through a plain `char`, whose sign depends on the target.
-/

namespace FdeEmugl.Etc

open BitFields ByteMemory

/-! ## The layout -/

namespace Layout

/-- The first halves of the rows, without their signs. -/
def eacModifiers : List (List ℤ) :=
  [[3, 6, 9, 15], [3, 7, 10, 13], [2, 5, 8, 13], [2, 4, 6, 13], [3, 6, 8, 12], [3, 7, 9, 11], [4, 7, 8, 11],
   [3, 5, 8, 11], [2, 6, 8, 10], [2, 5, 8, 10], [2, 4, 8, 10], [2, 5, 7, 10], [3, 4, 7, 10], [1, 2, 3, 10],
   [4, 6, 8, 9], [3, 5, 7, 9]]

def eacModifier (row index : ℕ) : ℤ :=
  if index < 4 then -((eacModifiers.getD row []).getD index 0) else (eacModifiers.getD row []).getD (index - 4) 0 - 1

section Values

variable (block x y : ℕ)

def multiplier : ℕ := field block 55 52

/-- The modifier of a pixel, from index number `4 * x + y`. -/
def pixelModifier : ℤ := eacModifier (field block 51 48) (field block (47 - 3 * (4 * x + y)) (45 - 3 * (4 * x + y)))

/-- In eighths of a step of 8 bits. A multiplier of 0 stands for 1/8. -/
def product11 : ℤ :=
  if multiplier block = 0 then pixelModifier block x y else pixelModifier block x y * multiplier block * 8

def value8 : ℤ := clamp255 (field block 63 56 + pixelModifier block x y * multiplier block)

def unsigned11 : ℤ := max 0 (min 2047 (field block 63 56 * 8 + 4 + product11 block x y))

/-- The base with a sign; -128 counts as -127. -/
def signedBase : ℤ :=
  let base : ℤ := if field block 63 56 < 128 then field block 63 56 else field block 63 56 - 256
  max (-127) base

def signed11 : ℤ := max (-1023) (min 1023 (signedBase block * 8 + product11 block x y))

end Values

end Layout

/-! ## The code -/

/-- The next index, and where the one after it starts. -/
def nextIndex (pIn : ℕ → UInt8) (p : ℕ) (bitOffset : ℤ) : ℕ × ℕ × ℤ :=
  let (modifier, p, bitOffset) :=
    if bitOffset < 0 then ((pIn p).toNat <<< (-bitOffset).toNat, p + 1, bitOffset + 8) else (0, p, bitOffset)
  let modifier := modifier + (pIn p).toNat >>> bitOffset.toNat &&& 7
  let bitOffset := bitOffset - 3
  if bitOffset = -3 then (modifier, p + 1, 5) else (modifier, p, bitOffset)

def indices (pIn : ℕ → UInt8) : ℕ → ℕ → ℤ → List ℕ
  | 0, _, _ => []
  | count + 1, p, bitOffset =>
    let (modifier, p, bitOffset) := nextIndex pIn p bitOffset
    modifier :: indices pIn count p bitOffset

/-- A byte as a plain `char`. -/
def toChar (charIsSigned : Bool) (byte : UInt8) : ℤ :=
  if charIsSigned ∧ 128 ≤ byte.toNat then (byte.toNat : ℤ) - 256 else byte.toNat

/-- What is decoded for each output index, before a division to a `float`. -/
def eac_decoded (charIsSigned : Bool) (pIn : ℕ → UInt8) (decodedElementBytes : ℕ) (isSigned : Bool) : List (ℕ × ℤ) :=
  let base_codeword := if isSigned then toChar charIsSigned (pIn 0) else (pIn 0).toNat
  let base_codeword := if base_codeword = -128 then -127 else base_codeword
  let multiplier := (pIn 1).toNat >>> 4
  let tblIdx := (pIn 1).toNat &&& 15
  let table := kAlphaModifierTable.drop (tblIdx * 8)
  (indices pIn 16 2 5).mapIdx fun i modifier ↦
    let outIdx := i % 4 * 4 + i / 4
    let modifierValue := table.getD modifier 0
    let decoded := base_codeword + modifierValue * multiplier
    if decodedElementBytes = 1 then (outIdx, clamp decoded)
    else
      let decoded := decoded * 8
      let decoded := if multiplier = 0 then decoded + modifierValue else decoded
      if isSigned then (outIdx, clampSigned1023 decoded) else (outIdx, clamp2047 (decoded + 4))

/-- `quotient` gives the bytes of a `float`. -/
def eac_decode_single_channel_block (charIsSigned : Bool) (quotient : ℤ → ℕ → List UInt8) (pIn : ℕ → UInt8)
    (decodedElementBytes : ℕ) (isSigned : Bool) (pOut : ℤ) : List Store :=
  (eac_decoded charIsSigned pIn decodedElementBytes isSigned).map fun (outIdx, decoded) ↦
    (pOut + (outIdx * decodedElementBytes : ℕ),
      if decodedElementBytes = 1 then [toByte decoded] else quotient decoded (if isSigned then 1023 else 2047))

/-! ## Indices and modifiers -/

section Eac

variable {pIn : ℕ → UInt8} {charIsSigned : Bool} {x y : ℕ}

/-- Walking through the bytes cuts out one index after the other. -/
theorem indices_eq (pIn : ℕ → UInt8) : indices pIn 16 2 5 =
    (List.range 16).map fun i ↦ field (Layout.int64bit pIn) (47 - 3 * i) (45 - 3 * i) := by
  have h2 := (pIn 2).toNat_lt
  have h3 := (pIn 3).toNat_lt
  have h4 := (pIn 4).toNat_lt
  have h5 := (pIn 5).toNat_lt
  have h6 := (pIn 6).toNat_lt
  have h7 := (pIn 7).toNat_lt
  have hmask : ∀ v : ℕ, v &&& 7 = v % 8 := fun v ↦ and_mask (m := 7) (k := 3) rfl
  simp only [indices, nextIndex, Int.reduceLT, ↓reduceIte, Int.reduceSub, Int.reduceNeg, reduceCtorEq,
    Int.reduceToNat, Nat.shiftRight_eq_div_pow, Nat.reducePow, zero_add, hmask, neg_inj, OfNat.one_ne_ofNat,
    Int.neg_neg_iff_pos, zero_lt_one, neg_neg, Int.toNat_one, Nat.shiftLeft_eq, pow_one, Nat.reduceAdd, Int.reduceAdd,
    OfNat.ofNat_eq_ofNat, Nat.reduceEqDiff, zero_lt_two, sub_self, zero_eq_neg, OfNat.ofNat_ne_zero,
    lt_self_iff_false, zero_sub, Int.toNat_zero, pow_zero, Nat.div_one, field, Layout.int64bit, List.range_succ, List.range_zero,
    List.nil_append, List.cons_append, List.map_cons, mul_zero, tsub_zero, Nat.reduceSub, mul_one, Nat.reduceMul,
    tsub_self, List.map_nil, List.cons.injEq, and_true]
  omega

theorem kAlphaModifierTable_eq : ∀ row < 16, ∀ index < 8,
    (kAlphaModifierTable.drop (row * 8)).getD index 0 = Layout.eacModifier row index := by
  decide

theorem first_eq (pIn : ℕ → UInt8) : (pIn 0).toNat = field (Layout.int64bit pIn) 63 56 := by
  have hlt := int64bit_lt pIn
  have h0 := (pIn 0).toNat_lt
  have h1 := (pIn 1).toNat_lt
  have h2 := (pIn 2).toNat_lt
  have h3 := (pIn 3).toNat_lt
  have h4 := (pIn 4).toNat_lt
  have h5 := (pIn 5).toNat_lt
  have h6 := (pIn 6).toNat_lt
  have h7 := (pIn 7).toNat_lt
  rw [field, Layout.int64bit]
  omega

theorem second_eq (pIn : ℕ → UInt8) : (pIn 1).toNat >>> 4 = Layout.multiplier (Layout.int64bit pIn) ∧
      (pIn 1).toNat &&& 15 = field (Layout.int64bit pIn) 51 48 := by
  have h1 := (pIn 1).toNat_lt
  have h2 := (pIn 2).toNat_lt
  have h3 := (pIn 3).toNat_lt
  have h4 := (pIn 4).toNat_lt
  have h5 := (pIn 5).toNat_lt
  have h6 := (pIn 6).toNat_lt
  have h7 := (pIn 7).toNat_lt
  rw [and_mask (m := 15) (k := 4) rfl, Nat.shiftRight_eq_div_pow, Layout.multiplier, field, field, Layout.int64bit]
  omega

theorem clamp2047_eq (v : ℤ) : clamp2047 v = max 0 (min 2047 v) := by
  rw [clamp2047]
  split_ifs <;> omega

theorem clampSigned1023_eq (v : ℤ) : clampSigned1023 v = max (-1023) (min 1023 v) := by
  rw [clampSigned1023]
  split_ifs <;> omega

/-- The modifier of the i-th index is that of the pixel in column `i / 4` and row `i % 4`. -/
theorem modifierValue_eq (pIn : ℕ → UInt8) (i : ℕ) : (kAlphaModifierTable.drop (((pIn 1).toNat &&& 15) * 8)).getD
        (field (Layout.int64bit pIn) (47 - 3 * i) (45 - 3 * i)) 0 =
      Layout.pixelModifier (Layout.int64bit pIn) (i / 4) (i % 4) := by
  have hrow : field (Layout.int64bit pIn) 51 48 < 16 := field_lt _ 51 48
  have hindex : field (Layout.int64bit pIn) (47 - 3 * i) (45 - 3 * i) < 8 := by
    have hlt := field_lt (Layout.int64bit pIn) (47 - 3 * i) (45 - 3 * i)
    exact hlt.trans_le (Nat.pow_le_pow_right (show 2 > 0 by decide) (show _ ≤ 3 by omega))
  rw [(second_eq pIn).2, kAlphaModifierTable_eq _ hrow _ hindex, Layout.pixelModifier, Nat.div_add_mod]

/-- The pixels in the order of their indices. -/
def pixelValues (value : ℕ → ℕ → ℤ) : List (ℕ × ℤ) :=
  (List.range 16).map fun i ↦ (i % 4 * 4 + i / 4, value (i / 4) (i % 4))

theorem mem_pixelValues {value : ℕ → ℕ → ℤ} (hx : x < 4) (hy : y < 4) {v : ℤ} :
    (x + 4 * y, v) ∈ pixelValues value ↔ v = value x y := by
  rw [pixelValues, List.mem_map]
  constructor
  · rintro ⟨i, hi, heq⟩
    obtain ⟨hplace, rfl⟩ := Prod.mk.inj heq
    rw [List.mem_range] at hi
    rw [show i / 4 = x by omega, show i % 4 = y by omega]
  · rintro rfl
    refine ⟨4 * x + y, List.mem_range.mpr (by omega), ?_⟩
    rw [show (4 * x + y) / 4 = x by omega, show (4 * x + y) % 4 = y by omega, mul_comm, add_comm]

/-- The base as the code has it. -/
def codeBase (charIsSigned : Bool) (byte : UInt8) : ℤ :=
  if toChar charIsSigned byte = -128 then -127 else toChar charIsSigned byte

section

variable (charIsSigned : Bool) (pIn : ℕ → UInt8)

theorem eac_decoded_8 : eac_decoded charIsSigned pIn 1 false = pixelValues (Layout.value8 (Layout.int64bit pIn)) := by
  have hbase : ((field (Layout.int64bit pIn) 63 56 : ℕ) : ℤ) ≠ -128 := by omega
  simp only [eac_decoded, indices_eq, mapIdx_map_range, modifierValue_eq, (second_eq pIn).1, Bool.false_eq_true,
    if_false, if_true, clamp_eq, first_eq, if_neg hbase]
  rfl

theorem eac_decoded_unsigned11 :
    eac_decoded charIsSigned pIn 4 false = pixelValues (Layout.unsigned11 (Layout.int64bit pIn)) := by
  have hbase : ((field (Layout.int64bit pIn) 63 56 : ℕ) : ℤ) ≠ -128 := by omega
  have hbytes : (4 : ℕ) ≠ 1 := by decide
  simp only [eac_decoded, indices_eq, mapIdx_map_range, modifierValue_eq, (second_eq pIn).1, Bool.false_eq_true,
    if_false, clamp2047_eq, first_eq, if_neg hbase, if_neg hbytes]
  refine List.map_congr_left fun i _ ↦ ?_
  rw [Layout.unsigned11, Layout.product11]
  congr 3
  split_ifs with hzero
  · rw [hzero]
    ring
  · ring

theorem eac_decoded_signed11 : eac_decoded charIsSigned pIn 4 true = pixelValues fun x y ↦
      max (-1023) (min 1023 (codeBase charIsSigned (pIn 0) * 8 + Layout.product11 (Layout.int64bit pIn) x y)) := by
  have hbytes : (4 : ℕ) ≠ 1 := by decide
  have hbase : (if toChar charIsSigned (pIn 0) = -128 then -127 else toChar charIsSigned (pIn 0)) =
    codeBase charIsSigned (pIn 0) := rfl
  simp only [eac_decoded, indices_eq, mapIdx_map_range, modifierValue_eq, (second_eq pIn).1, if_true,
    clampSigned1023_eq, if_neg hbytes, hbase]
  refine List.map_congr_left fun i _ ↦ ?_
  simp only [Layout.product11]
  congr 3
  split_ifs with hzero
  · rw [hzero]
    ring
  · ring

end

/-! ## Both decoders -/

/-- What a plain `char` makes of the base. -/
theorem codeBase_eq (pIn : ℕ → UInt8) : codeBase charIsSigned (pIn 0) =
    if charIsSigned = true ∨ (pIn 0).toNat < 128 then Layout.signedBase (Layout.int64bit pIn) else (pIn 0).toNat := by
  have hlt := (pIn 0).toNat_lt
  have hsigned : Layout.signedBase (Layout.int64bit pIn) =
      max (-127) (if (pIn 0).toNat < 128 then ((pIn 0).toNat : ℤ) else (pIn 0).toNat - 256) := by
    rw [Layout.signedBase, ← first_eq]
  rw [codeBase, hsigned, toChar]
  cases charIsSigned with
  | false =>
    simp only [Bool.false_eq_true, false_and, if_false, false_or]
    by_cases hsmall : (pIn 0).toNat < 128
    · rw [if_pos hsmall, if_pos hsmall, if_neg (by omega), max_eq_right (by omega)]
    · rw [if_neg hsmall, if_neg (by omega)]
  | true =>
    simp only [true_and, true_or, if_true]
    by_cases hsmall : (pIn 0).toNat < 128
    · rw [if_pos hsmall, if_neg (Nat.not_le.mpr hsmall), if_neg (by omega), max_eq_right (by omega)]
    · rw [if_neg hsmall, if_pos (Nat.le_of_not_lt hsmall)]
      split_ifs with hlowest
      · rw [hlowest]
        rfl
      · rw [max_eq_right (by omega)]

theorem eacModifier_bounds : ∀ row < 16, ∀ index < 8, -15 ≤ Layout.eacModifier row index := by decide

theorem product11_bounds (block x y : ℕ) : -1800 ≤ Layout.product11 block x y := by
  have hrow : field block 51 48 < 16 := field_lt _ 51 48
  have hindex : field block (47 - 3 * (4 * x + y)) (45 - 3 * (4 * x + y)) < 8 := by
    have hlt := field_lt block (47 - 3 * (4 * x + y)) (45 - 3 * (4 * x + y))
    exact hlt.trans_le (Nat.pow_le_pow_right (show 2 > 0 by decide) (show _ ≤ 3 by omega))
  have hmodifier : -15 ≤ Layout.pixelModifier block x y := eacModifier_bounds _ hrow _ hindex
  have hmultiplier : Layout.multiplier block < 16 := field_lt _ 55 52
  rw [Layout.product11]
  split_ifs
  · omega
  · have hmul : -15 * (Layout.multiplier block : ℤ) ≤ Layout.pixelModifier block x y * Layout.multiplier block :=
      Int.mul_le_mul_of_nonneg_right hmodifier (Int.natCast_nonneg _)
    omega

/-- The decoders follow the layouts, for colours and for one channel. -/
structure DecodesBlock (charIsSigned : Bool) (pIn : ℕ → UInt8) : Prop where
  rgb : ∀ isPunchthroughAlpha pOut memory, ∀ x < 4, ∀ y < 4,
    (storeAll (etc2_decode_rgb_block pIn isPunchthroughAlpha pOut) memory).Holds
      (pOut + channels isPunchthroughAlpha * (x + 4 * y : ℕ))
      (colourBytes isPunchthroughAlpha (Layout.pixel (Layout.int64bit pIn) isPunchthroughAlpha x y))
  value8 : ∀ x < 4, ∀ y < 4,
    (x + 4 * y, Layout.value8 (Layout.int64bit pIn) x y) ∈ eac_decoded charIsSigned pIn 1 false
  unsigned11 : ∀ x < 4, ∀ y < 4,
    (x + 4 * y, Layout.unsigned11 (Layout.int64bit pIn) x y) ∈ eac_decoded charIsSigned pIn 4 false
  signed11 : ∀ x < 4, ∀ y < 4,
    (x + 4 * y, Layout.signed11 (Layout.int64bit pIn) x y) ∈ eac_decoded charIsSigned pIn 4 true

/-- Every pixel is at or above the largest value, or the base has no sign for the target's `char` either. -/
def SignDoesNotMatter (charIsSigned : Bool) (pIn : ℕ → UInt8) : Prop :=
  charIsSigned = true ∨ (pIn 0).toNat < 128 ∨ ∀ x < 4, ∀ y < 4,
    1023 ≤ Layout.signedBase (Layout.int64bit pIn) * 8 + Layout.product11 (Layout.int64bit pIn) x y

end Eac

/-- Blocks are decoded as the layouts say, but for negative bases where `char` has no sign. -/
theorem decodesBlock_iff (charIsSigned : Bool) (pIn : ℕ → UInt8) :
    DecodesBlock charIsSigned pIn ↔ SignDoesNotMatter charIsSigned pIn := by
  have hsigned : (∀ x < 4, ∀ y < 4,
      (x + 4 * y, Layout.signed11 (Layout.int64bit pIn) x y) ∈ eac_decoded charIsSigned pIn 4 true) ↔
        SignDoesNotMatter charIsSigned pIn := by
    have hlt := (pIn 0).toNat_lt
    have hfirst := first_eq pIn
    rw [eac_decoded_signed11, codeBase_eq, SignDoesNotMatter, ← or_assoc]
    by_cases hsame : charIsSigned = true ∨ (pIn 0).toNat < 128
    · rw [if_pos hsame, iff_true_right (.inl hsame)]
      exact fun x hx y hy ↦ (mem_pixelValues hx hy).mpr rfl
    · rw [if_neg hsame, or_iff_right hsame]
      refine forall₂_congr fun x hx ↦ forall₂_congr fun y hy ↦ ?_
      have hbound := product11_bounds (Layout.int64bit pIn) x y
      have hlarge := (not_or.mp hsame).2
      rw [mem_pixelValues hx hy, Layout.signed11, Layout.signedBase, ← hfirst, if_neg hlarge]
      omega
  constructor
  · exact fun h ↦ hsigned.mp h.signed11
  · intro h
    refine ⟨fun isPunchthroughAlpha pOut memory x hx y hy ↦
      holds_etc2_decode_rgb_block pIn isPunchthroughAlpha pOut memory hx hy, fun x hx y hy ↦ ?_, fun x hx y hy ↦ ?_,
      hsigned.mpr h⟩
    · rw [eac_decoded_8]
      exact (mem_pixelValues hx hy).mpr rfl
    · rw [eac_decoded_unsigned11]
      exact (mem_pixelValues hx hy).mpr rfl

/-- The base -1 of a signed block on a target whose `char` has no sign. -/
def minusOne : ℕ → UInt8 := fun i ↦ if i = 0 then 255 else 0

theorem signed_base_without_sign :
    (0, Layout.signed11 (Layout.int64bit minusOne) 0 0) ∉ eac_decoded false minusOne 4 true ∧
      ¬ DecodesBlock false minusOne := by
  have hnot : (0, Layout.signed11 (Layout.int64bit minusOne) 0 0) ∉ eac_decoded false minusOne 4 true := by decide
  exact ⟨hnot, fun h ↦ hnot (h.signed11 0 (by decide) 0 (by decide))⟩

end FdeEmugl.Etc

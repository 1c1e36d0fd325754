import FdeEmugl.Library.BitFields
import FdeEmugl.Library.ByteMemory
import Mathlib.Data.UInt

/-!
# Decoding of ETC2 and EAC blocks

A block of 8 bytes stands for 4 by 4 pixels. Its colours are given by one of five layouts; which one is told by the
differential colours that overflow. The layouts are stated here on the 64-bit number that the bytes make.

Words are natural numbers, and a mask makes an `int` natural. Functions that write return their stores.
-/

namespace FdeEmugl.Etc

open BitFields ByteMemory

/-! ## The layouts -/

namespace Layout

/-- The number of a block. -/
def int64bit (q : ℕ → UInt8) : ℕ :=
  256 * (256 * (256 * (256 * (256 * (256 * (256 * (q 0).toNat + (q 1).toNat) + (q 2).toNat) + (q 3).toNat) +
    (q 4).toNat) + (q 5).toNat) + (q 6).toNat) + (q 7).toNat

structure Colour where
  r : ℤ
  g : ℤ
  b : ℤ
  deriving DecidableEq

def signed3 (v : ℕ) : ℤ := if v < 4 then v else v - 8

def extend4 (v : ℕ) : ℕ := 16 * v + v

def extend5 (v : ℕ) : ℕ := 8 * v + v / 4

def extend6 (v : ℕ) : ℕ := 4 * v + v / 16

def extend7 (v : ℕ) : ℕ := 2 * v + v / 64

/-- The nearest number from 0 to 255. -/
def clamp255 (v : ℤ) : ℤ := max 0 (min 255 v)

def Colour.add (colour : Colour) (v : ℤ) : Colour :=
  ⟨clamp255 (colour.r + v), clamp255 (colour.g + v), clamp255 (colour.b + v)⟩

inductive Mode where
  | individual
  | differential
  | T
  | H
  | planar
  deriving DecidableEq

/-- A base colour of 5 bits and its difference, by the highest bit of the base colour. -/
def sum5 (block high : ℕ) : ℤ := field block high (high - 4) + signed3 (field block (high - 5) (high - 7))

def overflows (block high : ℕ) : Bool := sum5 block high < 0 ∨ 31 < sum5 block high

/-- In blocks with transparency, bit 33 tells whether there is none. -/
def mode (block : ℕ) (isPunchthroughAlpha : Bool) : Mode :=
  if isPunchthroughAlpha = false ∧ field block 33 33 = 0 then .individual
  else if overflows block 63 then .T
  else if overflows block 55 then .H
  else if overflows block 47 then .planar
  else .differential

/-- Table 3.17.2, the positive half. -/
def modifiers : List (ℤ × ℤ) := [(2, 8), (5, 17), (9, 29), (13, 42), (18, 60), (24, 80), (33, 106), (47, 183)]

/-- Table 3.17.3. The small modifier is 0 where the large index of the other sign means transparency. -/
def modifier (codeword msb lsb : ℕ) (withSmall : Bool) : ℤ :=
  let (small, large) := modifiers.getD codeword (0, 0)
  let value := if lsb = 1 then large else if withSmall then small else 0
  if msb = 1 then -value else value

def distances : List ℤ := [3, 6, 11, 16, 23, 32, 41, 64]

section Pixels

variable (block : ℕ) (isPunchthroughAlpha : Bool) (x y : ℕ)

def msb : ℕ := field block (16 + 4 * x + y) (16 + 4 * x + y)

def lsb : ℕ := field block (4 * x + y) (4 * x + y)

/-- Whether the pixel is in the second half: on the right, or below if the flip bit is set. -/
def inSecond : Bool := if field block 32 32 = 1 then 2 ≤ y else 2 ≤ x

def individualBase (second : Bool) : Colour :=
  if second then
    ⟨extend4 (field block 59 56), extend4 (field block 51 48), extend4 (field block 43 40)⟩
  else ⟨extend4 (field block 63 60), extend4 (field block 55 52), extend4 (field block 47 44)⟩

def differentialBase (second : Bool) : Colour :=
  if second then
    ⟨extend5 (sum5 block 63).toNat, extend5 (sum5 block 55).toNat, extend5 (sum5 block 47).toNat⟩
  else ⟨extend5 (field block 63 59), extend5 (field block 55 51), extend5 (field block 47 43)⟩

def codeword (second : Bool) : ℕ := if second then field block 36 34 else field block 39 37

/-- Without transparency, or with the opaque bit. -/
def opaqueBit : Bool := isPunchthroughAlpha = false ∨ field block 33 33 = 1

def shaded (base : Bool → Colour) : Colour := (base (inSecond block x y)).add
    (modifier (codeword block (inSecond block x y)) (msb block x y) (lsb block x y)
      (opaqueBit block isPunchthroughAlpha))

def paintT : List Colour :=
  let first : Colour := ⟨extend4 (4 * field block 60 59 + field block 57 56), extend4 (field block 55 52),
    extend4 (field block 51 48)⟩
  let second : Colour := ⟨extend4 (field block 47 44), extend4 (field block 43 40), extend4 (field block 39 36)⟩
  let d := distances.getD (2 * field block 35 34 + field block 32 32) 0
  [first, second.add d, second, second.add (-d)]

def paintH : List Colour :=
  let first : Colour := ⟨extend4 (field block 62 59), extend4 (2 * field block 58 56 + field block 52 52),
    extend4 (8 * field block 51 51 + field block 49 47)⟩
  let second : Colour := ⟨extend4 (field block 46 43), extend4 (field block 42 39), extend4 (field block 38 35)⟩
  let order :=
    if second.r * 65536 + second.g * 256 + second.b ≤ first.r * 65536 + first.g * 256 + first.b then 1 else 0
  let d := distances.getD (4 * field block 34 34 + 2 * field block 32 32 + order) 0
  [first.add d, first.add (-d), second.add d, second.add (-d)]

def painted (paint : List Colour) : Colour := paint.getD (2 * msb block x y + lsb block x y) ⟨0, 0, 0⟩

/-- One channel of a planar block. -/
def planarChannel (origin horizontal vertical : ℤ) : ℤ :=
  clamp255 ((x * (horizontal - origin) + y * (vertical - origin) + 4 * origin + 2) / 4)

def planar : Colour where
  r := planarChannel x y (extend6 (field block 62 57)) (extend6 (2 * field block 38 34 + field block 32 32))
    (extend6 (field block 18 13))
  g := planarChannel x y (extend7 (64 * field block 56 56 + field block 54 49)) (extend7 (field block 31 25))
    (extend7 (field block 12 6))
  b := planarChannel x y
    (extend6 (32 * field block 48 48 + 8 * field block 44 43 + field block 41 39)) (extend6 (field block 24 19))
    (extend6 (field block 5 0))

/-- The colour of a pixel, if it is not transparent. -/
def pixel : Option Colour :=
  let colour : Colour := match mode block isPunchthroughAlpha with
    | .individual => shaded block isPunchthroughAlpha x y (individualBase block)
    | .differential => shaded block isPunchthroughAlpha x y (differentialBase block)
    | .T => painted block x y (paintT block)
    | .H => painted block x y (paintH block)
    | .planar => planar block x y
  if opaqueBit block isPunchthroughAlpha = false ∧ mode block isPunchthroughAlpha ≠ .planar ∧
    msb block x y = 1 ∧ lsb block x y = 0 then none else some colour

end Pixels

end Layout

/-! ## Colours -/

def kRGBModifierTable : List ℤ := [2, 8, -2, -8, 5, 17, -5, -17, 9, 29, -9, -29, 13, 42, -13, -42, 18, 60, -18, -60,
   24, 80, -24, -80,
   33, 106, -33, -106,
   47, 183, -47, -183]

def kRGBOpaqueModifierTable : List ℤ := [0, 8, 0, -8, 0, 17, 0, -17, 0, 29, 0, -29, 0, 42, 0, -42, 0, 60, 0, -60,
   0, 80, 0, -80,
   0, 106, 0, -106,
   0, 183, 0, -183]

def kAlphaModifierTable : List ℤ := [-3, -6, -9, -15, 2, 5, 8, 14, -3, -7, -10, -13, 2, 6, 9, 12,
   -2, -5, -8, -13, 1, 4, 7, 12,
   -2, -4, -6, -13, 1, 3, 5, 12,
   -3, -6, -8, -12, 2, 5, 7, 11,
   -3, -7, -9, -11, 2, 6, 8, 10,
   -4, -7, -8, -11, 3, 6, 7, 10,
   -3, -5, -8, -11, 2, 4, 7, 10,
   -2, -6, -8, -10, 1, 5, 7, 9,
   -2, -5, -8, -10, 1, 4, 7, 9,
   -2, -4, -8, -10, 1, 3, 7, 9,
   -2, -5, -7, -10, 1, 4, 6, 9,
   -3, -4, -7, -10, 2, 3, 6, 9,
   -1, -2, -3, -10, 0, 1, 2, 9,
   -4, -6, -8, -9, 3, 5, 7, 8,
   -3, -5, -7, -9, 2, 4, 6, 8]

def kLookup : List ℤ := [0, 1, 2, 3, -4, -3, -2, -1]

def clamp (x : ℤ) : ℤ := if 0 ≤ x then (if x < 255 then x else 255) else 0

def clamp2047 (x : ℤ) : ℤ := if 0 ≤ x then (if x < 2047 then x else 2047) else 0

def clampSigned1023 (x : ℤ) : ℤ := if -1023 ≤ x then (if x < 1023 then x else 1023) else -1023

def convert4To8 (b : ℕ) : ℕ :=
  let c := b &&& 0xf
  c <<< 4 ||| c

def convert5To8 (b : ℕ) : ℕ :=
  let c := b &&& 0x1f
  c <<< 3 ||| c >>> 2

def convert6To8 (b : ℕ) : ℕ :=
  let c := b &&& 0x3f
  c <<< 2 ||| c >>> 4

def convert7To8 (b : ℕ) : ℕ :=
  let c := b &&& 0x7f
  c <<< 1 ||| c >>> 6

def convertDiff (base diff : ℕ) : ℕ := convert5To8 (((0x1f &&& base : ℕ) : ℤ) + kLookup.getD (0x7 &&& diff) 0).toNat

def isOverflowed (base diff : ℕ) : Bool :=
  let val := ((0x1f &&& base : ℕ) : ℤ) + kLookup.getD (0x7 &&& diff) 0
  val < 0 ∨ 32 ≤ val

/-! ## Blocks of colours -/

def toByte (v : ℤ) : UInt8 := UInt8.ofInt v

/-- The number of bytes of a pixel. -/
def channels (isPunchthroughAlpha : Bool) : ℕ := if isPunchthroughAlpha then 4 else 3

/-- What is written for a pixel that is not transparent. -/
def pixelBytes (isPunchthroughAlpha : Bool) (r g b : ℤ) : List UInt8 :=
  [toByte r, toByte g, toByte b] ++ if isPunchthroughAlpha then [255] else []

/-- Column and row of the i-th pixel of a half. -/
def subblockPixel (second flipped : Bool) (i : ℕ) : ℕ × ℕ :=
  let baseX := if second ∧ flipped = false then 2 else 0
  let baseY := if second ∧ flipped then 2 else 0
  if flipped then (baseX + i >>> 1, baseY + (i &&& 1)) else (baseX + i >>> 2, baseY + (i &&& 3))

def decode_subblock (pOut : ℤ) (r g b : ℕ) (table : List ℤ) (low : ℕ)
    (second flipped isPunchthroughAlpha isOpaque : Bool) : List Store :=
  (List.range 8).map fun i ↦
    let (x, y) := subblockPixel second flipped i
    let k := y + x * 4
    let msb := low >>> (k + 15) &&& 2
    let lsb := low >>> k &&& 1
    let q := pOut + channels isPunchthroughAlpha * (x + 4 * y : ℕ)
    if isPunchthroughAlpha ∧ isOpaque = false ∧ msb ≠ 0 ∧ lsb = 0 then (q, List.replicate 4 0)
    else
      let delta := table.getD (lsb ||| msb) 0
      (q, pixelBytes isPunchthroughAlpha (clamp (r + delta)) (clamp (g + delta)) (clamp (b + delta)))

/-- The pointer goes on with every pixel. -/
def etc2_T_H_index (clrTable : List ℤ) (low : ℕ) (isPunchthroughAlpha isOpaque : Bool) (pOut : ℤ) : List Store :=
  consecutive pOut ((List.range 4).flatMap fun y ↦ (List.range 4).map fun x ↦
    let k := y + x * 4
    let msb := low >>> (k + 15) &&& 2
    let lsb := low >>> k &&& 1
    if isPunchthroughAlpha ∧ isOpaque = false ∧ msb ≠ 0 ∧ lsb = 0 then List.replicate 4 0
    else
      let offset := lsb ||| msb
      pixelBytes isPunchthroughAlpha (clrTable.getD (offset * 3) 0) (clrTable.getD (offset * 3 + 1) 0)
        (clrTable.getD (offset * 3 + 2) 0))

def LUT : List ℤ := [3, 6, 11, 16, 23, 32, 41, 64]

def etc2_decode_block_T (high low : ℕ) (isPunchthroughAlpha isOpaque : Bool) (pOut : ℤ) : List Store :=
  let r1 := convert4To8 ((high >>> 27 &&& 3) <<< 2 ||| (high >>> 24 &&& 3))
  let g1 := convert4To8 (high >>> 20)
  let b1 := convert4To8 (high >>> 16)
  let r2 := convert4To8 (high >>> 12)
  let g2 := convert4To8 (high >>> 8)
  let b2 := convert4To8 (high >>> 4)
  let intenseIdx := (high >>> 2 &&& 3) <<< 1 ||| (high &&& 1)
  let intenseMod := LUT.getD intenseIdx 0
  let clrTable : List ℤ := [r1, g1, b1, clamp (r2 + intenseMod), clamp (g2 + intenseMod), clamp (b2 + intenseMod),
     r2, g2, b2,
     clamp (r2 - intenseMod), clamp (g2 - intenseMod), clamp (b2 - intenseMod)]
  etc2_T_H_index clrTable low isPunchthroughAlpha isOpaque pOut

def etc2_decode_block_H (high low : ℕ) (isPunchthroughAlpha isOpaque : Bool) (pOut : ℤ) : List Store :=
  let r1 := convert4To8 (high >>> 27)
  let g1 := convert4To8 ((high >>> 24) <<< 1 ||| (high >>> 20 &&& 1))
  let b1 := convert4To8 ((high >>> 19) <<< 3 ||| (high >>> 15 &&& 7))
  let r2 := convert4To8 (high >>> 11)
  let g2 := convert4To8 (high >>> 7)
  let b2 := convert4To8 (high >>> 3)
  let intenseIdx := high &&& 4
  let intenseIdx := intenseIdx ||| (high &&& 1) <<< 1
  let intenseIdx := intenseIdx |||
    if (r2 <<< 16 ||| g2 <<< 8 ||| b2) ≤ (r1 <<< 16 ||| g1 <<< 8 ||| b1) then 1 else 0
  let intenseMod := LUT.getD intenseIdx 0
  let clrTable : List ℤ := [clamp (r1 + intenseMod), clamp (g1 + intenseMod), clamp (b1 + intenseMod),
     clamp (r1 - intenseMod), clamp (g1 - intenseMod), clamp (b1 - intenseMod),
     clamp (r2 + intenseMod), clamp (g2 + intenseMod), clamp (b2 + intenseMod),
     clamp (r2 - intenseMod), clamp (g2 - intenseMod), clamp (b2 - intenseMod)]
  etc2_T_H_index clrTable low isPunchthroughAlpha isOpaque pOut

def etc2_decode_block_P (high low : ℕ) (isPunchthroughAlpha : Bool) (pOut : ℤ) : List Store :=
  let data := high <<< 32 ||| low
  let ro := convert6To8 (data >>> 57)
  let go := convert7To8 ((data >>> 56) <<< 6 ||| (data >>> 49 &&& 63))
  let bo := convert6To8 ((data >>> 48) <<< 5 ||| (data >>> 43 &&& 3) <<< 3 ||| (data >>> 39 &&& 7))
  let rh := convert6To8 ((data >>> 34) <<< 1 ||| (data >>> 32 &&& 1))
  let gh := convert7To8 (data >>> 25)
  let bh := convert6To8 (data >>> 19)
  let rv := convert6To8 (data >>> 13)
  let gv := convert7To8 (data >>> 6)
  let bv := convert6To8 data
  consecutive pOut ((List.range 16).map fun i ↦
    let y : ℤ := (i >>> 2 : ℕ)
    let x : ℤ := (i &&& 3 : ℕ)
    pixelBytes isPunchthroughAlpha (clamp ((x * (rh - ro) + y * (rv - ro) + 4 * ro + 2) >>> (2 : ℕ)))
      (clamp ((x * (gh - go) + y * (gv - go) + 4 * go + 2) >>> (2 : ℕ)))
      (clamp ((x * (bh - bo) + y * (bv - bo) + 4 * bo + 2) >>> (2 : ℕ))))

/-- The words of a block. -/
def bigEndian (pIn : ℕ → UInt8) (offset : ℕ) : ℕ :=
  (pIn offset).toNat <<< 24 ||| (pIn (offset + 1)).toNat <<< 16 ||| (pIn (offset + 2)).toNat <<< 8 |||
    (pIn (offset + 3)).toNat

def etc2_decode_rgb_block (pIn : ℕ → UInt8) (isPunchthroughAlpha : Bool) (pOut : ℤ) : List Store :=
  let high := bigEndian pIn 0
  let low := bigEndian pIn 4
  let isOpaque : Bool := high >>> 1 &&& 1 ≠ 0
  let subblocks (r1 g1 b1 r2 g2 b2 : ℕ) : List Store :=
    let tableIndexA := 7 &&& high >>> 5
    let tableIndexB := 7 &&& high >>> 2
    let rgbModifierTable :=
      if isOpaque ∨ isPunchthroughAlpha = false then kRGBModifierTable else kRGBOpaqueModifierTable
    let tableA := rgbModifierTable.drop (tableIndexA * 4)
    let tableB := rgbModifierTable.drop (tableIndexB * 4)
    let flipped : Bool := high &&& 1 ≠ 0
    decode_subblock pOut r1 g1 b1 tableA low false flipped isPunchthroughAlpha isOpaque ++
      decode_subblock pOut r2 g2 b2 tableB low true flipped isPunchthroughAlpha isOpaque
  if isPunchthroughAlpha ∨ high &&& 2 ≠ 0 then
    let rBase := high >>> 27
    let gBase := high >>> 19
    let bBase := high >>> 11
    if isOverflowed rBase (high >>> 24) then etc2_decode_block_T high low isPunchthroughAlpha isOpaque pOut
    else if isOverflowed gBase (high >>> 16) then etc2_decode_block_H high low isPunchthroughAlpha isOpaque pOut
    else if isOverflowed bBase (high >>> 8) then etc2_decode_block_P high low isPunchthroughAlpha pOut
    else
      subblocks (convert5To8 rBase) (convert5To8 gBase) (convert5To8 bBase) (convertDiff rBase (high >>> 24))
        (convertDiff gBase (high >>> 16)) (convertDiff bBase (high >>> 8))
  else
    subblocks (convert4To8 (high >>> 28)) (convert4To8 (high >>> 20)) (convert4To8 (high >>> 12))
      (convert4To8 (high >>> 24)) (convert4To8 (high >>> 16)) (convert4To8 (high >>> 8))

/-! ## Words and fields -/

section Words

variable {pIn : ℕ → UInt8} {block high low x y k : ℕ}

variable (b : ℕ)

section

variable (pIn : ℕ → UInt8)

theorem bigEndian_eq (offset : ℕ) :
    bigEndian pIn offset = 256 * (256 * (256 * (pIn offset).toNat + (pIn (offset + 1)).toNat) +
      (pIn (offset + 2)).toNat) + (pIn (offset + 3)).toNat := by
  have h1 := (pIn (offset + 1)).toNat_lt
  have h2 := (pIn (offset + 2)).toNat_lt
  have h3 := (pIn (offset + 3)).toNat_lt
  simp only [bigEndian, Nat.shiftLeft_eq]
  have hfirst : (pIn offset).toNat * 2 ^ 24 ||| (pIn (offset + 1)).toNat * 2 ^ 16 = _ :=
    or_eq_add (k := 24) (by omega) (by omega)
  have hsecond : (pIn offset).toNat * 2 ^ 24 + (pIn (offset + 1)).toNat * 2 ^ 16 |||
      (pIn (offset + 2)).toNat * 2 ^ 8 = _ :=
    or_eq_add (k := 16) (by omega) (by omega)
  rw [hfirst, hsecond, or_eq_add (k := 8) (by omega) (by omega)]
  omega

theorem bigEndian_zero : bigEndian pIn 0 = Layout.int64bit pIn / 2 ^ 32 := by
  have h4 := (pIn 4).toNat_lt
  have h5 := (pIn 5).toNat_lt
  have h6 := (pIn 6).toNat_lt
  have h7 := (pIn 7).toNat_lt
  rw [bigEndian_eq, Layout.int64bit]
  simp only [Nat.reduceAdd]
  omega

theorem bigEndian_four : bigEndian pIn 4 = Layout.int64bit pIn % 2 ^ 32 := by
  have h4 := (pIn 4).toNat_lt
  have h5 := (pIn 5).toNat_lt
  have h6 := (pIn 6).toNat_lt
  have h7 := (pIn 7).toNat_lt
  rw [bigEndian_eq, Layout.int64bit]
  simp only [Nat.reduceAdd]
  omega

theorem int64bit_lt : Layout.int64bit pIn < 2 ^ 64 := by
  have h0 := (pIn 0).toNat_lt
  have h1 := (pIn 1).toNat_lt
  have h2 := (pIn 2).toNat_lt
  have h3 := (pIn 3).toNat_lt
  have h4 := (pIn 4).toNat_lt
  have h5 := (pIn 5).toNat_lt
  have h6 := (pIn 6).toNat_lt
  have h7 := (pIn 7).toNat_lt
  rw [Layout.int64bit]
  omega

end

/-- A field in the upper word. -/
theorem high_shiftRight_mod (block low width : ℕ) :
    (block / 2 ^ 32) >>> low % 2 ^ width = block / 2 ^ (32 + low) % 2 ^ width := by
  rw [Nat.shiftRight_eq_div_pow, Nat.div_div_eq_div_mul, pow_add]

theorem high_field (high : ℕ) (hfield : high = low + width - 1) (hwidth : 0 < width) :
    (block / 2 ^ 32) >>> low % 2 ^ width = field block (32 + high) (32 + low) := by
  rw [high_shiftRight_mod, field]
  congr 3
  omega

/-- One bit of the lower word. -/
theorem low_bit (hk : k < 32) : (block % 2 ^ 32) >>> k % 2 = field block k k := by
  rw [field, Nat.sub_self, zero_add, pow_one, Nat.shiftRight_eq_div_pow, ← Nat.toNat_testBit, ← Nat.toNat_testBit,
    Nat.testBit_mod_two_pow, decide_eq_true hk, Bool.true_and]

theorem lsb_eq (hx : x < 4) (hy : y < 4) : (block % 2 ^ 32) >>> (y + x * 4) &&& 1 = Layout.lsb block x y := by
  rw [Nat.and_one_is_mod, low_bit (by omega), Layout.lsb, show y + x * 4 = 4 * x + y by ring]

/-- The code leaves the upper index bit where 2 stands. -/
theorem msb_eq (hx : x < 4) (hy : y < 4) :
    (block % 2 ^ 32) >>> (y + x * 4 + 15) &&& 2 = 2 * Layout.msb block x y := by
  have hbit : (block % 2 ^ 32) >>> (y + x * 4 + 15 + 1) % 2 = _ := low_bit (by omega)
  rw [and_bit (m := 2) (k := 1) rfl, ← Nat.shiftRight_add, hbit, Layout.msb, pow_one,
    show y + x * 4 + 15 + 1 = 16 + 4 * x + y by ring]

theorem msb_lt (block x y : ℕ) : Layout.msb block x y < 2 := by
  have hlt := field_lt block (16 + 4 * x + y) (16 + 4 * x + y)
  rwa [Nat.sub_self] at hlt

theorem lsb_lt (block x y : ℕ) : Layout.lsb block x y < 2 := by
  have hlt := field_lt block (4 * x + y) (4 * x + y)
  rwa [Nat.sub_self] at hlt

theorem lsb_or_msb {lsb msb : ℕ} (hlsb : lsb < 2) : lsb ||| 2 * msb = 2 * msb + lsb := by
  rw [Nat.or_comm, or_eq_add (k := 1) (Dvd.intro _ (by rw [pow_one])) hlsb]

/-! ## Colours -/

theorem convert4To8_eq : convert4To8 b = Layout.extend4 (b % 16) := by
  have hmask : b &&& 0xf = b % 2 ^ 4 := and_mask rfl
  rw [convert4To8, hmask, shiftLeft_or (Nat.mod_lt _ (by decide)), Layout.extend4, mul_comm]
  rfl

theorem convert5To8_eq : convert5To8 b = Layout.extend5 (b % 32) := by
  have hmask : b &&& 0x1f = b % 2 ^ 5 := and_mask rfl
  rw [convert5To8, hmask, Nat.shiftRight_eq_div_pow, shiftLeft_or (by omega), Layout.extend5, mul_comm]
  rfl

theorem convert6To8_eq : convert6To8 b = Layout.extend6 (b % 64) := by
  have hmask : b &&& 0x3f = b % 2 ^ 6 := and_mask rfl
  rw [convert6To8, hmask, Nat.shiftRight_eq_div_pow, shiftLeft_or (by omega), Layout.extend6, mul_comm]
  rfl

theorem convert7To8_eq : convert7To8 b = Layout.extend7 (b % 128) := by
  have hmask : b &&& 0x7f = b % 2 ^ 7 := and_mask rfl
  rw [convert7To8, hmask, Nat.shiftRight_eq_div_pow, shiftLeft_or (by omega), Layout.extend7, mul_comm]
  rfl

theorem clamp_eq (v : ℤ) : clamp v = Layout.clamp255 v := by
  rw [clamp, Layout.clamp255]
  split_ifs <;> omega

theorem kLookup_eq : ∀ v < 8, kLookup.getD v 0 = Layout.signed3 v := by decide

/-- The sum that the code looks at is the differential colour. -/
theorem sum_eq (block low : ℕ) (hlow : 3 ≤ low) :
    ((0x1f &&& (block / 2 ^ 32) >>> low : ℕ) : ℤ) + kLookup.getD (0x7 &&& (block / 2 ^ 32) >>> (low - 3)) 0 =
      Layout.sum5 block (36 + low) := by
  have hbase : 0x1f &&& (block / 2 ^ 32) >>> low = field block (36 + low) (32 + low) := by
    rw [Nat.and_comm, and_mask (m := 0x1f) (k := 5) rfl, high_field (low + 4) (by omega) (by decide)]
    congr 1
    omega
  have hdiff : 0x7 &&& (block / 2 ^ 32) >>> (low - 3) = field block (31 + low) (29 + low) := by
    rw [Nat.and_comm, and_mask (m := 0x7) (k := 3) rfl, high_field (low - 1) (by omega) (by decide)]
    congr 1
    · omega
    · omega
  have hlt : field block (31 + low) (29 + low) < 8 := by
    have hlt := field_lt block (31 + low) (29 + low)
    rwa [show 31 + low - (29 + low) + 1 = 3 by omega] at hlt
  rw [hbase, hdiff, kLookup_eq _ hlt, Layout.sum5, show 36 + low - 4 = 32 + low by omega,
    show 36 + low - 5 = 31 + low by omega, show 36 + low - 7 = 29 + low by omega]

theorem isOverflowed_eq (block low : ℕ) (hlow : 3 ≤ low) :
    isOverflowed ((block / 2 ^ 32) >>> low) ((block / 2 ^ 32) >>> (low - 3)) = Layout.overflows block (36 + low) := by
  rw [isOverflowed, sum_eq block low hlow, Layout.overflows]
  congr 2

theorem convertDiff_eq (block low : ℕ) (hlow : 3 ≤ low) (h : Layout.overflows block (36 + low) = false) :
    convertDiff ((block / 2 ^ 32) >>> low) ((block / 2 ^ 32) >>> (low - 3)) =
      Layout.extend5 (Layout.sum5 block (36 + low)).toNat := by
  rw [Layout.overflows, decide_eq_false_iff_not] at h
  rw [convertDiff, sum_eq block low hlow, convert5To8_eq, Nat.mod_eq_of_lt (by omega)]

end Words

/-! ## Pixels -/

/-- The bytes of a pixel. -/
def colourBytes (isPunchthroughAlpha : Bool) : Option Layout.Colour → List UInt8
  | none => List.replicate 4 0
  | some colour => pixelBytes isPunchthroughAlpha colour.r colour.g colour.b

/-- The stores of all pixels, row by row. -/
def pixelStores (pOut : ℤ) (isPunchthroughAlpha : Bool) (colour : ℕ → ℕ → Option Layout.Colour) : List Store :=
  (List.range 16).map fun k : ℕ ↦
    (pOut + channels isPunchthroughAlpha * k, colourBytes isPunchthroughAlpha (colour (k % 4) (k / 4)))

/-- A colour where the index does not mean transparency. -/
def unlessTransparent (block : ℕ) (isPunchthroughAlpha : Bool) (colour : ℕ → ℕ → Layout.Colour) (x y : ℕ) :
    Option Layout.Colour :=
  if Layout.opaqueBit block isPunchthroughAlpha = false ∧ Layout.msb block x y = 1 ∧ Layout.lsb block x y = 0 then
    none
  else some (colour x y)

section Pixels

variable {block high low x y : ℕ} {isPunchthroughAlpha isOpaque : Bool} {pOut : ℤ}

theorem length_pixelBytes (isPunchthroughAlpha : Bool) (r g b : ℤ) :
    (pixelBytes isPunchthroughAlpha r g b).length = channels isPunchthroughAlpha := by
  cases isPunchthroughAlpha <;> rfl

theorem length_unlessTransparent (colour : ℕ → ℕ → Layout.Colour) :
    (colourBytes isPunchthroughAlpha (unlessTransparent block isPunchthroughAlpha colour x y)).length =
      channels isPunchthroughAlpha := by
  rw [unlessTransparent]
  split_ifs with h
  · cases isPunchthroughAlpha with
    | true => rfl
    | false => exact absurd h.1 (by simp [Layout.opaqueBit])
  · exact length_pixelBytes _ _ _ _

/-- The opaque bit of the code. -/
theorem isOpaque_eq (block : ℕ) : ((block / 2 ^ 32) >>> 1 &&& 1 ≠ 0) ↔ field block 33 33 = 1 := by
  have hbit : (block / 2 ^ 32) >>> 1 % 2 ^ 1 = field block (32 + 1) (32 + 1) := high_field _ (by decide) (by decide)
  rw [pow_one] at hbit
  rw [Nat.and_one_is_mod, hbit]
  have hlt := field_lt block 33 33
  simp only [Nat.reduceAdd, Nat.sub_self, pow_one] at hlt ⊢
  omega

/-- The code's test for transparency. -/
theorem transparent_iff (hx : x < 4) (hy : y < 4) (hsolid : isOpaque = true ↔ field block 33 33 = 1) :
    (isPunchthroughAlpha = true ∧ isOpaque = false ∧ (block % 2 ^ 32) >>> (y + x * 4 + 15) &&& 2 ≠ 0 ∧
        (block % 2 ^ 32) >>> (y + x * 4) &&& 1 = 0) ↔
      Layout.opaqueBit block isPunchthroughAlpha = false ∧ Layout.msb block x y = 1 ∧ Layout.lsb block x y = 0 := by
  have hmsb := msb_lt block x y
  have hone : 2 * Layout.msb block x y ≠ 0 ↔ Layout.msb block x y = 1 := by omega
  rw [msb_eq hx hy, lsb_eq hx hy, hone, Layout.opaqueBit, decide_eq_false_iff_not, not_or, ← hsolid,
    Bool.not_eq_false, Bool.not_eq_true, and_assoc]

theorem etc2_T_H_index_eq (paint : List Layout.Colour) (hlength : paint.length = 4)
    (hsolid : isOpaque = true ↔ field block 33 33 = 1) :
    etc2_T_H_index (paint.flatMap fun colour ↦ [colour.r, colour.g, colour.b]) (block % 2 ^ 32) isPunchthroughAlpha
      isOpaque pOut = pixelStores pOut isPunchthroughAlpha
        (unlessTransparent block isPunchthroughAlpha fun x y ↦ Layout.painted block x y paint) := by
  have hpixels : ∀ f : ℕ → ℕ → List UInt8, ((List.range 4).flatMap fun y ↦ (List.range 4).map fun x ↦ f x y) =
      (List.range 16).map fun k ↦ f (k % 4) (k / 4) := fun _ ↦ rfl
  rw [etc2_T_H_index, hpixels, pixelStores, ← consecutive_map_range fun k _ ↦ length_unlessTransparent _]
  congr 1
  refine List.map_congr_left fun k hk ↦ ?_
  have hx : k % 4 < 4 := Nat.mod_lt _ (by decide)
  have hy : k / 4 < 4 := by
    have hlt := List.mem_range.mp hk
    omega
  have hlsb := lsb_lt block (k % 4) (k / 4)
  have hmsb := msb_lt block (k % 4) (k / 4)
  simp only [transparent_iff hx hy hsolid, unlessTransparent]
  split_ifs with htransparent
  · rfl
  · rw [msb_eq hx hy, lsb_eq hx hy, lsb_or_msb hlsb, colourBytes, Layout.painted]
    match paint, hlength with
    | [first, second, third, fourth], _ =>
      obtain hmsb | hmsb : Layout.msb block (k % 4) (k / 4) = 0 ∨ Layout.msb block (k % 4) (k / 4) = 1 := by omega
      all_goals
        obtain hlsb | hlsb : Layout.lsb block (k % 4) (k / 4) = 0 ∨ Layout.lsb block (k % 4) (k / 4) = 1 := by omega
        all_goals
          rw [hmsb, hlsb]
          rfl

/-! ## Modes -/

/-- A field of the upper word, with a mask. -/
theorem field_high (high : ℕ) {low' mask : ℕ} (hmask : mask = 2 ^ (high + 1 - low') - 1) (hlow : low' = 32 + low)
    (hle : low' ≤ high) : (block / 2 ^ 32) >>> low &&& mask = field block high low' := by
  rw [and_mask hmask, high_field (high - 32) (by omega) (by omega), hlow]
  congr 1
  omega

/-- A field of the upper word, with what is above it. -/
theorem field_high_mod (high : ℕ) {low' modulus : ℕ} (hmodulus : modulus = 2 ^ (high + 1 - low'))
    (hlow : low' = 32 + low)
    (hle : low' ≤ high) : (block / 2 ^ 32) >>> low % modulus = field block high low' := by
  rw [hmodulus, high_field (high - 32) (by omega) (by omega), hlow]
  congr 1
  omega

theorem convert4To8_high (block low : ℕ) :
    convert4To8 ((block / 2 ^ 32) >>> low) = Layout.extend4 (field block (35 + low) (32 + low)) := by
  rw [convert4To8_eq, field_high_mod (35 + low) _ rfl (by omega)]
  rw [show 35 + low + 1 - (32 + low) = 4 by omega]
  rfl

theorem convert5To8_high (block low : ℕ) :
    convert5To8 ((block / 2 ^ 32) >>> low) = Layout.extend5 (field block (36 + low) (32 + low)) := by
  rw [convert5To8_eq, field_high_mod (36 + low) _ rfl (by omega)]
  rw [show 36 + low + 1 - (32 + low) = 5 by omega]
  rfl

theorem flip_eq (block : ℕ) : block / 2 ^ 32 &&& 1 = field block 32 32 := by
  have hone : (block / 2 ^ 32) >>> 0 &&& 1 = field block 32 32 := field_high _ rfl rfl le_rfl
  rwa [Nat.shiftRight_zero] at hone

theorem etc2_decode_block_T_eq (hsolid : isOpaque = true ↔ field block 33 33 = 1) :
    etc2_decode_block_T (block / 2 ^ 32) (block % 2 ^ 32) isPunchthroughAlpha isOpaque pOut =
      pixelStores pOut isPunchthroughAlpha
        (unlessTransparent block isPunchthroughAlpha fun x y ↦ Layout.painted block x y (Layout.paintT block)) := by
  have hr1 : convert4To8 (((block / 2 ^ 32) >>> 27 &&& 3) <<< 2 ||| ((block / 2 ^ 32) >>> 24 &&& 3)) =
      Layout.extend4 (4 * field block 60 59 + field block 57 56) := by
    have hupper : (block / 2 ^ 32) >>> 27 &&& 3 = field block 60 59 := field_high _ rfl rfl (by decide)
    have hlower : (block / 2 ^ 32) >>> 24 &&& 3 = field block 57 56 := field_high _ rfl rfl (by decide)
    have hupperLt := field_lt block 60 59
    have hlowerLt := field_lt block 57 56
    rw [hupper, hlower, shiftLeft_or hlowerLt, convert4To8_eq, Nat.mod_eq_of_lt (by omega), mul_comm]
    rfl
  have hidx : ((block / 2 ^ 32) >>> 2 &&& 3) <<< 1 ||| (block / 2 ^ 32 &&& 1) =
      2 * field block 35 34 + field block 32 32 := by
    have hupper : (block / 2 ^ 32) >>> 2 &&& 3 = field block 35 34 := field_high _ rfl rfl (by decide)
    rw [hupper, flip_eq, shiftLeft_or (field_lt block 32 32), mul_comm]
    rfl
  rw [← etc2_T_H_index_eq (Layout.paintT block) rfl hsolid]
  simp only [etc2_decode_block_T, hr1, hidx, convert4To8_high, clamp_eq, sub_eq_add_neg]
  rfl

theorem colourNumber_eq {r g b : ℕ} (hg : g < 256) (hb : b < 256) :
    r <<< 16 ||| g <<< 8 ||| b = r * 65536 + g * 256 + b := by
  have hor : r * 2 ^ 16 ||| g * 2 ^ 8 = r * 2 ^ 16 + g * 2 ^ 8 :=
    or_eq_add (k := 16) (Dvd.intro_left _ rfl) (by omega)
  rw [Nat.shiftLeft_eq, Nat.shiftLeft_eq, hor, or_eq_add (k := 8) (by omega) (by omega)]
  omega

theorem etc2_decode_block_H_eq (hsolid : isOpaque = true ↔ field block 33 33 = 1) :
    etc2_decode_block_H (block / 2 ^ 32) (block % 2 ^ 32) isPunchthroughAlpha isOpaque pOut =
      pixelStores pOut isPunchthroughAlpha
        (unlessTransparent block isPunchthroughAlpha fun x y ↦ Layout.painted block x y (Layout.paintH block)) := by
  have hg1 : convert4To8 (((block / 2 ^ 32) >>> 24) <<< 1 ||| ((block / 2 ^ 32) >>> 20 &&& 1)) =
      Layout.extend4 (2 * field block 58 56 + field block 52 52) := by
    have hupper : (block / 2 ^ 32) >>> 24 % 8 = field block 58 56 := field_high_mod _ rfl rfl (by decide)
    have hlower : (block / 2 ^ 32) >>> 20 &&& 1 = field block 52 52 := field_high _ rfl rfl (by decide)
    have hlowerLt := field_lt block 52 52
    rw [hlower, shiftLeft_or hlowerLt, convert4To8_eq, ← hupper]
    congr 1
    omega
  have hb1 : convert4To8 (((block / 2 ^ 32) >>> 19) <<< 3 ||| ((block / 2 ^ 32) >>> 15 &&& 7)) =
      Layout.extend4 (8 * field block 51 51 + field block 49 47) := by
    have hupper : (block / 2 ^ 32) >>> 19 % 2 = field block 51 51 := field_high_mod _ rfl rfl (by decide)
    have hlower : (block / 2 ^ 32) >>> 15 &&& 7 = field block 49 47 := field_high _ rfl rfl (by decide)
    have hlowerLt := field_lt block 49 47
    rw [hlower, shiftLeft_or hlowerLt, convert4To8_eq, ← hupper]
    congr 1
    omega
  have hidx : ∀ order < 2, (block / 2 ^ 32 &&& 4 ||| (block / 2 ^ 32 &&& 1) <<< 1) ||| order =
      4 * field block 34 34 + 2 * field block 32 32 + order := by
    intro order horder
    have hupper : (block / 2 ^ 32) >>> 2 % 2 = field block 34 34 := field_high_mod _ rfl rfl (by decide)
    have hlowerLt : field block 32 32 < 2 := field_lt block 32 32
    have hor : 2 ^ 2 * field block 34 34 ||| field block 32 32 * 2 =
        2 ^ 2 * field block 34 34 + field block 32 32 * 2 :=
      or_eq_add (k := 2) (Dvd.intro _ rfl) (by omega)
    rw [and_bit (m := 4) (k := 2) rfl, hupper, flip_eq, Nat.shiftLeft_eq, pow_one, hor,
      or_eq_add (k := 1) (by omega) (by omega)]
    omega
  have hdistance : ∀ r g b r' g' b' : ℕ, g < 256 → b < 256 → g' < 256 → b' < 256 →
      LUT.getD ((block / 2 ^ 32 &&& 4 ||| (block / 2 ^ 32 &&& 1) <<< 1) |||
        if (r' <<< 16 ||| g' <<< 8 ||| b') ≤ (r <<< 16 ||| g <<< 8 ||| b) then 1 else 0) 0 =
      Layout.distances.getD (4 * field block 34 34 + 2 * field block 32 32 +
        if (r' : ℤ) * 65536 + g' * 256 + b' ≤ (r : ℤ) * 65536 + g * 256 + b then 1 else 0) 0 := by
    intro r g b r' g' b' hg hb hg' hb'
    have hsame : (r' <<< 16 ||| g' <<< 8 ||| b') ≤ (r <<< 16 ||| g <<< 8 ||| b) ↔
        (r' : ℤ) * 65536 + g' * 256 + b' ≤ (r : ℤ) * 65536 + g * 256 + b := by
      rw [colourNumber_eq hg hb, colourNumber_eq hg' hb']
      exact_mod_cast Iff.rfl
    rw [hidx _ (by split_ifs <;> decide)]
    simp only [hsame]
    rfl
  have hlt : ∀ v < 16, Layout.extend4 v < 256 := by decide
  have hg1Lt : 2 * field block 58 56 + field block 52 52 < 16 := by
    have hupper := field_lt block 58 56
    have hlower := field_lt block 52 52
    omega
  have hb1Lt : 8 * field block 51 51 + field block 49 47 < 16 := by
    have hupper := field_lt block 51 51
    have hlower := field_lt block 49 47
    omega
  rw [← etc2_T_H_index_eq (Layout.paintH block) rfl hsolid]
  simp only [etc2_decode_block_H, hg1, hb1, convert4To8_high, clamp_eq, sub_eq_add_neg,
    hdistance _ _ _ _ _ _ (hlt _ hg1Lt) (hlt _ hb1Lt) (hlt _ (field_lt block 42 39)) (hlt _ (field_lt block 38 35))]
  rfl

theorem shiftRight_mod (high : ℕ) {modulus : ℕ} (hmodulus : modulus = 2 ^ (high + 1 - low)) (hle : low ≤ high) :
    block >>> low % modulus = field block high low := by
  rw [hmodulus, Nat.shiftRight_eq_div_pow, field]
  congr 2
  omega

theorem etc2_decode_block_P_eq : etc2_decode_block_P (block / 2 ^ 32) (block % 2 ^ 32) isPunchthroughAlpha pOut =
      pixelStores pOut isPunchthroughAlpha fun x y ↦ some (Layout.planar block x y) := by
  have hdata : (block / 2 ^ 32) <<< 32 ||| block % 2 ^ 32 = block := by
    rw [shiftLeft_or (Nat.mod_lt _ (by decide)), Nat.div_add_mod']
  have h6 : ∀ low, convert6To8 (block >>> low) = Layout.extend6 (field block (5 + low) low) := by
    intro low
    rw [convert6To8_eq, shiftRight_mod (5 + low) (by rw [show 5 + low + 1 - low = 6 by omega]; rfl) (by omega)]
  have h7 : ∀ low, convert7To8 (block >>> low) = Layout.extend7 (field block (6 + low) low) := by
    intro low
    rw [convert7To8_eq, shiftRight_mod (6 + low) (by rw [show 6 + low + 1 - low = 7 by omega]; rfl) (by omega)]
  have h0 : convert6To8 block = Layout.extend6 (field block 5 0) := h6 0
  have hgo : convert7To8 ((block >>> 56) <<< 6 ||| (block >>> 49 &&& 63)) =
      Layout.extend7 (64 * field block 56 56 + field block 54 49) := by
    have hupper : block >>> 56 % 2 = field block 56 56 := shiftRight_mod _ rfl (by decide)
    have hlower : block >>> 49 &&& 63 = field block 54 49 := shiftRight_and_mask rfl
    have hlowerLt := field_lt block 54 49
    rw [hlower, shiftLeft_or hlowerLt, convert7To8_eq, ← hupper]
    congr 1
    omega
  have hbo : convert6To8 ((block >>> 48) <<< 5 ||| (block >>> 43 &&& 3) <<< 3 ||| (block >>> 39 &&& 7)) =
      Layout.extend6 (32 * field block 48 48 + 8 * field block 44 43 + field block 41 39) := by
    have hupper : block >>> 48 % 2 = field block 48 48 := shiftRight_mod _ rfl (by decide)
    have hmiddle : block >>> 43 &&& 3 = field block 44 43 := shiftRight_and_mask rfl
    have hlower : block >>> 39 &&& 7 = field block 41 39 := shiftRight_and_mask rfl
    have hmiddleLt : field block 44 43 < 4 := field_lt block 44 43
    have hlowerLt : field block 41 39 < 8 := field_lt block 41 39
    have hor : block >>> 48 * 2 ^ 5 ||| field block 44 43 * 2 ^ 3 =
        block >>> 48 * 2 ^ 5 + field block 44 43 * 2 ^ 3 :=
      or_eq_add (k := 5) (Dvd.intro_left _ rfl) (by omega)
    rw [hmiddle, hlower, Nat.shiftLeft_eq, Nat.shiftLeft_eq, hor, or_eq_add (k := 3) (by omega) hlowerLt,
      convert6To8_eq, ← hupper]
    congr 1
    omega
  have hrh : convert6To8 ((block >>> 34) <<< 1 ||| (block >>> 32 &&& 1)) =
      Layout.extend6 (2 * field block 38 34 + field block 32 32) := by
    have hupper : block >>> 34 % 32 = field block 38 34 := shiftRight_mod _ rfl (by decide)
    have hlower : block >>> 32 &&& 1 = field block 32 32 := shiftRight_and_mask rfl
    have hlowerLt := field_lt block 32 32
    rw [hlower, shiftLeft_or hlowerLt, convert6To8_eq, ← hupper]
    congr 1
    omega
  have hx : ∀ i : ℕ, i &&& 3 = i % 4 := fun i ↦ and_mask (m := 3) (k := 2) rfl
  have hy : ∀ i : ℕ, i >>> 2 = i / 4 := fun i ↦ Nat.shiftRight_eq_div_pow i 2
  have hdiv : ∀ v : ℤ, v >>> (2 : ℕ) = v / 4 := fun v ↦ Int.shiftRight_eq_div_pow v 2
  simp only [etc2_decode_block_P, hdata, hgo, hbo, hrh, h6, h7, h0]
  simp only [hx, hy, hdiv, clamp_eq, pixelStores]
  rw [consecutive_map_range fun _ _ ↦ length_pixelBytes _ _ _ _]
  rfl

/-! ## The two halves -/

theorem subblockPixel_spec : ∀ second flipped, ∀ i < 8,
    (subblockPixel second flipped i).1 < 4 ∧ (subblockPixel second flipped i).2 < 4 ∧
      (second = true ↔ if flipped then 2 ≤ (subblockPixel second flipped i).2
        else 2 ≤ (subblockPixel second flipped i).1) := by
  decide

/-- The numbers of the pixels of a half. -/
def subblockPlaces (second flipped : Bool) : List ℕ :=
  (List.range 8).map fun i ↦ (subblockPixel second flipped i).1 + 4 * (subblockPixel second flipped i).2

/-- The halves make up the block. -/
theorem subblockPlaces_perm :
    ∀ flipped, (subblockPlaces false flipped ++ subblockPlaces true flipped).Perm (List.range 16) := by
  decide

theorem modifier_eq : ∀ codeword < 8, ∀ msb < 2, ∀ lsb < 2,
    (kRGBModifierTable.drop (codeword * 4)).getD (2 * msb + lsb) 0 = Layout.modifier codeword msb lsb true ∧
      (kRGBOpaqueModifierTable.drop (codeword * 4)).getD (2 * msb + lsb) 0 =
        Layout.modifier codeword msb lsb false := by
  decide

theorem decode_subblock_eq {r g b : ℕ} {table : List ℤ} {second flipped : Bool} {base : Bool → Layout.Colour}
    (hsolid : isOpaque = true ↔ field block 33 33 = 1) (hflipped : flipped = true ↔ field block 32 32 = 1)
    (hbase : base second = ⟨r, g, b⟩)
    (htable : ∀ msb < 2, ∀ lsb < 2, table.getD (2 * msb + lsb) 0 =
      Layout.modifier (Layout.codeword block second) msb lsb (Layout.opaqueBit block isPunchthroughAlpha)) :
    decode_subblock pOut r g b table (block % 2 ^ 32) second flipped isPunchthroughAlpha isOpaque =
      (subblockPlaces second flipped).map fun k : ℕ ↦ (pOut + channels isPunchthroughAlpha * k,
        colourBytes isPunchthroughAlpha (unlessTransparent block isPunchthroughAlpha
          (fun x y ↦ Layout.shaded block isPunchthroughAlpha x y base) (k % 4) (k / 4))) := by
  rw [decode_subblock, subblockPlaces, List.map_map]
  refine List.map_congr_left fun i hi ↦ ?_
  obtain ⟨hx, hy, hsecond⟩ := subblockPixel_spec second flipped i (List.mem_range.mp hi)
  have hx' : ((subblockPixel second flipped i).1 + 4 * (subblockPixel second flipped i).2) % 4 =
      (subblockPixel second flipped i).1 := by omega
  have hy' : ((subblockPixel second flipped i).1 + 4 * (subblockPixel second flipped i).2) / 4 =
      (subblockPixel second flipped i).2 := by omega
  have hin : Layout.inSecond block (subblockPixel second flipped i).1 (subblockPixel second flipped i).2 =
      second := by
    rw [Layout.inSecond, Bool.eq_iff_iff, hsecond]
    simp only [← hflipped]
    split_ifs <;> simp
  have hlsb := lsb_lt block (subblockPixel second flipped i).1 (subblockPixel second flipped i).2
  have hmsb := msb_lt block (subblockPixel second flipped i).1 (subblockPixel second flipped i).2
  simp only [Function.comp_apply, hx', hy', transparent_iff hx hy hsolid, unlessTransparent]
  split_ifs with htransparent
  · rfl
  · rw [msb_eq hx hy, lsb_eq hx hy, lsb_or_msb hlsb, htable _ hmsb _ hlsb, colourBytes, Layout.shaded, hin, hbase]
    simp only [clamp_eq, Layout.Colour.add]

theorem differential_iff (block : ℕ) (isPunchthroughAlpha : Bool) :
    (isPunchthroughAlpha = true ∨ block / 2 ^ 32 &&& 2 ≠ 0) ↔
      ¬ (isPunchthroughAlpha = false ∧ field block 33 33 = 0) := by
  have hbit : (block / 2 ^ 32) >>> 1 % 2 = field block 33 33 := field_high_mod _ rfl rfl (by decide)
  rw [and_bit (m := 2) (k := 1) rfl, hbit, not_and_or, Bool.not_eq_false]
  refine or_congr_right (not_congr ?_)
  omega

/-- The table of the code. -/
theorem table_eq (hsolid : isOpaque = true ↔ field block 33 33 = 1) {codeword msb lsb : ℕ} (hcodeword : codeword < 8)
    (hmsb : msb < 2) (hlsb : lsb < 2) :
    ((if isOpaque = true ∨ isPunchthroughAlpha = false then kRGBModifierTable else kRGBOpaqueModifierTable).drop
      (codeword * 4)).getD (2 * msb + lsb) 0 =
        Layout.modifier codeword msb lsb (Layout.opaqueBit block isPunchthroughAlpha) := by
  obtain ⟨hmodifier, hopaqueModifier⟩ := modifier_eq codeword hcodeword msb hmsb lsb hlsb
  split_ifs with h
  · rw [hmodifier, Layout.opaqueBit, decide_eq_true (by rwa [← hsolid, or_comm])]
  · rw [hopaqueModifier, Layout.opaqueBit, decide_eq_false (by rwa [← hsolid, or_comm])]

/-- The two halves with their base colours. -/
theorem subblocks_perm {r1 g1 b1 r2 g2 b2 : ℕ} {base : Bool → Layout.Colour} {flipped : Bool}
    (hsolid : isOpaque = true ↔ field block 33 33 = 1) (hflipped : flipped = true ↔ field block 32 32 = 1)
    (hfirst : base false = ⟨r1, g1, b1⟩) (hsecond : base true = ⟨r2, g2, b2⟩) :
    (decode_subblock pOut r1 g1 b1
        ((if isOpaque = true ∨ isPunchthroughAlpha = false then kRGBModifierTable else kRGBOpaqueModifierTable).drop
          ((7 &&& (block / 2 ^ 32) >>> 5) * 4)) (block % 2 ^ 32) false flipped isPunchthroughAlpha isOpaque ++
      decode_subblock pOut r2 g2 b2
        ((if isOpaque = true ∨ isPunchthroughAlpha = false then kRGBModifierTable else kRGBOpaqueModifierTable).drop
          ((7 &&& (block / 2 ^ 32) >>> 2) * 4)) (block % 2 ^ 32) true flipped isPunchthroughAlpha isOpaque).Perm
      (pixelStores pOut isPunchthroughAlpha (unlessTransparent block isPunchthroughAlpha fun x y ↦
        Layout.shaded block isPunchthroughAlpha x y base)) := by
  have hindexA : 7 &&& (block / 2 ^ 32) >>> 5 = Layout.codeword block false := by
    rw [Nat.and_comm]
    exact field_high 39 rfl rfl (by decide)
  have hindexB : 7 &&& (block / 2 ^ 32) >>> 2 = Layout.codeword block true := by
    rw [Nat.and_comm]
    exact field_high 36 rfl rfl (by decide)
  have hltA : Layout.codeword block false < 8 := field_lt block 39 37
  have hltB : Layout.codeword block true < 8 := field_lt block 36 34
  rw [hindexA, hindexB, decode_subblock_eq hsolid hflipped hfirst fun msb hmsb lsb hlsb ↦
    table_eq hsolid hltA hmsb hlsb, decode_subblock_eq hsolid hflipped hsecond fun msb hmsb lsb hlsb ↦
    table_eq hsolid hltB hmsb hlsb, ← List.map_append, pixelStores]
  exact (subblockPlaces_perm flipped).map _

end Pixels

section Modes

variable {block : ℕ} {isPunchthroughAlpha : Bool}

/-- The colour of a pixel in each mode but the planar one. -/
def modeColour (block : ℕ) (isPunchthroughAlpha : Bool) : Layout.Mode → ℕ → ℕ → Layout.Colour
  | .individual => fun x y ↦ Layout.shaded block isPunchthroughAlpha x y (Layout.individualBase block)
  | .differential => fun x y ↦ Layout.shaded block isPunchthroughAlpha x y (Layout.differentialBase block)
  | .T => fun x y ↦ Layout.painted block x y (Layout.paintT block)
  | .H => fun x y ↦ Layout.painted block x y (Layout.paintH block)
  | .planar => fun x y ↦ Layout.planar block x y

theorem pixel_of_mode {mode : Layout.Mode} (hmode : Layout.mode block isPunchthroughAlpha = mode)
    (hplanar : mode ≠ .planar) : Layout.pixel block isPunchthroughAlpha =
      unlessTransparent block isPunchthroughAlpha (modeColour block isPunchthroughAlpha mode) := by
  funext x y
  rw [Layout.pixel, unlessTransparent, hmode]
  simp only [ne_eq, hplanar, not_false_eq_true, true_and]
  cases mode <;> rfl

theorem pixel_of_planar (hmode : Layout.mode block isPunchthroughAlpha = .planar) :
    Layout.pixel block isPunchthroughAlpha = fun x y ↦ some (Layout.planar block x y) := by
  funext x y
  rw [Layout.pixel, hmode]
  simp only [ne_eq, not_true_eq_false, false_and, and_false, if_false]

theorem length_pixel (block : ℕ) (isPunchthroughAlpha : Bool) (x y : ℕ) :
    (colourBytes isPunchthroughAlpha (Layout.pixel block isPunchthroughAlpha x y)).length =
      channels isPunchthroughAlpha := by
  by_cases hplanar : Layout.mode block isPunchthroughAlpha = .planar
  · rw [pixel_of_planar hplanar]
    exact length_pixelBytes _ _ _ _
  · rw [pixel_of_mode rfl hplanar]
    exact length_unlessTransparent _

end Modes

section

variable (pIn : ℕ → UInt8) (isPunchthroughAlpha : Bool) (pOut : ℤ)

/-- What the code stores for a block of colours is what the layouts say, each pixel once. -/
theorem etc2_decode_rgb_block_perm : (etc2_decode_rgb_block pIn isPunchthroughAlpha pOut).Perm
      (pixelStores pOut isPunchthroughAlpha (Layout.pixel (Layout.int64bit pIn) isPunchthroughAlpha)) := by
  have hsolid := isOpaque_eq (Layout.int64bit pIn)
  have hflip : (Layout.int64bit pIn / 2 ^ 32 &&& 1 ≠ 0) ↔ field (Layout.int64bit pIn) 32 32 = 1 := by
    have hlt : field (Layout.int64bit pIn) 32 32 < 2 := field_lt _ 32 32
    rw [flip_eq]
    omega
  rw [etc2_decode_rgb_block, bigEndian_zero, bigEndian_four]
  generalize Layout.int64bit pIn = block at hsolid hflip ⊢
  have hsolid' : decide ((block / 2 ^ 32) >>> 1 &&& 1 ≠ 0) = true ↔ field block 33 33 = 1 := by
    rw [decide_eq_true_eq, hsolid]
  have hflip' : decide (block / 2 ^ 32 &&& 1 ≠ 0) = true ↔ field block 32 32 = 1 := by rw [decide_eq_true_eq, hflip]
  have hred : isOverflowed ((block / 2 ^ 32) >>> 27) ((block / 2 ^ 32) >>> 24) = Layout.overflows block 63 :=
    isOverflowed_eq block 27 (by decide)
  have hgreen : isOverflowed ((block / 2 ^ 32) >>> 19) ((block / 2 ^ 32) >>> 16) = Layout.overflows block 55 :=
    isOverflowed_eq block 19 (by decide)
  have hblue : isOverflowed ((block / 2 ^ 32) >>> 11) ((block / 2 ^ 32) >>> 8) = Layout.overflows block 47 :=
    isOverflowed_eq block 11 (by decide)
  by_cases hdifferential : isPunchthroughAlpha = false ∧ field block 33 33 = 0
  · have hmode : Layout.mode block isPunchthroughAlpha = .individual := if_pos hdifferential
    rw [if_neg (fun h ↦ (differential_iff _ _).mp h hdifferential), pixel_of_mode hmode (by decide)]
    exact subblocks_perm hsolid' hflip' (by simp only [convert4To8_high]; rfl) (by simp only [convert4To8_high]; rfl)
  rw [if_pos ((differential_iff _ _).mpr hdifferential)]
  simp only [hred, hgreen, hblue]
  by_cases hT : Layout.overflows block 63 = true
  · have hmode : Layout.mode block isPunchthroughAlpha = .T := by rw [Layout.mode, if_neg hdifferential, if_pos hT]
    rw [if_pos hT, pixel_of_mode hmode (by decide), etc2_decode_block_T_eq hsolid']
    exact List.Perm.refl _
  by_cases hH : Layout.overflows block 55 = true
  · have hmode : Layout.mode block isPunchthroughAlpha = .H := by
      rw [Layout.mode, if_neg hdifferential, if_neg hT, if_pos hH]
    rw [if_neg hT, if_pos hH, pixel_of_mode hmode (by decide), etc2_decode_block_H_eq hsolid']
    exact List.Perm.refl _
  by_cases hP : Layout.overflows block 47 = true
  · have hmode : Layout.mode block isPunchthroughAlpha = .planar := by
      rw [Layout.mode, if_neg hdifferential, if_neg hT, if_neg hH, if_pos hP]
    rw [if_neg hT, if_neg hH, if_pos hP, pixel_of_planar hmode, etc2_decode_block_P_eq]
  · have hmode : Layout.mode block isPunchthroughAlpha = .differential := by
      rw [Layout.mode, if_neg hdifferential, if_neg hT, if_neg hH, if_neg hP]
    rw [if_neg hT, if_neg hH, if_neg hP, pixel_of_mode hmode (by decide)]
    have hr : convertDiff ((block / 2 ^ 32) >>> 27) ((block / 2 ^ 32) >>> 24) =
        Layout.extend5 (Layout.sum5 block 63).toNat :=
      convertDiff_eq block 27 (by decide) (Bool.eq_false_iff.mpr hT)
    have hg : convertDiff ((block / 2 ^ 32) >>> 19) ((block / 2 ^ 32) >>> 16) =
        Layout.extend5 (Layout.sum5 block 55).toNat :=
      convertDiff_eq block 19 (by decide) (Bool.eq_false_iff.mpr hH)
    have hb : convertDiff ((block / 2 ^ 32) >>> 11) ((block / 2 ^ 32) >>> 8) =
        Layout.extend5 (Layout.sum5 block 47).toNat :=
      convertDiff_eq block 11 (by decide) (Bool.eq_false_iff.mpr hP)
    exact subblocks_perm hsolid' hflip' (by simp only [convert5To8_high]; rfl) (by rw [hr, hg, hb]; rfl)

/-- After decoding, every pixel stands at its place. -/
theorem holds_etc2_decode_rgb_block (memory : ByteMemory) {x y : ℕ} (hx : x < 4) (hy : y < 4) :
    (memory.storeAll (etc2_decode_rgb_block pIn isPunchthroughAlpha pOut)).Holds
      (pOut + channels isPunchthroughAlpha * (x + 4 * y : ℕ))
      (colourBytes isPunchthroughAlpha (Layout.pixel (Layout.int64bit pIn) isPunchthroughAlpha x y)) := by
  have hperm := etc2_decode_rgb_block_perm pIn isPunchthroughAlpha pOut
  have hapart : (pixelStores pOut isPunchthroughAlpha
      (Layout.pixel (Layout.int64bit pIn) isPunchthroughAlpha)).Pairwise Store.Apart :=
    pairwise_apart_map List.nodup_range fun _ _ ↦ length_pixel _ _ _ _
  refine holds_storeAll ((hperm.pairwise_iff Store.Apart.symm).mpr hapart) (hperm.mem_iff.mpr ?_)
  refine List.mem_map.mpr ⟨x + 4 * y, List.mem_range.mpr (by omega), ?_⟩
  rw [show (x + 4 * y) % 4 = x by omega, show (x + 4 * y) / 4 = y by omega]

end

end FdeEmugl.Etc

import FdeEmugl.Library.Selection
import FdeEmugl.Texture.EtcDecode
import Mathlib.Algebra.Order.BigOperators.Group.List

/-!
# Encoding of ETC1 blocks

The encoder takes the average colours of the two halves of a block as base colours, for halves side by side and one
above the other. With the base colours it searches for the tables and the indices with the least error.
-/

namespace FdeEmugl.Etc

open BitFields ByteMemory Selection
open Nat (mod_eq_of_lt)
open List (foldl_cons foldl_map mem_map mem_range)

/-! ## The code -/

structure etc_compressed where
  high : ℕ
  low : ℕ
  score : ℕ
  deriving DecidableEq

def take_best (a b : etc_compressed) : etc_compressed := if b.score < a.score then b else a

/-- Column and row of the pixels of a half, in the order of the loops. -/
def loopPixels (flipped second : Bool) : List (ℕ × ℕ) :=
  if flipped then
    let bY := if second then 2 else 0
    (List.range 2).flatMap fun y ↦ (List.range 4).map fun x ↦ (x, bY + y)
  else
    let bX := if second then 2 else 0
    (List.range 4).flatMap fun y ↦ (List.range 2).map fun x ↦ (bX + x, y)

def isValid (inMask : ℕ) (pixel : ℕ × ℕ) : Bool := inMask &&& 1 <<< (pixel.1 + 4 * pixel.2) ≠ 0

def pixelAt (pIn : ℕ → UInt8) (pixel : ℕ × ℕ) : Layout.Colour :=
  let p := (pixel.1 + 4 * pixel.2) * 3
  ⟨(pIn p).toNat, (pIn (p + 1)).toNat, (pIn (p + 2)).toNat⟩

/-- A byte that was made from an `int`. -/
def byteOf (v : ℤ) : ℕ := (UInt8.ofInt v).toNat

def etc_average_colors_subblock (pIn : ℕ → UInt8) (inMask : ℕ) (flipped second : Bool) : Layout.Colour :=
  let sum := ((loopPixels flipped second).filter (isValid inMask)).foldl (fun (sum : Layout.Colour) pixel ↦
    ⟨sum.r + (pixelAt pIn pixel).r, sum.g + (pixelAt pIn pixel).g, sum.b + (pixelAt pIn pixel).b⟩) ⟨0, 0, 0⟩
  ⟨byteOf ((sum.r + 4) >>> (3 : ℕ)), byteOf ((sum.g + 4) >>> (3 : ℕ)), byteOf ((sum.b + 4) >>> (3 : ℕ))⟩

def square (x : ℤ) : ℤ := x * x

/-- One modifier is tried. -/
def tryModifier (base pixel : Layout.Colour) (pModifierTable : List ℤ) (best : ℕ × ℕ) (i : ℕ) : ℕ × ℕ :=
  let modifier := pModifierTable.getD i 0
  let decodedG := clamp (base.g + modifier)
  let score := (6 * square (decodedG - pixel.g)).toNat
  if best.1 ≤ score then best
  else
    let decodedR := clamp (base.r + modifier)
    let score := score + (3 * square (decodedR - pixel.r)).toNat
    if best.1 ≤ score then best
    else
      let decodedB := clamp (base.b + modifier)
      let score := score + (square (decodedB - pixel.b)).toNat
      if score < best.1 then (score, i) else best

/-- The score and the index. -/
def chooseModifier (base pixel : Layout.Colour) (pModifierTable : List ℤ) : ℕ × ℕ :=
  (List.range 4).foldl (tryModifier base pixel pModifierTable) (2 ^ 32 - 1, 0)

def etc_encode_subblock_helper (pIn : ℕ → UInt8) (inMask : ℕ) (flipped second : Bool) (base : Layout.Colour)
    (pModifierTable : List ℤ) (pCompressed : etc_compressed) : etc_compressed :=
  ((loopPixels flipped second).filter (isValid inMask)).foldl (fun compressed pixel ↦
    let (score, bestIndex) := chooseModifier base (pixelAt pIn pixel) pModifierTable
    let bitIndex := pixel.2 + pixel.1 * 4
    let lowMask := (bestIndex >>> 1 <<< 16 ||| (bestIndex &&& 1)) <<< bitIndex
    { compressed with low := compressed.low ||| lowMask, score := (compressed.score + score) % 2 ^ 32 }) pCompressed

def divideBy255 (d : ℕ) : ℕ := (d + 128 + d >>> 8) >>> 8

def convert8To4 (b : ℤ) : ℕ :=
  let c := (b % 256).toNat
  divideBy255 (c * 15)

def convert8To5 (b : ℤ) : ℕ :=
  let c := (b % 256).toNat
  divideBy255 (c * 31)

def inRange4bitSigned (color : ℤ) : Bool := -4 ≤ color ∧ color ≤ 3

/-- Three bits of an `int`. -/
def bits3 (v : ℤ) : ℕ := (v % 8).toNat

/-- The base colours of the halves, and the bits for `high`. -/
def etc_encodeBaseColors (first second : Layout.Colour) : (Bool → Layout.Colour) × ℕ :=
  let r51 := convert8To5 first.r
  let g51 := convert8To5 first.g
  let b51 := convert8To5 first.b
  let r52 := convert8To5 second.r
  let g52 := convert8To5 second.g
  let b52 := convert8To5 second.b
  let dr : ℤ := r52 - r51
  let dg : ℤ := g52 - g51
  let db : ℤ := b52 - b51
  if inRange4bitSigned dr ∧ inRange4bitSigned dg ∧ inRange4bitSigned db then
    (fun half ↦
      if half then ⟨convert5To8 (r51 + dr).toNat, convert5To8 (g51 + dg).toNat, convert5To8 (b51 + db).toNat⟩
      else ⟨convert5To8 r51, convert5To8 g51, convert5To8 b51⟩,
    r51 <<< 27 ||| bits3 dr <<< 24 ||| g51 <<< 19 ||| bits3 dg <<< 16 ||| b51 <<< 11 ||| bits3 db <<< 8 ||| 2)
  else
    let r41 := convert8To4 first.r
    let g41 := convert8To4 first.g
    let b41 := convert8To4 first.b
    let r42 := convert8To4 second.r
    let g42 := convert8To4 second.g
    let b42 := convert8To4 second.b
    (fun half ↦
      if half then ⟨convert4To8 r42, convert4To8 g42, convert4To8 b42⟩
      else ⟨convert4To8 r41, convert4To8 g41, convert4To8 b41⟩,
    r41 <<< 28 ||| r42 <<< 24 ||| g41 <<< 20 ||| g42 <<< 16 ||| b41 <<< 12 ||| b42 <<< 8)

/-- The base colours for halves side by side or one above the other. -/
def baseColors (pIn : ℕ → UInt8) (inMask : ℕ) (flipped : Bool) : (Bool → Layout.Colour) × ℕ :=
  etc_encodeBaseColors (etc_average_colors_subblock pIn inMask flipped false)
    (etc_average_colors_subblock pIn inMask flipped true)

def etc_encode_block_helper (pIn : ℕ → UInt8) (inMask : ℕ) (flipped : Bool) : etc_compressed :=
  let (base, baseHigh) := baseColors pIn inMask flipped
  let originalHigh := (if flipped then 1 else 0) ||| baseHigh
  let firstHalf := (List.range 8).foldl (fun compressed i ↦
    take_best compressed (etc_encode_subblock_helper pIn inMask flipped false (base false)
      (kRGBModifierTable.drop (4 * i)) { high := originalHigh ||| i <<< 5, low := 0, score := 0 })) ⟨originalHigh, 0, 2 ^ 32 - 1⟩
  (List.range 8).foldl (fun compressed i ↦
    let temp := etc_encode_subblock_helper pIn inMask flipped true (base true) (kRGBModifierTable.drop (4 * i))
      { high := firstHalf.high ||| i <<< 2, low := firstHalf.low, score := firstHalf.score }
    if i = 0 then temp else take_best compressed temp) firstHalf

def etc1_best (pIn : ℕ → UInt8) (inMask : ℕ) : etc_compressed :=
  take_best (etc_encode_block_helper pIn inMask false) (etc_encode_block_helper pIn inMask true)

def writeBigEndian (d : ℕ) : List UInt8 :=
  [UInt8.ofNat (d >>> 24), UInt8.ofNat (d >>> 16), UInt8.ofNat (d >>> 8), UInt8.ofNat d]

def etc1_encode_block (pIn : ℕ → UInt8) (inMask : ℕ) (pOut : ℤ) : List Store :=
  let a := etc1_best pIn inMask
  [(pOut, writeBigEndian a.high), (pOut + 4, writeBigEndian a.low)]

/-! ## Errors -/

def weightedError (decoded pixel : Layout.Colour) : ℕ :=
  6 * (decoded.g - pixel.g).natAbs ^ 2 + 3 * (decoded.r - pixel.r).natAbs ^ 2 + (decoded.b - pixel.b).natAbs ^ 2

/-- All channels are bytes. -/
structure InBytes (colour : Layout.Colour) : Prop where
  r : 0 ≤ colour.r ∧ colour.r ≤ 255
  g : 0 ≤ colour.g ∧ colour.g ≤ 255
  b : 0 ≤ colour.b ∧ colour.b ≤ 255

section Errors

variable {base pixel : Layout.Colour} {table : List ℤ}

theorem toNat_mul_square (factor : ℕ) (d : ℤ) : ((factor : ℤ) * square d).toNat = factor * d.natAbs ^ 2 := by
  have hsquare : square d = ((d.natAbs ^ 2 : ℕ) : ℤ) := by
    rw [square, ← Int.natAbs_mul_self, pow_two]
  rw [hsquare, ← Int.natCast_mul, Int.toNat_natCast]

theorem clamp255_bounds (v : ℤ) : 0 ≤ Layout.clamp255 v ∧ Layout.clamp255 v ≤ 255 := by
  rw [Layout.clamp255]
  omega

theorem inBytes_add (base : Layout.Colour) (v : ℤ) : InBytes (base.add v) :=
  ⟨clamp255_bounds _, clamp255_bounds _, clamp255_bounds _⟩

theorem inBytes_pixelAt (pIn : ℕ → UInt8) (pixel : ℕ × ℕ) : InBytes (pixelAt pIn pixel) := by
  have hbyte : ∀ i, 0 ≤ ((pIn i).toNat : ℤ) ∧ ((pIn i).toNat : ℤ) ≤ 255 := by
    intro i
    have hlt := (pIn i).toNat_lt
    omega
  exact ⟨hbyte _, hbyte _, hbyte _⟩

theorem weightedError_le {decoded : Layout.Colour} (hdecoded : InBytes decoded) (hpixel : InBytes pixel) :
    weightedError decoded pixel ≤ 650250 := by
  have hsquare : ∀ a b : ℤ, 0 ≤ a ∧ a ≤ 255 → 0 ≤ b ∧ b ≤ 255 → (a - b).natAbs ^ 2 ≤ 65025 := by
    intro a b ha hb
    have hle : (a - b).natAbs ≤ 255 := by omega
    exact Nat.pow_le_pow_left hle 2
  have hg := hsquare _ _ hdecoded.g hpixel.g
  have hr := hsquare _ _ hdecoded.r hpixel.r
  have hb := hsquare _ _ hdecoded.b hpixel.b
  rw [weightedError]
  omega

/-- The error with one entry of the table. -/
def indexError (base pixel : Layout.Colour) (table : List ℤ) (i : ℕ) : ℕ :=
  weightedError (base.add (table.getD i 0)) pixel

theorem indexError_le (base : Layout.Colour) (table : List ℤ) (hpixel : InBytes pixel) (i : ℕ) :
    indexError base pixel table i ≤ 650250 :=
  weightedError_le (inBytes_add base _) hpixel

/-- The early exits do not lose anything. -/
theorem tryModifier_eq (base pixel : Layout.Colour) (table : List ℤ) (best : ℕ × ℕ) (i : ℕ) :
    tryModifier base pixel table best i = better Prod.fst best (indexError base pixel table i, i) := by
  have hone : ∀ d : ℤ, (square d).toNat = d.natAbs ^ 2 := fun d ↦ by
    have h := toNat_mul_square 1 d
    rwa [Int.natCast_one, one_mul, one_mul] at h
  have hsix := toNat_mul_square 6
  have hthree := toNat_mul_square 3
  simp only [Nat.cast_ofNat] at hsix hthree
  have hbetter : better Prod.fst best (indexError base pixel table i, i) =
      if indexError base pixel table i < best.1 then (indexError base pixel table i, i) else best := rfl
  have herror : indexError base pixel table i = 6 * (Layout.clamp255 (base.g + table.getD i 0) - pixel.g).natAbs ^ 2 +
        3 * (Layout.clamp255 (base.r + table.getD i 0) - pixel.r).natAbs ^ 2 +
        (Layout.clamp255 (base.b + table.getD i 0) - pixel.b).natAbs ^ 2 := rfl
  rw [hbetter, herror]
  simp only [tryModifier, hsix, hthree, hone, clamp_eq]
  generalize 6 * (Layout.clamp255 (base.g + table.getD i 0) - pixel.g).natAbs ^ 2 = green
  generalize 3 * (Layout.clamp255 (base.r + table.getD i 0) - pixel.r).natAbs ^ 2 = red
  generalize (Layout.clamp255 (base.b + table.getD i 0) - pixel.b).natAbs ^ 2 = blue
  by_cases hgreen : best.1 ≤ green
  · rw [if_pos hgreen, if_neg (by omega)]
  · by_cases hred : best.1 ≤ green + red
    · rw [if_neg hgreen, if_pos hred, if_neg (by omega)]
    · rw [if_neg hgreen, if_neg hred]

/-- The least error of a pixel. -/
theorem chooseModifier_spec (base : Layout.Colour) (table : List ℤ) (hpixel : InBytes pixel) :
    (chooseModifier base pixel table).2 < 4 ∧
      (chooseModifier base pixel table).1 = indexError base pixel table (chooseModifier base pixel table).2 ∧
      ∀ i < 4, (chooseModifier base pixel table).1 ≤ indexError base pixel table i := by
  have hfold : chooseModifier base pixel table =
      ((List.range 4).map fun i ↦ (indexError base pixel table i, i)).foldl (better Prod.fst) (2 ^ 32 - 1, 0) := by
    rw [chooseModifier, foldl_map]
    congr 1
    funext best i
    exact tryModifier_eq base pixel table best i
  have hcandidate : ∀ i < 4, (indexError base pixel table i, i) ∈
      (List.range 4).map fun i ↦ (indexError base pixel table i, i) :=
    fun i hi ↦ mem_map.mpr ⟨i, mem_range.mpr hi, rfl⟩
  have hlt : indexError base pixel table 0 < (2 ^ 32 - 1, 0).1 :=
    (indexError_le base table hpixel 0).trans_lt (by decide)
  have hfound := foldl_better_mem_of_lt Prod.fst (hcandidate 0 (by decide)) hlt
  rw [← hfold] at hfound
  obtain ⟨i, hi, heq⟩ := mem_map.mp hfound
  rw [← heq]
  refine ⟨mem_range.mp hi, rfl, fun j hj ↦ ?_⟩
  have hle := foldl_better_le Prod.fst (hcandidate j hj) (2 ^ 32 - 1, 0)
  rw [← hfold, ← heq] at hle
  exact hle

end Errors

/-! ## Halves -/

/-- The bits of an index. -/
def lowMask (index : ℕ) (pixel : ℕ × ℕ) : ℕ := (index >>> 1 <<< 16 ||| (index &&& 1)) <<< (pixel.2 + pixel.1 * 4)

/-- The bits of an index touch those of no other pixel. -/
theorem testBit_lowMask_table : ∀ index < 4, ∀ place < 16, ∀ other < 16,
    ((index >>> 1 <<< 16 ||| (index &&& 1)) <<< place).testBit other = (decide (other = place) && index.testBit 0) ∧
      ((index >>> 1 <<< 16 ||| (index &&& 1)) <<< place).testBit (16 + other) =
        (decide (other = place) && index.testBit 1) := by
  decide +kernel

/-- A position in the block. -/
def InBlock (pixel : ℕ × ℕ) : Prop := pixel.1 < 4 ∧ pixel.2 < 4

theorem testBit_lowMask {index : ℕ} {pixel other : ℕ × ℕ} (hindex : index < 4) (hpixel : InBlock pixel)
    (hother : InBlock other) :
    (lowMask index pixel).testBit (4 * other.1 + other.2) = (decide (other = pixel) && index.testBit 0) ∧
      (lowMask index pixel).testBit (16 + 4 * other.1 + other.2) = (decide (other = pixel) && index.testBit 1) := by
  have hplace : 4 * other.1 + other.2 = pixel.2 + pixel.1 * 4 ↔ other = pixel := by
    rw [InBlock] at hpixel hother
    rw [Prod.ext_iff]
    omega
  rw [InBlock] at hpixel hother
  have htable := testBit_lowMask_table index hindex (pixel.2 + pixel.1 * 4) (by omega) (4 * other.1 + other.2)
    (by omega)
  simp only [hplace, ← Nat.add_assoc] at htable
  exact htable

section Half

variable {pIn : ℕ → UInt8} {inMask : ℕ} {flipped second : Bool} {base : Layout.Colour} {table : List ℤ}
  {start : etc_compressed} {pixels : List (ℕ × ℕ)}

theorem loopPixels_spec : ∀ flipped second, (loopPixels flipped second).Nodup ∧
    ∀ pixel ∈ loopPixels flipped second, (pixel.1 < 4 ∧ pixel.2 < 4) ∧
      (second = true ↔ if flipped then 2 ≤ pixel.2 else 2 ≤ pixel.1) := by
  decide

/-- The pixels of a half that count. -/
def validPixels (inMask : ℕ) (flipped second : Bool) : List (ℕ × ℕ) :=
  (loopPixels flipped second).filter (isValid inMask)

/-- The index that is chosen for a pixel. -/
def chosenIndex (pIn : ℕ → UInt8) (base : Layout.Colour) (table : List ℤ) (pixel : ℕ × ℕ) : ℕ :=
  (chooseModifier base (pixelAt pIn pixel) table).2

/-- The least error of the pixels. -/
def leastError (pIn : ℕ → UInt8) (base : Layout.Colour) (table : List ℤ) (pixels : List (ℕ × ℕ)) : ℕ :=
  (pixels.map fun pixel ↦ (chooseModifier base (pixelAt pIn pixel) table).1).sum

theorem leastError_le (pIn : ℕ → UInt8) (base : Layout.Colour) (table : List ℤ) (pixels : List (ℕ × ℕ)) :
    leastError pIn base table pixels ≤ pixels.length * 650250 := by
  induction pixels with
  | nil => exact Nat.zero_le _
  | cons pixel pixels ih =>
    have hpixel := inBytes_pixelAt pIn pixel
    obtain ⟨_, hscore, _⟩ := chooseModifier_spec base table hpixel
    have hle := indexError_le base table hpixel (chooseModifier base (pixelAt pIn pixel) table).2
    rw [leastError] at ih
    rw [leastError, List.map_cons, List.sum_cons, List.length_cons, hscore]
    omega

/-- What the loop adds: the errors to the score, the indices to `low`. -/
structure Added (pIn : ℕ → UInt8) (base : Layout.Colour) (table : List ℤ) (pixels : List (ℕ × ℕ))
    (start last : etc_compressed) : Prop where
  high : last.high = start.high
  score : last.score = start.score + leastError pIn base table pixels
  lsb : ∀ pixel, InBlock pixel → last.low.testBit (4 * pixel.1 + pixel.2) =
    (start.low.testBit (4 * pixel.1 + pixel.2) || (decide (pixel ∈ pixels) &&
      (chosenIndex pIn base table pixel).testBit 0))
  msb : ∀ pixel, InBlock pixel → last.low.testBit (16 + 4 * pixel.1 + pixel.2) =
    (start.low.testBit (16 + 4 * pixel.1 + pixel.2) || (decide (pixel ∈ pixels) &&
      (chosenIndex pIn base table pixel).testBit 1))

theorem or_mem_cons (bit : Bool) (pixel first : ℕ × ℕ) (pixels : List (ℕ × ℕ)) (index : ℕ × ℕ → Bool) :
    ((bit || (decide (pixel = first) && index first)) || (decide (pixel ∈ pixels) && index pixel)) =
      (bit || (decide (pixel ∈ first :: pixels) && index pixel)) := by
  by_cases hfirst : pixel = first
  · subst hfirst
    cases hindex : index pixel <;> simp
  · simp [hfirst]

/-- One pixel of the loop. -/
def encodePixel (pIn : ℕ → UInt8) (base : Layout.Colour) (table : List ℤ) (compressed : etc_compressed)
    (pixel : ℕ × ℕ) : etc_compressed :=
  { compressed with
      low := compressed.low ||| lowMask (chosenIndex pIn base table pixel) pixel
      score := (compressed.score + (chooseModifier base (pixelAt pIn pixel) table).1) % 2 ^ 32 }

theorem added_foldl (hpixels : ∀ pixel ∈ pixels, InBlock pixel)
    (hscore : start.score + leastError pIn base table pixels < 2 ^ 32) :
    Added pIn base table pixels start (pixels.foldl (encodePixel pIn base table) start) := by
  induction pixels generalizing start with
  | nil =>
    exact ⟨rfl, rfl, fun _ _ ↦ by simp, fun _ _ ↦ by simp⟩
  | cons first pixels ih =>
    obtain ⟨hfirst, hpixels⟩ := List.forall_mem_cons.mp hpixels
    rw [leastError, List.map_cons, List.sum_cons, ← leastError, ← Nat.add_assoc] at hscore
    have hmod : (start.score + (chooseModifier base (pixelAt pIn first) table).1) % 2 ^ 32 =
        start.score + (chooseModifier base (pixelAt pIn first) table).1 := mod_eq_of_lt (by omega)
    have hnextScore : (encodePixel pIn base table start first).score + leastError pIn base table pixels < 2 ^ 32 := by
      rw [encodePixel, hmod]
      exact hscore
    have hnext := ih hpixels hnextScore
    have hindex : chosenIndex pIn base table first < 4 :=
      (chooseModifier_spec base table (inBytes_pixelAt pIn first)).1
    refine ⟨hnext.high, ?_, fun pixel hpixel ↦ ?_, fun pixel hpixel ↦ ?_⟩
    · rw [foldl_cons, hnext.score, encodePixel, hmod, leastError, leastError, List.map_cons, List.sum_cons]
      exact Nat.add_assoc _ _ _
    · rw [foldl_cons, hnext.lsb pixel hpixel, encodePixel, Nat.testBit_or,
        (testBit_lowMask hindex hfirst hpixel).1]
      exact or_mem_cons _ pixel first pixels fun other ↦ (chosenIndex pIn base table other).testBit 0
    · rw [foldl_cons, hnext.msb pixel hpixel, encodePixel, Nat.testBit_or,
        (testBit_lowMask hindex hfirst hpixel).2]
      exact or_mem_cons _ pixel first pixels fun other ↦ (chosenIndex pIn base table other).testBit 1

theorem etc_encode_subblock_helper_eq (pIn : ℕ → UInt8) (inMask : ℕ) (flipped second : Bool) (base : Layout.Colour)
    (table : List ℤ) (start : etc_compressed) :
    etc_encode_subblock_helper pIn inMask flipped second base table start =
      (validPixels inMask flipped second).foldl (encodePixel pIn base table) start := rfl

theorem inBlock_of_mem_validPixels {pixel : ℕ × ℕ} (h : pixel ∈ validPixels inMask flipped second) :
    InBlock pixel ∧ (second = true ↔ if flipped then 2 ≤ pixel.2 else 2 ≤ pixel.1) :=
  (loopPixels_spec flipped second).2 pixel (List.mem_of_mem_filter h)

theorem length_validPixels_le (inMask : ℕ) (flipped second : Bool) :
    (validPixels inMask flipped second).length ≤ 8 := by
  have hlength : ∀ flipped second, (loopPixels flipped second).length = 8 := by decide
  exact (List.length_filter_le _ _).trans (hlength flipped second).le

/-- One half with one table. -/
theorem added_half (pIn : ℕ → UInt8) (inMask : ℕ) (flipped second : Bool) (base : Layout.Colour) (table : List ℤ)
    (hstart : start.score ≤ 8 * 650250) :
    Added pIn base table (validPixels inMask flipped second) start
      (etc_encode_subblock_helper pIn inMask flipped second base table start) := by
  rw [etc_encode_subblock_helper_eq]
  refine added_foldl (fun pixel hpixel ↦ (inBlock_of_mem_validPixels hpixel).1) ?_
  have hle := leastError_le pIn base table (validPixels inMask flipped second)
  have hlength := length_validPixels_le inMask flipped second
  omega

end Half

/-! ## The tables of both halves -/

section Tables

variable {pIn : ℕ → UInt8} {inMask : ℕ} {flipped : Bool} {encode : ℕ → etc_compressed} {init : etc_compressed}

def tableAt (i : ℕ) : List ℤ := kRGBModifierTable.drop (4 * i)

theorem foldl_take_best (encode : ℕ → etc_compressed) (tables : List ℕ) (init : etc_compressed) :
    tables.foldl (fun compressed i ↦ take_best compressed (encode i)) init =
      (tables.map encode).foldl (better etc_compressed.score) init := by
  rw [foldl_map]
  rfl

/-- The loop over the tables finds one with the least score. -/
theorem exists_best_table (hinit : (encode 0).score < init.score) :
    ∃ i < 8, (List.range 8).foldl (fun compressed i ↦ take_best compressed (encode i)) init = encode i ∧
      ∀ j < 8, (encode i).score ≤ (encode j).score := by
  have hcandidate : ∀ j < 8, encode j ∈ (List.range 8).map encode :=
    fun j hj ↦ List.mem_map_of_mem (mem_range.mpr hj)
  rw [foldl_take_best]
  obtain ⟨i, hi, heq⟩ := mem_map.mp
    (foldl_better_mem_of_lt etc_compressed.score (hcandidate 0 (by decide)) hinit)
  refine ⟨i, mem_range.mp hi, heq.symm, fun j hj ↦ ?_⟩
  rw [heq]
  exact foldl_better_le etc_compressed.score (hcandidate j hj) init

/-- The loop for the second half starts from its first table. -/
theorem exists_best_table_from_first (encode : ℕ → etc_compressed) (init : etc_compressed) :
    ∃ i < 8, (List.range 8).foldl (fun compressed i ↦
        if i = 0 then encode i else take_best compressed (encode i)) init = encode i ∧
      ∀ j < 8, (encode i).score ≤ (encode j).score := by
  have hfold : (List.range 8).foldl (fun compressed i ↦
      if i = 0 then encode i else take_best compressed (encode i)) init =
        ((List.range 7).map fun i ↦ encode (i + 1)).foldl (better etc_compressed.score) (encode 0) := by
    rw [List.range_succ_eq_map, foldl_cons, if_pos rfl, foldl_map, foldl_map]
    rfl
  rw [hfold]
  generalize hothers : ((List.range 7).map fun i ↦ encode (i + 1)) = others
  have hcandidate : ∀ j < 8, encode j ∈ encode 0 :: others := by
    intro j hj
    obtain _ | j := j
    · exact List.mem_cons_self
    · rw [← hothers]
      exact List.mem_cons_of_mem _ (mem_map.mpr ⟨j, mem_range.mpr (Nat.lt_of_succ_lt_succ hj), rfl⟩)
  have hle : ∀ j < 8, (others.foldl (better etc_compressed.score) (encode 0)).score ≤ (encode j).score := by
    intro j hj
    obtain hfirst | hother := List.mem_cons.mp (hcandidate j hj)
    · rw [hfirst]
      exact foldl_better_le_init etc_compressed.score others (encode 0)
    · exact foldl_better_le etc_compressed.score hother (encode 0)
  obtain hfirst | hother := List.mem_cons.mp (foldl_better_mem etc_compressed.score others (encode 0))
  · rw [hfirst] at hle ⊢
    exact ⟨0, by decide, rfl, hle⟩
  · rw [← hothers] at hother
    obtain ⟨k, hk, heq⟩ := mem_map.mp hother
    rw [hothers] at heq
    rw [← heq] at hle ⊢
    exact ⟨k + 1, Nat.succ_lt_succ (mem_range.mp hk), rfl, hle⟩

/-- The error of a half with a table. -/
def halfError (pIn : ℕ → UInt8) (inMask : ℕ) (flipped second : Bool) (i : ℕ) : ℕ :=
  leastError pIn ((baseColors pIn inMask flipped).1 second) (tableAt i) (validPixels inMask flipped second)

/-- The index for a pixel with a table. -/
def indexWith (pIn : ℕ → UInt8) (inMask : ℕ) (flipped second : Bool) (i : ℕ) (pixel : ℕ × ℕ) : ℕ :=
  chosenIndex pIn ((baseColors pIn inMask flipped).1 second) (tableAt i) pixel

/-- What is encoded with a table for each half. -/
structure EncodedWith (pIn : ℕ → UInt8) (inMask : ℕ) (flipped : Bool) (i j : ℕ) (encoded : etc_compressed) :
    Prop where
  high : encoded.high = (if flipped then 1 else 0) ||| (baseColors pIn inMask flipped).2 ||| i <<< 5 ||| j <<< 2
  score : encoded.score = halfError pIn inMask flipped false i + halfError pIn inMask flipped true j
  lsb : ∀ second, ∀ pixel ∈ validPixels inMask flipped second, encoded.low.testBit (4 * pixel.1 + pixel.2) =
    (indexWith pIn inMask flipped second (if second then j else i) pixel).testBit 0
  msb : ∀ second, ∀ pixel ∈ validPixels inMask flipped second, encoded.low.testBit (16 + 4 * pixel.1 + pixel.2) =
    (indexWith pIn inMask flipped second (if second then j else i) pixel).testBit 1

theorem halfError_le (pIn : ℕ → UInt8) (inMask : ℕ) (flipped second : Bool) (i : ℕ) :
    halfError pIn inMask flipped second i ≤ 8 * 650250 :=
  (leastError_le _ _ _ _).trans (Nat.mul_le_mul_right _ (length_validPixels_le _ _ _))

/-- A pixel is in one half only. -/
theorem not_mem_validPixels_not {second : Bool} {pixel : ℕ × ℕ} (h : pixel ∈ validPixels inMask flipped second) :
    pixel ∉ validPixels inMask flipped (!second) := by
  intro hother
  have hhalf := (inBlock_of_mem_validPixels h).2.trans (inBlock_of_mem_validPixels hother).2.symm
  cases second <;> simp at hhalf

/-- The first half with a table. -/
def encodeFirst (pIn : ℕ → UInt8) (inMask : ℕ) (flipped : Bool) (i : ℕ) : etc_compressed :=
  etc_encode_subblock_helper pIn inMask flipped false ((baseColors pIn inMask flipped).1 false) (tableAt i)
    ⟨(if flipped then 1 else 0) ||| (baseColors pIn inMask flipped).2 ||| i <<< 5, 0, 0⟩

/-- The second half with a table, on top of the first. -/
def encodeSecond (pIn : ℕ → UInt8) (inMask : ℕ) (flipped : Bool) (firstHalf : etc_compressed) (j : ℕ) :
    etc_compressed :=
  etc_encode_subblock_helper pIn inMask flipped true ((baseColors pIn inMask flipped).1 true) (tableAt j)
    ⟨firstHalf.high ||| j <<< 2, firstHalf.low, firstHalf.score⟩

def firstStart (pIn : ℕ → UInt8) (inMask : ℕ) (flipped : Bool) : etc_compressed :=
  ⟨(if flipped then 1 else 0) ||| (baseColors pIn inMask flipped).2, 0, 2 ^ 32 - 1⟩

def bestFirst (pIn : ℕ → UInt8) (inMask : ℕ) (flipped : Bool) : etc_compressed :=
  (List.range 8).foldl (fun compressed i ↦ take_best compressed (encodeFirst pIn inMask flipped i))
    (firstStart pIn inMask flipped)

section

variable (pIn : ℕ → UInt8) (inMask : ℕ) (flipped : Bool)

theorem etc_encode_block_helper_eq :
    etc_encode_block_helper pIn inMask flipped = (List.range 8).foldl (fun compressed j ↦
      if j = 0 then encodeSecond pIn inMask flipped (bestFirst pIn inMask flipped) j
      else take_best compressed (encodeSecond pIn inMask flipped (bestFirst pIn inMask flipped) j))
      (bestFirst pIn inMask flipped) := by
  simp only [etc_encode_block_helper, bestFirst, firstStart, encodeFirst, encodeSecond, tableAt]

theorem added_encodeFirst (i : ℕ) :
    Added pIn ((baseColors pIn inMask flipped).1 false) (tableAt i) (validPixels inMask flipped false)
      ⟨(if flipped then 1 else 0) ||| (baseColors pIn inMask flipped).2 ||| i <<< 5, 0, 0⟩
      (encodeFirst pIn inMask flipped i) :=
  added_half pIn inMask flipped false _ _ (Nat.zero_le _)

theorem score_encodeFirst (i : ℕ) : (encodeFirst pIn inMask flipped i).score = halfError pIn inMask flipped false i :=
  (added_encodeFirst pIn inMask flipped i).score.trans (Nat.zero_add _)

theorem added_encodeSecond (i j : ℕ) :
    Added pIn ((baseColors pIn inMask flipped).1 true) (tableAt j) (validPixels inMask flipped true)
      ⟨(encodeFirst pIn inMask flipped i).high ||| j <<< 2, (encodeFirst pIn inMask flipped i).low,
        (encodeFirst pIn inMask flipped i).score⟩
      (encodeSecond pIn inMask flipped (encodeFirst pIn inMask flipped i) j) :=
  added_half pIn inMask flipped true _ _
    ((score_encodeFirst pIn inMask flipped i).trans_le (halfError_le pIn inMask flipped false i))

theorem score_encodeSecond (i j : ℕ) : (encodeSecond pIn inMask flipped (encodeFirst pIn inMask flipped i) j).score =
      halfError pIn inMask flipped false i + halfError pIn inMask flipped true j := by
  rw [(added_encodeSecond pIn inMask flipped i j).score, score_encodeFirst]
  rfl

end

/-- The indices that both halves leave in `low`. -/
theorem low_bit_of_halves (bit : ℕ → Bool) {second : Bool} {i j : ℕ} {pixel : ℕ × ℕ} {zero first last : Bool}
    (hpixel : pixel ∈ validPixels inMask flipped second) (hzero : zero = false)
    (hfirst : first = (zero || (decide (pixel ∈ validPixels inMask flipped false) &&
      bit (indexWith pIn inMask flipped false i pixel))))
    (hlast : last = (first || (decide (pixel ∈ validPixels inMask flipped true) &&
      bit (indexWith pIn inMask flipped true j pixel)))) :
    last = bit (indexWith pIn inMask flipped second (if second then j else i) pixel) := by
  have hother := not_mem_validPixels_not hpixel
  cases second with
  | false =>
    rw [Bool.not_false] at hother
    rw [hlast, hfirst, hzero, decide_eq_true hpixel, decide_eq_false hother, Bool.false_and, Bool.or_false,
      Bool.false_or, Bool.true_and]
    rfl
  | true =>
    rw [Bool.not_true] at hother
    rw [hlast, hfirst, hzero, decide_eq_true hpixel, decide_eq_false hother, Bool.false_and, Bool.or_false,
      Bool.false_or, Bool.true_and]
    rfl

theorem encodedWith (pIn : ℕ → UInt8) (inMask : ℕ) (flipped : Bool) (i j : ℕ) :
    EncodedWith pIn inMask flipped i j (encodeSecond pIn inMask flipped (encodeFirst pIn inMask flipped i) j) := by
  have hfirst := added_encodeFirst pIn inMask flipped i
  have hsecond := added_encodeSecond pIn inMask flipped i j
  refine ⟨?_, score_encodeSecond pIn inMask flipped i j, fun second pixel hpixel ↦ ?_, fun second pixel hpixel ↦ ?_⟩
  · rw [hsecond.high, hfirst.high]
  · have hblock := (inBlock_of_mem_validPixels hpixel).1
    exact low_bit_of_halves (fun index ↦ index.testBit 0) hpixel (Nat.zero_testBit _)
      (hfirst.lsb pixel hblock) (hsecond.lsb pixel hblock)
  · have hblock := (inBlock_of_mem_validPixels hpixel).1
    exact low_bit_of_halves (fun index ↦ index.testBit 1) hpixel (Nat.zero_testBit _)
      (hfirst.msb pixel hblock) (hsecond.msb pixel hblock)

/-- Both tables are chosen with the least error. -/
theorem exists_encodedWith (pIn : ℕ → UInt8) (inMask : ℕ) (flipped : Bool) :
    ∃ i < 8, ∃ j < 8, EncodedWith pIn inMask flipped i j (etc_encode_block_helper pIn inMask flipped) ∧
      ∀ k < 8, ∀ l < 8, (etc_encode_block_helper pIn inMask flipped).score ≤
        halfError pIn inMask flipped false k + halfError pIn inMask flipped true l := by
  have hstart : (encodeFirst pIn inMask flipped 0).score < (firstStart pIn inMask flipped).score := by
    have hle := halfError_le pIn inMask flipped false 0
    rw [score_encodeFirst]
    exact hle.trans_lt (show 8 * 650250 < 2 ^ 32 - 1 by decide)
  obtain ⟨i, hi, hchosen, hleast⟩ := exists_best_table hstart
  rw [← bestFirst] at hchosen
  obtain ⟨j, hj, hfound, hleastSecond⟩ := exists_best_table_from_first
    (encodeSecond pIn inMask flipped (bestFirst pIn inMask flipped)) (bestFirst pIn inMask flipped)
  rw [← etc_encode_block_helper_eq] at hfound
  rw [hchosen] at hfound hleastSecond
  rw [hfound]
  refine ⟨i, hi, j, hj, encodedWith pIn inMask flipped i j, fun k hk l hl ↦ ?_⟩
  have hfirst := hleast k hk
  have hsecond := hleastSecond l hl
  rw [score_encodeFirst, score_encodeFirst] at hfirst
  rw [score_encodeSecond, score_encodeSecond] at hsecond
  rw [score_encodeSecond]
  omega

end Tables

/-! ## The words of the block -/

section Words

variable {pIn : ℕ → UInt8} {inMask : ℕ} {pOut : ℤ} {memory : ByteMemory}

/-- The block where it was written. -/
def encodedBlock (pIn : ℕ → UInt8) (inMask : ℕ) (pOut : ℤ) (memory : ByteMemory) : ℕ → UInt8 :=
  fun i ↦ storeAll (etc1_encode_block pIn inMask pOut) memory (pOut + i)

theorem toNat_of_holds_writeBigEndian {address : ℤ} {d : ℕ} (h : memory.Holds address (writeBigEndian d)) :
    ∀ i < 4, (memory (address + (i : ℕ))).toNat = d / 2 ^ (24 - 8 * i) % 256
  | 0, hi => by rw [h ⟨0, hi⟩]; exact (UInt8.toNat_ofNat' ..).trans (by rw [Nat.shiftRight_eq_div_pow])
  | 1, hi => by rw [h ⟨1, hi⟩]; exact (UInt8.toNat_ofNat' ..).trans (by rw [Nat.shiftRight_eq_div_pow])
  | 2, hi => by rw [h ⟨2, hi⟩]; exact (UInt8.toNat_ofNat' ..).trans (by rw [Nat.shiftRight_eq_div_pow])
  | 3, hi => by rw [h ⟨3, hi⟩]; exact (UInt8.toNat_ofNat' ..).trans (by rw [pow_zero, Nat.div_one])

theorem int64bit_encodedBlock (pIn : ℕ → UInt8) (inMask : ℕ) (pOut : ℤ) (memory : ByteMemory) :
    Layout.int64bit (encodedBlock pIn inMask pOut memory) =
      (etc1_best pIn inMask).high % 2 ^ 32 * 2 ^ 32 + (etc1_best pIn inMask).low % 2 ^ 32 := by
  have happart : (etc1_encode_block pIn inMask pOut).Pairwise Store.Apart := List.pairwise_pair.mpr (.inl le_rfl)
  have hhigh : ∀ i < 4, (encodedBlock pIn inMask pOut memory i).toNat =
      (etc1_best pIn inMask).high / 2 ^ (24 - 8 * i) % 256 :=
    toNat_of_holds_writeBigEndian (holds_storeAll happart List.mem_cons_self)
  have hlow : ∀ i < 4, (encodedBlock pIn inMask pOut memory (4 + i)).toNat =
      (etc1_best pIn inMask).low / 2 ^ (24 - 8 * i) % 256 := by
    intro i hi
    rw [encodedBlock, Nat.cast_add, ← add_assoc]
    exact toNat_of_holds_writeBigEndian (holds_storeAll happart (List.mem_cons_of_mem _ List.mem_cons_self)) i hi
  rw [Layout.int64bit, hhigh 0 (by decide), hhigh 1 (by decide), hhigh 2 (by decide), hhigh 3 (by decide),
    hlow 0 (by decide), hlow 1 (by decide), hlow 2 (by decide), hlow 3 (by decide)]
  simp only [Nat.reduceMul, Nat.reduceSub, Nat.reducePow]
  omega

end Words

section Fields

variable {r1 g1 b1 r2 g2 b2 dr dg db i j flip : ℕ}

theorem or_first_last (a b c d : ℕ) : a ||| b ||| c ||| d = b ||| c ||| d ||| a := by ac_rfl

theorem or_first_two_last (a b c d e : ℕ) : a ||| (b ||| c) ||| d ||| e = b ||| d ||| e ||| c ||| a := by ac_rfl

/-- What an individual block has in the upper word. -/
theorem high_individual (hr1 : r1 < 16) (hg1 : g1 < 16) (hb1 : b1 < 16) (hr2 : r2 < 16) (hg2 : g2 < 16)
    (hb2 : b2 < 16) (hi : i < 8) (hj : j < 8) (hflip : flip < 2) :
    flip ||| (r1 <<< 28 ||| r2 <<< 24 ||| g1 <<< 20 ||| g2 <<< 16 ||| b1 <<< 12 ||| b2 <<< 8) ||| i <<< 5 |||
        j <<< 2 =
      r1 * 2 ^ 28 + r2 * 2 ^ 24 + g1 * 2 ^ 20 + g2 * 2 ^ 16 + b1 * 2 ^ 12 + b2 * 2 ^ 8 + i * 2 ^ 5 + j * 2 ^ 2 +
        flip := by
  rw [or_first_last, Nat.shiftLeft_eq r1, or_shiftLeft r2 24 (k := 28) (by omega) (by omega),
    or_shiftLeft g1 20 (k := 24) (by omega) (by omega), or_shiftLeft g2 16 (k := 20) (by omega) (by omega),
    or_shiftLeft b1 12 (k := 16) (by omega) (by omega), or_shiftLeft b2 8 (k := 12) (by omega) (by omega),
    or_shiftLeft i 5 (k := 8) (by omega) (by omega), or_shiftLeft j 2 (k := 5) (by omega) (by omega),
    or_eq_add (k := 2) (by omega) (by omega)]

/-- What a differential block has in the upper word. -/
theorem high_differential (hr1 : r1 < 32) (hg1 : g1 < 32) (hb1 : b1 < 32) (hdr : dr < 8) (hdg : dg < 8) (hdb : db < 8)
    (hi : i < 8) (hj : j < 8) (hflip : flip < 2) :
    flip ||| (r1 <<< 27 ||| dr <<< 24 ||| g1 <<< 19 ||| dg <<< 16 ||| b1 <<< 11 ||| db <<< 8 ||| 2) ||| i <<< 5 |||
        j <<< 2 =
      r1 * 2 ^ 27 + dr * 2 ^ 24 + g1 * 2 ^ 19 + dg * 2 ^ 16 + b1 * 2 ^ 11 + db * 2 ^ 8 + i * 2 ^ 5 + j * 2 ^ 2 + 2 +
        flip := by
  rw [or_first_two_last, Nat.shiftLeft_eq r1, or_shiftLeft dr 24 (k := 27) (by omega) (by omega),
    or_shiftLeft g1 19 (k := 24) (by omega) (by omega), or_shiftLeft dg 16 (k := 19) (by omega) (by omega),
    or_shiftLeft b1 11 (k := 16) (by omega) (by omega), or_shiftLeft db 8 (k := 11) (by omega) (by omega),
    or_shiftLeft i 5 (k := 8) (by omega) (by omega), or_shiftLeft j 2 (k := 5) (by omega) (by omega),
    or_eq_add (b := 2) (k := 2) (by omega) (by decide), or_eq_add (k := 1) (by omega) (by omega)]

end Fields

/-! ## What the decoder finds -/

section Modes

variable {pIn : ℕ → UInt8} {inMask high low i j : ℕ} {flipped : Bool} {first second : Layout.Colour}

/-- The flip bit, the codewords and the base colours of a block are those of the encoder. -/
structure Encodes (block i j : ℕ) (flipped : Bool) (base : Bool → Layout.Colour) : Prop where
  flip : flipped = true ↔ field block 32 32 = 1
  first : Layout.codeword block false = i
  second : Layout.codeword block true = j
  mode : Layout.mode block false = .individual ∧ Layout.individualBase block = base ∨
    Layout.mode block false = .differential ∧ Layout.differentialBase block = base

variable {block : ℕ}

theorem convert8To5_lt (b : ℤ) : convert8To5 b < 32 := by
  simp only [convert8To5, divideBy255, Nat.shiftRight_eq_div_pow]
  omega

theorem convert8To4_lt (b : ℤ) : convert8To4 b < 16 := by
  simp only [convert8To4, divideBy255, Nat.shiftRight_eq_div_pow]
  omega

theorem bits3_lt (v : ℤ) : bits3 v < 8 := by
  rw [bits3]
  omega

theorem signed3_bits3 {v : ℤ} (h : inRange4bitSigned v = true) : Layout.signed3 (bits3 v) = v := by
  rw [inRange4bitSigned, decide_eq_true_eq] at h
  rw [Layout.signed3, bits3]
  split_ifs <;> omega

/-- A field of the upper word of the block. -/
theorem field_block {v : ℕ} (hblock : block = high % 2 ^ 32 * 2 ^ 32 + low % 2 ^ 32) (top bottom : ℕ)
    (hle : bottom ≤ top) (htop : top < 32) (hvalue : high / 2 ^ bottom % 2 ^ (top - bottom + 1) = v) :
    field block (32 + top) (32 + bottom) = v := by
  rw [hblock, field_upper (Nat.mod_lt _ (by decide)), field_mod hle htop, field, hvalue]

theorem encodes_individual {r1 g1 b1 r2 g2 b2 : ℕ} (hr1 : r1 < 16) (hg1 : g1 < 16) (hb1 : b1 < 16)
    (hr2 : r2 < 16) (hg2 : g2 < 16) (hb2 : b2 < 16) (hi : i < 8) (hj : j < 8)
    (hblock : block = high % 2 ^ 32 * 2 ^ 32 + low % 2 ^ 32)
    (hhigh : high = (if flipped then 1 else 0) ||| (r1 <<< 28 ||| r2 <<< 24 ||| g1 <<< 20 ||| g2 <<< 16 ||| b1 <<< 12 ||| b2 <<< 8) ||| i <<< 5 ||| j <<< 2) :
    Encodes block i j flipped fun half ↦
      if half then ⟨convert4To8 r2, convert4To8 g2, convert4To8 b2⟩
      else ⟨convert4To8 r1, convert4To8 g1, convert4To8 b1⟩ := by
  have hflip : (if flipped then 1 else 0) < 2 := by cases flipped <;> decide
  have hone : flipped = true ↔ (if flipped then 1 else 0) = 1 := by cases flipped <;> decide
  rw [high_individual hr1 hg1 hb1 hr2 hg2 hb2 hi hj hflip] at hhigh
  have hfield := fun top bottom v ↦ field_block (v := v) hblock top bottom
  rw [hhigh] at hfield
  have h63 : field block 63 60 = r1 := hfield 31 28 r1 (by decide) (by decide) (by omega)
  have h59 : field block 59 56 = r2 := hfield 27 24 r2 (by decide) (by decide) (by omega)
  have h55 : field block 55 52 = g1 := hfield 23 20 g1 (by decide) (by decide) (by omega)
  have h51 : field block 51 48 = g2 := hfield 19 16 g2 (by decide) (by decide) (by omega)
  have h47 : field block 47 44 = b1 := hfield 15 12 b1 (by decide) (by decide) (by omega)
  have h43 : field block 43 40 = b2 := hfield 11 8 b2 (by decide) (by decide) (by omega)
  have h39 : field block 39 37 = i := hfield 7 5 i (by decide) (by decide) (by omega)
  have h36 : field block 36 34 = j := hfield 4 2 j (by decide) (by decide) (by omega)
  have h33 : field block 33 33 = 0 := hfield 1 1 0 (by decide) (by decide) (by omega)
  have h32 : field block 32 32 = if flipped then 1 else 0 := hfield 0 0 _ (by decide) (by decide) (by omega)
  refine ⟨h32 ▸ hone, h39, h36, .inl ⟨if_pos ⟨rfl, h33⟩, funext fun half ↦ ?_⟩⟩
  simp only [Layout.individualBase, h63, h59, h55, h51, h47, h43, convert4To8_eq, mod_eq_of_lt hr1,
    mod_eq_of_lt hg1, mod_eq_of_lt hb1, mod_eq_of_lt hr2, mod_eq_of_lt hg2, mod_eq_of_lt hb2]

/-- A differential colour stays in its 5 bits, as it is the rounded colour of the other half. -/
theorem sum5_eq {r1 r2 : ℕ} (top : ℕ) (hr2 : r2 < 32) (hrange : inRange4bitSigned (r2 - r1) = true)
    (hbase : field block top (top - 4) = r1) (hdiff : field block (top - 5) (top - 7) = bits3 (r2 - r1)) :
    Layout.sum5 block top = r2 ∧ Layout.overflows block top = false := by
  have hsum : Layout.sum5 block top = r2 := by
    rw [Layout.sum5, hbase, hdiff, signed3_bits3 hrange]
    omega
  refine ⟨hsum, ?_⟩
  rw [Layout.overflows, hsum, decide_eq_false_iff_not]
  omega

theorem encodes_differential {r1 g1 b1 r2 g2 b2 : ℕ} (hr1 : r1 < 32) (hg1 : g1 < 32) (hb1 : b1 < 32)
    (hr2 : r2 < 32) (hg2 : g2 < 32) (hb2 : b2 < 32) (hi : i < 8) (hj : j < 8)
    (hr : inRange4bitSigned (r2 - r1) = true) (hg : inRange4bitSigned (g2 - g1) = true)
    (hb : inRange4bitSigned (b2 - b1) = true) (hblock : block = high % 2 ^ 32 * 2 ^ 32 + low % 2 ^ 32)
    (hhigh : high = (if flipped then 1 else 0) ||| (r1 <<< 27 ||| bits3 (r2 - r1) <<< 24 ||| g1 <<< 19 ||| bits3 (g2 - g1) <<< 16 ||| b1 <<< 11 ||| bits3 (b2 - b1) <<< 8 ||| 2) ||| i <<< 5 ||| j <<< 2) :
    Encodes block i j flipped fun half ↦
      if half then ⟨convert5To8 (r1 + (r2 - r1 : ℤ)).toNat, convert5To8 (g1 + (g2 - g1 : ℤ)).toNat,
        convert5To8 (b1 + (b2 - b1 : ℤ)).toNat⟩
      else ⟨convert5To8 r1, convert5To8 g1, convert5To8 b1⟩ := by
  have hflip : (if flipped then 1 else 0) < 2 := by cases flipped <;> decide
  have hone : flipped = true ↔ (if flipped then 1 else 0) = 1 := by cases flipped <;> decide
  have hdr := bits3_lt (r2 - r1)
  have hdg := bits3_lt (g2 - g1)
  have hdb := bits3_lt (b2 - b1)
  rw [high_differential hr1 hg1 hb1 hdr hdg hdb hi hj hflip] at hhigh
  have hfield := fun top bottom v ↦ field_block (v := v) hblock top bottom
  rw [hhigh] at hfield
  have h63 : field block 63 59 = r1 := hfield 31 27 r1 (by decide) (by decide) (by omega)
  have h58 : field block 58 56 = bits3 (r2 - r1) := hfield 26 24 _ (by decide) (by decide) (by omega)
  have h55 : field block 55 51 = g1 := hfield 23 19 g1 (by decide) (by decide) (by omega)
  have h50 : field block 50 48 = bits3 (g2 - g1) := hfield 18 16 _ (by decide) (by decide) (by omega)
  have h47 : field block 47 43 = b1 := hfield 15 11 b1 (by decide) (by decide) (by omega)
  have h42 : field block 42 40 = bits3 (b2 - b1) := hfield 10 8 _ (by decide) (by decide) (by omega)
  have h39 : field block 39 37 = i := hfield 7 5 i (by decide) (by decide) (by omega)
  have h36 : field block 36 34 = j := hfield 4 2 j (by decide) (by decide) (by omega)
  have h33 : field block 33 33 = 1 := hfield 1 1 1 (by decide) (by decide) (by omega)
  have h32 : field block 32 32 = if flipped then 1 else 0 := hfield 0 0 _ (by decide) (by decide) (by omega)
  obtain ⟨hsumR, hred⟩ := sum5_eq 63 hr2 hr h63 h58
  obtain ⟨hsumG, hgreen⟩ := sum5_eq 55 hg2 hg h55 h50
  obtain ⟨hsumB, hblue⟩ := sum5_eq 47 hb2 hb h47 h42
  have hmode : Layout.mode block false = .differential := by
    rw [Layout.mode, if_neg (by rw [h33]; decide), hred, hgreen, hblue]
    rfl
  refine ⟨h32 ▸ hone, h39, h36, .inr ⟨hmode, funext fun half ↦ ?_⟩⟩
  simp only [Layout.differentialBase, h63, h55, h47, hsumR, hsumG, hsumB, Int.toNat_natCast, convert5To8_eq,
    mod_eq_of_lt hr1, mod_eq_of_lt hg1, mod_eq_of_lt hb1, add_sub_cancel, mod_eq_of_lt hr2,
    mod_eq_of_lt hg2, mod_eq_of_lt hb2]

/-- Whatever colours the halves have, the decoder finds the base colours that the encoder took. -/
theorem encodes_baseColors (hi : i < 8) (hj : j < 8) (hblock : block = high % 2 ^ 32 * 2 ^ 32 + low % 2 ^ 32)
    (hhigh : high = (if flipped then 1 else 0) ||| (etc_encodeBaseColors first second).2 ||| i <<< 5 ||| j <<< 2) :
    Encodes block i j flipped (etc_encodeBaseColors first second).1 := by
  simp only [etc_encodeBaseColors] at hhigh ⊢
  by_cases hrange : inRange4bitSigned ((convert8To5 second.r : ℤ) - convert8To5 first.r) = true ∧
      inRange4bitSigned ((convert8To5 second.g : ℤ) - convert8To5 first.g) = true ∧
      inRange4bitSigned ((convert8To5 second.b : ℤ) - convert8To5 first.b) = true
  · rw [if_pos hrange] at hhigh ⊢
    exact encodes_differential (convert8To5_lt _) (convert8To5_lt _) (convert8To5_lt _) (convert8To5_lt _)
      (convert8To5_lt _) (convert8To5_lt _) hi hj hrange.1 hrange.2.1 hrange.2.2 hblock hhigh
  · rw [if_neg hrange] at hhigh ⊢
    exact encodes_individual (convert8To4_lt _) (convert8To4_lt _) (convert8To4_lt _) (convert8To4_lt _)
      (convert8To4_lt _) (convert8To4_lt _) hi hj hblock hhigh

end Modes

/-! ## Encoded and decoded -/

section RoundTrip

variable {pIn : ℕ → UInt8} {inMask i j block : ℕ} {pOut : ℤ} {memory : ByteMemory} {flipped : Bool}

def allPixels : List (ℕ × ℕ) := (List.range 4).flatMap fun y ↦ (List.range 4).map fun x ↦ (x, y)

/-- The error of decoded pixels, over those that count. -/
def blockError (pIn : ℕ → UInt8) (inMask : ℕ) (decoded : ℕ × ℕ → Layout.Colour) : ℕ :=
  ((allPixels.filter (isValid inMask)).map fun pixel ↦ weightedError (decoded pixel) (pixelAt pIn pixel)).sum

/-- Whether a pixel is in the second half. -/
def half (flipped : Bool) (pixel : ℕ × ℕ) : Bool := if flipped then 2 ≤ pixel.2 else 2 ≤ pixel.1

/-- What the decoder writes for a block. -/
def decodedBlock (block : ℕ → UInt8) (pOut : ℤ) (memory : ByteMemory) : ℕ → UInt8 :=
  fun i ↦ storeAll (etc2_decode_rgb_block block false pOut) memory (pOut + i)

/-- The error of the pixels of a half. -/
def errorOf (pIn : ℕ → UInt8) (decoded : ℕ × ℕ → Layout.Colour) (pixels : List (ℕ × ℕ)) : ℕ :=
  (pixels.map fun pixel ↦ weightedError (decoded pixel) (pixelAt pIn pixel)).sum

theorem allPixels_perm : ∀ flipped, allPixels.Perm (loopPixels flipped false ++ loopPixels flipped true) := by decide

/-- The errors of both halves make up that of the block. -/
theorem blockError_eq (pIn : ℕ → UInt8) (inMask : ℕ) (flipped : Bool) (decoded : ℕ × ℕ → Layout.Colour) :
    blockError pIn inMask decoded = errorOf pIn decoded (validPixels inMask flipped false) +
      errorOf pIn decoded (validPixels inMask flipped true) := by
  have hperm : (allPixels.filter (isValid inMask)).Perm
      (validPixels inMask flipped false ++ validPixels inMask flipped true) := by
    rw [validPixels, validPixels, ← List.filter_append]
    exact (allPixels_perm flipped).filter _
  rw [blockError, (hperm.map _).sum_eq, List.map_append, List.sum_append, errorOf, errorOf]

theorem half_eq {second : Bool} {pixel : ℕ × ℕ} (h : pixel ∈ validPixels inMask flipped second) :
    half flipped pixel = second := by
  rw [Bool.eq_iff_iff, (inBlock_of_mem_validPixels h).2, half]
  cases flipped <;> simp

section

variable (pIn : ℕ → UInt8) (base : Layout.Colour) (table : List ℤ)

/-- No other indices have less error than the chosen ones. -/
theorem leastError_le_errorOf {index : ℕ × ℕ → ℕ} (hindex : ∀ pixel, index pixel < 4) (pixels : List (ℕ × ℕ)) :
    leastError pIn base table pixels ≤ errorOf pIn (fun pixel ↦ base.add (table.getD (index pixel) 0)) pixels := by
  refine List.sum_le_sum fun pixel _ ↦ ?_
  exact (chooseModifier_spec base table (inBytes_pixelAt pIn pixel)).2.2 (index pixel) (hindex pixel)

theorem leastError_eq_errorOf (pixels : List (ℕ × ℕ)) : leastError pIn base table pixels =
      errorOf pIn (fun pixel ↦ base.add (table.getD (chosenIndex pIn base table pixel) 0)) pixels := by
  refine congrArg List.sum (List.map_congr_left fun pixel _ ↦ ?_)
  exact (chooseModifier_spec base table (inBytes_pixelAt pIn pixel)).2.1

end

theorem errorOf_congr {decoded other : ℕ × ℕ → Layout.Colour} {pixels : List (ℕ × ℕ)}
    (h : ∀ pixel ∈ pixels, decoded pixel = other pixel) : errorOf pIn decoded pixels = errorOf pIn other pixels :=
  congrArg List.sum (List.map_congr_left fun pixel hpixel ↦ by rw [h pixel hpixel])

theorem toNat_toByte {v : ℤ} (hv : 0 ≤ v ∧ v ≤ 255) : ((toByte v).toNat : ℤ) = v := by
  have hsmall : (v % 2 ^ 8).toNat < 2 ^ 8 := by omega
  rw [toByte, UInt8.ofInt, UInt8.toNat_ofNat_of_lt' hsmall]
  omega

/-- Bytes in memory are read as the colour that was written. -/
theorem pixelAt_decodedBlock (block : ℕ → UInt8) (pOut : ℤ) (memory : ByteMemory) {pixel : ℕ × ℕ}
    {colour : Layout.Colour} (hpixel : InBlock pixel) (hbytes : InBytes colour)
    (hcolour : Layout.pixel (Layout.int64bit block) false pixel.1 pixel.2 = some colour) :
    pixelAt (decodedBlock block pOut memory) pixel = colour := by
  have hholds := holds_etc2_decode_rgb_block block false pOut memory hpixel.1 hpixel.2
  rw [hcolour] at hholds
  have hlength : (colourBytes false (some colour)).length = 3 := rfl
  have hplace : ∀ k : ℕ, decodedBlock block pOut memory ((pixel.1 + 4 * pixel.2) * 3 + k) =
      storeAll (etc2_decode_rgb_block block false pOut) memory
        (pOut + channels false * (pixel.1 + 4 * pixel.2 : ℕ) + k) := by
    intro k
    rw [decodedBlock, channels, if_neg Bool.false_ne_true]
    congr 1
    push_cast
    ring
  have hr : decodedBlock block pOut memory ((pixel.1 + 4 * pixel.2) * 3) = toByte colour.r :=
    (hplace 0).trans (hholds ⟨0, show 0 < 3 by decide⟩)
  have hg : decodedBlock block pOut memory ((pixel.1 + 4 * pixel.2) * 3 + 1) = toByte colour.g :=
    (hplace 1).trans (hholds ⟨1, show 1 < 3 by decide⟩)
  have hb : decodedBlock block pOut memory ((pixel.1 + 4 * pixel.2) * 3 + 2) = toByte colour.b :=
    (hplace 2).trans (hholds ⟨2, show 2 < 3 by decide⟩)
  rw [pixelAt, hr, hg, hb, toNat_toByte hbytes.r, toNat_toByte hbytes.g, toNat_toByte hbytes.b]

/-- The index of a pixel that the decoder finds. -/
def decodedIndex (block : ℕ) (pixel : ℕ × ℕ) : ℕ :=
  2 * Layout.msb block pixel.1 pixel.2 + Layout.lsb block pixel.1 pixel.2

/-- A block of the encoder decodes to base colours with modifiers. -/
theorem pixel_of_encodes {base : Bool → Layout.Colour} (h : Encodes block i j flipped base) (hi : i < 8) (hj : j < 8)
    (pixel : ℕ × ℕ) : Layout.pixel block false pixel.1 pixel.2 = some ((base (half flipped pixel)).add
      ((tableAt (if half flipped pixel then j else i)).getD (decodedIndex block pixel) 0)) := by
  have hsecond : Layout.inSecond block pixel.1 pixel.2 = half flipped pixel := by
    rw [Layout.inSecond, half]
    simp only [← h.flip]
  have hcodeword : Layout.codeword block (half flipped pixel) = if half flipped pixel then j else i := by
    cases half flipped pixel
    · exact h.first
    · exact h.second
  have hlt : (if half flipped pixel then j else i) < 8 := by split_ifs <;> assumption
  have hmodifier := (modifier_eq _ hlt _ (msb_lt block pixel.1 pixel.2) _ (lsb_lt block pixel.1 pixel.2)).1
  have hsolid : Layout.opaqueBit block false = true := decide_eq_true (.inl rfl)
  have hshaded : ∀ colours : Bool → Layout.Colour, colours = base →
      Layout.shaded block false pixel.1 pixel.2 colours = (base (half flipped pixel)).add
        ((tableAt (if half flipped pixel then j else i)).getD (decodedIndex block pixel) 0) := by
    rintro _ rfl
    rw [Layout.shaded, hsecond, hcodeword, hsolid, ← hmodifier, tableAt, decodedIndex, Nat.mul_comm 4]
  rw [Layout.pixel, hsolid, if_neg (fun h ↦ Bool.noConfusion h.1)]
  obtain ⟨hmode, hbase⟩ | ⟨hmode, hbase⟩ := h.mode
  · rw [hmode, ← hshaded _ hbase]
  · rw [hmode, ← hshaded _ hbase]

theorem toNat_field_low {high low k : ℕ} (hblock : block = high % 2 ^ 32 * 2 ^ 32 + low % 2 ^ 32) (hk : k < 32) :
    field block k k = (low.testBit k).toNat := by
  have hlow : block % 2 ^ 32 = low % 2 ^ 32 := by omega
  rw [← field_mod le_rfl hk, hlow, field_mod le_rfl hk, field, Nat.sub_self, zero_add, pow_one, Nat.toNat_testBit]

theorem index_eq_bits : ∀ index < 4, 2 * (index.testBit 1).toNat + (index.testBit 0).toNat = index := by decide

section

variable {encoded : etc_compressed} {second : Bool} (h : EncodedWith pIn inMask flipped i j encoded)
include h

/-- The decoder finds the indices of the encoder. -/
theorem decodedIndex_eq {pixel : ℕ × ℕ} (hblock : block = encoded.high % 2 ^ 32 * 2 ^ 32 + encoded.low % 2 ^ 32)
    (hpixel : pixel ∈ validPixels inMask flipped second) :
    decodedIndex block pixel = indexWith pIn inMask flipped second (if second then j else i) pixel := by
  obtain ⟨hx, hy⟩ := (inBlock_of_mem_validPixels hpixel).1
  have hindex : indexWith pIn inMask flipped second (if second then j else i) pixel < 4 :=
    (chooseModifier_spec _ _ (inBytes_pixelAt pIn pixel)).1
  rw [decodedIndex, Layout.msb, Layout.lsb, toNat_field_low hblock (by omega), toNat_field_low hblock (by omega),
    h.lsb second pixel hpixel, h.msb second pixel hpixel]
  exact index_eq_bits _ hindex

/-- The decoded half has the least error. -/
theorem errorOf_decodedBlock {bytes : ℕ → UInt8} (hi : i < 8) (hj : j < 8)
    (hblock : Layout.int64bit bytes = encoded.high % 2 ^ 32 * 2 ^ 32 + encoded.low % 2 ^ 32) :
    errorOf pIn (pixelAt (decodedBlock bytes pOut memory)) (validPixels inMask flipped second) =
      halfError pIn inMask flipped second (if second then j else i) := by
  have hencodes := encodes_baseColors hi hj hblock h.high
  rw [halfError, leastError_eq_errorOf]
  refine errorOf_congr fun pixel hpixel ↦ ?_
  have hcolour := pixel_of_encodes hencodes hi hj pixel
  rw [half_eq hpixel, decodedIndex_eq h hblock hpixel] at hcolour
  exact pixelAt_decodedBlock bytes pOut memory (inBlock_of_mem_validPixels hpixel).1 (inBytes_add _ _) hcolour

end

theorem etc1_best_cases (pIn : ℕ → UInt8) (inMask : ℕ) : ∃ flipped,
    etc1_best pIn inMask = etc_encode_block_helper pIn inMask flipped ∧
      ∀ other, (etc1_best pIn inMask).score ≤ (etc_encode_block_helper pIn inMask other).score := by
  have hbest : etc1_best pIn inMask = better etc_compressed.score (etc_encode_block_helper pIn inMask false)
      (etc_encode_block_helper pIn inMask true) := by
    rw [etc1_best, take_best, better]
  rw [hbest]
  generalize hencode : etc_encode_block_helper pIn inMask = encode
  have hle := better_le etc_compressed.score (encode false) (encode true)
  have hleast : ∀ other, (better etc_compressed.score (encode false) (encode true)).score ≤ (encode other).score := by
    rintro (_ | _)
    · exact hle.1
    · exact hle.2
  obtain hfirst | hsecond := better_cases etc_compressed.score (encode false) (encode true)
  · exact ⟨false, hfirst, hleast⟩
  · exact ⟨true, hsecond, hleast⟩

/-- The encoder and the decoder fit together, and no other tables and indices have less error. -/
structure EncodesBlock (pIn : ℕ → UInt8) (inMask : ℕ) (block : ℕ → UInt8) : Prop where
  mode : ∃ flipped, (flipped = true ↔ field (Layout.int64bit block) 32 32 = 1) ∧
    (Layout.mode (Layout.int64bit block) false = .individual ∧
        Layout.individualBase (Layout.int64bit block) = (baseColors pIn inMask flipped).1 ∨
      Layout.mode (Layout.int64bit block) false = .differential ∧
        Layout.differentialBase (Layout.int64bit block) = (baseColors pIn inMask flipped).1)
  score : ∀ pOut memory,
    blockError pIn inMask (pixelAt (decodedBlock block pOut memory)) = (etc1_best pIn inMask).score
  minimal : ∀ (flipped : Bool) (table : Bool → ℕ) (index : ℕ × ℕ → ℕ), (∀ second, table second < 8) →
    (∀ pixel, index pixel < 4) → (etc1_best pIn inMask).score ≤ blockError pIn inMask fun pixel ↦
      ((baseColors pIn inMask flipped).1 (half flipped pixel)).add
        ((kRGBModifierTable.drop (4 * table (half flipped pixel))).getD (index pixel) 0)

/-- The error of a block with given tables and indices. -/
theorem halfErrors_le_blockError (pIn : ℕ → UInt8) (inMask : ℕ) (flipped : Bool) (table : Bool → ℕ)
    {index : ℕ × ℕ → ℕ} (hindex : ∀ pixel, index pixel < 4) :
    halfError pIn inMask flipped false (table false) + halfError pIn inMask flipped true (table true) ≤
      blockError pIn inMask fun pixel ↦ ((baseColors pIn inMask flipped).1 (half flipped pixel)).add
        ((tableAt (table (half flipped pixel))).getD (index pixel) 0) := by
  have hhalf : ∀ second, halfError pIn inMask flipped second (table second) ≤
      errorOf pIn (fun pixel ↦ ((baseColors pIn inMask flipped).1 (half flipped pixel)).add
        ((tableAt (table (half flipped pixel))).getD (index pixel) 0)) (validPixels inMask flipped second) := by
    intro second
    refine (leastError_le_errorOf pIn _ _ hindex _).trans_eq (errorOf_congr fun pixel hpixel ↦ ?_)
    rw [half_eq hpixel]
  rw [blockError_eq pIn inMask flipped]
  exact Nat.add_le_add (hhalf false) (hhalf true)

end RoundTrip

/-- Every block is encoded to one that decodes with the least error. -/
theorem etc1_encode_block_spec (pIn : ℕ → UInt8) (inMask : ℕ) (pOut : ℤ) (memory : ByteMemory) :
    EncodesBlock pIn inMask (encodedBlock pIn inMask pOut memory) := by
  obtain ⟨flipped, hbest, hle⟩ := etc1_best_cases pIn inMask
  obtain ⟨i, hi, j, hj, hwith, _⟩ := exists_encodedWith pIn inMask flipped
  rw [← hbest] at hwith
  have hblock := int64bit_encodedBlock pIn inMask pOut memory
  have hencodes := encodes_baseColors hi hj hblock hwith.high
  refine ⟨⟨flipped, hencodes.flip, hencodes.mode⟩, fun pOut memory ↦ ?_, fun other table index htable hindex ↦ ?_⟩
  · rw [blockError_eq pIn inMask flipped, errorOf_decodedBlock hwith hi hj hblock,
      errorOf_decodedBlock hwith hi hj hblock, hwith.score]
    rfl
  · obtain ⟨_, _, _, _, _, hleast⟩ := exists_encodedWith pIn inMask other
    calc (etc1_best pIn inMask).score ≤ (etc_encode_block_helper pIn inMask other).score := hle other
      _ ≤ halfError pIn inMask other false (table false) + halfError pIn inMask other true (table true) :=
        hleast _ (htable false) _ (htable true)
      _ ≤ _ := halfErrors_le_blockError pIn inMask other table hindex

end FdeEmugl.Etc

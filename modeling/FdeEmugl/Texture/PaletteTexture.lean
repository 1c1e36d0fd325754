import FdeEmugl.Library.BitFields
import FdeEmugl.Library.ByteMemory
import Mathlib.Algebra.Order.BigOperators.Group.List
import Mathlib.Tactic.Linarith

/-!
# Expansion of paletted textures

The data begin with the palette, then come the indices of the mip levels. Of an index there are 4 or 8 bits, and an
entry of the palette has 2, 3 or 4 bytes.
-/

namespace FdeEmugl.Palette

open BitFields ByteMemory
open List (map_cons map_nil mem_range range_succ)

/-! ## The code -/

inductive PaletteFormat
  | PALETTE4_RGB8
  | PALETTE4_RGBA8
  | PALETTE4_R5_G6_B5
  | PALETTE4_RGBA4
  | PALETTE4_RGB5_A1
  | PALETTE8_RGB8
  | PALETTE8_RGBA8
  | PALETTE8_R5_G6_B5
  | PALETTE8_RGBA4
  | PALETTE8_RGB5_A1
  deriving DecidableEq

inductive ColorFormat
  | RGB
  | RGBA
  deriving DecidableEq

structure PaletteInfo where
  indexSizeBits : ℕ
  colorSizeBytes : ℕ
  colorFrmt : ColorFormat

def getPaletteInfo : PaletteFormat → PaletteInfo
  | .PALETTE4_RGB8 => ⟨4, 3, .RGB⟩
  | .PALETTE4_RGBA8 => ⟨4, 4, .RGBA⟩
  | .PALETTE4_RGBA4 => ⟨4, 2, .RGBA⟩
  | .PALETTE4_RGB5_A1 => ⟨4, 2, .RGBA⟩
  | .PALETTE4_R5_G6_B5 => ⟨4, 2, .RGB⟩
  | .PALETTE8_RGB8 => ⟨8, 3, .RGB⟩
  | .PALETTE8_RGBA8 => ⟨8, 4, .RGBA⟩
  | .PALETTE8_RGBA4 => ⟨8, 2, .RGBA⟩
  | .PALETTE8_RGB5_A1 => ⟨8, 2, .RGBA⟩
  | .PALETTE8_R5_G6_B5 => ⟨8, 2, .RGB⟩

structure Color where
  red : UInt8
  green : UInt8
  blue : UInt8
  alpha : UInt8

/-- A number in an `int`. -/
def toInt (v : ℤ) : ℤ := Int.bmod v (2 ^ 32)

/-- A `short` in memory, the low byte first. -/
def shortAt (memory : ByteMemory) (address : ℤ) : ℤ :=
  Int.bmod ((memory address).toNat + 256 * (memory (address + 1)).toNat) (2 ^ 16)

/-- The lowest bits of an `int`. -/
def lowBits (v : ℤ) (count : ℕ) : ℤ := v % 2 ^ count

/-- A channel that was computed as an `int`. -/
def channel (v max : ℤ) : UInt8 := UInt8.ofInt ((v * 255).tdiv max)

def paletteColor (pallete : ByteMemory) (index : ℤ) : PaletteFormat → Color
  | .PALETTE4_RGB8 | .PALETTE8_RGB8 => ⟨pallete index, pallete (index + 1), pallete (index + 2), 0⟩
  | .PALETTE8_R5_G6_B5 | .PALETTE4_R5_G6_B5 =>
    let s := shortAt pallete index
    ⟨channel (s >>> (11 : ℕ)) 31, channel (lowBits (s >>> (5 : ℕ)) 6) 63, channel (lowBits s 5) 31, 0⟩
  | .PALETTE4_RGBA8 | .PALETTE8_RGBA8 =>
    ⟨pallete index, pallete (index + 1), pallete (index + 2), pallete (index + 3)⟩
  | .PALETTE4_RGBA4 | .PALETTE8_RGBA4 =>
    let s := shortAt pallete index
    ⟨channel (lowBits (s >>> (12 : ℕ)) 4) 15, channel (lowBits (s >>> (8 : ℕ)) 4) 15,
      channel (lowBits (s >>> (4 : ℕ)) 4) 15, channel (lowBits s 4) 15⟩
  | .PALETTE4_RGB5_A1 | .PALETTE8_RGB5_A1 =>
    let s := shortAt pallete index
    ⟨channel (lowBits (s >>> (11 : ℕ)) 5) 31, channel (lowBits (s >>> (6 : ℕ)) 5) 31,
      channel (lowBits (s >>> (1 : ℕ)) 5) 31, UInt8.ofInt (lowBits s 1 * 255)⟩

/-- The places that `paletteColor` reads. -/
def paletteReads (index : ℤ) : PaletteFormat → List ℤ
  | .PALETTE4_RGB8 | .PALETTE8_RGB8 => [index, index + 1, index + 2]
  | .PALETTE4_RGBA8 | .PALETTE8_RGBA8 => [index, index + 1, index + 2, index + 3]
  | _ => [index, index + 1]

/-- Indices and sides of a level. -/
structure Level where
  imageIndices : ℤ
  width : ℤ
  height : ℤ

/-- The loop over the levels before. -/
def jumpTo (indexSizeBits : ℕ) : ℕ → Level → Level
  | 0, current => current
  | level + 1, current => jumpTo indexSizeBits level
      { imageIndices := current.imageIndices + toInt (current.width * current.height) * indexSizeBits % 2 ^ 32 / 8
        width := current.width >>> (1 : ℕ)
        height := current.height >>> (1 : ℕ) }

/-- What is written to the new pixels, and the places of the data that are read. -/
structure Uncompressed where
  formatOut : ColorFormat
  pixelsOut : List Store
  reads : List ℤ

/-- The place of an index and its bits. -/
def indexOf (indexSizeBits : ℕ) (imageIndices : ℤ) (data : ByteMemory) (i : ℕ) : ℤ × ℕ :=
  if indexSizeBits = 4 then
    let place := imageIndices + (i / 2 : ℕ)
    (place, if i % 2 = 0 then (data place).toNat >>> 4 else (data place).toNat &&& 0xf)
  else
    let place := imageIndices + (i : ℕ)
    (place, (data place).toNat)

def uncompressTexture (internalformat : PaletteFormat) (width height imageSize : ℤ) (data : ByteMemory)
    (level : ℕ) : Uncompressed :=
  let info := getPaletteInfo internalformat
  let nColors := 2 <<< (info.indexSizeBits - 1)
  let paletteSizeBytes := nColors * info.colorSizeBytes
  let current := jumpTo info.indexSizeBits level ⟨paletteSizeBytes, width, height⟩
  let colorSizeOut : ℕ := if info.colorFrmt = .RGB then 3 else 4
  let nPixels := toInt (current.width * current.height)
  let leftBytes := toInt (imageSize - current.imageIndices)
  let leftPixels := toInt (toInt (leftBytes * 8) % 2 ^ 32 / info.indexSizeBits)
  let maxIndices := if leftPixels < nPixels then leftPixels else nPixels
  { formatOut := info.colorFrmt
    pixelsOut := (List.range maxIndices.toNat).map fun i ↦
      let paletteIndex := (indexOf info.indexSizeBits current.imageIndices data i).2 * info.colorSizeBytes
      let c := paletteColor data paletteIndex internalformat
      (toInt (i * colorSizeOut), [c.red, c.green, c.blue] ++ if info.colorFrmt = .RGBA then [c.alpha] else [])
    reads := (List.range maxIndices.toNat).flatMap fun i ↦
      let (place, paletteIndex) := indexOf info.indexSizeBits current.imageIndices data i
      place :: paletteReads ((paletteIndex * info.colorSizeBytes : ℕ) : ℤ) internalformat }

/-! ## Entries of the palette -/

/-- The first and last bits of the channels in an entry. -/
def channels : PaletteFormat → List (ℕ × ℕ)
  | .PALETTE4_RGB8 | .PALETTE8_RGB8 => [(7, 0), (15, 8), (23, 16)]
  | .PALETTE4_RGBA8 | .PALETTE8_RGBA8 => [(7, 0), (15, 8), (23, 16), (31, 24)]
  | .PALETTE4_R5_G6_B5 | .PALETTE8_R5_G6_B5 => [(15, 11), (10, 5), (4, 0)]
  | .PALETTE4_RGBA4 | .PALETTE8_RGBA4 => [(15, 12), (11, 8), (7, 4), (3, 0)]
  | .PALETTE4_RGB5_A1 | .PALETTE8_RGB5_A1 => [(15, 11), (10, 6), (5, 1), (0, 0)]

def littleEndian : List UInt8 → ℕ
  | [] => 0
  | byte :: bytes => byte.toNat + 256 * littleEndian bytes

/-- The entry of the palette with the index. -/
def entry (format : PaletteFormat) (data : ByteMemory) (index : ℕ) : ℕ :=
  let size := (getPaletteInfo format).colorSizeBytes
  littleEndian (data.load ((index * size : ℕ) : ℤ) size)

/-- A channel of an entry, from 0 to 255. -/
def expand (entry : ℕ) (bits : ℕ × ℕ) : UInt8 :=
  UInt8.ofNat (field entry bits.1 bits.2 * 255 / (2 ^ (bits.1 - bits.2 + 1) - 1))

/-- The format whose red channel keeps the sign of the `short`. -/
def SignedRed (format : PaletteFormat) : Prop := format = .PALETTE4_R5_G6_B5 ∨ format = .PALETTE8_R5_G6_B5

/-- The bytes of a pixel that are written. -/
def bytesOut (format : PaletteFormat) (c : Color) : List UInt8 :=
  [c.red, c.green, c.blue] ++ if (getPaletteInfo format).colorFrmt = .RGBA then [c.alpha] else []

section Entries

variable {format : PaletteFormat} {data : ByteMemory} {address : ℤ} {index e : ℕ} {s : ℤ}

variable {low count high : ℕ} (max : ℕ)

section

variable (data : ByteMemory) (address : ℤ)

theorem load_two : data.load address 2 = [data address, data (address + 1)] := by
  simp [load, range_succ]

theorem littleEndian_load_two :
    littleEndian (data.load address 2) = (data address).toNat + 256 * (data (address + 1)).toNat := by
  rw [load_two, littleEndian, littleEndian, littleEndian, Nat.mul_zero, Nat.add_zero]

theorem littleEndian_load_two_lt : littleEndian (data.load address 2) < 2 ^ 16 := by
  have hlow := (data address).toNat_lt
  have hhigh := (data (address + 1)).toNat_lt
  rw [littleEndian_load_two]
  omega

theorem shortAt_eq : shortAt data address = Int.bmod (littleEndian (data.load address 2)) (2 ^ 16) := by
  have hsum : ((data address).toNat : ℤ) + 256 * (data (address + 1)).toNat = littleEndian (data.load address 2) := by
    rw [littleEndian_load_two, Nat.cast_add, Nat.cast_mul, Nat.cast_ofNat]
  exact congrArg (Int.bmod · (2 ^ 16)) hsum

end

/-- Masked bits of a `short` are those of the entry: its sign is only above them. -/
theorem lowBits_shiftRight (hbits : low + count ≤ 16) :
    lowBits (Int.bmod e (2 ^ 16) >>> low) count = (e >>> low % 2 ^ count : ℕ) := by
  obtain ⟨rest, hrest⟩ : ∃ rest, 16 = low + (count + rest) := ⟨16 - low - count, by omega⟩
  have hpow : ((2 ^ 16 : ℕ) : ℤ) = 2 ^ low * (2 ^ count * 2 ^ rest) := by
    rw [Nat.cast_pow, hrest, pow_add, pow_add]
    rfl
  have hsum : Int.bmod e (2 ^ 16) + 2 ^ count * (2 ^ rest * Int.bdiv e (2 ^ 16)) * 2 ^ low = e := by
    have hsum := Int.bmod_add_bdiv e (2 ^ 16)
    rw [hpow] at hsum
    linarith
  have hpos : ((2 : ℤ) ^ low) ≠ 0 := pow_ne_zero _ two_ne_zero
  calc Int.bmod e (2 ^ 16) >>> low % 2 ^ count = Int.bmod e (2 ^ 16) / 2 ^ low % 2 ^ count := by
        rw [Int.shiftRight_eq_div_pow, Nat.cast_pow, Nat.cast_ofNat]
    _ = (Int.bmod e (2 ^ 16) + 2 ^ count * (2 ^ rest * Int.bdiv e (2 ^ 16)) * 2 ^ low) / 2 ^ low % 2 ^ count := by
        rw [Int.add_mul_ediv_right _ _ hpos, Int.add_mul_emod_self_left]
    _ = (e >>> low % 2 ^ count : ℕ) := by
        rw [hsum, Nat.shiftRight_eq_div_pow]
        push_cast
        rfl

theorem ofInt_natCast (v : ℕ) : UInt8.ofInt v = UInt8.ofNat v := by
  have hmod : ((v : ℤ) % 2 ^ 8).toNat = v % 2 ^ 8 := by omega
  rw [UInt8.ofInt, hmod, UInt8.ofNat_mod_size]

/-- A channel of bits is expanded. -/
theorem channel_natCast (v max : ℕ) : channel v max = UInt8.ofNat (v * 255 / max) := by
  have hdiv : ((v : ℤ) * 255).tdiv max = (v * 255 / max : ℕ) := by
    rw [Int.tdiv_eq_ediv_of_nonneg (by omega)]
    push_cast
    rfl
  rw [channel, hdiv, ofInt_natCast]

theorem expand_eq {max : ℕ} (hhigh : high + 1 = low + count) (hmax : max = 2 ^ count - 1) (hpos : 0 < count) :
    expand e (high, low) = UInt8.ofNat (e >>> low % 2 ^ count * 255 / max) := by
  have hcount : high - low + 1 = count := by omega
  rw [expand, field, hcount, hmax, Nat.shiftRight_eq_div_pow]

theorem channel_lowBits (hhigh : high + 1 = low + count) (hmax : max = 2 ^ count - 1) (hpos : 0 < count)
    (hbits : high < 16) : channel (lowBits (Int.bmod e (2 ^ 16) >>> low) count) max = expand e (high, low) := by
  rw [lowBits_shiftRight (by omega), channel_natCast, expand_eq hhigh hmax hpos]

/-- A channel at the end of a `short` is not shifted. -/
theorem channel_lowBits_zero (hhigh : high + 1 = count) (hmax : max = 2 ^ count - 1) (hbits : high < 16) :
    channel (lowBits (Int.bmod e (2 ^ 16)) count) max = expand e (high, 0) := by
  have hshift : channel (lowBits (Int.bmod e (2 ^ 16) >>> (0 : ℕ)) count) max = expand e (high, 0) :=
    channel_lowBits max (by omega) hmax (by omega) hbits
  rwa [Int.shiftRight_zero] at hshift

/-- The bytes of an entry are its channels. -/
theorem expand_littleEndian (bytes : List UInt8) (k : ℕ) :
    expand (littleEndian bytes) (8 * k + 7, 8 * k) = bytes.getD k 0 := by
  have hfield : field (littleEndian bytes) (8 * k + 7) (8 * k) = (bytes.getD k 0).toNat := by
    induction bytes generalizing k with
    | nil => rw [littleEndian, field, Nat.zero_div, Nat.zero_mod, List.getD_nil, UInt8.toNat_zero]
    | cons byte bytes ih =>
      have hbyte := byte.toNat_lt
      cases k with
      | zero =>
        rw [littleEndian, field, List.getD_cons_zero]
        omega
      | succ k =>
        have hshift : (byte.toNat + 256 * littleEndian bytes) / 2 ^ (8 * (k + 1)) =
            littleEndian bytes / 2 ^ (8 * k) := by
          rw [show 8 * (k + 1) = 8 + 8 * k by omega, Nat.pow_add, ← Nat.div_div_eq_div_mul]
          congr 1
          omega
        rw [List.getD_cons_succ, ← ih k, littleEndian, field, field, hshift]
        congr 2
        omega
  have hbits : 8 * k + 7 - 8 * k + 1 = 8 := by omega
  have hvalue : (bytes.getD k 0).toNat * 255 / (2 ^ 8 - 1) = (bytes.getD k 0).toNat := by omega
  rw [expand, hfield, hbits, hvalue, UInt8.ofNat_toNat]

theorem rgb_bytes (data : ByteMemory) (address : ℤ) : [data address, data (address + 1), data (address + 2)] =
      [(7, 0), (15, 8), (23, 16)].map (expand (littleEndian (data.load address 3))) := by
  have hload : data.load address 3 = [data address, data (address + 1), data (address + 2)] := by
    simp [load, range_succ]
  have hbyte := expand_littleEndian (data.load address 3)
  rw [map_cons, map_cons, map_cons, map_nil, hbyte 0, hbyte 1, hbyte 2, hload]
  rfl

theorem rgba_bytes (data : ByteMemory) (address : ℤ) :
    [data address, data (address + 1), data (address + 2), data (address + 3)] =
      [(7, 0), (15, 8), (23, 16), (31, 24)].map (expand (littleEndian (data.load address 4))) := by
  have hload : data.load address 4 = [data address, data (address + 1), data (address + 2), data (address + 3)] := by
    simp [load, range_succ]
  have hbyte := expand_littleEndian (data.load address 4)
  rw [map_cons, map_cons, map_cons, map_cons, map_nil, hbyte 0, hbyte 1, hbyte 2, hbyte 3,
    hload]
  rfl

theorem bmod_eq (he : e < 2 ^ 16) : Int.bmod e (2 ^ 16) = if e < 2 ^ 15 then (e : ℤ) else e - 2 ^ 16 := by
  have hmod : (e : ℤ) % (2 ^ 16 : ℕ) = e := Int.emod_eq_of_lt (by omega) (by omega)
  have hbmod := Int.bmod_def e (2 ^ 16)
  rw [hmod] at hbmod
  split_ifs at hbmod ⊢ <;> omega

/-- The quotients of the negative numbers are never the channels. -/
theorem channel_negative_ne : ∀ v : Fin 16, channel ((v : ℕ) - 16) 31 ≠ UInt8.ofNat (((v : ℕ) + 16) * 255 / 31) := by
  decide

/-- The red channel that keeps the sign is right exactly if there is none. -/
theorem channel_signed_iff (he : e < 2 ^ 16) :
    channel (Int.bmod e (2 ^ 16) >>> (11 : ℕ)) 31 = UInt8.ofNat (e >>> 11 % 2 ^ 5 * 255 / 31) ↔ e < 2 ^ 15 := by
  have hshift : e >>> 11 = e / 2 ^ 11 := Nat.shiftRight_eq_div_pow e 11
  rw [bmod_eq he, Int.shiftRight_eq_div_pow, hshift]
  by_cases hlt : e < 2 ^ 15
  · have hquotient : (e : ℤ) / (2 ^ 11 : ℕ) = (e / 2 ^ 11 % 2 ^ 5 : ℕ) := by omega
    refine iff_of_true ?_ hlt
    rw [if_pos hlt, hquotient]
    exact channel_natCast _ 31
  · refine iff_of_false ?_ hlt
    have hquotient : ((e : ℤ) - 2 ^ 16) / (2 ^ 11 : ℕ) = (e / 2 ^ 11 - 16 : ℕ) - 16 := by omega
    have hbits : e / 2 ^ 11 % 2 ^ 5 = e / 2 ^ 11 - 16 + 16 := by omega
    rw [if_neg hlt, hquotient, hbits]
    exact channel_negative_ne ⟨e / 2 ^ 11 - 16, by omega⟩

/-- The first bit of a pixel of one bit. -/
theorem ofInt_lowBits_one : UInt8.ofInt (lowBits (Int.bmod e (2 ^ 16)) 1 * 255) = expand e (0, 0) := by
  have hone : channel (lowBits (Int.bmod e (2 ^ 16)) 1) (1 : ℕ) = expand e (0, 0) :=
    channel_lowBits_zero 1 rfl rfl (by decide)
  rwa [channel, Nat.cast_one, Int.tdiv_one] at hone

theorem rgba4_bytes (e : ℕ) : [channel (lowBits (Int.bmod e (2 ^ 16) >>> (12 : ℕ)) 4) 15,
      channel (lowBits (Int.bmod e (2 ^ 16) >>> (8 : ℕ)) 4) 15,
      channel (lowBits (Int.bmod e (2 ^ 16) >>> (4 : ℕ)) 4) 15, channel (lowBits (Int.bmod e (2 ^ 16)) 4) 15] =
      [(15, 12), (11, 8), (7, 4), (3, 0)].map (expand e) := by
  have hred : channel (lowBits (Int.bmod e (2 ^ 16) >>> (12 : ℕ)) 4) 15 = expand e (15, 12) :=
    channel_lowBits 15 rfl rfl (by decide) (by decide)
  have hgreen : channel (lowBits (Int.bmod e (2 ^ 16) >>> (8 : ℕ)) 4) 15 = expand e (11, 8) :=
    channel_lowBits 15 rfl rfl (by decide) (by decide)
  have hblue : channel (lowBits (Int.bmod e (2 ^ 16) >>> (4 : ℕ)) 4) 15 = expand e (7, 4) :=
    channel_lowBits 15 rfl rfl (by decide) (by decide)
  have halpha : channel (lowBits (Int.bmod e (2 ^ 16)) 4) 15 = expand e (3, 0) :=
    channel_lowBits_zero 15 rfl rfl (by decide)
  rw [hred, hgreen, hblue, halpha]
  rfl

theorem rgb5a1_bytes (e : ℕ) : [channel (lowBits (Int.bmod e (2 ^ 16) >>> (11 : ℕ)) 5) 31,
      channel (lowBits (Int.bmod e (2 ^ 16) >>> (6 : ℕ)) 5) 31,
      channel (lowBits (Int.bmod e (2 ^ 16) >>> (1 : ℕ)) 5) 31, UInt8.ofInt (lowBits (Int.bmod e (2 ^ 16)) 1 * 255)] =
      [(15, 11), (10, 6), (5, 1), (0, 0)].map (expand e) := by
  have hred : channel (lowBits (Int.bmod e (2 ^ 16) >>> (11 : ℕ)) 5) 31 = expand e (15, 11) :=
    channel_lowBits 31 rfl rfl (by decide) (by decide)
  have hgreen : channel (lowBits (Int.bmod e (2 ^ 16) >>> (6 : ℕ)) 5) 31 = expand e (10, 6) :=
    channel_lowBits 31 rfl rfl (by decide) (by decide)
  have hblue : channel (lowBits (Int.bmod e (2 ^ 16) >>> (1 : ℕ)) 5) 31 = expand e (5, 1) :=
    channel_lowBits 31 rfl rfl (by decide) (by decide)
  rw [hred, hgreen, hblue, ofInt_lowBits_one]
  rfl

theorem rgb565_bytes_iff (he : e < 2 ^ 16) :
    [channel (Int.bmod e (2 ^ 16) >>> (11 : ℕ)) 31, channel (lowBits (Int.bmod e (2 ^ 16) >>> (5 : ℕ)) 6) 63,
      channel (lowBits (Int.bmod e (2 ^ 16)) 5) 31] = [(15, 11), (10, 5), (4, 0)].map (expand e) ↔ e < 2 ^ 15 := by
  have hred : expand e (15, 11) = UInt8.ofNat (e >>> 11 % 2 ^ 5 * 255 / 31) := expand_eq rfl rfl (by decide)
  have hgreen : channel (lowBits (Int.bmod e (2 ^ 16) >>> (5 : ℕ)) 6) 63 = expand e (10, 5) :=
    channel_lowBits 63 rfl rfl (by decide) (by decide)
  have hblue : channel (lowBits (Int.bmod e (2 ^ 16)) 5) 31 = expand e (4, 0) :=
    channel_lowBits_zero 31 rfl rfl (by decide)
  rw [hgreen, hblue, map_cons, map_cons, map_cons, map_nil, hred, ← channel_signed_iff he]
  exact ⟨fun hlist ↦ (List.cons.inj hlist).1, fun hhead ↦ by rw [hhead]⟩

theorem short_bytes (data : ByteMemory) (address : ℤ) (format : PaletteFormat)
    (hformat : (getPaletteInfo format).colorSizeBytes = 2) :
    bytesOut format (paletteColor data address format) =
        (channels format).map (expand (littleEndian (data.load address 2))) ↔
      (SignedRed format → littleEndian (data.load address 2) < 2 ^ 15) := by
  have hshort := shortAt_eq data address
  have hlt := littleEndian_load_two_lt data address
  generalize littleEndian (data.load address 2) = e at hshort hlt ⊢
  have hrgba4 := rgba4_bytes e
  have hrgb5a1 := rgb5a1_bytes e
  have hrgb565 := rgb565_bytes_iff hlt
  rw [← hshort] at hrgba4 hrgb5a1 hrgb565
  cases format with
  | PALETTE4_RGBA4 | PALETTE8_RGBA4 => exact iff_of_true hrgba4 fun hred ↦ absurd hred (by simp [SignedRed])
  | PALETTE4_RGB5_A1 | PALETTE8_RGB5_A1 => exact iff_of_true hrgb5a1 fun hred ↦ absurd hred (by simp [SignedRed])
  | PALETTE4_R5_G6_B5 => exact hrgb565.trans ⟨fun hclear _ ↦ hclear, fun hclear ↦ hclear (.inl rfl)⟩
  | PALETTE8_R5_G6_B5 => exact hrgb565.trans ⟨fun hclear _ ↦ hclear, fun hclear ↦ hclear (.inr rfl)⟩
  | PALETTE4_RGB8 | PALETTE8_RGB8 | PALETTE4_RGBA8 | PALETTE8_RGBA8 => exact absurd hformat (by decide)

/-- Colours of the format with a signed red channel are right exactly if the first bit of the entry is not set; those
of all other formats always are. -/
theorem bytesOut_iff (format : PaletteFormat) (data : ByteMemory) (index : ℕ) :
    bytesOut format (paletteColor data ((index * (getPaletteInfo format).colorSizeBytes : ℕ) : ℤ) format) =
        (channels format).map (expand (entry format data index)) ↔
      (SignedRed format → entry format data index < 2 ^ 15) := by
  by_cases hformat : (getPaletteInfo format).colorSizeBytes = 2
  · rw [entry, hformat]
    exact short_bytes data _ format hformat
  · cases format with
    | PALETTE4_RGB8 | PALETTE8_RGB8 =>
      exact iff_of_true (rgb_bytes data _) fun hred ↦ absurd hred (by simp [SignedRed])
    | PALETTE4_RGBA8 | PALETTE8_RGBA8 =>
      exact iff_of_true (rgba_bytes data _) fun hred ↦ absurd hred (by simp [SignedRed])
    | PALETTE4_RGBA4 | PALETTE8_RGBA4 | PALETTE4_RGB5_A1 | PALETTE8_RGB5_A1 | PALETTE4_R5_G6_B5 | PALETTE8_R5_G6_B5 =>
      exact absurd rfl hformat

end Entries

/-! ## Levels -/

/-- The pixels of a level. -/
def pixelsAt (width height : ℤ) (level : ℕ) : ℤ := (width >>> level) * (height >>> level)

def paletteSize (format : PaletteFormat) : ℕ :=
  2 ^ (getPaletteInfo format).indexSizeBits * (getPaletteInfo format).colorSizeBytes

/-- Where the indices of a level start. -/
def levelStart (format : PaletteFormat) (width height : ℤ) (level : ℕ) : ℤ :=
  paletteSize format +
    ((List.range level).map fun j ↦ pixelsAt width height j * (getPaletteInfo format).indexSizeBits / 8).sum

/-- The data have an index for the pixel. -/
def Present (format : PaletteFormat) (width height imageSize : ℤ) (level i : ℕ) : Prop :=
  levelStart format width height level + (i * (getPaletteInfo format).indexSizeBits / 8 : ℕ) < imageSize

/-- The index of a pixel: a byte, or half of one. -/
def selected (format : PaletteFormat) (data : ByteMemory) (start : ℤ) (i : ℕ) : ℕ :=
  if (getPaletteInfo format).indexSizeBits = 4 then
    let byte := (data (start + (i / 2 : ℕ))).toNat
    if i % 2 = 0 then field byte 7 4 else field byte 3 0
  else (data (start + i)).toNat

/-- Only the data are read, and every pixel with an index gets the colour of its entry. -/
structure Expands (format : PaletteFormat) (width height imageSize : ℤ) (data : ByteMemory) (level : ℕ) : Prop where
  inside : ∀ place ∈ (uncompressTexture format width height imageSize data level).reads, 0 ≤ place ∧ place < imageSize
  pixels : ∀ (fresh : ByteMemory) (i : ℕ), (i : ℤ) < pixelsAt width height level →
    Present format width height imageSize level i →
    (storeAll (uncompressTexture format width height imageSize data level).pixelsOut fresh).Holds
      (i * (channels format).length)
      ((channels format).map
        (expand (entry format data (selected format data (levelStart format width height level) i))))

/-- No product of the code is too large for its 32 bits, if there are pixels at all. -/
structure NoWrap (format : PaletteFormat) (width height imageSize : ℤ) (level : ℕ) : Prop where
  lower : -2 ^ 31 ≤ pixelsAt width height level
  levels : 0 < pixelsAt width height level → ∀ j < level, 0 ≤ pixelsAt width height j ∧
    pixelsAt width height j * (getPaletteInfo format).indexSizeBits < 2 ^ 32
  pixels : 0 < pixelsAt width height level → pixelsAt width height level * (channels format).length < 2 ^ 31
  left : 0 < pixelsAt width height level → -2 ^ 29 < imageSize - levelStart format width height level ∧
    imageSize - levelStart format width height level < 2 ^ 29

section Levels

variable {format : PaletteFormat} {width height imageSize : ℤ} {data : ByteMemory} {level i : ℕ}

theorem jumpTo_succ (indexSizeBits level : ℕ) (current : Level) : jumpTo indexSizeBits (level + 1) current =
    jumpTo indexSizeBits 1 (jumpTo indexSizeBits level current) := by
  induction level generalizing current with
  | zero => rfl
  | succ level ih => exact ih _

theorem toInt_mul_emod {pixels : ℤ} {bits : ℕ} (hpos : 0 ≤ pixels) (hfits : pixels * bits < 2 ^ 32) :
    toInt pixels * bits % 2 ^ 32 = pixels * bits := by
  have hwrap : toInt pixels * bits = pixels * bits - 2 ^ 32 * (Int.bdiv pixels (2 ^ 32) * bits) := by
    rw [toInt, Int.bmod_eq_self_sub_mul_bdiv, Int.sub_mul, Int.mul_assoc]
    rfl
  rw [hwrap, Int.sub_mul_emod_self_left, Int.emod_eq_of_lt (Int.mul_nonneg hpos (Int.natCast_nonneg bits)) hfits]

/-- The loop comes to the start of the level. -/
theorem jumpTo_eq (h : ∀ j < level, 0 ≤ pixelsAt width height j ∧
      pixelsAt width height j * (getPaletteInfo format).indexSizeBits < 2 ^ 32) :
    jumpTo (getPaletteInfo format).indexSizeBits level ⟨paletteSize format, width, height⟩ =
      ⟨levelStart format width height level, width >>> level, height >>> level⟩ := by
  induction level with
  | zero => simp [jumpTo, levelStart]
  | succ level ih =>
    obtain ⟨hpos, hfits⟩ := h level (Nat.lt_succ_self level)
    have hlevel := toInt_mul_emod hpos hfits
    rw [pixelsAt] at hlevel
    rw [jumpTo_succ, ih fun j hj ↦ h j (Nat.lt_succ_of_lt hj)]
    simp only [jumpTo, hlevel, ← Int.shiftRight_add, levelStart, range_succ, List.map_append, List.sum_append,
      List.map_singleton, List.sum_singleton, pixelsAt, Int.add_assoc]

theorem toInt_eq {v : ℤ} (hlower : -2 ^ 31 ≤ v) (hupper : v < 2 ^ 31) : toInt v = v := Int.bmod_eq_of_le hlower hupper

/-- The indices that the code takes for present. -/
theorem leftPixels_eq {left : ℤ} {bits : ℕ} (hbits : bits = 4 ∨ bits = 8) (hlower : -2 ^ 29 < left)
    (hupper : left < 2 ^ 29) : toInt (toInt (toInt left * 8) % 2 ^ 32 / bits) =
      if 0 ≤ left then 8 * left / bits else (2 ^ 32 + 8 * left) / bits := by
  have hleft : toInt left = left := toInt_eq (by omega) (by omega)
  have hmod : toInt (left * 8) % 2 ^ 32 = left * 8 % 2 ^ 32 := Int.bmod_emod
  rw [hleft, hmod]
  rcases hbits with rfl | rfl
  · rw [toInt_eq (by omega) (by omega)]
    split_ifs <;> omega
  · rw [toInt_eq (by omega) (by omega)]
    split_ifs <;> omega

section

variable (format : PaletteFormat)

theorem indexSizeBits_cases :
    (getPaletteInfo format).indexSizeBits = 4 ∨ (getPaletteInfo format).indexSizeBits = 8 := by
  cases format <;> simp [getPaletteInfo]

theorem colorSizeOut_eq : (if (getPaletteInfo format).colorFrmt = .RGB then 3 else 4) = (channels format).length := by
  cases format <;> rfl

theorem length_bytesOut (c : Color) : (bytesOut format c).length = (channels format).length := by
  cases format <;> rfl

theorem paletteSize_eq : 2 <<< ((getPaletteInfo format).indexSizeBits - 1) *
    (getPaletteInfo format).colorSizeBytes = paletteSize format := by
  cases format <;> rfl

theorem mem_paletteReads {index place : ℤ} (h : place ∈ paletteReads index format) :
    index ≤ place ∧ place < index + (getPaletteInfo format).colorSizeBytes := by
  cases format <;> simp only [paletteReads, List.mem_cons, List.not_mem_nil, or_false] at h <;>
    simp only [getPaletteInfo] <;> omega

theorem indexOf_eq (data : ByteMemory) (start : ℤ) (i : ℕ) :
    indexOf (getPaletteInfo format).indexSizeBits start data i =
      (start + (i * (getPaletteInfo format).indexSizeBits / 8 : ℕ), selected format data start i) := by
  rcases indexSizeBits_cases format with hbits | hbits
  · have hplace : i * 4 / 8 = i / 2 := by omega
    have hbyte := (data (start + (i / 2 : ℕ))).toNat_lt
    have hhigh : (data (start + (i / 2 : ℕ))).toNat >>> 4 = field (data (start + (i / 2 : ℕ))).toNat 7 4 := by
      rw [Nat.shiftRight_eq_div_pow, field]
      omega
    have hlow : (data (start + (i / 2 : ℕ))).toNat &&& 0xf = field (data (start + (i / 2 : ℕ))).toNat 3 0 := by
      rw [and_mask (show 0xf = 2 ^ 4 - 1 from rfl), field]
      omega
    rw [indexOf, if_pos hbits, selected, if_pos hbits, hbits, hplace]
    dsimp only
    rw [hhigh, hlow]
  · have hplace : i * 8 / 8 = i := by omega
    rw [indexOf, if_neg (by omega), selected, if_neg (by omega), hbits, hplace]

theorem selected_lt (data : ByteMemory) (start : ℤ) (i : ℕ) :
    selected format data start i < 2 ^ (getPaletteInfo format).indexSizeBits := by
  rcases indexSizeBits_cases format with hbits | hbits
  · rw [selected, if_pos hbits, hbits]
    dsimp only
    split_ifs
    · exact field_lt _ 7 4
    · exact field_lt _ 3 0
  · rw [selected, if_neg (by omega), hbits]
    exact (data _).toNat_lt

end

theorem paletteSize_le_levelStart (h : NoWrap format width height imageSize level)
    (hsome : 0 < pixelsAt width height level) :
    (paletteSize format : ℤ) ≤ levelStart format width height level := by
  rw [levelStart]
  refine le_add_of_nonneg_right (List.sum_nonneg fun size hsize ↦ ?_)
  obtain ⟨j, hj, rfl⟩ := List.mem_map.mp hsize
  have hpos := (h.levels hsome j (mem_range.mp hj)).1
  exact Int.ediv_nonneg (Int.mul_nonneg hpos (Int.natCast_nonneg _)) (by decide)

theorem present_iff : Present format width height imageSize level i ↔
    0 ≤ imageSize - levelStart format width height level ∧
      (i : ℤ) < 8 * (imageSize - levelStart format width height level) / (getPaletteInfo format).indexSizeBits := by
  rw [Present]
  rcases indexSizeBits_cases format with hbits | hbits <;> rw [hbits] <;> omega

section

variable (h : NoWrap format width height imageSize level)
include h

/-- What an expansion writes and reads. -/
theorem exists_count (hsome : 0 < pixelsAt width height level) (data : ByteMemory) :
    ∃ count : ℕ, (uncompressTexture format width height imageSize data level).pixelsOut =
        ((List.range count).map fun i : ℕ ↦ ((0 : ℤ) + (channels format).length * i,
          bytesOut format (paletteColor data ((selected format data (levelStart format width height level) i *
              (getPaletteInfo format).colorSizeBytes : ℕ) : ℤ) format))) ∧
      (uncompressTexture format width height imageSize data level).reads = ((List.range count).flatMap fun i ↦
          (levelStart format width height level + (i * (getPaletteInfo format).indexSizeBits / 8 : ℕ)) ::
            paletteReads ((selected format data (levelStart format width height level) i *
              (getPaletteInfo format).colorSizeBytes : ℕ) : ℤ) format) ∧
      (levelStart format width height level ≤ imageSize →
        ∀ i, i < count ↔ (i : ℤ) < pixelsAt width height level ∧ Present format width height imageSize level i) ∧
      (imageSize < levelStart format width height level → 0 < count) := by
  have hthree : 3 ≤ (channels format).length := by cases format <;> decide
  have hlength : ((channels format).length : ℤ) ≤ 4 := by cases format <;> decide
  have hbits := indexSizeBits_cases format
  have hpixels := h.pixels hsome
  have hupper : pixelsAt width height level < 2 ^ 31 := by
    by_contra hlarge
    have hmul : (2 ^ 31 : ℤ) * 3 ≤ pixelsAt width height level * (channels format).length :=
      Int.mul_le_mul (by omega) (by omega) (by decide) (by omega)
    omega
  have hfew : 0 ≤ imageSize - levelStart format width height level →
      0 ≤ 8 * (imageSize - levelStart format width height level) / (getPaletteInfo format).indexSizeBits :=
    fun hpos ↦ Int.ediv_nonneg (by omega) (by omega)
  have hmany : imageSize - levelStart format width height level < 0 →
      0 < (2 ^ 32 + 8 * (imageSize - levelStart format width height level)) /
        (getPaletteInfo format).indexSizeBits := by
    intro hneg
    have hlarge := (h.left hsome).1
    rcases hbits with hbits | hbits <;> rw [hbits] <;> omega
  have hint : toInt ((width >>> level) * (height >>> level)) = pixelsAt width height level := toInt_eq h.lower hupper
  have hleft := leftPixels_eq hbits (h.left hsome).1 (h.left hsome).2
  simp only [uncompressTexture, paletteSize_eq, jumpTo_eq (h.levels hsome), hint, hleft, indexOf_eq, colorSizeOut_eq]
  refine ⟨_, List.map_congr_left fun i hi ↦ Prod.ext ?_ rfl, rfl, fun hstart i ↦ ?_, fun hstart ↦ ?_⟩
  · have hmem := mem_range.mp hi
    have hlt : (i : ℤ) ≤ pixelsAt width height level := by
      split_ifs at hmem <;> omega
    have hmul : (i : ℤ) * (channels format).length ≤ pixelsAt width height level * (channels format).length :=
      Int.mul_le_mul_of_nonneg_right hlt (Int.natCast_nonneg _)
    have hnonneg : 0 ≤ (i : ℤ) * (channels format).length :=
      Int.mul_nonneg (Int.natCast_nonneg i) (Int.natCast_nonneg _)
    have hplace := toInt_eq (by omega) (hmul.trans_lt hpixels)
    simp only [hplace, Int.zero_add, Int.mul_comm]
  · rw [present_iff]
    split_ifs <;> omega
  · split_ifs <;> omega

theorem reads_inside {place : ℤ} (hsome : 0 < pixelsAt width height level)
    (hstart : levelStart format width height level ≤ imageSize)
    (hmem : place ∈ (uncompressTexture format width height imageSize data level).reads) :
    0 ≤ place ∧ place < imageSize := by
  obtain ⟨count, -, hreads, hcount, -⟩ := exists_count h hsome data
  have hpalette := paletteSize_le_levelStart h hsome
  rw [hreads] at hmem
  obtain ⟨i, hi, hplace⟩ := List.mem_flatMap.mp hmem
  obtain ⟨-, hpresent⟩ := (hcount hstart i).mp (mem_range.mp hi)
  obtain rfl | hplace := List.mem_cons.mp hplace
  · rw [Present] at hpresent
    omega
  · obtain ⟨hlower, hupper⟩ := mem_paletteReads format hplace
    have hindex := selected_lt format data (levelStart format width height level) i
    have hentry : (selected format data (levelStart format width height level) i + 1) *
        (getPaletteInfo format).colorSizeBytes ≤ paletteSize format :=
      Nat.mul_le_mul_right _ hindex
    rw [Nat.add_mul, Nat.one_mul] at hentry
    omega

/-- The pixels with an index have the bytes of the code's colour. -/
theorem holds_bytesOut (data fresh : ByteMemory) (hi : (i : ℤ) < pixelsAt width height level)
    (hpresent : Present format width height imageSize level i) :
    (storeAll (uncompressTexture format width height imageSize data level).pixelsOut fresh).Holds
      (i * (channels format).length) (bytesOut format (paletteColor data
        ((selected format data (levelStart format width height level) i *
          (getPaletteInfo format).colorSizeBytes : ℕ) : ℤ) format)) := by
  obtain ⟨count, hpixels, -, hcount, -⟩ := exists_count h (by omega) data
  have hstart : levelStart format width height level ≤ imageSize := by
    rw [Present] at hpresent
    omega
  have hlt : i < count := (hcount hstart i).mpr ⟨hi, hpresent⟩
  rw [hpixels]
  refine holds_storeAll (pairwise_apart_map List.nodup_range fun _ _ ↦ length_bytesOut format _) ?_
  refine List.mem_map.mpr ⟨i, mem_range.mpr hlt, Prod.ext ?_ rfl⟩
  simp only [Int.zero_add, Int.mul_comm]

end

theorem jumpTo_sides (indexSizeBits level : ℕ) (start : ℤ) :
    (jumpTo indexSizeBits level ⟨start, width, height⟩).width = width >>> level ∧
      (jumpTo indexSizeBits level ⟨start, width, height⟩).height = height >>> level := by
  induction level with
  | zero => exact ⟨(Int.shiftRight_zero width).symm, (Int.shiftRight_zero height).symm⟩
  | succ level ih =>
    rw [jumpTo_succ]
    simp only [jumpTo, ih, ← Int.shiftRight_add, and_self]

/-- Without pixels, nothing is read. -/
theorem reads_nil (hlower : -2 ^ 31 ≤ pixelsAt width height level) (hnone : pixelsAt width height level ≤ 0)
    (data : ByteMemory) : (uncompressTexture format width height imageSize data level).reads = [] := by
  have hint : toInt ((width >>> level) * (height >>> level)) = pixelsAt width height level :=
    toInt_eq hlower (show pixelsAt width height level < 2 ^ 31 by omega)
  simp only [uncompressTexture, jumpTo_sides, hint]
  rw [List.flatMap_eq_nil_iff]
  intro i hi
  have hlt := mem_range.mp hi
  split_ifs at hlt <;> omega

/-- A texture is expanded exactly if its level starts inside of the data (or has no pixels) and no selected entry of
the format with a signed red channel has its first bit set. -/
theorem expands_iff (h : NoWrap format width height imageSize level) (data : ByteMemory) :
    Expands format width height imageSize data level ↔
      (pixelsAt width height level ≤ 0 ∨ levelStart format width height level ≤ imageSize) ∧
        (SignedRed format → ∀ i : ℕ, (i : ℤ) < pixelsAt width height level →
          Present format width height imageSize level i →
          entry format data (selected format data (levelStart format width height level) i) < 2 ^ 15) := by
  constructor
  · intro hexpands
    refine ⟨?_, fun hred i hi hpresent ↦ ?_⟩
    · by_contra! hout
      obtain ⟨count, -, hreads, -, hcount⟩ := exists_count h hout.1 data
      have hmem : levelStart format width height level ∈
          (uncompressTexture format width height imageSize data level).reads := by
        rw [hreads]
        refine List.mem_flatMap.mpr ⟨0, mem_range.mpr (hcount hout.2), List.mem_cons.mpr (.inl ?_)⟩
        rw [Nat.zero_mul, Nat.zero_div, Nat.cast_zero, Int.add_zero]
      have hinside := (hexpands.inside _ hmem).2
      omega
    · have hright := hexpands.pixels data i hi hpresent
      have hwritten := holds_bytesOut h data data hi hpresent
      refine (bytesOut_iff format data _).mp (hwritten.unique hright ?_) hred
      rw [length_bytesOut, List.length_map]
  · rintro ⟨hstart, hclear⟩
    refine ⟨fun place hmem ↦ ?_, fun fresh i hi hpresent ↦ ?_⟩
    · by_cases hnone : pixelsAt width height level ≤ 0
      · rw [reads_nil h.lower hnone] at hmem
        cases hmem
      · exact reads_inside h (by omega) (hstart.resolve_left hnone) hmem
    · have hbytes := (bytesOut_iff format data _).mpr fun hred ↦ hclear hred i hi hpresent
      rw [← hbytes]
      exact holds_bytesOut h data fresh hi hpresent

theorem expands_iff_odd : Expands .PALETTE4_R5_G6_B5 3 1 34 (fun _ ↦ 0x77) 0 := by
  have hnoWrap : NoWrap .PALETTE4_R5_G6_B5 3 1 34 0 := ⟨by decide, fun _ _ hj ↦ absurd hj (Nat.not_lt_zero _),
    fun _ ↦ by decide, fun _ ↦ by decide⟩
  refine (expands_iff hnoWrap _).mpr ⟨.inr (by decide), fun _ i hi _ ↦ ?_⟩
  have hthree : pixelsAt 3 1 0 = 3 := rfl
  have hcases : i = 0 ∨ i = 1 ∨ i = 2 := by omega
  rcases hcases with rfl | rfl | rfl <;> decide

/-- An image without its indices: the first index is read behind the data. -/
theorem indices_behind_data : ¬ ∀ (format : PaletteFormat) (width height imageSize : ℤ) (data : ByteMemory)
    (level : ℕ), 0 ≤ width → 0 ≤ height → 0 ≤ imageSize → Expands format width height imageSize data level := by
  intro hall
  have hexpands := hall .PALETTE4_RGB8 1 1 40 (fun _ ↦ 0) 0 (by decide) (by decide) (by decide)
  have hinside := hexpands.inside 48 (by decide)
  exact absurd hinside.2 (by decide)

end Levels

end FdeEmugl.Palette

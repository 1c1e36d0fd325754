import FdeEmugl.Texture.EacDecode

/-!
# Decoding of ETC2 images

An image is decoded block by block, row by row. A block goes through a local buffer, and the pixels inside of the
image are copied to their rows.
-/

namespace FdeEmugl.Etc

open BitFields ByteMemory
open List (flatMap_append flatMap_singleton mem_map mem_range range_succ)

/-! ## The code -/

inductive ETC2ImageFormat where
  | EtcRGB8
  | EtcRGBA8
  | EtcR11
  | EtcSignedR11
  | EtcRG11
  | EtcSignedRG11
  | EtcRGB8A1
  deriving DecidableEq

/-- `(v + 3) & ~3` in 32 bits. -/
def roundUp4 (v : ℕ) : ℕ := (v + 3) % 2 ^ 32 &&& 0xfffffffc

def etc_get_encoded_data_size (format : ETC2ImageFormat) (width height : ℕ) : ℕ :=
  let size := roundUp4 width * roundUp4 height % 2 ^ 32
  match format with
  | .EtcRGB8 | .EtcRGB8A1 | .EtcR11 | .EtcSignedR11 => size >>> 1
  | .EtcRG11 | .EtcSignedRG11 | .EtcRGBA8 => size

def etc_get_decoded_pixel_size : ETC2ImageFormat → ℕ
  | .EtcRGB8 => 3
  | .EtcRGBA8 => 4
  | .EtcRGB8A1 | .EtcR11 | .EtcSignedR11 => 4
  | .EtcRG11 | .EtcSignedRG11 => 8

/-- The bytes of a `float` that is the quotient of two numbers. -/
abbrev Quotient := ℤ → ℕ → Vector UInt8 4

/-- Where the input is read, the local buffers, and what was written and read. -/
structure ImageState where
  pIn : ℕ
  block : ByteMemory
  alphaBlock : ByteMemory
  stores : List Store
  reads : List ℕ

section Code

variable (charIsSigned : Bool) (quotient : Quotient) (input : ℕ → UInt8) (format : ETC2ImageFormat)

def isSigned : Bool := format = .EtcSignedR11 ∨ format = .EtcSignedRG11

def decodeRgb (isPunchthroughAlpha : Bool) (s : ImageState) : ImageState := { s with
    block := storeAll (etc2_decode_rgb_block (fun i ↦ input (s.pIn + i)) isPunchthroughAlpha 0) s.block
    pIn := s.pIn + 8
    reads := s.reads ++ [s.pIn] }

def decodeAlpha (s : ImageState) : ImageState := { s with
    alphaBlock := storeAll (eac_decode_single_channel_block charIsSigned (fun v d ↦ (quotient v d).toList)
      (fun i ↦ input (s.pIn + i)) 1 false 0) s.alphaBlock
    pIn := s.pIn + 8
    reads := s.reads ++ [s.pIn] }

def decodeChannel (pOut : ℤ) (s : ImageState) : ImageState := { s with
    block := storeAll (eac_decode_single_channel_block charIsSigned (fun v d ↦ (quotient v d).toList)
      (fun i ↦ input (s.pIn + i)) 4 (isSigned format) pOut) s.block
    pIn := s.pIn + 8
    reads := s.reads ++ [s.pIn] }

/-- The first switch. -/
def decodeBlock (s : ImageState) : ImageState :=
  match format with
  | .EtcRGBA8 => decodeRgb input false (decodeAlpha charIsSigned quotient input s)
  | .EtcRGB8 => decodeRgb input false s
  | .EtcRGB8A1 => decodeRgb input true s
  | .EtcR11 | .EtcSignedR11 => decodeChannel charIsSigned quotient input format 0 s
  | .EtcRG11 | .EtcSignedRG11 =>
    decodeChannel charIsSigned quotient input format 64 (decodeChannel charIsSigned quotient input format 0 s)

/-- The second switch: one row of a block. -/
def copyRow (s : ImageState) (p : ℤ) (cy xEnd : ℕ) : List Store :=
  match format with
  | .EtcRGB8 | .EtcRGB8A1 | .EtcR11 | .EtcSignedR11 =>
    [(p, load s.block (cy * 4 * etc_get_decoded_pixel_size format : ℕ) (xEnd * etc_get_decoded_pixel_size format))]
  | .EtcRG11 | .EtcSignedRG11 =>
    let channelSize := etc_get_decoded_pixel_size format / 2
    consecutive p ((List.range xEnd).flatMap fun cx ↦
      [load s.block (cy * 64 / 4 + channelSize * cx : ℕ) channelSize,
       load s.block (cy * 64 / 4 + 64 + channelSize * cx : ℕ) channelSize])
  | .EtcRGBA8 =>
    consecutive p ((List.range xEnd).flatMap fun cx ↦
      [load s.block (cy * 4 * 3 + 3 * cx : ℕ) 3, [s.alphaBlock (cy * 4 + cx : ℕ)]])

variable (pOut : ℤ) (width height stride : ℕ)

/-- One block. Here `x` and `y` are below the width and the height. -/
def decodeAt (x y : ℕ) (s : ImageState) : ImageState :=
  let yEnd := if 4 < height - y then 4 else height - y
  let xEnd := if 4 < width - x then 4 else width - x
  let s := decodeBlock charIsSigned quotient input format s
  { s with
    stores := s.stores ++ (List.range yEnd).flatMap fun cy ↦
      copyRow format s (pOut + ((etc_get_decoded_pixel_size format * x + stride * (y + cy)) % 2 ^ 32 : ℕ)) cy xEnd }

/-- `block` and `alphaBlock` are not initialized. -/
def etc2_decode_image (block alphaBlock : ByteMemory) : ImageState :=
  (List.range (roundUp4 height / 4)).foldl (fun s i ↦
    (List.range (roundUp4 width / 4)).foldl (fun s j ↦
      decodeAt charIsSigned quotient input format pOut width height stride (4 * j) (4 * i) s) s)
    ⟨0, block, alphaBlock, [], []⟩

end Code

/-! ## The pixels of a block -/

/-- The value of a channel as the block decoder gives it. -/
def channelValue (charIsSigned isSigned : Bool) (bytes : ℕ → UInt8) (x y : ℕ) : ℤ :=
  if isSigned then
    max (-1023) (min 1023 (codeBase charIsSigned (bytes 0) * 8 + Layout.product11 (Layout.int64bit bytes) x y))
  else Layout.unsigned11 (Layout.int64bit bytes) x y

def blockBytes : ETC2ImageFormat → ℕ
  | .EtcRGB8 | .EtcRGB8A1 | .EtcR11 | .EtcSignedR11 => 8
  | .EtcRG11 | .EtcSignedRG11 | .EtcRGBA8 => 16

section Blocks

variable (charIsSigned : Bool) (quotient : Quotient) (input : ℕ → UInt8) (format : ETC2ImageFormat)

def channelBytes (bytes : ℕ → UInt8) (x y : ℕ) : List UInt8 :=
  (quotient (channelValue charIsSigned (isSigned format) bytes x y) (if isSigned format then 1023 else 2047)).toList

/-- A pixel of an encoded block. -/
def blockPixel (bytes : ℕ → UInt8) (x y : ℕ) : List UInt8 :=
  match format with
  | .EtcRGB8 => colourBytes false (Layout.pixel (Layout.int64bit bytes) false x y)
  | .EtcRGB8A1 => colourBytes true (Layout.pixel (Layout.int64bit bytes) true x y)
  | .EtcRGBA8 => colourBytes false (Layout.pixel (Layout.int64bit fun i ↦ bytes (8 + i)) false x y) ++
      [toByte (Layout.value8 (Layout.int64bit bytes) x y)]
  | .EtcR11 | .EtcSignedR11 => channelBytes charIsSigned quotient format bytes x y
  | .EtcRG11 | .EtcSignedRG11 => channelBytes charIsSigned quotient format bytes x y ++
      channelBytes charIsSigned quotient format (fun i ↦ bytes (8 + i)) x y

theorem length_blockPixel (bytes : ℕ → UInt8) (x y : ℕ) :
    (blockPixel charIsSigned quotient format bytes x y).length = etc_get_decoded_pixel_size format := by
  cases format <;>
    simp [blockPixel, etc_get_decoded_pixel_size, length_pixel, channels, channelBytes]

end Blocks

section Buffers

variable {charIsSigned : Bool} {quotient : Quotient} {input : ℕ → UInt8} {format : ETC2ImageFormat}
  {memory : ByteMemory} {x y : ℕ}

theorem load_eq_of_holds {address other : ℤ} {bytes : List UInt8} {count : ℕ} (h : memory.Holds other bytes)
    (haddress : address = other) (hcount : bytes.length = count) : memory.load address count = bytes := by
  rw [haddress, ← hcount, load_of_holds h]

/-- Values that are written to the places of their pixels stand there. -/
theorem holds_pixelValues (memory : ByteMemory) (pOut : ℤ) (value : ℕ → ℕ → ℤ) {chunk : ℤ → List UInt8} {size : ℕ}
    (hsize : ∀ v, (chunk v).length = size) (hx : x < 4) (hy : y < 4) :
    (storeAll ((pixelValues value).map fun (outIdx, v) ↦ (pOut + (outIdx * size : ℕ), chunk v)) memory).Holds
      (pOut + size * (x + 4 * y : ℕ)) (chunk (value x y)) := by
  have hplace : ∀ outIdx : ℕ, pOut + ((outIdx * size : ℕ) : ℤ) = pOut + size * (outIdx : ℤ) := by
    intro outIdx
    rw [Nat.cast_mul, mul_comm]
  simp only [hplace]
  refine holds_storeAll_of_agree (mem_map.mpr ⟨_, (mem_pixelValues hx hy).mpr rfl, rfl⟩) fun other hother ↦ ?_
  obtain ⟨entry, hentry, rfl⟩ := mem_map.mp hother
  obtain ⟨i, hi, rfl⟩ := mem_map.mp hentry
  rw [mem_range] at hi
  by_cases hsame : i / 4 = x ∧ i % 4 = y
  · obtain ⟨rfl, rfl⟩ := hsame
    rw [show i % 4 * 4 + i / 4 = i / 4 + 4 * (i % 4) by omega]
    exact .inl rfl
  · exact .inr (apart_of_ne (by omega) (hsize _) (hsize _))

theorem holds_alpha (charIsSigned : Bool) (quotient : Quotient) (memory : ByteMemory) (input : ℕ → UInt8)
    (hx : x < 4) (hy : y < 4) :
    (storeAll (eac_decode_single_channel_block charIsSigned (fun v d ↦ (quotient v d).toList) input 1 false 0)
      memory).Holds ((x + 4 * y : ℕ) : ℤ) [toByte (Layout.value8 (Layout.int64bit input) x y)] := by
  have hsize : ∀ v, [toByte v].length = 1 := fun _ ↦ rfl
  have hholds := holds_pixelValues memory 0 (Layout.value8 (Layout.int64bit input)) hsize hx hy
  rw [Nat.cast_one, one_mul, zero_add] at hholds
  rwa [eac_decode_single_channel_block, eac_decoded_8]

theorem eac_decoded_channel (charIsSigned : Bool) (input : ℕ → UInt8) (isSigned : Bool) :
    eac_decoded charIsSigned input 4 isSigned = pixelValues (channelValue charIsSigned isSigned input) := by
  cases isSigned with
  | false => exact eac_decoded_unsigned11 charIsSigned input
  | true => exact eac_decoded_signed11 charIsSigned input

theorem holds_channel (charIsSigned : Bool) (quotient : Quotient) (memory : ByteMemory) (format : ETC2ImageFormat)
    (input : ℕ → UInt8) (pOut : ℤ) (hx : x < 4) (hy : y < 4) :
    (storeAll (eac_decode_single_channel_block charIsSigned (fun v d ↦ (quotient v d).toList) input 4
      (isSigned format) pOut) memory).Holds (pOut + 4 * (x + 4 * y : ℕ))
      (channelBytes charIsSigned quotient format input x y) := by
  have hsize : ∀ v, (quotient v (if isSigned format then 1023 else 2047)).toList.length = 4 :=
    fun _ ↦ Vector.length_toList ..
  have hholds := holds_pixelValues memory pOut (channelValue charIsSigned (isSigned format) input) hsize hx hy
  rwa [eac_decode_single_channel_block, eac_decoded_channel]

/-- What the first switch leaves for the second. -/
structure BlockDecoded (charIsSigned : Bool) (quotient : Quotient) (input : ℕ → UInt8) (format : ETC2ImageFormat)
    (s last : ImageState) : Prop where
  pIn : last.pIn = s.pIn + blockBytes format
  stores : last.stores = s.stores
  reads : ∀ i, (∃ start ∈ last.reads, start ≤ i ∧ i < start + 8) ↔
    (∃ start ∈ s.reads, start ≤ i ∧ i < start + 8) ∨ s.pIn ≤ i ∧ i < s.pIn + blockBytes format
  copy : ∀ p, ∀ cy < 4, ∀ xEnd ≤ 4, ∃ chunks, copyRow format last p cy xEnd = consecutive p chunks ∧
    chunks.flatten = (List.range xEnd).flatMap fun cx ↦
      blockPixel charIsSigned quotient format (fun i ↦ input (s.pIn + i)) cx cy

theorem flatMap_congr_range {count : ℕ} {first second : ℕ → List UInt8} (h : ∀ i < count, first i = second i) :
    (List.range count).flatMap first = (List.range count).flatMap second :=
  List.flatMap_congr fun i hi ↦ h i (mem_range.mp hi)

/-- Pixels in the local buffer are copied as they stand there. -/
theorem copy_of_holds {block : ByteMemory} {size : ℕ} {pixel : ℕ → ℕ → List UInt8}
    (hholds : ∀ x < 4, ∀ y < 4, block.Holds (size * (x + 4 * y : ℕ) : ℤ) (pixel x y))
    (hsize : ∀ x y, (pixel x y).length = size) {cy xEnd : ℕ} (hcy : cy < 4) (hxEnd : xEnd ≤ 4) :
    load block (cy * 4 * size : ℕ) (xEnd * size) = (List.range xEnd).flatMap fun cx ↦ pixel cx cy := by
  rw [load_mul]
  refine flatMap_congr_range fun cx hcx ↦ load_eq_of_holds (hholds cx (by omega) cy hcy) ?_ (hsize _ _)
  push_cast
  ring

theorem reads_append (reads : List ℕ) (start i : ℕ) : (∃ first ∈ reads ++ [start], first ≤ i ∧ i < first + 8) ↔
      (∃ first ∈ reads, first ≤ i ∧ i < first + 8) ∨ start ≤ i ∧ i < start + 8 := by
  constructor
  · rintro ⟨first, hfirst, hi⟩
    obtain hfirst | hfirst := List.mem_append.mp hfirst
    · exact .inl ⟨first, hfirst, hi⟩
    · obtain rfl := List.mem_singleton.mp hfirst
      exact .inr hi
  · rintro (⟨first, hfirst, hi⟩ | hi)
    · exact ⟨first, List.mem_append_left _ hfirst, hi⟩
    · exact ⟨start, List.mem_append_right _ (List.mem_singleton_self _), hi⟩

/-- Two blocks that are read one after the other. -/
theorem reads_append_two (reads : List ℕ) (start i : ℕ) :
    (∃ first ∈ reads ++ [start] ++ [start + 8], first ≤ i ∧ i < first + 8) ↔
      (∃ first ∈ reads, first ≤ i ∧ i < first + 8) ∨ start ≤ i ∧ i < start + 16 := by
  rw [reads_append, reads_append, or_assoc]
  refine or_congr_right ?_
  omega

theorem flatten_pairs (count : ℕ) (first second : ℕ → List UInt8) :
    ((List.range count).flatMap fun i ↦ [first i, second i]).flatten =
      (List.range count).flatMap fun i ↦ first i ++ second i := by
  induction count with
  | zero => rfl
  | succ count ih =>
    rw [range_succ, flatMap_append, List.flatten_append, ih, flatMap_append, flatMap_singleton,
      flatMap_singleton, List.flatten_cons, List.flatten_cons, List.flatten_nil, List.append_nil]

theorem copy_rgb (input : ℕ → UInt8) (isPunchthroughAlpha : Bool) (memory : ByteMemory) {cy xEnd : ℕ} (hcy : cy < 4)
    (hxEnd : xEnd ≤ 4) :
    load (storeAll (etc2_decode_rgb_block input isPunchthroughAlpha 0) memory)
        (cy * 4 * channels isPunchthroughAlpha : ℕ) (xEnd * channels isPunchthroughAlpha) =
      (List.range xEnd).flatMap fun cx ↦
        colourBytes isPunchthroughAlpha (Layout.pixel (Layout.int64bit input) isPunchthroughAlpha cx cy) := by
  have hholds : ∀ x < 4, ∀ y < 4, (storeAll (etc2_decode_rgb_block input isPunchthroughAlpha 0) memory).Holds
      (channels isPunchthroughAlpha * (x + 4 * y : ℕ) : ℤ)
      (colourBytes isPunchthroughAlpha (Layout.pixel (Layout.int64bit input) isPunchthroughAlpha x y)) := by
    intro x hx y hy
    have hholds := holds_etc2_decode_rgb_block input isPunchthroughAlpha 0 memory hx hy
    rwa [zero_add] at hholds
  exact copy_of_holds hholds (fun x y ↦ length_pixel _ _ _ _) hcy hxEnd

section

variable (format : ETC2ImageFormat) (input : ℕ → UInt8) (memory : ByteMemory)

/-- One channel, with or without a sign, from where it was decoded to. -/
theorem load_channel (pOut : ℤ) (hx : x < 4) (hy : y < 4) :
    load (storeAll (eac_decode_single_channel_block charIsSigned (fun v d ↦ (quotient v d).toList) input 4
        (isSigned format) pOut) memory) (pOut + 4 * (x + 4 * y : ℕ)) 4 =
      channelBytes charIsSigned quotient format input x y :=
  load_eq_of_holds (holds_channel charIsSigned quotient memory format input pOut hx hy) rfl (Vector.length_toList ..)

theorem copy_channel {cy xEnd : ℕ} (hcy : cy < 4) (hxEnd : xEnd ≤ 4) :
    load (storeAll (eac_decode_single_channel_block charIsSigned (fun v d ↦ (quotient v d).toList) input 4
        (isSigned format) 0) memory) (cy * 4 * 4 : ℕ) (xEnd * 4) =
      (List.range xEnd).flatMap fun cx ↦ channelBytes charIsSigned quotient format input cx cy := by
  rw [load_mul]
  refine flatMap_congr_range fun cx hcx ↦ ?_
  rw [← load_channel format input memory 0 (by omega) hcy]
  congr 1
  push_cast
  ring

end

theorem blockDecoded_rgb (s : ImageState) :
    BlockDecoded charIsSigned quotient input .EtcRGB8 s (decodeBlock charIsSigned quotient input .EtcRGB8 s) := by
  refine ⟨rfl, rfl, fun i ↦ reads_append _ _ _, fun p cy hcy xEnd hxEnd ↦ ⟨[_], rfl, ?_⟩⟩
  rw [List.flatten_singleton]
  exact copy_rgb _ false _ hcy hxEnd

theorem blockDecoded_rgb8a1 (s : ImageState) :
    BlockDecoded charIsSigned quotient input .EtcRGB8A1 s (decodeBlock charIsSigned quotient input .EtcRGB8A1 s) := by
  refine ⟨rfl, rfl, fun i ↦ reads_append _ _ _, fun p cy hcy xEnd hxEnd ↦ ⟨[_], rfl, ?_⟩⟩
  rw [List.flatten_singleton]
  exact copy_rgb _ true _ hcy hxEnd

theorem block_decodeChannel (format : ETC2ImageFormat) (pOut : ℤ) (s : ImageState) :
    (decodeChannel charIsSigned quotient input format pOut s).block =
      storeAll (eac_decode_single_channel_block charIsSigned (fun v d ↦ (quotient v d).toList)
        (fun i ↦ input (s.pIn + i)) 4 (isSigned format) pOut) s.block := by
  rw [decodeChannel]

theorem copyRow_r11 (s : ImageState) (p : ℤ) (cy xEnd : ℕ) :
    copyRow .EtcR11 s p cy xEnd = consecutive p [load s.block (cy * 4 * 4 : ℕ) (xEnd * 4)] := rfl

theorem copyRow_signedR11 (s : ImageState) (p : ℤ) (cy xEnd : ℕ) :
    copyRow .EtcSignedR11 s p cy xEnd = consecutive p [load s.block (cy * 4 * 4 : ℕ) (xEnd * 4)] := rfl

theorem blockDecoded_r11 (s : ImageState) :
    BlockDecoded charIsSigned quotient input .EtcR11 s (decodeBlock charIsSigned quotient input .EtcR11 s) := by
  refine ⟨rfl, rfl, fun i ↦ reads_append _ _ _, fun p cy hcy xEnd hxEnd ↦ ⟨_, copyRow_r11 _ p cy xEnd, ?_⟩⟩
  rw [List.flatten_singleton, decodeBlock, block_decodeChannel, copy_channel _ _ _ hcy hxEnd]
  rfl

theorem blockDecoded_signedR11 (s : ImageState) : BlockDecoded charIsSigned quotient input .EtcSignedR11 s
      (decodeBlock charIsSigned quotient input .EtcSignedR11 s) := by
  refine ⟨rfl, rfl, fun i ↦ reads_append _ _ _, fun p cy hcy xEnd hxEnd ↦ ⟨_, copyRow_signedR11 _ p cy xEnd, ?_⟩⟩
  rw [List.flatten_singleton, decodeBlock, block_decodeChannel, copy_channel _ _ _ hcy hxEnd]
  rfl

/-- The second channel goes behind the first. -/
theorem load_both_channels (charIsSigned : Bool) (quotient : Quotient) (format : ETC2ImageFormat)
    (first second : ℕ → UInt8) (memory : ByteMemory) (hx : x < 4) (hy : y < 4) :
    let block := storeAll (eac_decode_single_channel_block charIsSigned (fun v d ↦ (quotient v d).toList) second 4
      (isSigned format) 64) (storeAll (eac_decode_single_channel_block charIsSigned
        (fun v d ↦ (quotient v d).toList) first 4 (isSigned format) 0) memory)
    load block (4 * (x + 4 * y : ℕ) : ℤ) 4 = channelBytes charIsSigned quotient format first x y ∧
      load block (64 + 4 * (x + 4 * y : ℕ) : ℤ) 4 = channelBytes charIsSigned quotient format second x y := by
  intro block
  have hbehind : ∀ other ∈ eac_decode_single_channel_block charIsSigned (fun v d ↦ (quotient v d).toList) second 4
      (isSigned format) 64, (64 : ℤ) ≤ other.1 := by
    intro other hother
    obtain ⟨entry, _, rfl⟩ := mem_map.mp hother
    exact Int.le_add_of_nonneg_right (Int.natCast_nonneg _)
  have hfirst := holds_channel charIsSigned quotient memory format first 0 hx hy
  have hlength : (channelBytes charIsSigned quotient format first x y).length = 4 := Vector.length_toList ..
  refine ⟨load_eq_of_holds (hfirst.storeAll fun other hother ↦ .inl ?_) (zero_add _).symm hlength,
    load_channel format second _ 64 hx hy⟩
  have hge := hbehind other hother
  simp only [hlength]
  omega

theorem copy_both_channels (format : ETC2ImageFormat) (s : ImageState) {cy xEnd : ℕ} (hcy : cy < 4)
    (hxEnd : xEnd ≤ 4) :
    ((List.range xEnd).flatMap fun cx ↦
        [load (decodeChannel charIsSigned quotient input format 64
            (decodeChannel charIsSigned quotient input format 0 s)).block (cy * 64 / 4 + 4 * cx : ℕ) 4,
          load (decodeChannel charIsSigned quotient input format 64
            (decodeChannel charIsSigned quotient input format 0 s)).block
            (cy * 64 / 4 + 64 + 4 * cx : ℕ) 4]).flatten =
      (List.range xEnd).flatMap fun cx ↦
        channelBytes charIsSigned quotient format (fun i ↦ input (s.pIn + i)) cx cy ++
          channelBytes charIsSigned quotient format (fun i ↦ input (s.pIn + (8 + i))) cx cy := by
  rw [flatten_pairs]
  refine flatMap_congr_range fun cx hcx ↦ ?_
  obtain ⟨hfirst, hsecond⟩ := load_both_channels charIsSigned quotient format (fun i ↦ input (s.pIn + i))
    (fun i ↦ input (s.pIn + (8 + i))) s.block (show cx < 4 by omega) hcy
  have hnext : (decodeChannel charIsSigned quotient input format 0 s).pIn = s.pIn + 8 := rfl
  rw [block_decodeChannel, block_decodeChannel, hnext]
  simp only [Nat.add_assoc s.pIn 8]
  rw [← hfirst, ← hsecond]
  congr 2
  · push_cast
    omega
  · push_cast
    omega

section

variable (s : ImageState)

theorem copyRow_rg11 (p : ℤ) (cy xEnd : ℕ) :
    copyRow .EtcRG11 s p cy xEnd = consecutive p ((List.range xEnd).flatMap fun cx ↦
      [load s.block (cy * 64 / 4 + 4 * cx : ℕ) 4, load s.block (cy * 64 / 4 + 64 + 4 * cx : ℕ) 4]) := rfl

theorem copyRow_signedRG11 (p : ℤ) (cy xEnd : ℕ) :
    copyRow .EtcSignedRG11 s p cy xEnd = consecutive p ((List.range xEnd).flatMap fun cx ↦
      [load s.block (cy * 64 / 4 + 4 * cx : ℕ) 4, load s.block (cy * 64 / 4 + 64 + 4 * cx : ℕ) 4]) := rfl

theorem blockDecoded_rg11 :
    BlockDecoded charIsSigned quotient input .EtcRG11 s (decodeBlock charIsSigned quotient input .EtcRG11 s) := by
  refine ⟨rfl, rfl, fun i ↦ reads_append_two _ _ _, fun p cy hcy xEnd hxEnd ↦ ⟨_, copyRow_rg11 _ p cy xEnd, ?_⟩⟩
  rw [decodeBlock, copy_both_channels _ _ hcy hxEnd]
  rfl

theorem blockDecoded_signedRG11 : BlockDecoded charIsSigned quotient input .EtcSignedRG11 s
      (decodeBlock charIsSigned quotient input .EtcSignedRG11 s) := by
  refine ⟨rfl, rfl, fun i ↦ reads_append_two _ _ _, fun p cy hcy xEnd hxEnd ↦ ⟨_, copyRow_signedRG11 _ p cy xEnd, ?_⟩⟩
  rw [decodeBlock, copy_both_channels _ _ hcy hxEnd]
  rfl

theorem copyRow_rgba8 (p : ℤ) (cy xEnd : ℕ) :
    copyRow .EtcRGBA8 s p cy xEnd = consecutive p ((List.range xEnd).flatMap fun cx ↦
      [load s.block (cy * 4 * 3 + 3 * cx : ℕ) 3, [s.alphaBlock (cy * 4 + cx : ℕ)]]) := rfl

theorem block_decodeRgba : (decodeRgb input false (decodeAlpha charIsSigned quotient input s)).block =
      storeAll (etc2_decode_rgb_block (fun i ↦ input (s.pIn + 8 + i)) false 0) s.block := by
  rw [decodeRgb, decodeAlpha]

theorem alphaBlock_decodeRgba : (decodeRgb input false (decodeAlpha charIsSigned quotient input s)).alphaBlock =
      storeAll (eac_decode_single_channel_block charIsSigned (fun v d ↦ (quotient v d).toList)
        (fun i ↦ input (s.pIn + i)) 1 false 0) s.alphaBlock := by
  rw [decodeRgb, decodeAlpha]

/-- The colour from one buffer, the transparency from the other. -/
theorem copy_rgba {cx cy : ℕ} (hcx : cx < 4) (hcy : cy < 4) :
    load (decodeRgb input false (decodeAlpha charIsSigned quotient input s)).block (cy * 4 * 3 + 3 * cx : ℕ) 3 ++
        [(decodeRgb input false (decodeAlpha charIsSigned quotient input s)).alphaBlock (cy * 4 + cx : ℕ)] =
      blockPixel charIsSigned quotient .EtcRGBA8 (fun i ↦ input (s.pIn + i)) cx cy := by
  have hrgb := holds_etc2_decode_rgb_block (fun i ↦ input (s.pIn + 8 + i)) false 0 s.block hcx hcy
  have halpha := holds_alpha charIsSigned quotient s.alphaBlock (fun i ↦ input (s.pIn + i)) hcx hcy
    ⟨0, show 0 < 1 by decide⟩
  have hplace : ((cy * 4 * 3 + 3 * cx : ℕ) : ℤ) = 0 + channels false * (cx + 4 * cy : ℕ) := by
    rw [channels, if_neg Bool.false_ne_true]
    push_cast
    ring
  have hplaceAlpha : ((cy * 4 + cx : ℕ) : ℤ) = (cx + 4 * cy : ℕ) + (0 : ℕ) := by
    push_cast
    ring
  have hlength : (colourBytes false
      (Layout.pixel (Layout.int64bit fun i ↦ input (s.pIn + 8 + i)) false cx cy)).length = 3 := length_pixel _ _ _ _
  rw [block_decodeRgba, alphaBlock_decodeRgba, hplaceAlpha, halpha, load_eq_of_holds hrgb hplace hlength, blockPixel]
  simp only [Nat.add_assoc s.pIn 8]
  rfl

theorem blockDecoded_rgba8 :
    BlockDecoded charIsSigned quotient input .EtcRGBA8 s (decodeBlock charIsSigned quotient input .EtcRGBA8 s) := by
  refine ⟨rfl, rfl, fun i ↦ reads_append_two _ _ _, fun p cy hcy xEnd hxEnd ↦ ⟨_, copyRow_rgba8 _ p cy xEnd, ?_⟩⟩
  rw [flatten_pairs, decodeBlock]
  exact flatMap_congr_range fun cx hcx ↦ copy_rgba s (by omega) hcy

end

/-- Every format. -/
theorem blockDecoded (charIsSigned : Bool) (quotient : Quotient) (input : ℕ → UInt8) (format : ETC2ImageFormat)
    (s : ImageState) :
    BlockDecoded charIsSigned quotient input format s (decodeBlock charIsSigned quotient input format s) := by
  cases format with
  | EtcRGB8 => exact blockDecoded_rgb s
  | EtcRGBA8 => exact blockDecoded_rgba8 s
  | EtcR11 => exact blockDecoded_r11 s
  | EtcSignedR11 => exact blockDecoded_signedR11 s
  | EtcRG11 => exact blockDecoded_rg11 s
  | EtcSignedRG11 => exact blockDecoded_signedRG11 s
  | EtcRGB8A1 => exact blockDecoded_rgb8a1 s

end Buffers

/-! ## The loops -/

section Image

variable {charIsSigned : Bool} {quotient : Quotient} {input : ℕ → UInt8} {format : ETC2ImageFormat} {pOut : ℤ}
  {width height stride : ℕ} {s : ImageState} {pixels : List (ℕ × ℕ)} {i j n blocks : ℕ}

theorem roundUp4_eq (v : ℕ) : roundUp4 v = 4 * ((v + 3) % 2 ^ 32 / 4) := by
  have hlt : (v + 3) % 2 ^ 32 < 2 ^ (2 + 30) := Nat.mod_lt _ (by decide)
  have hmask : 0xfffffffc = (2 ^ 30 - 1) <<< 2 := rfl
  exact (and_shifted_mask hmask hlt).trans (mul_comm _ _)

theorem roundUp4_div (v : ℕ) : roundUp4 v / 4 = (v + 3) % 2 ^ 32 / 4 := by
  rw [roundUp4_eq, Nat.mul_div_cancel_left _ (by decide)]

/-- The pixel of the image that a block gives. -/
def imagePixel (charIsSigned : Bool) (quotient : Quotient) (input : ℕ → UInt8) (format : ETC2ImageFormat) (width : ℕ)
    (pixel : ℕ × ℕ) : List UInt8 :=
  blockPixel charIsSigned quotient format
    (fun i ↦ input ((pixel.2 / 4 * ((width + 3) / 4) + pixel.1 / 4) * blockBytes format + i))
    (pixel.1 % 4) (pixel.2 % 4)

/-- Where a pixel goes to. -/
def imageStore (charIsSigned : Bool) (quotient : Quotient) (input : ℕ → UInt8) (format : ETC2ImageFormat) (pOut : ℤ)
    (width stride : ℕ) (pixel : ℕ × ℕ) : Store :=
  (pOut + (etc_get_decoded_pixel_size format * pixel.1 + stride * pixel.2 : ℕ),
    imagePixel charIsSigned quotient input format width pixel)

/-- The pixels of a block that are in the image. -/
def blockPixels (width height j i : ℕ) : List (ℕ × ℕ) :=
  (List.range (if 4 < height - 4 * i then 4 else height - 4 * i)).flatMap fun cy ↦
    (List.range (if 4 < width - 4 * j then 4 else width - 4 * j)).map fun cx ↦ (4 * j + cx, 4 * i + cy)

/-- A store is in a row of the image. -/
def InRows (format : ETC2ImageFormat) (pOut : ℤ) (width height stride : ℕ) (store : Store) : Prop :=
  ∃ row < height, pOut + (stride * row : ℕ) ≤ store.1 ∧
    store.1 + store.2.length ≤ pOut + (stride * row : ℕ) + (width * etc_get_decoded_pixel_size format : ℕ)

/-- Some blocks have been decoded. -/
structure DecodedUpTo (charIsSigned : Bool) (quotient : Quotient) (input : ℕ → UInt8) (format : ETC2ImageFormat)
    (pOut : ℤ) (width height stride : ℕ) (s : ImageState) (pixels : List (ℕ × ℕ)) (blocks : ℕ) : Prop where
  pIn : s.pIn = blocks * blockBytes format
  reads : ∀ i, (∃ start ∈ s.reads, start ≤ i ∧ i < start + 8) ↔ i < blocks * blockBytes format
  memory : ∀ memory, storeAll s.stores memory =
    storeAll (pixels.map (imageStore charIsSigned quotient input format pOut width stride)) memory
  rows : ∀ store ∈ s.stores, InRows format pOut width height stride store

theorem length_flatMap_range {count size : ℕ} {piece : ℕ → List UInt8} (h : ∀ i, (piece i).length = size) :
    ((List.range count).flatMap piece).length = count * size := by
  induction count with
  | zero => rw [Nat.zero_mul]; rfl
  | succ count ih =>
    rw [range_succ, flatMap_append, List.length_append, ih, flatMap_singleton, h, Nat.succ_mul]

/-- One row of a block: the pixels are written, and nothing else. -/
theorem copied_row {last : ImageState} (hdecoded : BlockDecoded charIsSigned quotient input format s last)
    (p : ℤ) {cy xEnd : ℕ} (hcy : cy < 4) (hxEnd : xEnd ≤ 4) :
    (∀ memory, storeAll (copyRow format last p cy xEnd) memory =
      storeAll ((List.range xEnd).map fun cx : ℕ ↦ (p + etc_get_decoded_pixel_size format * cx,
        blockPixel charIsSigned quotient format (fun i ↦ input (s.pIn + i)) cx cy)) memory) ∧
      ∀ store ∈ copyRow format last p cy xEnd,
        p ≤ store.1 ∧ store.1 + store.2.length ≤ p + (xEnd * etc_get_decoded_pixel_size format : ℕ) := by
  obtain ⟨chunks, hrow, hflatten⟩ := hdecoded.copy p cy hcy xEnd hxEnd
  have hlength : ∀ cx, (blockPixel charIsSigned quotient format (fun i ↦ input (s.pIn + i)) cx cy).length =
      etc_get_decoded_pixel_size format := fun cx ↦ length_blockPixel _ _ _ _ _ _
  rw [hrow]
  constructor
  · intro memory
    rw [storeAll_consecutive, hflatten, List.flatMap_def, ← storeAll_consecutive,
      consecutive_map_range fun cx _ ↦ hlength cx]
  · intro store hstore
    have hbounds := mem_consecutive hstore
    rwa [hflatten, length_flatMap_range hlength] at hbounds

theorem lt_of_lt_roundUp4 (hi : i < roundUp4 height / 4) (hheight : height < 2 ^ 32) : 4 * i < height := by
  rw [roundUp4_div] at hi
  omega

section

variable (himage : stride * height < 2 ^ 32) (hstride : width * etc_get_decoded_pixel_size format ≤ stride)
include himage hstride

/-- One block more. -/
theorem decodedUpTo_decodeAt
    (h : DecodedUpTo charIsSigned quotient input format pOut width height stride s pixels (i * ((width + 3) / 4) + j))
    (hi : 4 * i < height) (hj : 4 * j < width) :
    DecodedUpTo charIsSigned quotient input format pOut width height stride
      (decodeAt charIsSigned quotient input format pOut width height stride (4 * j) (4 * i) s)
      (pixels ++ blockPixels width height j i) (i * ((width + 3) / 4) + j + 1) := by
  have hdecoded := blockDecoded charIsSigned quotient input format s
  have hxEnd : (if 4 < width - 4 * j then 4 else width - 4 * j) ≤ 4 ∧
      4 * j + (if 4 < width - 4 * j then 4 else width - 4 * j) ≤ width := by split_ifs <;> omega
  have hyEnd : (if 4 < height - 4 * i then 4 else height - 4 * i) ≤ 4 ∧
      4 * i + (if 4 < height - 4 * i then 4 else height - 4 * i) ≤ height := by split_ifs <;> omega
  have hplace : ∀ cy < (if 4 < height - 4 * i then 4 else height - 4 * i),
      (etc_get_decoded_pixel_size format * (4 * j) + stride * (4 * i + cy)) % 2 ^ 32 =
        etc_get_decoded_pixel_size format * (4 * j) + stride * (4 * i + cy) := by
    intro cy hcy
    refine Nat.mod_eq_of_lt ?_
    calc etc_get_decoded_pixel_size format * (4 * j) + stride * (4 * i + cy)
        ≤ width * etc_get_decoded_pixel_size format + stride * (4 * i + cy) := by
          rw [mul_comm]
          exact Nat.add_le_add_right (Nat.mul_le_mul_right _ hj.le) _
      _ ≤ stride + stride * (4 * i + cy) := Nat.add_le_add_right hstride _
      _ = stride * (4 * i + cy + 1) := by ring
      _ ≤ stride * height := Nat.mul_le_mul_left _ (by omega)
      _ < 2 ^ 32 := himage
  have hpIn : s.pIn = (i * ((width + 3) / 4) + j) * blockBytes format := h.pIn
  refine ⟨?_, fun k ↦ ?_, fun memory ↦ ?_, fun store hstore ↦ ?_⟩
  · rw [decodeAt, hdecoded.pIn, hpIn, Nat.succ_mul]
  · rw [decodeAt, hdecoded.reads, h.reads, hpIn, Nat.succ_mul]
    omega
  · rw [decodeAt, storeAll_append, hdecoded.stores, h.memory, List.map_append, storeAll_append, blockPixels,
      List.map_flatMap]
    refine storeAll_flatMap_congr (fun cy hcy memory ↦ ?_) _
    rw [mem_range] at hcy
    rw [(copied_row hdecoded _ (by omega) hxEnd.1).1, List.map_map, hplace cy hcy]
    congr 1
    refine List.map_congr_left fun cx hcx ↦ ?_
    rw [mem_range] at hcx
    rw [Function.comp_apply, imageStore, imagePixel, show (4 * j + cx) / 4 = j by omega,
      show (4 * j + cx) % 4 = cx by omega, show (4 * i + cy) / 4 = i by omega, show (4 * i + cy) % 4 = cy by omega,
      hpIn]
    congr 1
    push_cast
    ring
  · obtain hstore | hstore := List.mem_append.mp hstore
    · exact h.rows store (hdecoded.stores ▸ hstore)
    obtain ⟨cy, hcy, hstore⟩ := List.mem_flatMap.mp hstore
    rw [mem_range] at hcy
    rw [hplace cy hcy] at hstore
    have hbounds := (copied_row hdecoded _ (by omega) hxEnd.1).2 store hstore
    have hwidth : etc_get_decoded_pixel_size format * (4 * j) +
        (if 4 < width - 4 * j then 4 else width - 4 * j) * etc_get_decoded_pixel_size format ≤
          width * etc_get_decoded_pixel_size format := by
      rw [mul_comm, ← Nat.add_mul]
      exact Nat.mul_le_mul_right _ hxEnd.2
    refine ⟨4 * i + cy, by omega, ?_⟩
    generalize etc_get_decoded_pixel_size format * (4 * j) = start at *
    generalize stride * (4 * i + cy) = row at *
    omega

/-- A row of blocks. -/
theorem decodedUpTo_row
    (h : DecodedUpTo charIsSigned quotient input format pOut width height stride s pixels (i * ((width + 3) / 4)))
    (hi : 4 * i < height) (hn : n ≤ (width + 3) / 4) :
    DecodedUpTo charIsSigned quotient input format pOut width height stride ((List.range n).foldl (fun s j ↦
        decodeAt charIsSigned quotient input format pOut width height stride (4 * j) (4 * i) s) s)
      (pixels ++ (List.range n).flatMap fun j ↦ blockPixels width height j i) (i * ((width + 3) / 4) + n) := by
  induction n with
  | zero => rwa [List.range_zero, List.flatMap_nil, List.append_nil]
  | succ n ih =>
    rw [range_succ, List.foldl_append, flatMap_append, flatMap_singleton, ← List.append_assoc]
    exact decodedUpTo_decodeAt himage hstride (ih (by omega)) hi (by omega)

end

/-- All blocks. -/
theorem decodedUpTo_image (charIsSigned : Bool) (quotient : Quotient) (input : ℕ → UInt8) (pOut : ℤ)
    (block alphaBlock : ByteMemory) (hwidth : width + 3 < 2 ^ 32) (hheight : height < 2 ^ 32)
    (himage : stride * height < 2 ^ 32) (hstride : width * etc_get_decoded_pixel_size format ≤ stride) :
    DecodedUpTo charIsSigned quotient input format pOut width height stride
      (etc2_decode_image charIsSigned quotient input format pOut width height stride block alphaBlock)
      ((List.range (roundUp4 height / 4)).flatMap fun i ↦
        (List.range (roundUp4 width / 4)).flatMap fun j ↦ blockPixels width height j i)
      (roundUp4 height / 4 * (roundUp4 width / 4)) := by
  have hcolumns : roundUp4 width / 4 = (width + 3) / 4 := by rw [roundUp4_div, Nat.mod_eq_of_lt hwidth]
  have hrow : ∀ i < roundUp4 height / 4, 4 * i < height := fun i hi ↦ lt_of_lt_roundUp4 hi hheight
  rw [etc2_decode_image, hcolumns]
  generalize roundUp4 height / 4 = rows at hrow ⊢
  induction rows with
  | zero =>
    rw [Nat.zero_mul]
    refine ⟨(Nat.zero_mul _).symm, fun i ↦ ?_, fun _ ↦ rfl, fun store hstore ↦ absurd hstore List.not_mem_nil⟩
    simp
  | succ rows ih =>
    rw [range_succ, List.foldl_append, flatMap_append, flatMap_singleton, Nat.succ_mul]
    exact decodedUpTo_row himage hstride (ih fun i hi ↦ hrow i (by omega)) (hrow rows (by omega)) le_rfl

theorem mem_blockPixels {x y : ℕ} : (x, y) ∈ blockPixels width height j i ↔
    x / 4 = j ∧ x < width ∧ y / 4 = i ∧ y < height := by
  rw [blockPixels, List.mem_flatMap]
  constructor
  · rintro ⟨cy, hcy, hmem⟩
    obtain ⟨cx, hcx, heq⟩ := mem_map.mp hmem
    cases heq
    rw [mem_range] at hcx hcy
    split_ifs at hcx hcy <;> omega
  · rintro ⟨rfl, hx, rfl, hy⟩
    refine ⟨y % 4, mem_range.mpr ?_, mem_map.mpr ⟨x % 4, mem_range.mpr ?_, ?_⟩⟩
    · split_ifs <;> omega
    · split_ifs <;> omega
    · rw [Nat.div_add_mod, Nat.div_add_mod]

/-- All pixels of the image, and no others. -/
theorem mem_imagePixels (columns rows : ℕ) {x y : ℕ} (hcolumns : x < width → x / 4 < columns)
    (hrows : y < height → y / 4 < rows) :
    (x, y) ∈ (List.range rows).flatMap (fun i ↦ (List.range columns).flatMap fun j ↦ blockPixels width height j i) ↔
      x < width ∧ y < height := by
  simp only [List.mem_flatMap, mem_range, mem_blockPixels]
  constructor
  · rintro ⟨i, _, j, _, _, hx, _, hy⟩
    exact ⟨hx, hy⟩
  · rintro ⟨hx, hy⟩
    exact ⟨y / 4, hrows hy, x / 4, hcolumns hx, rfl, hx, rfl, hy⟩

/-- Pixels go to different places. -/
theorem imageStore_apart {pixel other : ℕ × ℕ} (hstride : width * etc_get_decoded_pixel_size format ≤ stride)
    (hpixel : pixel.1 < width) (hother : other.1 < width) (hne : other ≠ pixel) :
    Store.Apart (imageStore charIsSigned quotient input format pOut width stride pixel)
      (imageStore charIsSigned quotient input format pOut width stride other) := by
  have hlength : ∀ pixel, (imagePixel charIsSigned quotient input format width pixel).length =
      etc_get_decoded_pixel_size format := fun pixel ↦ length_blockPixel _ _ _ _ _ _
  have hlt : ∀ first second : ℕ × ℕ, first.1 < width → first.2 < second.2 ∨ first.2 = second.2 ∧ first.1 < second.1 →
      etc_get_decoded_pixel_size format * first.1 + stride * first.2 + etc_get_decoded_pixel_size format ≤
        etc_get_decoded_pixel_size format * second.1 + stride * second.2 := by
    rintro first second hfirst (hrow | ⟨hrow, hcolumn⟩)
    · calc etc_get_decoded_pixel_size format * first.1 + stride * first.2 + etc_get_decoded_pixel_size format
          = (first.1 + 1) * etc_get_decoded_pixel_size format + stride * first.2 := by ring
        _ ≤ width * etc_get_decoded_pixel_size format + stride * first.2 :=
          Nat.add_le_add_right (Nat.mul_le_mul_right _ hfirst) _
        _ ≤ stride + stride * first.2 := Nat.add_le_add_right hstride _
        _ = stride * (first.2 + 1) := by ring
        _ ≤ stride * second.2 := Nat.mul_le_mul_left _ hrow
        _ ≤ etc_get_decoded_pixel_size format * second.1 + stride * second.2 := Nat.le_add_left _ _
    · calc etc_get_decoded_pixel_size format * first.1 + stride * first.2 + etc_get_decoded_pixel_size format
          = etc_get_decoded_pixel_size format * (first.1 + 1) + stride * second.2 := by rw [hrow]; ring
        _ ≤ etc_get_decoded_pixel_size format * second.1 + stride * second.2 :=
          Nat.add_le_add_right (Nat.mul_le_mul_left _ hcolumn) _
  have hdifferent : (pixel.2 < other.2 ∨ pixel.2 = other.2 ∧ pixel.1 < other.1) ∨
      (other.2 < pixel.2 ∨ other.2 = pixel.2 ∧ other.1 < pixel.1) := by
    rw [ne_eq, Prod.ext_iff] at hne
    omega
  simp only [Store.Apart, imageStore, hlength]
  obtain hbefore | hafter := hdifferent
  · have hle := hlt pixel other hpixel hbefore
    omega
  · have hle := hlt other pixel hother hafter
    omega

/-- The whole image is decoded, from the bytes that the size names. -/
structure DecodesImage (charIsSigned : Bool) (quotient : Quotient) (input : ℕ → UInt8) (format : ETC2ImageFormat)
    (pOut : ℤ) (width height stride : ℕ) (last : ImageState) : Prop where
  reads : ∀ i, (∃ start ∈ last.reads, start ≤ i ∧ i < start + 8) ↔ i < etc_get_encoded_data_size format width height
  rows : ∀ store ∈ last.stores, InRows format pOut width height stride store
  pixels : ∀ memory, ∀ x < width, ∀ y < height, (storeAll last.stores memory).Holds
    (pOut + (etc_get_decoded_pixel_size format * x + stride * y : ℕ))
    (imagePixel charIsSigned quotient input format width (x, y))

/-- The width is far below 32 bits, as a row is not longer than the stride. -/
theorem width_lt (hstride : width * etc_get_decoded_pixel_size format ≤ stride) (hlt : stride < 2 ^ 32) :
    width + 3 < 2 ^ 32 := by
  have hthree : 3 ≤ etc_get_decoded_pixel_size format := by cases format <;> decide
  have hmul : width * 3 ≤ stride := (Nat.mul_le_mul_left _ hthree).trans hstride
  omega

theorem height_lt (hstride : width * etc_get_decoded_pixel_size format ≤ stride) (himage : stride * height < 2 ^ 32)
    (hwidth : 0 < width) : height + 3 < 2 ^ 32 := by
  have hthree : 3 ≤ etc_get_decoded_pixel_size format := by cases format <;> decide
  have hstride' : 3 ≤ stride := by
    calc 3 = 1 * 3 := rfl
      _ ≤ width * etc_get_decoded_pixel_size format := Nat.mul_le_mul hwidth hthree
      _ ≤ stride := hstride
  have hmul : 3 * height ≤ stride * height := Nat.mul_le_mul_right _ hstride'
  omega

/-- The bytes that all blocks have. -/
theorem blocks_mul_blockBytes (format : ETC2ImageFormat) (width height : ℕ) :
    roundUp4 height / 4 * (roundUp4 width / 4) * blockBytes format =
        etc_get_encoded_data_size format width height ↔ roundUp4 width * roundUp4 height < 2 ^ 32 := by
  have hproduct : roundUp4 width * roundUp4 height = 16 * (roundUp4 height / 4 * (roundUp4 width / 4)) := by
    rw [roundUp4_div, roundUp4_div, roundUp4_eq, roundUp4_eq]
    ring
  have hsize : etc_get_encoded_data_size format width height =
      if blockBytes format = 8 then roundUp4 width * roundUp4 height % 2 ^ 32 / 2
      else roundUp4 width * roundUp4 height % 2 ^ 32 := by
    cases format <;> simp [etc_get_encoded_data_size, blockBytes, Nat.shiftRight_eq_div_pow]
  have hbytes : blockBytes format = 8 ∨ blockBytes format = 16 := by
    cases format <;> decide
  rw [hsize, hproduct]
  generalize roundUp4 height / 4 * (roundUp4 width / 4) = blocks
  obtain height | hsixteen := hbytes
  · rw [height, if_pos rfl]
    omega
  · rw [hsixteen, if_neg (by decide)]
    omega

end Image

/-- Images are decoded as their blocks are; the size of the input is right unless it has more than 32 bits. -/
theorem etc2_decode_image_iff {charIsSigned : Bool} {quotient : Quotient} {input : ℕ → UInt8}
    {format : ETC2ImageFormat} {pOut : ℤ} {width height stride : ℕ} {block alphaBlock : ByteMemory} (hheight : height < 2 ^ 32)
    (hlt : stride < 2 ^ 32) (hstride : width * etc_get_decoded_pixel_size format ≤ stride)
    (himage : stride * height < 2 ^ 32) :
    DecodesImage charIsSigned quotient input format pOut width height stride
        (etc2_decode_image charIsSigned quotient input format pOut width height stride block alphaBlock) ↔
      roundUp4 width * roundUp4 height < 2 ^ 32 := by
  have hwidth := width_lt hstride hlt
  have hdecoded := decodedUpTo_image charIsSigned quotient input pOut block alphaBlock hwidth hheight himage hstride
  rw [← blocks_mul_blockBytes format]
  constructor
  · intro h
    have hreads := fun i ↦ (hdecoded.reads i).symm.trans (h.reads i)
    have hle := (hreads (etc_get_encoded_data_size format width height)).not.mpr (lt_irrefl _)
    have hge := (hreads (roundUp4 height / 4 * (roundUp4 width / 4) * blockBytes format)).not.mp (lt_irrefl _)
    omega
  · intro hsize
    refine ⟨fun i ↦ ?_, hdecoded.rows, fun memory x hx y hy ↦ ?_⟩
    · rw [hdecoded.reads, hsize]
    have hheight' := height_lt hstride himage (Nat.zero_lt_of_lt hx)
    have hmem : ∀ x y, (x, y) ∈ _ ↔ x < width ∧ y < height := fun x y ↦
      mem_imagePixels (roundUp4 width / 4) (roundUp4 height / 4)
        (fun _ ↦ by rw [roundUp4_div]; omega) (fun _ ↦ by rw [roundUp4_div]; omega)
    rw [hdecoded.memory]
    refine holds_storeAll_of_agree (mem_map.mpr ⟨(x, y), (hmem x y).mpr ⟨hx, hy⟩, rfl⟩) fun other hother ↦ ?_
    obtain ⟨pixel, hpixel, rfl⟩ := mem_map.mp hother
    by_cases hsame : pixel = (x, y)
    · exact .inl (by rw [hsame]; rfl)
    · exact .inr (imageStore_apart hstride hx ((hmem pixel.1 pixel.2).mp hpixel).1 hsame)

theorem etc2_decode_image_iff_edges : DecodesImage true (fun _ _ ↦ Vector.replicate 4 0) (fun _ ↦ 0) .EtcRGBA8 0 5 3
    24
    (etc2_decode_image true (fun _ _ ↦ Vector.replicate 4 0) (fun _ ↦ 0) .EtcRGBA8 0 5 3 24 (fun _ ↦ 0) fun _ ↦ 0) :=
  (etc2_decode_image_iff (by decide) (by decide) (by decide) (by decide)).mpr (by decide)

/-- An image of one column whose encoded size wraps to 0. -/
theorem encoded_size_wraps : 1 * etc_get_decoded_pixel_size .EtcRGB8 ≤ 3 ∧ 3 * 2 ^ 30 < 2 ^ 32 ∧
    etc_get_encoded_data_size .EtcRGB8 1 (2 ^ 30) = 0 ∧
    ¬ DecodesImage true (fun _ _ ↦ Vector.replicate 4 0) (fun _ ↦ 0) .EtcRGB8 0 1 (2 ^ 30) 3
      (etc2_decode_image true (fun _ _ ↦ Vector.replicate 4 0) (fun _ ↦ 0) .EtcRGB8 0 1 (2 ^ 30) 3 (fun _ ↦ 0)
        fun _ ↦ 0) := by
  have hsize : etc_get_encoded_data_size .EtcRGB8 1 (2 ^ 30) = 0 := by decide
  refine ⟨by decide, by decide, hsize, fun h ↦ ?_⟩
  have hdecoded := decodedUpTo_image true (fun _ _ ↦ Vector.replicate 4 0) (fun _ ↦ 0) 0
    (fun _ ↦ 0) (fun _ ↦ 0) (show 1 + 3 < 2 ^ 32 by decide) (show 2 ^ 30 < 2 ^ 32 by decide)
    (show 3 * 2 ^ 30 < 2 ^ 32 by decide) (show 1 * etc_get_decoded_pixel_size .EtcRGB8 ≤ 3 by decide)
  have hread := (hdecoded.reads 0).symm.trans (h.reads 0)
  rw [hsize] at hread
  exact absurd (hread.mp (by decide)) (lt_irrefl 0)

end FdeEmugl.Etc

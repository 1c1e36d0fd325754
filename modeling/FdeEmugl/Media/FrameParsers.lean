import Mathlib.Algebra.Group.Nat.Defs
import Mathlib.Data.List.GetD
import Mathlib.Tactic.Cases
import Mathlib.Tactic.SplitIfs

/-!
# Kinds of packets

What the snapshots of the media decoders look at in a packet: the type of the NAL unit
that an H.264 packet starts with, and whether a VP8 or VP9 packet is a key frame.
-/

namespace FdeEmugl.Media

/-! ## H.264 -/

namespace H264NaluParser

/-- The enumerators by their values; `Undefined` is above all types that five bits can name. -/
abbrev H264NaluType := UInt8

def CodedSliceIDR : H264NaluType := 5
def SPS : H264NaluType := 7
def PPS : H264NaluType := 8
def Undefined : H264NaluType := 32

/-- The lower five bits of the byte after the start code. -/
def naluType (header : UInt8) : H264NaluType :=
  let naluType := 0x1f &&& header
  if naluType < Undefined then naluType else Undefined

def getFrameNaluType (frame : List UInt8) : H264NaluType :=
  if frame.length < 4 then Undefined
  else if frame.getD 0 0 ≠ 0 ∨ frame.getD 1 0 ≠ 0 then Undefined
  else if frame.getD 2 0 = 0 ∧ frame.getD 3 0 = 1 then
    if frame.length = 4 then Undefined else naluType (frame.getD 4 0)
  else if frame.getD 2 0 = 1 then naluType (frame.getD 3 0)
  else Undefined

def checkSpsFrame (frame : List UInt8) : Bool := getFrameNaluType frame = SPS

def checkIFrame (frame : List UInt8) : Bool := getFrameNaluType frame = CodedSliceIDR

def checkPpsFrame (frame : List UInt8) : Bool := getFrameNaluType frame = PPS

end H264NaluParser

/-- The packet starts with a NAL unit of this type, behind a start code of four or of three bytes. -/
def startsWithUnit (type : UInt8) (frame : List UInt8) : Bool :=
  frame.take 4 = [0, 0, 0, 1] && frame[4]?.any (· &&& 0x1f = type) ||
    frame.take 3 = [0, 0, 1] && frame[3]?.any (· &&& 0x1f = type)

section Nalu

open H264NaluParser

variable {frame : List UInt8} {type : H264NaluType}

theorem naluType_eq (header : UInt8) : naluType header = header &&& 0x1f := by
  have hsmall : 0x1f &&& header < Undefined := by
    rw [UInt8.lt_iff_toNat_lt, UInt8.toNat_and]
    exact Nat.lt_of_le_of_lt Nat.and_le_left (by decide)
  rw [naluType, if_pos hsmall, UInt8.and_comm]

/-- The parser finds the type of the first NAL unit if there is one. -/
theorem getFrameNaluType_eq_iff (h : type ≠ Undefined) :
    getFrameNaluType frame = type ↔ startsWithUnit type frame = true := by
  unfold getFrameNaluType startsWithUnit
  match frame with
  | [] | [_] | [_, _] | [_, _, _] => simp [Ne.symm h]
  | [b0, b1, b2, b3] =>
    simp [naluType_eq]
    grind
  | b0 :: b1 :: b2 :: b3 :: b4 :: rest =>
    simp [naluType_eq]
    grind

end Nalu

/-! ## VP8 and VP9 -/

structure VpxFrameParser where
  bit_buffer : List UInt8
  bit_offset : ℕ
  m_is_key_frame : Bool
deriving Repr, DecidableEq

namespace VpxFrameParser

def KEY_FRAME : ℕ := 0

/-- Past the end it is 0 and the offset stays. -/
def read_bit (parser : VpxFrameParser) : ℕ × VpxFrameParser :=
  let off := parser.bit_offset
  let p := off / 8
  let q := 7 - off % 8
  if p < parser.bit_buffer.length then
    ((parser.bit_buffer.getD p 0).toNat / 2 ^ q % 2, { parser with bit_offset := off + 1 })
  else (0, parser)

def read_literal : ℕ → VpxFrameParser → ℕ × VpxFrameParser
  | 0, parser => (0, parser)
  | bits + 1, parser =>
    let (bit, parser) := parser.read_bit
    let (value, parser) := read_literal bits parser
    (bit <<< bits ||| value, parser)

def parse_vp9_uncompressed_header (parser : VpxFrameParser) : VpxFrameParser :=
  let (_, parser) := parser.read_literal 2
  let (low, parser) := parser.read_bit
  let (high, parser) := parser.read_bit
  let profile := low ||| high <<< 1
  let (_, parser) := if profile > 2 then parser.read_bit else (0, parser)
  let (show_existing_frame, parser) := parser.read_bit
  let (_, parser) := if show_existing_frame ≠ 0 then parser.read_literal 3 else (0, parser)
  let (frame_type, parser) := parser.read_bit
  { parser with m_is_key_frame := frame_type = KEY_FRAME }

def parse_vp8_uncompressed_header (parser : VpxFrameParser) : VpxFrameParser :=
  let (frame_type, parser) := parser.read_bit
  { parser with m_is_key_frame := frame_type = KEY_FRAME }

/-- The constructor for a packet. -/
def parse (vpxtype : ℕ) (data : List UInt8) : VpxFrameParser :=
  let parser : VpxFrameParser := ⟨data, 0, false⟩
  if vpxtype = 8 then parser.parse_vp8_uncompressed_header
  else if vpxtype = 9 then parser.parse_vp9_uncompressed_header
  else parser

def isKeyFrame (parser : VpxFrameParser) : Bool := parser.m_is_key_frame

end VpxFrameParser

/-- The bit with this number, counted from the highest bit of the first byte. -/
def bitAt (data : List UInt8) (index : ℕ) : ℕ := (data.getD (index / 8) 0).toNat / 2 ^ (7 - index % 8) % 2

/-- The lowest bit of a VP8 frame tag is 0 for key frames. -/
def vp8KeyFrame (data : List UInt8) : Bool := data.head?.any (·.toNat % 2 = 0)

/-- Where `show_existing_frame` stands: profile 3 has one more bit before it. -/
def vp9ShowIndex (data : List UInt8) : ℕ := if bitAt data 2 = 1 ∧ bitAt data 3 = 1 then 5 else 4

/-- A VP9 key frame: it shows no existing frame, and its `frame_type` is 0. -/
def vp9KeyFrame (data : List UInt8) : Bool :=
  !data.isEmpty && bitAt data (vp9ShowIndex data) = 0 && bitAt data (vp9ShowIndex data + 1) = 0

section Vpx

open VpxFrameParser

variable {parser : VpxFrameParser} {byte : UInt8} {rest : List UInt8}

end Vpx

end FdeEmugl.Media

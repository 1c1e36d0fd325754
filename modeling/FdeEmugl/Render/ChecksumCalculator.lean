import FdeEmugl.Base.Stream
import FdeEmugl.Library.BitGroups
import Mathlib.Algebra.GroupWithZero.Nat
import Mathlib.Data.List.Forall2

/-!
# ChecksumCalculator

Both ends of a pipe have a calculator. The sender adds the buffers of a message and writes the
checksum behind it; the receiver adds the buffers it has got and validates the checksum. In
version 1 the checksum is the bit-reversed total length and the number of the message, in
version 0 it is empty. What travels between the ends is a list of items; the receiver may cut a
message into other buffers than the sender.
-/

namespace FdeEmugl.Checksum

open BitGroups

structure ChecksumCalculator where
  m_version : UInt32 := 0
  m_checksumSize : UInt32 := 0
  m_numRead : UInt32 := 0
  m_numWrite : UInt32 := 0
  m_isEncodingChecksum : Bool := false
  m_v1BufferTotalLength : UInt32 := 0
deriving Repr, DecidableEq

def kMaxVersion : UInt32 := 1

def kVersion1ChecksumSize : UInt32 := 8

/-- The size of a checksum of this version. -/
def byteSizeOf (version : UInt32) : UInt32 := if version = 1 then kVersion1ChecksumSize else 0

/-- The bytes that `memcpy` takes out of a word, on a little-endian host. -/
def wordBytes (value : UInt32) : List UInt8 := (Stream.putBe32 value).reverse

namespace ChecksumCalculator

def checksumByteSize (c : ChecksumCalculator) : UInt64 := c.m_checksumSize.toUInt64

/-- Whether the version was set. -/
def setVersion (version : UInt32) (c : ChecksumCalculator) : Bool × ChecksumCalculator :=
  if version > kMaxVersion then (false, c)
  else if c.m_isEncodingChecksum then (false, c)
  else (true, { c with m_version := version, m_checksumSize := byteSizeOf version })

/-- The length is a `size_t` that is added to a 32-bit word. -/
def addBuffer (packetLen : UInt64) (c : ChecksumCalculator) : ChecksumCalculator := { c with
    m_isEncodingChecksum := true
    m_v1BufferTotalLength :=
      if c.m_version = 1 then c.m_v1BufferTotalLength + packetLen.toUInt32
      else c.m_v1BufferTotalLength }

def computeV1Checksum (c : ChecksumCalculator) : UInt32 :=
  let revLen := c.m_v1BufferTotalLength
  let revLen := (revLen &&& 0xffff0000) >>> 16 ||| (revLen &&& 0x0000ffff) <<< 16
  let revLen := (revLen &&& 0xff00ff00) >>> 8 ||| (revLen &&& 0x00ff00ff) <<< 8
  let revLen := (revLen &&& 0xf0f0f0f0) >>> 4 ||| (revLen &&& 0x0f0f0f0f) <<< 4
  let revLen := (revLen &&& 0xcccccccc) >>> 2 ||| (revLen &&& 0x33333333) <<< 2
  let revLen := (revLen &&& 0xaaaaaaaa) >>> 1 ||| (revLen &&& 0x55555555) <<< 1
  revLen

def resetChecksum (c : ChecksumCalculator) : ChecksumCalculator := { c with
    m_v1BufferTotalLength := if c.m_version = 1 then 0 else c.m_v1BufferTotalLength
    m_isEncodingChecksum := false }

/-- The bytes written, or `none` if there is no room for them. -/
def writeChecksum (outputChecksumLen : UInt64) (c : ChecksumCalculator) : Option (List UInt8) × ChecksumCalculator :=
  if outputChecksumLen < c.checksumByteSize then (none, c)
  else
    let output := if c.m_version = 1 then wordBytes c.computeV1Checksum ++ wordBytes c.m_numWrite else []
    (some output, { c.resetChecksum with m_numWrite := c.m_numWrite + 1 })

def validate (expectedChecksum : List UInt8) (c : ChecksumCalculator) : Bool × ChecksumCalculator :=
  let next := { c with m_numRead := c.m_numRead + 1 }.resetChecksum
  if UInt64.ofNat expectedChecksum.length ≠ c.checksumByteSize then (false, next)
  else if c.m_version = 1 then
    (decide (expectedChecksum.take 4 = wordBytes c.computeV1Checksum) &&
      decide ((expectedChecksum.drop 4).take 4 = wordBytes c.m_numRead), next)
  else (true, next)

end ChecksumCalculator

open ChecksumCalculator

/-! ## Messages -/

/-- Add the buffers one by one. -/
def addBuffers (buffers : List UInt64) (c : ChecksumCalculator) : ChecksumCalculator :=
  buffers.foldl (fun c packetLen ↦ c.addBuffer packetLen) c

/-- The checksum of a message, written into a buffer of `checksumByteSize` bytes. -/
def send (buffers : List UInt64) (c : ChecksumCalculator) : List UInt8 × ChecksumCalculator :=
  let c := addBuffers buffers c
  let (output, next) := c.writeChecksum c.checksumByteSize
  (output.getD [], next)

def receive (buffers : List UInt64) (checksum : List UInt8) (c : ChecksumCalculator) : Bool × ChecksumCalculator :=
  (addBuffers buffers c).validate checksum

/-- What the sender does. -/
inductive Op where
  | setVersion (version : UInt32)
  | message (buffers : List UInt64)
deriving Repr, DecidableEq

/-- What the receiver gets. -/
inductive Item where
  | setVersion (version : UInt32)
  | message (buffers : List UInt64) (checksum : List UInt8)
deriving Repr, DecidableEq

/-- The items that the sender puts into the pipe, and its calculator then. -/
def transmit : ChecksumCalculator → List Op → List Item × ChecksumCalculator
  | c, [] => ([], c)
  | c, .setVersion version :: ops =>
    let (items, last) := transmit (c.setVersion version).2 ops
    (.setVersion version :: items, last)
  | c, .message buffers :: ops =>
    let (checksum, next) := send buffers c
    let (items, last) := transmit next ops
    (.message buffers checksum :: items, last)

/-- The version and the result of each `validate`, and the calculator of the receiver then. -/
def receiveAll : ChecksumCalculator → List Item → List (UInt32 × Bool) × ChecksumCalculator
  | c, [] => ([], c)
  | c, .setVersion version :: items => receiveAll (c.setVersion version).2 items
  | c, .message buffers checksum :: items =>
    let (valid, next) := receive buffers checksum c
    let (results, last) := receiveAll next items
    ((c.m_version, valid) :: results, last)

/-- The total length of a list of buffers. -/
def totalLength (buffers : List UInt64) : ℕ := (buffers.map UInt64.toNat).sum

/-- The same message, perhaps in other buffers. -/
inductive Carries : Item → Item → Prop
  | setVersion (version : UInt32) : Carries (.setVersion version) (.setVersion version)
  | message {sent received : List UInt64} (checksum : List UInt8) (h : totalLength sent = totalLength received) :
      Carries (.message sent checksum) (.message received checksum)

/-! ## The bits of the length -/

/-- `computeV1Checksum` as a function of the length. -/
def reverseBits (length : UInt32) : UInt32 := computeV1Checksum { m_v1BufferTotalLength := length }

variable (length : ℕ) (number : UInt32)

theorem toBitVec_reverseBits (length : UInt32) : (reverseBits length).toBitVec =
      swapGroups 1 0x55555555 (swapGroups 2 0x33333333 (swapGroups 4 0x0f0f0f0f
        (swapGroups 8 0x00ff00ff (swapGroups 16 0x0000ffff length.toBitVec)))) := rfl

theorem reverseBits_injective : Function.Injective reverseBits := by
  intro first second h
  have hbits := congrArg UInt32.toBitVec h
  rw [toBitVec_reverseBits, toBitVec_reverseBits] at hbits
  have h16 := swapGroups_injective (by decide) (swapGroups_injective (by decide)
    (swapGroups_injective (by decide) (swapGroups_injective (by decide) hbits)))
  apply UInt32.toBitVec_inj.mp
  exact swapGroups_injective (by decide) h16

theorem length_wordBytes (value : UInt32) : (wordBytes value).length = 4 := rfl

theorem wordBytes_injective : Function.Injective wordBytes := by
  intro first second h
  have hbytes : Stream.putBe32 first = Stream.putBe32 second := List.reverse_injective h
  have hread := congrArg (fun bytes ↦ (Stream.getBe32 (bytes ++ [])).1) hbytes
  simpa only [Stream.getBe32_putBe32] using hread

/-! ## One message -/

/-- Between two messages. -/
structure AtBoundary (c : ChecksumCalculator) : Prop where
  notEncoding : c.m_isEncodingChecksum = false
  noLength : c.m_v1BufferTotalLength = 0
  size_eq : c.m_checksumSize = byteSizeOf c.m_version

/-- The checksum of a message of this length and number. -/
def checksumOf (version : UInt32) (length : ℕ) (number : UInt32) : List UInt8 :=
  if version = 1 then wordBytes (reverseBits (UInt32.ofNat length)) ++ wordBytes number else []

theorem length_checksumOf (version : UInt32) (length : ℕ) (number : UInt32) :
    (checksumOf version length number).length = (byteSizeOf version).toNat := by
  unfold checksumOf byteSizeOf
  split
  · rfl
  · rfl

theorem take_checksumOf : (checksumOf 1 length number).take 4 = wordBytes (reverseBits (UInt32.ofNat length)) := by
  rw [checksumOf, if_pos rfl, List.take_left' (length_wordBytes _)]

theorem drop_checksumOf : ((checksumOf 1 length number).drop 4).take 4 = wordBytes number := by
  rw [checksumOf, if_pos rfl, List.drop_left' (length_wordBytes _)]
  exact List.take_of_length_le (Nat.le_of_eq (length_wordBytes number))

theorem addBuffers_eq (buffers : List UInt64) (c : ChecksumCalculator) : addBuffers buffers c = { c with
        m_isEncodingChecksum := c.m_isEncodingChecksum || !buffers.isEmpty
        m_v1BufferTotalLength :=
          if c.m_version = 1 then c.m_v1BufferTotalLength + UInt32.ofNat (totalLength buffers)
          else c.m_v1BufferTotalLength } := by
  induction buffers generalizing c with
  | nil => simp [addBuffers, totalLength]
  | cons packetLen buffers ih =>
    have hlength : UInt32.ofNat (totalLength (packetLen :: buffers)) =
        packetLen.toUInt32 + UInt32.ofNat (totalLength buffers) := by
      simp [totalLength]
    calc
      addBuffers (packetLen :: buffers) c = addBuffers buffers (c.addBuffer packetLen) := rfl
      _ = _ := by
        rw [ih, hlength]
        by_cases hversion : c.m_version = 1
        · simp [addBuffer, hversion, UInt32.add_assoc]
        · simp [addBuffer, hversion]

/-- The calculator is reset and counts the message whether or not it is valid. -/
theorem validate_next (expectedChecksum : List UInt8) (c : ChecksumCalculator) :
    (c.validate expectedChecksum).2 = { c with m_numRead := c.m_numRead + 1 }.resetChecksum := by
  unfold validate
  split
  · rfl
  · split
    · rfl
    · rfl

section Message

variable {c : ChecksumCalculator}

section

variable (h : AtBoundary c)
include h

theorem send_eq (buffers : List UInt64) : send buffers c =
      (checksumOf c.m_version (totalLength buffers) c.m_numWrite, { c with m_numWrite := c.m_numWrite + 1 }) := by
  have hlength := h.noLength
  have hnot := h.notEncoding
  by_cases hversion : c.m_version = 1
  · simp [send, addBuffers_eq, writeChecksum, resetChecksum,
      checksumByteSize, checksumOf, reverseBits,
      computeV1Checksum, hversion, hlength, hnot]
  · simp [send, addBuffers_eq, writeChecksum, resetChecksum,
      checksumByteSize, checksumOf, hversion, hlength, hnot]

theorem receive_next (buffers : List UInt64) (checksum : List UInt8) :
    (receive buffers checksum c).2 = { c with m_numRead := c.m_numRead + 1 } := by
  have hlength := h.noLength
  have hnot := h.notEncoding
  rw [receive, validate_next, addBuffers_eq]
  by_cases hversion : c.m_version = 1
  · simp [resetChecksum, hversion, hlength, hnot]
  · simp [resetChecksum, hversion, hlength, hnot]

theorem AtBoundary.receive (buffers : List UInt64) (checksum : List UInt8) :
    AtBoundary (receive buffers checksum c).2 := by
  rw [receive_next h]
  exact ⟨h.notEncoding, h.noLength, h.size_eq⟩

theorem setVersion_eq (version : UInt32) : (c.setVersion version).2 =
      if version > kMaxVersion then c
      else { c with m_version := version, m_checksumSize := byteSizeOf version } := by
  simp only [ChecksumCalculator.setVersion, h.notEncoding]
  split
  · rfl
  · rfl

theorem AtBoundary.setVersion (version : UInt32) : AtBoundary (c.setVersion version).2 := by
  rw [setVersion_eq h]
  split
  · exact h
  · exact ⟨h.notEncoding, h.noLength, rfl⟩

/-- What a checksum of some message has to agree in to be accepted. -/
theorem receive_checksumOf (buffers : List UInt64) (version : UInt32) (length : ℕ) (number : UInt32) :
    (receive buffers (checksumOf version length number) c).1 = true ↔ byteSizeOf version = byteSizeOf c.m_version ∧
        (c.m_version = 1 → UInt32.ofNat length = UInt32.ofNat (totalLength buffers) ∧ number = c.m_numRead) := by
  have hsize : UInt64.ofNat (checksumOf version length number).length = c.m_checksumSize.toUInt64 ↔
      byteSizeOf version = byteSizeOf c.m_version := by
    rw [length_checksumOf, h.size_eq]
    constructor
    · intro hsame
      apply UInt32.toNat_inj.mp
      have hnat := congrArg UInt64.toNat hsame
      have hsmall := (byteSizeOf version).toNat_lt
      simpa (disch := omega) [UInt64.toNat_ofNat_of_lt'] using hnat
    · intro hsame
      rw [hsame, UInt64.ofNat_uInt32ToNat]
  have hbyteSize : (addBuffers buffers c).checksumByteSize = c.m_checksumSize.toUInt64 := by
    rw [addBuffers_eq]
    rfl
  by_cases hsame : byteSizeOf version = byteSizeOf c.m_version
  · have hlen := hsize.mpr hsame
    by_cases hversion : c.m_version = 1
    · obtain rfl : version = 1 := by
        by_contra hne
        rw [byteSizeOf, byteSizeOf, if_neg hne, if_pos hversion] at hsame
        exact absurd hsame (by decide)
      have htotal : (addBuffers buffers c).computeV1Checksum = reverseBits (UInt32.ofNat (totalLength buffers)) := by
        rw [addBuffers_eq]
        simp [computeV1Checksum, reverseBits, hversion, h.noLength]
      have hnumRead : (addBuffers buffers c).m_numRead = c.m_numRead := by rw [addBuffers_eq]
      have hstill : (addBuffers buffers c).m_version = 1 := by rw [addBuffers_eq]; exact hversion
      simp only [receive, validate, hbyteSize, hlen, ne_eq, not_true_eq_false,
        if_false, hstill, if_true, htotal, take_checksumOf, drop_checksumOf, hnumRead, Bool.and_eq_true,
        decide_eq_true_eq, wordBytes_injective.eq_iff, reverseBits_injective.eq_iff, hsame,
        hversion, true_and, forall_const]
    · have hstill : (addBuffers buffers c).m_version ≠ 1 := by rw [addBuffers_eq]; exact hversion
      simp only [receive, validate, hbyteSize, hlen, ne_eq, not_true_eq_false,
        if_false, hstill, hsame, hversion, true_and, false_implies]
  · have hlen := mt hsize.mp hsame
    simp only [receive, validate, hbyteSize, ne_eq, hlen, not_false_eq_true,
      if_true, hsame, false_and, Bool.false_eq_true]

end

end Message

/-! ## A conversation -/

/-- Both ends are between two messages and in the same version; `offset` messages too few have
reached the receiver. -/
structure Apart (offset : UInt32) (E D : ChecksumCalculator) : Prop where
  encoder : AtBoundary E
  decoder : AtBoundary D
  version_eq : E.m_version = D.m_version
  number_eq : E.m_numWrite = D.m_numRead + offset

/-- No message is missing. Two new calculators are in step. -/
def InStep (E D : ChecksumCalculator) : Prop := Apart 0 E D

section Conversation

variable {E D : ChecksumCalculator} {offset : UInt32}

variable {ops : List Op}

section

variable (h : Apart offset E D)
include h

theorem Apart.setVersion (version : UInt32) : Apart offset (E.setVersion version).2 (D.setVersion version).2 := by
  refine ⟨h.encoder.setVersion version, h.decoder.setVersion version, ?_, ?_⟩
  · rw [setVersion_eq h.encoder, setVersion_eq h.decoder]
    split
    · exact h.version_eq
    · rfl
  · rw [setVersion_eq h.encoder, setVersion_eq h.decoder]
    split
    · exact h.number_eq
    · exact h.number_eq

theorem Apart.message (sent received : List UInt64) (checksum : List UInt8) :
    Apart offset (send sent E).2 (receive received checksum D).2 := by
  rw [send_eq h.encoder, receive_next h.decoder]
  refine ⟨⟨h.encoder.notEncoding, h.encoder.noLength, h.encoder.size_eq⟩,
    ⟨h.decoder.notEncoding, h.decoder.noLength, h.decoder.size_eq⟩, h.version_eq, ?_⟩
  calc
    E.m_numWrite + 1 = D.m_numRead + offset + 1 := by rw [h.number_eq]
    _ = D.m_numRead + 1 + offset := by ac_rfl

/-- A message that no one has touched is valid, unless the numbers are compared and differ. -/
theorem Apart.valid_iff {sent received : List UInt64} (hsame : totalLength sent = totalLength received) :
    (receive received (send sent E).1 D).1 = true ↔ (D.m_version = 1 → offset = 0) := by
  rw [send_eq h.encoder, receive_checksumOf h.decoder, h.version_eq, hsame, h.number_eq]
  simp only [true_and, UInt32.add_eq_left]

/-- What the receiver makes of everything that the sender has put into the pipe. -/
theorem Apart.receiveAll {received : List Item} (hcarries : List.Forall₂ Carries (transmit E ops).1 received) :
    Apart offset (transmit E ops).2 (receiveAll D received).2 ∧
      ∀ r ∈ (receiveAll D received).1, r.2 = true ↔ (r.1 = 1 → offset = 0) := by
  induction ops generalizing E D received with
  | nil =>
    cases hcarries
    exact ⟨h, fun r hr ↦ absurd hr List.not_mem_nil⟩
  | cons op ops ih =>
    cases op with
    | setVersion version =>
      cases hcarries with
      | cons hitem hrest =>
        cases hitem
        exact ih (h.setVersion version) hrest
    | message sent =>
      cases hcarries with
      | cons hitem hrest =>
        cases hitem with
        | message checksum hsame =>
          rename_i buffers
          obtain ⟨hlast, hresults⟩ := ih (h.message sent buffers (send sent E).1) hrest
          refine ⟨hlast, ?_⟩
          intro r hr
          rcases List.mem_cons.mp hr with rfl | hr
          · exact h.valid_iff hsame
          · exact hresults r hr

end

/-- The sender has put the first items into the pipe, then the others. -/
theorem transmit_eq_append {before after : List Item} (h : (transmit E ops).1 = before ++ after) :
    ∃ first second, (transmit E first).1 = before ∧ (transmit (transmit E first).2 second).1 = after := by
  induction before generalizing E ops with
  | nil => exact ⟨[], ops, rfl, h⟩
  | cons item before ih =>
    cases ops with
    | nil => cases h
    | cons op ops =>
      cases op with
      | setVersion version =>
        obtain ⟨hitem, hrest⟩ := List.cons.inj h
        obtain ⟨first, second, hbefore, hafter⟩ := ih hrest
        refine ⟨.setVersion version :: first, second, ?_, hafter⟩
        rw [← hitem, ← hbefore]
        rfl
      | message sent =>
        obtain ⟨hitem, hrest⟩ := List.cons.inj h
        obtain ⟨first, second, hbefore, hafter⟩ := ih hrest
        refine ⟨.message sent :: first, second, ?_, hafter⟩
        rw [← hitem, ← hbefore]
        rfl

/-- The message in the pipe is the next one that the sender has sent. -/
theorem transmit_eq_cons {buffers : List UInt64} {checksum : List UInt8} {after : List Item}
    (h : (transmit E ops).1 = .message buffers checksum :: after) :
    checksum = (send buffers E).1 ∧ ∃ rest, (transmit (send buffers E).2 rest).1 = after := by
  cases ops with
  | nil => cases h
  | cons op ops =>
    cases op with
    | setVersion version => cases h
    | message sent =>
      obtain ⟨hitem, hrest⟩ := List.cons.inj h
      injection hitem with hbuffers hchecksum
      subst hbuffers
      exact ⟨hchecksum.symm, ops, hrest⟩

/-- `validate` counts the messages. -/
theorem numRead_receiveAll (h : AtBoundary D) (items : List Item) : AtBoundary (receiveAll D items).2 ∧
      (receiveAll D items).2.m_numRead = D.m_numRead + UInt32.ofNat (receiveAll D items).1.length := by
  induction items generalizing D with
  | nil => exact ⟨h, (UInt32.add_zero _).symm⟩
  | cons item items ih =>
    cases item with
    | setVersion version =>
      obtain ⟨hlast, hnumber⟩ := ih (h.setVersion version)
      have hsame : (D.setVersion version).2.m_numRead = D.m_numRead := by
        rw [setVersion_eq h]
        split
        · rfl
        · rfl
      rw [hsame] at hnumber
      exact ⟨hlast, hnumber⟩
    | message buffers checksum =>
      obtain ⟨hlast, hnumber⟩ := ih (h.receive buffers checksum)
      refine ⟨hlast, ?_⟩
      calc
        _ = (receive buffers checksum D).2.m_numRead + UInt32.ofNat
              (receiveAll (receive buffers checksum D).2 items).1.length := hnumber
        _ = D.m_numRead + 1 + UInt32.ofNat (receiveAll (receive buffers checksum D).2 items).1.length := by
          rw [receive_next h]
        _ = _ := by
          simp only [receiveAll, List.length_cons, UInt32.ofNat_add]
          ac_rfl

theorem receiveAll_append (D : ChecksumCalculator) (first second : List Item) : receiveAll D (first ++ second) =
      ((receiveAll D first).1 ++ (receiveAll (receiveAll D first).2 second).1,
        (receiveAll (receiveAll D first).2 second).2) := by
  induction first generalizing D with
  | nil => rfl
  | cons item first ih =>
    cases item with
    | setVersion version => exact ih _
    | message buffers checksum => simp only [List.cons_append, receiveAll, ih]

/-- A message is sent and does not arrive. -/
theorem InStep.dropped (h : InStep E D) (sent : List UInt64) : Apart 1 (send sent E).2 D := by
  rw [send_eq h.encoder]
  refine ⟨⟨h.encoder.notEncoding, h.encoder.noLength, h.encoder.size_eq⟩, h.decoder, h.version_eq, ?_⟩
  calc
    E.m_numWrite + 1 = D.m_numRead + 0 + 1 := by rw [h.number_eq]
    _ = D.m_numRead + 1 := by rw [UInt32.add_zero]

/-- A message arrives with another length. -/
theorem InStep.otherLength (h : InStep E D) {sent received : List UInt64} (hversion : D.m_version = 1)
    (hlength : totalLength received % 2 ^ 32 ≠ totalLength sent % 2 ^ 32) :
    (receive received (send sent E).1 D).1 = false := by
  rw [← Bool.not_eq_true, send_eq h.encoder, receive_checksumOf h.decoder]
  intro hvalid
  have hsame := congrArg UInt32.toNat (hvalid.2 hversion).1
  rw [UInt32.toNat_ofNat', UInt32.toNat_ofNat'] at hsame
  exact hlength hsame.symm

/-- A message that was received arrives once more, after `later` others. -/
theorem InStep.duplicated (h : InStep E D) {sent again : List UInt64} {C : ChecksumCalculator}
    {later : ℕ} (hC : AtBoundary C) (hversion : C.m_version = 1)
    (hnumber : C.m_numRead = D.m_numRead + UInt32.ofNat (later + 1)) (hfew : later + 1 < 2 ^ 32) :
    (receive again (send sent E).1 C).1 = false := by
  rw [← Bool.not_eq_true, send_eq h.encoder, receive_checksumOf hC]
  intro hvalid
  have hsame := (hvalid.2 hversion).2
  rw [h.number_eq, UInt32.add_zero, hnumber] at hsame
  have hzero := congrArg UInt32.toNat (UInt32.left_eq_add.mp hsame)
  rw [UInt32.toNat_ofNat_of_lt' hfew] at hzero
  exact absurd hzero (Nat.succ_ne_zero later)

/-- Every message that arrives is valid, and in version 1 a message that is dropped, duplicated or
received with another length is noticed: a wrong length and a duplicate at once, a dropped message
at the next message that is validated in version 1, and at all the later ones. -/
theorem validate_detects (h : InStep E D) (ops : List Op) :
    (∀ received, List.Forall₂ Carries (transmit E ops).1 received →
      ∀ r ∈ (receiveAll D received).1, r.2 = true) ∧
    ∀ before buffers checksum after before' after',
      (transmit E ops).1 = before ++ .message buffers checksum :: after →
      List.Forall₂ Carries before before' → List.Forall₂ Carries after after' →
      (∀ r ∈ (receiveAll (receiveAll D before').2 after').1, r.1 = 1 → r.2 = false) ∧
      (∀ other, (receiveAll D before').2.m_version = 1 →
        totalLength other % 2 ^ 32 ≠ totalLength buffers % 2 ^ 32 →
        (receive other checksum (receiveAll D before').2).1 = false) ∧
      (∀ same between again,
        (receiveAll D (before' ++ .message same checksum :: between)).1.length < 2 ^ 32 →
        (receiveAll D (before' ++ .message same checksum :: between)).2.m_version = 1 →
        (receive again checksum
          (receiveAll D (before' ++ .message same checksum :: between)).2).1 = false) := by
  constructor
  · intro received hcarries r hr
    exact ((h.receiveAll hcarries).2 r hr).mpr fun _ ↦ rfl
  · intro before buffers checksum after before' after' hsplit hbefore hafter
    obtain ⟨first, second, hfirst, hsecond⟩ := transmit_eq_append hsplit
    obtain ⟨rfl, rest, hrest⟩ := transmit_eq_cons hsecond
    rw [← hfirst] at hbefore
    have hstep : InStep (transmit E first).2 (receiveAll D before').2 := (h.receiveAll hbefore).1
    refine ⟨?_, fun other hversion hlength ↦ hstep.otherLength hversion hlength, ?_⟩
    · intro r hr hversion
      rw [← hrest] at hafter
      have hvalid := ((hstep.dropped buffers).receiveAll hafter).2 r hr
      rw [← Bool.not_eq_true, hvalid]
      intro hzero
      exact absurd (hzero hversion) (by decide)
    · intro same between again hfew hversion
      rw [receiveAll_append] at hfew hversion ⊢
      obtain ⟨hC, hnumber⟩ := numRead_receiveAll hstep.decoder
        (.message same (send buffers (transmit E first).2).1 :: between)
      rw [List.length_append] at hfew
      exact hstep.duplicated hC hversion hnumber (Nat.lt_of_le_of_lt (Nat.le_add_left _ _) hfew)

end Conversation

theorem inStep_new : InStep {} {} := by
  refine ⟨⟨rfl, rfl, ?_⟩, ⟨rfl, rfl, ?_⟩, rfl, rfl⟩
  · decide
  · decide

/-- A message of two buffers arrives in one, after the version has been set. -/
theorem validate_detects_regrouped :
    InStep {} {} ∧
      ∀ r ∈ (receiveAll {} [.setVersion 1,
        .message [7] (send [3, 4] (ChecksumCalculator.setVersion 1 {}).2).1]).1, r.2 = true :=
  ⟨inStep_new, (validate_detects inStep_new [.setVersion 1, .message [3, 4]]).1 _
    (.cons (.setVersion 1) (.cons (.message _ (by decide)) .nil))⟩

/-- The first message is dropped in version 1; the next one is validated in version 0, where every
message is valid. -/
theorem dropped_not_noticed :
    ∃ before buffers checksum after,
      (transmit {} [.setVersion 1, .message [7], .setVersion 0, .message [5]]).1 =
        before ++ .message buffers checksum :: after ∧
      (receiveAll {} before).2.m_version = 1 ∧
      (receiveAll {} (before ++ after)).1 = [(0, true)] := by
  refine ⟨[.setVersion 1], [7], (send [7] (ChecksumCalculator.setVersion 1 {}).2).1,
    [.setVersion 0, .message [5] []], ?_, ?_, ?_⟩
  · rfl
  · decide
  · decide

end FdeEmugl.Checksum

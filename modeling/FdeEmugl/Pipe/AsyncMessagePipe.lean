import FdeEmugl.Library.Runs
import FdeEmugl.Pipe.LengthPrefix

/-!
# Asynchronous message pipes

The guest writes messages to the host and reads messages from it. Both may be split anywhere over buffers
and calls. The host may send while it handles a message; reading then stops until the guest has taken the
answer. A queued close takes place when the last message has gone out.
-/

namespace FdeEmugl.AsyncPipe

open Framing Pipe Runs FdeEmugl.Stream
open List (append_assoc append_nil length_append length_drop)

/-! ## Packets -/

structure IncomingPacket where
  headerBytesRead : ℕ
  messageLength : UInt32
  data : List UInt8
deriving DecidableEq

namespace IncomingPacket

def new : IncomingPacket := ⟨0, 0, []⟩

variable (packet : IncomingPacket)

def lengthKnown : Bool := packet.headerBytesRead == 4

def bytesRemaining : Option ℕ :=
  if packet.lengthKnown then some (packet.messageLength - UInt32.ofNat packet.data.length).toNat else none

def complete : Bool := packet.bytesRemaining == some 0

/-- The loop over the bytes of the header. -/
def readHeader : List UInt8 → IncomingPacket → IncomingPacket × List UInt8
  | [], packet => (packet, [])
  | byte :: rest, packet =>
    if packet.lengthKnown then (packet, byte :: rest)
    else readHeader rest { packet with
        messageLength := packet.messageLength ||| byte.toUInt32 <<< UInt32.ofNat (packet.headerBytesRead * 8)
        headerBytesRead := packet.headerBytesRead + 1 }

/-- What is left of the buffer comes with the packet. -/
def copyFromBuffer (buffer : List UInt8) : IncomingPacket × List UInt8 :=
  let (packet, rest) := readHeader buffer packet
  if rest ≠ [] ∧ packet.complete = false then
    let maxRead := min rest.length (packet.bytesRemaining.getD 0)
    ({ packet with data := packet.data ++ rest.take maxRead }, rest.drop maxRead)
  else (packet, rest)

def serialize : List UInt8 :=
  putBe64 (UInt64.ofNat packet.headerBytesRead) ++ putBe32 packet.messageLength ++ putString packet.data

def ofStream (stream : List UInt8) : IncomingPacket × List UInt8 :=
  let (headerBytesRead, stream) := getBe64 stream
  let (messageLength, stream) := getBe32 stream
  let (data, stream) := getString stream
  (⟨headerBytesRead.toNat, messageLength, data⟩, stream)

end IncomingPacket

structure OutgoingPacket where
  offset : ℕ
  data : List UInt8
deriving DecidableEq

namespace OutgoingPacket

variable (packet : OutgoingPacket)

def length : ℕ := 4 + packet.data.length

def complete : Bool := packet.offset == packet.length

def messageLength : UInt32 := UInt32.ofNat packet.data.length

/-- The loop over the bytes of the header. -/
def writeHeader : ℕ → OutgoingPacket → OutgoingPacket × List UInt8
  | 0, packet => (packet, [])
  | bytesAvailable + 1, packet =>
    if packet.offset < 4 then
      let byte := (packet.messageLength >>> UInt32.ofNat (packet.offset * 8)).toUInt8
      let (packet, bytes) := writeHeader bytesAvailable { packet with offset := packet.offset + 1 }
      (packet, byte :: bytes)
    else (packet, [])

/-- The bytes that go to a buffer with so much room. -/
def copyToBuffer (bytesAvailable : ℕ) : OutgoingPacket × List UInt8 :=
  let (packet, header) := writeHeader bytesAvailable packet
  let maxWrite := min (packet.length - packet.offset) (bytesAvailable - header.length)
  ({ packet with offset := packet.offset + maxWrite }, header ++ (packet.data.drop (packet.offset - 4)).take maxWrite)

def serialize : List UInt8 := putBe64 (UInt64.ofNat packet.offset) ++ putString packet.data

def ofStream (stream : List UInt8) : OutgoingPacket × List UInt8 :=
  let (offset, stream) := getBe64 stream
  let (data, stream) := getString stream
  (⟨offset.toNat, data⟩, stream)

end OutgoingPacket

/-! ## The pipe -/

structure AndroidAsyncMessagePipe where
  mCloseQueued : Bool
  mIncomingPacket : Option IncomingPacket
  mOutgoingPackets : List OutgoingPacket
deriving DecidableEq

namespace AndroidAsyncMessagePipe

def new : AndroidAsyncMessagePipe := ⟨false, none, []⟩

variable (pipe : AndroidAsyncMessagePipe)

/-- The check of the size looks at a vector that has just been moved away, and never fails. -/
def send (data : List UInt8) : AndroidAsyncMessagePipe :=
  { pipe with mOutgoingPackets := pipe.mOutgoingPackets ++ [⟨0, data⟩] }

def queueCloseFromHost : AndroidAsyncMessagePipe := { pipe with mCloseQueued := true }

def onSave : List UInt8 := (match pipe.mIncomingPacket with
    | some packet => putByte 1 ++ packet.serialize
    | none => putByte 0) ++
  putBe64 (UInt64.ofNat pipe.mOutgoingPackets.length) ++
  pipe.mOutgoingPackets.flatMap OutgoingPacket.serialize

def loadPackets : ℕ → List UInt8 → List OutgoingPacket × List UInt8
  | 0, stream => ([], stream)
  | count + 1, stream =>
    let (packet, stream) := OutgoingPacket.ofStream stream
    let (packets, stream) := loadPackets count stream
    (packet :: packets, stream)

def onLoad (stream : List UInt8) : AndroidAsyncMessagePipe × List UInt8 :=
  let (hasIncomingPacket, stream) := getByte stream
  let (mIncomingPacket, stream) :=
    if hasIncomingPacket ≠ 0 then
      let (packet, stream) := IncomingPacket.ofStream stream
      (some packet, stream)
    else (none, stream)
  let (outgoingPacketCount, stream) := getBe64 stream
  let (mOutgoingPackets, stream) := loadPackets outgoingPacketCount.toNat stream
  ({ pipe with mIncomingPacket, mOutgoingPackets }, stream)

def allowRead : Bool :=
  if pipe.mCloseQueued then false
  else if pipe.mIncomingPacket.any (!·.complete) then true
  else pipe.mOutgoingPackets.isEmpty

end AndroidAsyncMessagePipe

/-! ## A pipe and its users -/

/-- What the host does. Closing deletes the pipe if it is done by `onMessage`. -/
inductive HostCall where
  | send (data : List UInt8)
  | queueCloseFromHost
  | delete

/-- The pipe and what it has done: the bytes it took from the guest, the messages it handed to
`onMessage`, the messages that were sent, the bytes the guest got, whether a close was queued, and how
often `closeFromHost` was called. -/
structure Session where
  pipe : AndroidAsyncMessagePipe
  mDeleted : Bool
  accepted : List UInt8
  received : List (List UInt8)
  sent : List (List UInt8)
  delivered : List UInt8
  closeQueued : Bool
  closes : ℕ

namespace Session

def new : Session := ⟨.new, false, [], [], [], [], false, 0⟩

variable (session : Session)

def call : HostCall → Session
  | .send data => { session with pipe := session.pipe.send data, sent := session.sent ++ [data] }
  | .queueCloseFromHost => { session with pipe := session.pipe.queueCloseFromHost, closeQueued := true }
  | .delete => { session with mDeleted := true }

/-- The host may act on what it has received. -/
def onMessage (reaction : List (List UInt8) → List HostCall) (data : List UInt8) : Session :=
  (reaction (session.received ++ [data])).foldl call { session with received := session.received ++ [data] }

/-- The turns of the loop over one buffer. -/
def readBuffer (reaction : List (List UInt8) → List HostCall) : ℕ → List UInt8 → Session → Option Session
  | 0, _, _ => none
  | fuel + 1, buffer, session =>
    if buffer = [] ∨ session.pipe.allowRead = false then some session
    else
      let (packet, rest) := (session.pipe.mIncomingPacket.getD .new).copyFromBuffer buffer
      let session := { session with accepted := session.accepted ++ buffer.take (buffer.length - rest.length) }
      if packet.complete then
        let session :=
          { session with pipe := { session.pipe with mIncomingPacket := none } }.onMessage reaction packet.data
        if session.mDeleted then some session else readBuffer reaction fuel rest session
      else
        readBuffer reaction fuel rest { session with pipe := { session.pipe with mIncomingPacket := some packet } }

/-- `readBuffers` after its first check. -/
def readEach (reaction : List (List UInt8) → List HostCall) : List (List UInt8) → Session → Option Session
  | [], session => some session
  | buffer :: buffers, session =>
    if session.mDeleted ∨ session.pipe.allowRead = false then some session
    else (readBuffer reaction (buffer.length + 1) buffer session).bind (readEach reaction buffers)

def PIPE_ERROR_AGAIN : ℤ := -2

/-- The result is the number of bytes as an `int`. -/
def readBuffers (reaction : List (List UInt8) → List HostCall) (buffers : List (List UInt8)) : Option (ℤ × Session) :=
  if session.pipe.allowRead = false then some (PIPE_ERROR_AGAIN, session)
  else (readEach reaction buffers session).map fun after ↦
    (((after.accepted.length - session.accepted.length : ℕ) : ℤ).bmod (2 ^ 32), after)

/-- The turns of the loop over one buffer. The bytes go to the guest in order. -/
def writeBuffer : ℕ → ℕ → Session → Option Session
  | 0, _, _ => none
  | fuel + 1, room, session =>
    match session.pipe.mOutgoingPackets with
    | [] => some session
    | packet :: packets =>
      if room = 0 then some session
      else
        let (packet, bytes) := packet.copyToBuffer room
        let mOutgoingPackets := if packet.complete then packets else packet :: packets
        writeBuffer fuel (room - bytes.length) { session with
            pipe := { session.pipe with mOutgoingPackets }
            delivered := session.delivered ++ bytes }

def writeEach : List ℕ → Session → Option Session
  | [], session => some session
  | size :: sizes, session =>
    if session.pipe.mOutgoingPackets = [] then some session
    else (writeBuffer (size + 1) size session).bind (writeEach sizes)

def closeFromHost : Session := { session with closes := session.closes + 1 }

/-- The sizes are those of the buffers. -/
def writeBuffers (sizes : List ℕ) : Option (ℤ × Session) :=
  if session.pipe.mOutgoingPackets = [] then some (PIPE_ERROR_AGAIN, session)
  else (writeEach sizes session).map fun after ↦
    (((after.delivered.length - session.delivered.length : ℕ) : ℤ).bmod (2 ^ 32),
      if after.pipe.mCloseQueued ∧ after.pipe.mOutgoingPackets = [] then after.closeFromHost else after)

/-- A snapshot is saved and loaded into a new pipe. -/
def reload : Session := { session with pipe := (AndroidAsyncMessagePipe.new.onLoad session.pipe.onSave).1 }

end Session

inductive Label where
  | host (call : HostCall)
  | onGuestSend (buffers : List (List UInt8)) (reaction : List (List UInt8) → List HostCall)
  | onGuestRecv (sizes : List ℕ)
  | reload

/-- Nothing happens to a pipe that is deleted. -/
def step (label : Label) (session : Session) : Option Session :=
  if session.mDeleted then none
  else
    match label with
    | .host call => some (session.call call)
    | .onGuestSend buffers reaction => (session.readBuffers reaction buffers).map Prod.snd
    | .onGuestRecv sizes => (session.writeBuffers sizes).map Prod.snd
    | .reload => some session.reload

/-! ## What packets do -/

namespace IncomingPacket

/-- The packet has got this header, or the beginning of it, and no payload before the header is complete. -/
structure Holds (packet : IncomingPacket) (header : List UInt8) : Prop where
  read_eq : packet.headerBytesRead = header.length
  length_eq : packet.messageLength = getLe32 header
  header_le : header.length ≤ 4
  data_eq : header.length < 4 → packet.data = []
  data_le : packet.data.length ≤ packet.messageLength.toNat

variable {packet : IncomingPacket} {header : List UInt8}

theorem holds_new : new.Holds [] := ⟨rfl, getLe32_nil.symm, Nat.zero_le 4, fun _ ↦ rfl, Nat.zero_le _⟩

section

variable (h : packet.Holds header)
include h

theorem Holds.lengthKnown_iff : packet.lengthKnown = true ↔ header.length = 4 := by
  rw [lengthKnown, beq_iff_eq, h.read_eq]

theorem Holds.bytesRemaining_eq (hlength : header.length = 4) :
    packet.bytesRemaining = some (packet.messageLength.toNat - packet.data.length) := by
  have hle := h.data_le
  have hlt := packet.messageLength.toNat_lt
  have hdata : (UInt32.ofNat packet.data.length).toNat = packet.data.length :=
    UInt32.toNat_ofNat_of_lt' (by rw [UInt32.size]; omega)
  rw [bytesRemaining, if_pos (h.lengthKnown_iff.mpr hlength),
    UInt32.toNat_sub_of_le _ _ (by rw [UInt32.le_iff_toNat_le, hdata]; exact hle), hdata]

theorem Holds.complete_iff :
    packet.complete = true ↔ header.length = 4 ∧ packet.data.length = packet.messageLength.toNat := by
  rw [complete, beq_iff_eq]
  by_cases hlength : header.length = 4
  · have hle := h.data_le
    rw [h.bytesRemaining_eq hlength, Option.some.injEq]
    omega
  · have hunknown : packet.bytesRemaining = none := if_neg fun hknown ↦ hlength (h.lengthKnown_iff.mp hknown)
    simp [hunknown, hlength]

/-- What the packet has of its frame. -/
theorem Holds.next_eq : messageFormat.next (header ++ packet.data) =
      if packet.complete then some (some ((), packet.data), []) else none := by
  have hcomplete := h.complete_iff
  have hle := h.data_le
  obtain hshort | hwhole := Nat.lt_or_eq_of_le h.header_le
  · rw [h.data_eq hshort, append_nil, Format.next_short hshort, if_neg fun hdone ↦ by
      have := (hcomplete.mp hdone).1
      omega]
  · rw [Format.next_frame hwhole]
    by_cases hdone : packet.complete = true
    · have hequal : (getLe32 header).toNat = packet.data.length := by
        rw [← h.length_eq, (hcomplete.mp hdone).2]
      rw [if_pos hdone]
      simp only [messageFormat, hequal, le_refl, if_true, List.take_length, List.drop_length]
      rfl
    · rw [if_neg hdone, if_neg]
      simp only [messageFormat, ← h.length_eq]
      have hne : packet.data.length ≠ packet.messageLength.toNat := fun heq ↦ hdone (hcomplete.mpr ⟨hwhole, heq⟩)
      omega

/-- The loop takes what is missing of the header. -/
theorem Holds.readHeader_eq (hdata : packet.data = []) (buffer : List UInt8) :
    ∃ consumed rest, IncomingPacket.readHeader buffer packet = (⟨(header ++ consumed).length,
        getLe32 (header ++ consumed), []⟩, rest) ∧
      buffer = consumed ++ rest ∧ (header ++ consumed).length ≤ 4 ∧
      (rest ≠ [] → (header ++ consumed).length = 4) := by
  induction buffer generalizing packet header with
  | nil =>
    refine ⟨[], [], ?_, rfl, by simpa using h.header_le, nofun⟩
    obtain ⟨headerBytesRead, messageLength, data⟩ := packet
    obtain ⟨rfl, rfl, _⟩ := h
    simp only at hdata
    rw [hdata, append_nil]
    rfl
  | cons byte buffer ih =>
    rw [IncomingPacket.readHeader]
    split_ifs with hknown
    · have hlength := h.lengthKnown_iff.mp hknown
      refine ⟨[], byte :: buffer, ?_, rfl, by simp [hlength], fun _ ↦ by simp [hlength]⟩
      obtain ⟨headerBytesRead, messageLength, data⟩ := packet
      obtain ⟨rfl, rfl, _⟩ := h
      simp only at hdata
      rw [hdata, append_nil]
    · have hshort : header.length < 4 :=
        lt_of_le_of_ne h.header_le fun hlength ↦ hknown (h.lengthKnown_iff.mpr hlength)
      have hmore : IncomingPacket.Holds { packet with
            messageLength := packet.messageLength ||| byte.toUInt32 <<< UInt32.ofNat (packet.headerBytesRead * 8)
            headerBytesRead := packet.headerBytesRead + 1 } (header ++ [byte]) := by
        refine ⟨?_, ?_, ?_, fun _ ↦ hdata, ?_⟩
        · rw [length_append, h.read_eq]
          rfl
        · rw [getLe32_append_singleton hshort, h.length_eq, h.read_eq]
        · rw [length_append]
          exact hshort
        · simp only [hdata]
          exact Nat.zero_le _
      obtain ⟨consumed, rest, hread, rfl, hle, hfull⟩ := ih hmore hdata
      rw [append_assoc, List.singleton_append] at hread hle hfull
      exact ⟨byte :: consumed, rest, hread, rfl, hle, hfull⟩

/-- The packet takes what is missing of the payload. -/
theorem Holds.append (hlength : header.length = 4) (hincomplete : packet.complete = false) {rest : List UInt8}
    (hrest : rest ≠ []) :
    ∃ consumed left, rest = consumed ++ left ∧ consumed ≠ [] ∧
      rest.take (min rest.length (packet.bytesRemaining.getD 0)) = consumed ∧
      rest.drop (min rest.length (packet.bytesRemaining.getD 0)) = left ∧
      Holds { packet with data := packet.data ++ consumed } header ∧
      (complete { packet with data := packet.data ++ consumed } = false → left = []) := by
  have hle := h.data_le
  have hne : packet.data.length ≠ packet.messageLength.toNat := fun heq ↦ by
    rw [h.complete_iff.mpr ⟨hlength, heq⟩] at hincomplete
    cases hincomplete
  have hpos := List.length_pos_iff.mpr hrest
  rw [h.bytesRemaining_eq hlength, Option.getD_some]
  set maxRead := min rest.length (packet.messageLength.toNat - packet.data.length) with hmax
  have htake : (rest.take maxRead).length = maxRead := List.length_take_of_le (by omega)
  have hholds : Holds { packet with data := packet.data ++ rest.take maxRead } header := by
    refine ⟨h.read_eq, h.length_eq, h.header_le, fun hshort ↦ by omega, ?_⟩
    simp only [length_append, htake]
    omega
  refine ⟨rest.take maxRead, rest.drop maxRead, (List.take_append_drop maxRead rest).symm, ?_, rfl, rfl, hholds,
    fun hmore ↦ ?_⟩
  · rw [← List.length_pos_iff, htake]
    omega
  · have hshort : packet.data.length + maxRead ≠ packet.messageLength.toNat := fun heq ↦ by
      rw [hholds.complete_iff.mpr ⟨hlength, by simp only [length_append, htake, heq]⟩] at hmore
      cases hmore
    rw [List.drop_eq_nil_iff]
    omega

end

theorem readHeader_of_lengthKnown (hknown : packet.lengthKnown = true) (buffer : List UInt8) :
    readHeader buffer packet = (packet, buffer) := by
  cases buffer with
  | nil => rfl
  | cons byte buffer => rw [readHeader, if_pos hknown]

/-- A packet takes at least one byte, and all bytes if it is not complete then. -/
theorem Holds.copyFromBuffer_eq (h : packet.Holds header) (hincomplete : packet.complete = false)
    {buffer : List UInt8} (hbuffer : buffer ≠ []) :
    ∃ after rest consumed header', packet.copyFromBuffer buffer = (after, rest) ∧
      buffer = consumed ++ rest ∧ consumed ≠ [] ∧ after.Holds header' ∧
      header' ++ after.data = header ++ packet.data ++ consumed ∧ (after.complete = false → rest = []) := by
  -- what is done once the header is there
  have hpayload {start : IncomingPacket} {whole : List UInt8} (hstart : start.Holds whole)
      (hlength : whole.length = 4) (hmore : start.complete = false) {rest : List UInt8} (hrest : rest ≠ [])
      (hread : readHeader buffer packet = (start, rest)) :
      ∃ after left consumed, packet.copyFromBuffer buffer = (after, left) ∧ rest = consumed ++ left ∧
        consumed ≠ [] ∧ after.Holds whole ∧ after.data = start.data ++ consumed ∧
        (after.complete = false → left = []) := by
    obtain ⟨consumed, left, hsplit, hne, htake, hdrop, hholds, hdone⟩ := hstart.append hlength hmore hrest
    refine ⟨{ start with data := start.data ++ consumed }, left, consumed, ?_, hsplit, hne, hholds, rfl, hdone⟩
    simp only [IncomingPacket.copyFromBuffer, hread]
    rw [if_pos ⟨hrest, hmore⟩, htake, hdrop]
  obtain hshort | hwhole := Nat.lt_or_eq_of_le h.header_le
  · have hnone := h.data_eq hshort
    obtain ⟨consumed, rest, hread, rfl, hle, hfull⟩ := h.readHeader_eq hnone buffer
    have hne : consumed ≠ [] := by
      rintro rfl
      have hlength := hfull hbuffer
      rw [append_nil] at hlength
      omega
    have hstart : Holds ⟨(header ++ consumed).length, getLe32 (header ++ consumed), []⟩ (header ++ consumed) :=
      ⟨rfl, rfl, hle, fun _ ↦ rfl, Nat.zero_le _⟩
    by_cases hmore : rest ≠ [] ∧ complete ⟨(header ++ consumed).length, getLe32 (header ++ consumed), []⟩ = false
    · obtain ⟨after, left, more, hcopy, rfl, _, hholds, hdata, hdone⟩ :=
        hpayload hstart (hfull hmore.1) hmore.2 hmore.1 hread
      refine ⟨after, left, consumed ++ more, header ++ consumed, hcopy, (append_assoc _ _ _).symm, ?_,
        hholds, ?_, hdone⟩
      · exact List.append_ne_nil_of_left_ne_nil hne more
      · rw [hdata, hnone, append_nil, List.nil_append, append_assoc]
    · refine ⟨_, rest, consumed, header ++ consumed, ?_, rfl, hne, hstart, ?_, fun hdone ↦ ?_⟩
      · simp only [IncomingPacket.copyFromBuffer, hread]
        rw [if_neg hmore]
      · rw [hnone, append_nil, append_nil]
      · by_contra hrest
        exact hmore ⟨hrest, hdone⟩
  · have hread := readHeader_of_lengthKnown (h.lengthKnown_iff.mpr hwhole) buffer
    obtain ⟨after, left, consumed, hcopy, hsplit, hne, hholds, hdata, hdone⟩ :=
      hpayload h hwhole hincomplete hbuffer hread
    exact ⟨after, left, consumed, header, hcopy, hsplit, hne, hholds, by rw [hdata, append_assoc], hdone⟩

theorem ofStream_serialize (h : packet.Holds header) (stream : List UInt8) :
    ofStream (packet.serialize ++ stream) = (packet, stream) := by
  have hle := h.data_le
  have hlt := packet.messageLength.toNat_lt
  have hheader := h.header_le
  have hread : (UInt64.ofNat packet.headerBytesRead).toNat = packet.headerBytesRead :=
    UInt64.toNat_ofNat_of_lt' (by rw [UInt64.size, h.read_eq]; omega)
  have hdata : packet.data.length < 2 ^ 32 := by omega
  simp only [ofStream, serialize, append_assoc, getBe64_putBe64, getBe32_putBe32,
    getString_putString hdata, hread]

end IncomingPacket

namespace OutgoingPacket

variable {packet : OutgoingPacket}

/-- The bytes that are still to be sent. -/
def left (packet : OutgoingPacket) : List UInt8 := (putMessage packet.data).drop packet.offset

theorem length_left (packet : OutgoingPacket) : packet.left.length = packet.length - packet.offset := by
  rw [left, length_drop, putMessage, length_append, length_putLe32, length]

theorem putLe32_getElem (value : UInt32) {index : ℕ} (h : index < 4) :
    (putLe32 value)[index]? = some (value >>> UInt32.ofNat (index * 8)).toUInt8 := by
  match index, h with
  | 0, _ => simp [putLe32]
  | 1, _ => rfl
  | 2, _ => rfl
  | 3, _ => rfl

theorem writeHeader_eq (bytesAvailable : ℕ) (packet : OutgoingPacket) : writeHeader bytesAvailable packet =
      ({ packet with offset := packet.offset + min bytesAvailable (4 - packet.offset) },
        ((putLe32 packet.messageLength).drop packet.offset).take bytesAvailable) := by
  induction bytesAvailable generalizing packet with
  | zero => simp [writeHeader]
  | succ bytesAvailable ih =>
    rw [writeHeader]
    split_ifs with hheader
    · have hdrop : (putLe32 packet.messageLength).drop packet.offset =
          (packet.messageLength >>> UInt32.ofNat (packet.offset * 8)).toUInt8 ::
            (putLe32 packet.messageLength).drop (packet.offset + 1) := by
        rw [List.drop_eq_getElem?_toList_append, putLe32_getElem _ hheader]
        rfl
      rw [ih, hdrop]
      refine Prod.ext ?_ rfl
      rw [OutgoingPacket.mk.injEq]
      exact ⟨by simp only; omega, rfl⟩
    · have hnone : (putLe32 packet.messageLength).drop packet.offset = [] :=
        List.drop_eq_nil_of_le (by rw [length_putLe32]; omega)
      have hzero : min (bytesAvailable + 1) (4 - packet.offset) = 0 := by omega
      rw [hnone, hzero]
      rfl

/-- The next bytes go to the buffer, as many as fit. -/
theorem copyToBuffer_eq (packet : OutgoingPacket) (bytesAvailable : ℕ) : packet.copyToBuffer bytesAvailable =
      ({ packet with offset := packet.offset + min bytesAvailable packet.left.length },
        packet.left.take bytesAvailable) := by
  have hheader : (((putLe32 packet.messageLength).drop packet.offset).take bytesAvailable).length =
      min bytesAvailable (4 - packet.offset) := by
    rw [List.length_take, length_drop, length_putLe32]
  have hleft : packet.left.take bytesAvailable =
      ((putLe32 packet.messageLength).drop packet.offset).take bytesAvailable ++
        (packet.data.drop (packet.offset - 4)).take (bytesAvailable - (4 - packet.offset)) := by
    rw [left, putMessage, List.drop_append, length_putLe32, List.take_append, length_drop, length_putLe32,
      messageLength]
  simp only [copyToBuffer, writeHeader_eq, hheader]
  rw [hleft, length_left, Prod.mk.injEq, List.append_cancel_left_eq, OutgoingPacket.mk.injEq]
  simp only [OutgoingPacket.length]
  refine ⟨⟨by omega, trivial⟩, ?_⟩
  obtain hpart | hwhole := Nat.lt_or_ge bytesAvailable (4 - packet.offset)
  · have hnone : bytesAvailable - (4 - packet.offset) = 0 := by omega
    have hnone' : bytesAvailable - min bytesAvailable (4 - packet.offset) = 0 := by omega
    rw [hnone, hnone', Nat.min_zero, List.take_zero, List.take_zero]
  · have hstart : packet.offset + min bytesAvailable (4 - packet.offset) - 4 = packet.offset - 4 := by omega
    rw [hstart, List.take_eq_take_iff, length_drop]
    omega

theorem left_advance (packet : OutgoingPacket) (count : ℕ) :
    left { packet with offset := packet.offset + min count packet.left.length } = packet.left.drop count := by
  have hdrop : packet.left.drop (min count packet.left.length) = packet.left.drop count := by
    obtain hle | hge := Nat.le_total count packet.left.length
    · rw [Nat.min_eq_left hle]
    · rw [Nat.min_eq_right hge, List.drop_length, List.drop_eq_nil_of_le hge]
  rw [← hdrop]
  conv_rhs => rw [left, List.drop_drop]
  rfl

theorem complete_advance (hleft : packet.left ≠ []) (count : ℕ) :
    complete { packet with offset := packet.offset + min count packet.left.length } = true ↔
      packet.left.drop count = [] := by
  have hpos := List.length_pos_iff.mpr hleft
  have hlength := packet.length_left
  rw [complete, beq_iff_eq, List.drop_eq_nil_iff]
  change packet.offset + min count packet.left.length = packet.length ↔ _
  omega

theorem ofStream_serialize (hoffset : packet.offset < 2 ^ 64) (hdata : packet.data.length < 2 ^ 32)
    (stream : List UInt8) : ofStream (packet.serialize ++ stream) = (packet, stream) := by
  have hsame : (UInt64.ofNat packet.offset).toNat = packet.offset :=
    UInt64.toNat_ofNat_of_lt' (by rw [UInt64.size]; omega)
  simp only [ofStream, serialize, append_assoc, getBe64_putBe64, getString_putString hdata, hsame]

end OutgoingPacket

end FdeEmugl.AsyncPipe

import FdeEmugl.Library.Overwrite
import FdeEmugl.Pipe.LengthPrefix

/-!
# The relay of the adb hub

The hub cuts what the guest and the host send into packets and hands every packet on when all of it is there. The
model has no jdwp proxies; it ends where the hub makes one. Two of the four cursors are `int`s.
-/

namespace FdeEmugl.Adb

open Framing Overwrite Pipe
open List (append_assoc append_nil length_append length_take)

/-! ## Packets -/

def kHeaderSize : ℕ := 24

def ADB_CNXN : UInt32 := 0x4e584e43

def ADB_OPEN : UInt32 := 0x4e45504f

def ADB_OKAY : UInt32 := 0x59414b4f

/-- How a call of the hub can end without a result. -/
inductive Stop
  /-- `CHECK(packet.mesg.data_length == packet.data.size())` -/
  | packetSize
  /-- `CHECK(mesg.data_length == 0)` -/
  | okayLength
  /-- `CHECK(requestPacket.mesg.arg0 == replyPacket.mesg.arg1)` -/
  | replyId
  /-- `sscanf` of a packet without data -/
  | nullText
  /-- A read behind the data of a packet. -/
  | outOfBounds
  | outOfFuel
  /-- The hub makes a jdwp proxy. -/
  | jdwpProxy
deriving DecidableEq

/-- The memory of the six numbers of a header. -/
@[ext] structure amessage where
  bytes : List UInt8 := List.replicate kHeaderSize 0
  length_bytes : bytes.length = kHeaderSize := by exact List.length_replicate

namespace amessage

def command (mesg : amessage) : UInt32 := getLe32 mesg.bytes

def arg0 (mesg : amessage) : UInt32 := getLe32 (mesg.bytes.drop 4)

def arg1 (mesg : amessage) : UInt32 := getLe32 (mesg.bytes.drop 8)

def data_length (mesg : amessage) : UInt32 := getLe32 (mesg.bytes.drop 12)

theorem length_take_overwrite (mesg : amessage) (position : ℕ) (chunk : List UInt8) :
    ((overwrite mesg.bytes position chunk).take kHeaderSize).length = kHeaderSize := by
  have hlength := mesg.length_bytes
  rw [length_take, overwrite, length_append, length_append, length_take, List.length_drop]
  omega

/-- `memcpy` into the header. -/
def write (mesg : amessage) (position : ℕ) (chunk : List UInt8) : amessage :=
  ⟨(overwrite mesg.bytes position chunk).take kHeaderSize, mesg.length_take_overwrite position chunk⟩

end amessage

structure apacket where
  mesg : amessage := {}
  data : List UInt8 := []

/-- `std::vector::resize` -/
def resize (data : List UInt8) (size : ℕ) : List UInt8 := data.take size ++ List.replicate (size - data.length) 0

/-- A difference of two `size_t`s. -/
def sizeSub (left right : ℕ) : ℕ := (((left : ℤ) - right) % 2 ^ 64).toNat

/-- An `int` as a `size_t`. -/
def sizeOfInt (value : Int32) : ℕ := (value.toInt % 2 ^ 64).toNat

namespace apacket

variable (packet : apacket)

/-- The packet as it is sent. -/
def bytes : List UInt8 := packet.mesg.bytes ++ packet.data

def packetSize : Except Stop ℕ :=
  if packet.mesg.data_length.toNat = packet.data.length then .ok (kHeaderSize + packet.mesg.data_length.toNat)
  else .error .packetSize

/-- `remainingPacketSize`: to the end of the header, or to the end of the data. -/
def remaining (position : ℕ) : ℕ :=
  if kHeaderSize ≤ position then sizeSub (packet.data.length + kHeaderSize) position else kHeaderSize - position

/-- The bytes are written to the header or to the data, which gets its size with the last byte of the header. -/
def accept (position : ℕ) (chunk : List UInt8) : apacket :=
  let written : apacket :=
    if kHeaderSize ≤ position then
      { packet with data := overwrite packet.data (position - kHeaderSize) chunk }
    else { packet with mesg := packet.mesg.write position chunk }
  if position + chunk.length = kHeaderSize then
    { written with data := resize written.data written.mesg.data_length.toNat }
  else written

/-- As many bytes from the header or from the data. -/
def read (position count : ℕ) : Except Stop (List UInt8) :=
  if kHeaderSize ≤ position then
    if position - kHeaderSize + count ≤ packet.data.length then
      .ok ((packet.data.drop (position - kHeaderSize)).take count)
    else .error .outOfBounds
  else .ok ((packet.mesg.bytes.drop position).take count)

end apacket

/-! ## The hub -/

structure AdbHub where
  mPendingConnections : UInt32 → Option apacket := fun _ ↦ none
  mSendToHostQueue : List apacket := []
  mCurrentGuestSendPacket : apacket := {}
  mCurrentGuestSendPacketPst : ℕ := 0
  mCurrentHostSendPacket : apacket := {}
  mCurrentHostSendPacketPst : Int32 := -1
  mRecvFromHostQueue : List apacket := []
  mWantRecv : Bool := false
  mCurrentGuestRecvPacket : apacket := {}
  mCurrentGuestRecvPacketPst : Int32 := -1
  mCurrentHostRecvPacket : apacket := {}
  mCurrentHostRecvPacketPst : ℕ := 0
  mCnxnPacket : apacket := {}
  mShouldReconnect : Bool := false

/-- What `socketSend` does with the bytes that it gets. -/
inductive SendResult
  | accepts (count : ℕ)
  | again
  | fails

/-- The bytes that are there for `socketRecv`. -/
inductive RecvResult
  | gives (chunk : List UInt8)
  | again
  | fails

def PIPE_ERROR_AGAIN : ℤ := -2

def PIPE_ERROR_IO : ℤ := -4

def PIPE_WAKE_READ : ℕ := 1 <<< 1

def PIPE_WAKE_WRITE : ℕ := 1 <<< 2

namespace AdbHub

/-! ### From the guest -/

section Guest

-- The result of `sscanf(data, "jdwp:%d", &jdwpId)`, which may read behind the data.
variable (sscanf : List UInt8 → ℤ)

def onNewConnection (requestPacket replyPacket : apacket) : Except Stop Unit :=
  if requestPacket.mesg.command ≠ ADB_OPEN ∨ requestPacket.mesg.data_length = 0 ∨
      replyPacket.mesg.command ≠ ADB_OKAY then .ok ()
  else if requestPacket.mesg.arg0 ≠ replyPacket.mesg.arg1 then .error .replyId
  else if sscanf requestPacket.data = 0 then .ok ()
  else .error .jdwpProxy

/-- What a packet of the guest means to the hub. -/
def noteGuestPacket (hub : AdbHub) : Except Stop AdbHub :=
  let packet := hub.mCurrentGuestSendPacket
  if packet.mesg.command = ADB_CNXN then .ok { hub with mCnxnPacket := packet }
  else
    match hub.mPendingConnections packet.mesg.arg1 with
    | none => .ok hub
    | some requestPacket =>
      if packet.mesg.command ≠ ADB_OKAY then .ok hub
      else if packet.mesg.data_length ≠ 0 then .error .okayLength
      else
        (onNewConnection sscanf requestPacket packet).map fun _ ↦
          { hub with mPendingConnections := Function.update hub.mPendingConnections packet.mesg.arg1 none }

/-- The packet is moved to the queue. -/
def pushGuestPacket (hub : AdbHub) : AdbHub :=
  let packet := hub.mCurrentGuestSendPacket
  { hub with
    mSendToHostQueue := hub.mSendToHostQueue ++ [packet]
    mCurrentGuestSendPacket := { mesg := packet.mesg.write 12 (putLe32 0), data := [] }
    mCurrentGuestSendPacketPst := 0 }

/-- The loop of `onGuestSendData`, with the rest of the current buffer first. -/
def guestSendLoop : ℕ → List (List UInt8) → AdbHub → Int32 → Except Stop (AdbHub × Int32)
  | _, [], hub, actualSendBytes => .ok (hub, actualSendBytes)
  | 0, _ :: _, _, _ => .error .outOfFuel
  | fuel + 1, buffer :: buffers, hub, actualSendBytes =>
    let position := hub.mCurrentGuestSendPacketPst
    let currentReadSize := min (hub.mCurrentGuestSendPacket.remaining position) buffer.length
    let packet := hub.mCurrentGuestSendPacket.accept position (buffer.take currentReadSize)
    let hub := { hub with
      mCurrentGuestSendPacket := packet
      mCurrentGuestSendPacketPst := position + currentReadSize }
    let buffers := if currentReadSize = buffer.length then buffers else buffer.drop currentReadSize :: buffers
    let actualSendBytes := actualSendBytes + Int32.ofNat currentReadSize
    if position + currentReadSize = packet.data.length + kHeaderSize then
      match noteGuestPacket sscanf hub with
      | .error stop => .error stop
      | .ok hub => guestSendLoop fuel buffers hub.pushGuestPacket actualSendBytes
    else guestSendLoop fuel buffers hub actualSendBytes

def onGuestSendData (buffers : List (List UInt8)) (hub : AdbHub) : Except Stop (ℤ × AdbHub) :=
  (guestSendLoop sscanf (buffers.flatten.length + buffers.length) buffers hub 0).map fun (hub, actualSendBytes) ↦
    (if actualSendBytes = 0 then PIPE_ERROR_AGAIN else actualSendBytes.toInt, hub)

end Guest

/-! ### To the guest -/

/-- The next packet, if the current one is used up and there is one. -/
def nextForGuest (hub : AdbHub) : Except Stop (Option AdbHub) :=
  let nextPacket : Option AdbHub :=
    match hub.mRecvFromHostQueue with
    | [] => none
    | packet :: queue =>
      some { hub with
        mCurrentGuestRecvPacket := packet
        mRecvFromHostQueue := queue
        mCurrentGuestRecvPacketPst := 0 }
  if hub.mCurrentGuestRecvPacketPst = -1 then .ok nextPacket
  else hub.mCurrentGuestRecvPacket.packetSize.map fun size ↦
    if sizeOfInt hub.mCurrentGuestRecvPacketPst = size then nextPacket else some hub

/-- The loop of `onGuestRecvData`, with the bytes that it has copied; the rest of the current buffer comes first. -/
def guestRecvLoop : ℕ → List ℕ → AdbHub → List UInt8 → Except Stop (AdbHub × List UInt8)
  | _, [], hub, copied => .ok (hub, copied)
  | 0, _ :: _, _, _ => .error .outOfFuel
  | fuel + 1, size :: sizes, hub, copied =>
    match hub.nextForGuest with
    | .error stop => .error stop
    | .ok none => .ok (hub, copied)
    | .ok (some hub) =>
      let position := sizeOfInt hub.mCurrentGuestRecvPacketPst
      let currentReadSize := min (hub.mCurrentGuestRecvPacket.remaining position) size
      match hub.mCurrentGuestRecvPacket.read position currentReadSize with
      | .error stop => .error stop
      | .ok chunk =>
        let hub := { hub with
          mCurrentGuestRecvPacketPst := hub.mCurrentGuestRecvPacketPst + Int32.ofNat currentReadSize }
        let sizes := if currentReadSize = size then sizes else (size - currentReadSize) :: sizes
        guestRecvLoop fuel sizes hub (copied ++ chunk)

/-- With the bytes that the guest gets. -/
def onGuestRecvData (sizes : List ℕ) (hub : AdbHub) : Except Stop (ℤ × AdbHub × List UInt8) :=
  (guestRecvLoop (sizes.sum + sizes.length) sizes hub []).map fun (hub, copied) ↦
    let usedUp := sizeOfInt hub.mCurrentGuestRecvPacketPst = hub.mCurrentGuestRecvPacket.data.length + kHeaderSize
    let actualRecvBytes := Int32.ofNat copied.length
    (if actualRecvBytes = 0 then PIPE_ERROR_AGAIN else actualRecvBytes.toInt,
      if usedUp ∧ hub.mRecvFromHostQueue = [] then { hub with mWantRecv := false } else hub, copied)

/-! ### To the host -/

/-- The current packet is not used up. -/
def sending (hub : AdbHub) : Except Stop Bool :=
  if hub.mCurrentHostSendPacketPst < 0 then .ok false
  else hub.mCurrentHostSendPacket.packetSize.map fun size ↦ sizeOfInt hub.mCurrentHostSendPacketPst < size

def socketWantWrite (hub : AdbHub) : Except Stop Bool :=
  if hub.mSendToHostQueue ≠ [] then .ok true else hub.sending

/-- The next packet, if the current one is used up. -/
def nextForHost (hub : AdbHub) : Except Stop AdbHub :=
  let nextPacket : AdbHub :=
    match hub.mSendToHostQueue with
    | [] => hub
    | packet :: queue =>
      { hub with
        mCurrentHostSendPacketPst := 0
        mCurrentHostSendPacket := packet
        mSendToHostQueue := queue }
  if hub.mCurrentHostSendPacketPst < 0 then .ok nextPacket
  else hub.mCurrentHostSendPacket.packetSize.map fun size ↦
    if sizeOfInt hub.mCurrentHostSendPacketPst = size then nextPacket else hub

/-- The bytes from `data` on, `bytesToSend` of them. -/
def bytesToSend (hub : AdbHub) : Except Stop (List UInt8) :=
  let position := sizeOfInt hub.mCurrentHostSendPacketPst
  if position < kHeaderSize then hub.mCurrentHostSendPacket.read position (kHeaderSize - position)
  else hub.mCurrentHostSendPacket.packetSize.bind fun size ↦
    hub.mCurrentHostSendPacket.read position (sizeSub size position)

/-- The head of the loop of `writeSocket`: the hub and what it sends, if there is something. -/
def writeHead (hub : AdbHub) : Except Stop (Option (AdbHub × List UInt8)) :=
  hub.sending.bind fun sending ↦
    if sending = false ∧ hub.mSendToHostQueue = [] then .ok none
    else hub.nextForHost.bind fun hub ↦ hub.bytesToSend.map fun data ↦ some (hub, data)

/-- With the bytes that the socket takes. Without another result the socket is not ready. -/
def writeSocket : List SendResult → AdbHub → Except Stop (ℤ × AdbHub × List UInt8)
  | results, hub =>
    match hub.writeHead, results with
    | .error stop, _ => .error stop
    | .ok none, _ => .ok (0, hub, [])
    | .ok (some (hub, _)), [] => .ok (PIPE_ERROR_AGAIN, hub, [])
    | .ok (some (hub, _)), .again :: _ => .ok (PIPE_ERROR_AGAIN, hub, [])
    | .ok (some (hub, _)), .fails :: _ => .ok ( PIPE_ERROR_IO, hub, [])
    | .ok (some (hub, data)), .accepts count :: results =>
      let sent := data.take count
      let hub' := { hub with
        mCurrentHostSendPacketPst := hub.mCurrentHostSendPacketPst + Int32.ofNat sent.length }
      if sent = [] then .ok ( PIPE_ERROR_IO, hub, [])
      else if sent.length < data.length then .ok (0, hub', sent)
      else (writeSocket results hub').map fun (code, hub, more) ↦ (code, hub, sent ++ more)

/-! ### From the host -/

section Host

/-- `bytesToRecv` -/
def bytesToRecv (hub : AdbHub) : Except Stop ℕ :=
  if hub.mCurrentHostRecvPacketPst < kHeaderSize then .ok (kHeaderSize - hub.mCurrentHostRecvPacketPst)
  else hub.mCurrentHostRecvPacket.packetSize.map fun size ↦ sizeSub size hub.mCurrentHostRecvPacketPst

/-- Without proxies no connection is used again, whatever `sscanf` finds in the data. -/
def tryReuseConnection (packet : apacket) : Except Stop Unit :=
  if packet.data = [] then .error .nullText else .ok ()

/-- The packet is moved to the queue of the guest, or the hub answers with the packet of the old connection. -/
def takeHostPacket (hub : AdbHub) : Except Stop AdbHub :=
  let packet := hub.mCurrentHostRecvPacket
  let pushed := { hub with
    mRecvFromHostQueue := hub.mRecvFromHostQueue ++ [packet]
    mWantRecv := true
    mCurrentHostRecvPacket := { packet with data := [] }
    mCurrentHostRecvPacketPst := 0 }
  if packet.mesg.command = ADB_CNXN ∧ hub.mShouldReconnect = true then
    .ok { hub with
      mSendToHostQueue := hub.mSendToHostQueue ++ [hub.mCnxnPacket]
      mCurrentHostRecvPacketPst := 0 }
  else if packet.mesg.command = ADB_OPEN then
    (tryReuseConnection packet).map fun _ ↦
      { pushed with
        mPendingConnections := Function.update hub.mPendingConnections packet.mesg.arg0 (some packet) }
  else .ok pushed

/-- With the bytes that come from the socket; it gives at most what it is asked for. Without another result there is
nothing to receive. -/
def readSocket : List RecvResult → AdbHub → Except Stop (ℤ × AdbHub × List UInt8)
  | results, hub =>
    match hub.bytesToRecv, results with
    | .error stop, _ => .error stop
    | .ok _, [] => .ok (PIPE_ERROR_AGAIN, hub, [])
    | .ok _, .again :: _ => .ok (PIPE_ERROR_AGAIN, hub, [])
    | .ok _, .fails :: _ => .ok ( PIPE_ERROR_IO, hub, [])
    | .ok asked, .gives chunk :: results =>
      let received := chunk.take asked
      let hub' := { hub with
        mCurrentHostRecvPacket := hub.mCurrentHostRecvPacket.accept hub.mCurrentHostRecvPacketPst received
        mCurrentHostRecvPacketPst := hub.mCurrentHostRecvPacketPst + received.length }
      if received = [] then .ok ( PIPE_ERROR_IO, hub, [])
      else if received.length < asked then .ok (0, hub', received)
      else
        match hub'.mCurrentHostRecvPacket.packetSize with
        | .error stop => .error stop
        | .ok size =>
          if hub'.mCurrentHostRecvPacketPst = size then
            match hub'.takeHostPacket with
            | .error stop => .error stop
            | .ok hub => (readSocket results hub).map fun (code, hub, more) ↦ (code, hub, received ++ more)
          else (readSocket results hub').map fun (code, hub, more) ↦ (code, hub, received ++ more)

end Host

/-- Whether the events are `kEventRead` and `kEventWrite`. With the bytes that come from the socket and those that
it takes. -/
def onHostSocketEvent (kEventRead kEventWrite : Bool) (recvs : List RecvResult) (sends : List SendResult)
    (hub : AdbHub) : Except Stop (AdbHub × List UInt8 × List UInt8) :=
  (if kEventRead then hub.readSocket recvs else .ok (0, hub, [])).bind fun (code, hub, received) ↦
    if code = PIPE_ERROR_IO ∨ kEventWrite = false then .ok (hub, received, [])
    else (hub.writeSocket sends).map fun (_, hub, sent) ↦ (hub, received, sent)

def pipeWakeFlags (hub : AdbHub) : Except Stop ℕ :=
  let readable : Except Stop Bool :=
    if hub.mRecvFromHostQueue ≠ [] then .ok true
    else if hub.mCurrentGuestRecvPacketPst < 0 then .ok false
    else hub.mCurrentGuestRecvPacket.packetSize.map fun size ↦ sizeOfInt hub.mCurrentGuestRecvPacketPst < size
  readable.map fun readable ↦ if readable then PIPE_WAKE_WRITE ||| PIPE_WAKE_READ else PIPE_WAKE_WRITE

end AdbHub

/-! ## Runs -/

inductive Event
  | guestSend (buffers : List (List UInt8))
  | guestRecv (sizes : List ℕ)
  | hostSocket (kEventRead kEventWrite : Bool) (recvs : List RecvResult) (sends : List SendResult)

/-- The hub and all that has come in and gone out. -/
structure Relay where
  hub : AdbHub := {}
  fromGuest : List UInt8 := []
  fromHost : List UInt8 := []
  toHost : List UInt8 := []
  toGuest : List UInt8 := []

def Relay.perform (sscanf : List UInt8 → ℤ) (relay : Relay) : Event → Except Stop Relay
  | .guestSend buffers => (relay.hub.onGuestSendData sscanf buffers).map fun (_, hub) ↦
      { relay with hub := hub, fromGuest := relay.fromGuest ++ buffers.flatten }
  | .guestRecv sizes => (relay.hub.onGuestRecvData sizes).map fun (_, hub, copied) ↦
      { relay with hub := hub, toGuest := relay.toGuest ++ copied }
  | .hostSocket kEventRead kEventWrite recvs sends =>
    (relay.hub.onHostSocketEvent kEventRead kEventWrite recvs sends).map fun (hub, received, sent) ↦
      { relay with hub := hub, fromHost := relay.fromHost ++ received, toHost := relay.toHost ++ sent }

inductive Reaches (sscanf : List UInt8 → ℤ) : Relay → Prop
  | new : Reaches sscanf {}
  | step {relay relay' : Relay} (event : Event) (hreaches : Reaches sscanf relay)
      (hstep : relay.perform sscanf event = .ok relay') : Reaches sscanf relay'

/-! ## Packets of a stream -/

/-- A header says how many bytes follow it. -/
def adbFormat : Format UInt8 (List UInt8) where
  headerSize := kHeaderSize
  headerSize_pos := by decide
  kind := some
  length header := (getLe32 (header.drop 12)).toNat

/-- The bytes of frames. -/
def wire (frames : List (List UInt8 × List UInt8)) : List UInt8 := frames.flatMap fun frame ↦ frame.1 ++ frame.2

/-- The complete packets of a stream. -/
def completePackets (stream : List UInt8) : List UInt8 := wire (adbFormat.messages stream)

namespace apacket

def frame (packet : apacket) : List UInt8 × List UInt8 := (packet.mesg.bytes, packet.data)

/-- The data has the size that the header says. -/
def Consistent (packet : apacket) : Prop := packet.data.length = packet.mesg.data_length.toNat

variable {packet : apacket} {position count : ℕ} {chunk pending : List UInt8}

theorem length_bytes (packet : apacket) : packet.bytes.length = kHeaderSize + packet.data.length := by
  rw [bytes, length_append, packet.mesg.length_bytes]

theorem length_data_lt (h : packet.Consistent) : packet.data.length < 2 ^ 32 := by
  rw [h]
  exact UInt32.toNat_lt _

theorem packetSize_eq (h : packet.Consistent) : packet.packetSize = .ok packet.bytes.length := by
  rw [packetSize, if_pos h.symm, length_bytes, h]

theorem sizeSub_eq {left right : ℕ} (hle : right ≤ left) (hlt : left < 2 ^ 64) :
    sizeSub left right = left - right := by
  rw [sizeSub]
  omega

theorem remaining_header (h : position < kHeaderSize) : packet.remaining position = kHeaderSize - position :=
  if_neg (Nat.not_le.mpr h)

theorem remaining_data (hconsistent : packet.Consistent) (h : kHeaderSize ≤ position)
    (hle : position ≤ packet.bytes.length) : packet.remaining position = packet.bytes.length - position := by
  have hlt := length_data_lt hconsistent
  rw [length_bytes] at hle
  rw [remaining, if_pos h, sizeSub_eq (by omega) (by rw [kHeaderSize]; omega), length_bytes, Nat.add_comm]

/-- There is something to read before the end of a packet, and nothing behind it. -/
theorem remaining_pos (hconsistent : packet.Consistent) (h : position < packet.bytes.length) :
    0 < packet.remaining position ∧ packet.remaining position ≤ packet.bytes.length - position := by
  rcases Nat.lt_or_ge position kHeaderSize with hheader | hdata
  · rw [remaining_header hheader, length_bytes]
    omega
  · rw [remaining_data hconsistent hdata h.le]
    omega

theorem read_eq (count : ℕ) (hconsistent : packet.Consistent) (hposition : position ≤ packet.bytes.length)
    (hcount : count ≤ packet.remaining position) :
    packet.read position count = .ok ((packet.bytes.drop position).take count) := by
  have hlength := packet.mesg.length_bytes
  rcases Nat.lt_or_ge position kHeaderSize with hheader | hdata
  · rw [remaining_header hheader] at hcount
    rw [read, if_neg (Nat.not_le.mpr hheader), bytes, List.drop_append_of_le_length (by omega),
      List.take_append_of_le_length (by rw [List.length_drop]; omega)]
  · rw [remaining_data hconsistent hdata hposition, length_bytes] at hcount
    rw [length_bytes] at hposition
    rw [read, if_pos hdata, if_pos (by omega), bytes, List.drop_append,
      List.drop_of_length_le (hlength.trans_le hdata), List.nil_append, hlength]

/-- The bytes of a packet that have come. -/
inductive Receives : apacket → ℕ → List UInt8 → Prop
  | header {packet : apacket} {position : ℕ} (hposition : position < kHeaderSize) :
      Receives packet position (packet.mesg.bytes.take position)
  | data {packet : apacket} {position : ℕ} (hconsistent : packet.Consistent) (hheader : kHeaderSize ≤ position)
      (hposition : position < packet.bytes.length) :
      Receives packet position (packet.mesg.bytes ++ packet.data.take (position - kHeaderSize))

/-- Either a packet is complete with these bytes, or it is not. -/
def Accepts (packet : apacket) (position : ℕ) (pending : List UInt8) : Prop :=
  if position = packet.bytes.length then packet.Consistent ∧ packet.bytes = pending
  else Receives packet position pending

theorem length_resize (data : List UInt8) (size : ℕ) : (resize data size).length = size := by
  rw [resize, length_append, length_take, List.length_replicate]
  omega

theorem resize_self {data : List UInt8} {size : ℕ} (h : data.length = size) : resize data size = data := by
  rw [resize, List.take_of_length_le h.le, h, Nat.sub_self, List.replicate_zero, append_nil]

theorem take_write {mesg : amessage} (h : position + chunk.length ≤ kHeaderSize) :
    (mesg.write position chunk).bytes.take (position + chunk.length) = mesg.bytes.take position ++ chunk := by
  have hlength := mesg.length_bytes
  rw [amessage.write, List.take_take, Nat.min_eq_left h]
  exact take_overwrite chunk (by omega)

/-- The data is there up to the position. -/
theorem accepts_of_data (packet : apacket) (hconsistent : packet.Consistent) (hheader : kHeaderSize ≤ position)
    (hposition : position ≤ packet.bytes.length) :
    Accepts packet position (packet.mesg.bytes ++ packet.data.take (position - kHeaderSize)) := by
  unfold Accepts
  split_ifs with hend
  · have hall : packet.data.length ≤ position - kHeaderSize := by
      rw [hend, length_bytes]
      omega
    exact ⟨hconsistent, by rw [List.take_of_length_le hall, bytes]⟩
  · exact .data hconsistent hheader (by omega)

theorem accept_header (h : position + chunk.length < kHeaderSize) :
    packet.accept position chunk = { packet with mesg := packet.mesg.write position chunk } := by
  unfold accept
  rw [if_neg h.ne, if_neg (by omega)]

theorem accept_header_end (hposition : position < kHeaderSize) (h : position + chunk.length = kHeaderSize) :
    packet.accept position chunk =
      { mesg := packet.mesg.write position chunk
        data := resize packet.data (packet.mesg.write position chunk).data_length.toNat } := by
  unfold accept
  rw [if_neg (Nat.not_le.mpr hposition), if_pos h]

theorem accept_data (hconsistent : packet.Consistent) (hheader : kHeaderSize ≤ position) :
    packet.accept position chunk = { packet with data := overwrite packet.data (position - kHeaderSize) chunk } := by
  unfold accept
  rw [if_pos hheader]
  split_ifs with hend
  · obtain rfl : chunk = [] := List.eq_nil_of_length_eq_zero (by omega)
    have hsame : overwrite packet.data (position - kHeaderSize) [] = packet.data := by
      rw [overwrite, append_nil, List.length_nil, Nat.add_zero, List.take_append_drop]
    simp only [hsame, resize_self hconsistent]
  · rfl

theorem Receives.accept (h : Receives packet position pending) (hchunk : chunk.length ≤ packet.remaining position) :
    Accepts (packet.accept position chunk) (position + chunk.length) (pending ++ chunk) := by
  cases h with
  | header hposition =>
    rw [remaining_header hposition] at hchunk
    have hwrite : (packet.mesg.write position chunk).bytes.take (position + chunk.length) =
        packet.mesg.bytes.take position ++ chunk := take_write (by omega)
    rcases Nat.lt_or_ge (position + chunk.length) kHeaderSize with hpart | hwhole
    · rw [accept_header hpart, Accepts, if_neg (by rw [length_bytes]; omega), ← hwrite]
      exact .header hpart
    · have hend : position + chunk.length = kHeaderSize := by omega
      rw [accept_header_end hposition hend, ← hwrite, hend,
        List.take_of_length_le (amessage.length_bytes _).le]
      have haccepts := accepts_of_data ⟨packet.mesg.write position chunk,
        resize packet.data (packet.mesg.write position chunk).data_length.toNat⟩ (length_resize _ _) le_rfl
        (by rw [length_bytes]; exact Nat.le_add_right _ _)
      rwa [Nat.sub_self, List.take_zero, append_nil] at haccepts
  | data hconsistent hheader hposition =>
    rw [remaining_data hconsistent hheader hposition.le] at hchunk
    rw [length_bytes] at hchunk hposition
    have hlength : (overwrite packet.data (position - kHeaderSize) chunk).length = packet.data.length :=
      length_overwrite (by omega)
    have htake : (overwrite packet.data (position - kHeaderSize) chunk).take (position + chunk.length - kHeaderSize) =
        packet.data.take (position - kHeaderSize) ++ chunk := by
      rw [Nat.sub_add_comm hheader]
      exact take_overwrite chunk (by omega)
    rw [accept_data hconsistent hheader, append_assoc, ← htake]
    refine accepts_of_data ⟨packet.mesg, overwrite packet.data (position - kHeaderSize) chunk⟩
      (hlength.trans hconsistent) (by omega) ?_
    rw [length_bytes, hlength]
    omega

theorem Receives.next_eq_none (h : Receives packet position pending) : adbFormat.next pending = none := by
  have hlength := packet.mesg.length_bytes
  cases h with
  | header hposition =>
    refine Format.next_short ?_
    rw [length_take]
    exact (Nat.min_le_left _ _).trans_lt hposition
  | data hconsistent hheader hposition =>
    have hnext := @Format.next_frame _ _ adbFormat _ hlength (packet.data.take (position - kHeaderSize))
    rw [hnext, if_neg]
    rw [length_bytes] at hposition
    have hdata : adbFormat.length packet.mesg.bytes = packet.data.length := hconsistent.symm
    rw [hdata, length_take]
    omega

theorem next_bytes (h : packet.Consistent) : adbFormat.next packet.bytes = some (some packet.frame, []) := by
  have hnext := @Format.next_frame _ _ adbFormat _ packet.mesg.length_bytes packet.data
  have hdata : adbFormat.length packet.mesg.bytes = packet.data.length := h.symm
  rw [bytes, hnext, hdata, if_pos le_rfl, List.take_length, List.drop_length]
  rfl

end apacket

/-! ## Queues that go out -/

section Emits

/-- The bytes of the current packet that have not gone out. -/
def apacket.rest (packet : apacket) (position : Int32) : List UInt8 :=
  if position < 0 then [] else packet.bytes.drop (sizeOfInt position)

/-- The packets that were found went out or are in the queue; the last one of those before the queue may have gone out
in part. -/
structure Emits (queue : List apacket) (packet : apacket) (position : Int32)
    (found : List (List UInt8 × List UInt8)) (sent : List UInt8) : Prop where
  consistent : packet.Consistent
  queued : ∀ packet ∈ queue, packet.Consistent
  inside : position = -1 ∨ ∃ offset ≤ packet.bytes.length, position.toInt = offset
  gone : ∃ past, found = past ++ queue.map apacket.frame ∧ wire past = sent ++ packet.rest position ∧
    (packet.rest position ≠ [] → packet.frame ∈ past)

/-- An `int` can count the bytes of each packet. -/
def Small (frames : List (List UInt8 × List UInt8)) : Prop :=
  ∀ frame ∈ frames, frame.1.length + frame.2.length < 2 ^ 31

variable {queue : List apacket} {packet : apacket} {position : Int32} {found : List (List UInt8 × List UInt8)}
  {sent : List UInt8} {offset : ℕ}

theorem wire_append (first second : List (List UInt8 × List UInt8)) :
    wire (first ++ second) = wire first ++ wire second := List.flatMap_append

theorem wire_singleton (packet : apacket) : wire [packet.frame] = packet.bytes := List.flatMap_singleton ..

theorem rest_idle (packet : apacket) : packet.rest (-1) = [] := if_pos (by decide)

theorem not_neg_of_offset (h : position.toInt = offset) : ¬ position < 0 := by
  rw [Int32.lt_iff_toInt_lt, h, Int32.toInt_zero]
  omega

theorem sizeOfInt_eq (h : position.toInt = offset) : sizeOfInt position = offset := by
  have hlt := position.toInt_lt
  rw [sizeOfInt]
  omega

theorem rest_eq (packet : apacket) (h : position.toInt = offset) :
    packet.rest position = packet.bytes.drop offset := by
  rw [apacket.rest, if_neg (not_neg_of_offset h), sizeOfInt_eq h]

theorem emits_new : Emits [] {} (-1) [] [] where
  consistent := by rw [apacket.Consistent]; decide
  queued := fun _ hmem ↦ absurd hmem List.not_mem_nil
  inside := .inl rfl
  gone := ⟨[], rfl, by rw [rest_idle]; rfl, fun hrest ↦ absurd (rest_idle {}) hrest⟩

theorem Emits.push (h : Emits queue packet position found sent) {pushed : apacket} (hpushed : pushed.Consistent) :
    Emits (queue ++ [pushed]) packet position (found ++ [pushed.frame]) sent := by
  obtain ⟨past, hfound, hwire, hmem⟩ := h.gone
  refine ⟨h.consistent, ?_, h.inside, past, ?_, hwire, hmem⟩
  · intro other hother
    rcases List.mem_append.mp hother with hqueue | hsingle
    · exact h.queued other hqueue
    · exact List.mem_singleton.mp hsingle ▸ hpushed
  · rw [hfound, List.map_append, append_assoc]
    rfl

/-- The current packet is used up, and the next one becomes the current one. -/
theorem Emits.next {next : apacket} (h : Emits (next :: queue) packet position found sent)
    (hrest : packet.rest position = []) : Emits queue next 0 found sent := by
  obtain ⟨past, hfound, hwire, -⟩ := h.gone
  have hnext : next.rest 0 = next.bytes := rest_eq next (by decide : (0 : Int32).toInt = (0 : ℕ))
  refine ⟨h.queued next List.mem_cons_self, fun other hother ↦ h.queued other (List.mem_cons_of_mem next hother),
    .inr ⟨0, Nat.zero_le _, by decide⟩, past ++ [next.frame], ?_, ?_, fun _ ↦ ?_⟩
  · rw [hfound, List.map_cons, append_assoc]
    rfl
  · rw [wire_append, wire_singleton, hwire, hrest, append_nil, hnext]
  · exact List.mem_append_right past (List.mem_singleton_self _)

theorem toInt_add_ofNat (h : position.toInt = offset) (count : ℕ) (hlt : offset + count < 2 ^ 31) :
    (position + Int32.ofNat count).toInt = ((offset + count : ℕ) : ℤ) := by
  have hcount : (Int32.ofNat count).toInt = count := Int32.toInt_ofNat_of_lt (by omega)
  rw [Int32.toInt_add, h, hcount, Int.bmod_eq_of_le (by omega) (by omega), Int.natCast_add]

/-- Some of the bytes go out. -/
theorem Emits.advance (h : Emits queue packet position found sent) (hsmall : Small found) (count : ℕ) :
    Emits queue packet (position + Int32.ofNat ((packet.rest position).take count).length) found
      (sent ++ (packet.rest position).take count) := by
  by_cases hnothing : (packet.rest position).take count = []
  · rw [hnothing, append_nil, List.length_nil, show Int32.ofNat 0 = 0 from rfl, Int32.add_zero]
    exact h
  have hrest : packet.rest position ≠ [] := fun hnil ↦ hnothing (by rw [hnil, List.take_nil])
  obtain ⟨past, hfound, hwire, hmem⟩ := h.gone
  obtain rfl | ⟨offset, hoffset, hposition⟩ := h.inside
  · exact absurd (rest_idle packet) hrest
  have hlength : packet.bytes.length < 2 ^ 31 := by
    have hlt := hsmall packet.frame (hfound ▸ List.mem_append_left _ (hmem hrest))
    rwa [apacket.bytes, length_append]
  have hdrop := rest_eq packet hposition
  have htake : ((packet.rest position).take count).length = min count (packet.bytes.length - offset) := by
    rw [hdrop, length_take, List.length_drop]
  have hadded := toInt_add_ofNat hposition ((packet.rest position).take count).length (by omega)
  refine ⟨h.consistent, h.queued, .inr ⟨_, by omega, hadded⟩, past, hfound, ?_, fun _ ↦ hmem hrest⟩
  have hafter : packet.rest (position + Int32.ofNat ((packet.rest position).take count).length) =
      (packet.rest position).drop count := by
    rw [rest_eq packet hadded, ← List.drop_drop, ← hdrop]
    rcases Nat.le_total count (packet.rest position).length with hle | hge
    · rw [List.length_take_of_le hle]
    · rw [List.take_of_length_le hge, List.drop_length, List.drop_of_length_le hge]
  rw [hwire, hafter, append_assoc, List.take_append_drop]

end Emits

end FdeEmugl.Adb
